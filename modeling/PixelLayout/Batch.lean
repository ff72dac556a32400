import PixelLayout.Geometry.Rect

/-!
# Geometry batches

A pass hands its rectangles over as one batch, in commit order. An item may occur in it more
than once; looking it up gives its first rectangle.
-/

set_option autoImplicit false

namespace PixelLayout

abbrev Batch := List (Nat × Rect)

def Batch.get? (b : Batch) (item : Nat) : Option Rect :=
  (b.find? fun e => e.1 == item).map (·.2)

end PixelLayout
