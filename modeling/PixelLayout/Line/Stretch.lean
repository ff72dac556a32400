import PixelLayout.Item.Basic
import PixelLayout.Table

/-!
# Stretch factors

A stretch factor weighs an item against the others of its tier. Items without an entry have
factor one, and setting that factor removes the entry.
-/

set_option autoImplicit false

namespace PixelLayout

abbrev Stretches := Table Nat

namespace Stretches

def factor (s : Stretches) (item : Nat) : Nat := (s.get? item).getD 1

def set (s : Stretches) (item factor : Nat) : Stretches :=
  if factor = 1 then s.erase item else s.insert item factor

def restrict (s : Stretches) (children : List Item) : Stretches :=
  s.keep fun id => children.any (·.id == id)

end Stretches

end PixelLayout
