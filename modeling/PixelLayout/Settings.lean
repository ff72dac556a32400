import PixelLayout.Error
import PixelLayout.Item.Alignment

/-!
# Settings common to the modes

Margins around the children, spacing between them, and the alignment that children without one
of their own inherit. A layout is only made with settings that are not negative.
-/

set_option autoImplicit false

namespace PixelLayout

structure Settings where
  margins : Margins
  spacing : Int
  alignment : Alignment
  deriving DecidableEq, Repr, Inhabited

namespace Settings

def zero : Settings := ⟨.zero, 0, .inherited⟩

def spacious : Settings := ⟨.all 9, 6, .inherited⟩

def check (s : Settings) : Except ParameterError Unit :=
  if s.margins.hasNegative then .error (.negativeMargin s.margins)
  else if s.spacing < 0 then .error (.negativeSpacing s.spacing)
  else .ok ()

end Settings

end PixelLayout
