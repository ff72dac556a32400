import PixelLayout.Decimal.Shortest
import PixelLayout.Error
import PixelLayout.Text.Blank
import PixelLayout.Total

/-!
# Fraction lists

The shares of the panes of a splitter, in child order: finite, not negative, and with a sum that
is one up to a tolerance. An empty list is valid. As text they are separated by single spaces;
reading splits at any white space.
-/

set_option autoImplicit false

namespace PixelLayout.Splitter

inductive FractionFault where
  | notFinite
  | negative
  | wrongSum
  | notANumber
  | wrongCount
  deriving DecidableEq, Repr

namespace FractionFault

def reason : FractionFault → String
  | notFinite => "fractions must be finite"
  | negative => "fractions must not be negative"
  | wrongSum => "fractions must sum to 1"
  | notANumber => "fraction is not a number"
  | wrongCount => "one fraction per regular item is required"

def toError (f : FractionFault) : ParameterError := .invalidFractions f.reason

end FractionFault

def tolerance : Float := 1e-3

def addUp (values : List Float) : Float := values.foldl (· + ·) 0.0

def checkFractions (values : List Float) : Except FractionFault Unit :=
  if values.isEmpty then .ok ()
  else if values.any fun v => !v.isFinite then .error .notFinite
  else if values.any fun v => v < 0.0 then .error .negative
  else if (addUp values - 1.0).abs > tolerance then .error .wrongSum
  else .ok ()

structure Fractions where
  values : List Float

namespace Fractions

def ofList (values : List Float) : Except FractionFault Fractions :=
  (checkFractions values).map fun _ => ⟨values⟩

def empty : Fractions := ⟨[]⟩

def proportional (weights : List Int) : Fractions :=
  -- Weights that are all zero share equally.
  if total weights ≤ 0 then ⟨weights.map fun _ => 1.0 / Float.ofNat weights.length⟩
  else ⟨weights.map fun w => Float.ofInt w / Float.ofInt (total weights)⟩

def text (f : Fractions) : List Char := [' '].intercalate (f.values.map Decimal.write)

def parse (text : List Char) : Except FractionFault Fractions :=
  match (Text.words text).mapM Decimal.float? with
  | some values => ofList values
  | none => .error .notANumber

end Fractions

end PixelLayout.Splitter
