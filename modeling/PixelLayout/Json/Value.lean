import PixelLayout.Decimal.Numeral

/-!
# JSON values

Texts are kept as code points, since an escape may leave a surrogate standing alone. Numbers are
kept as they are written, so that nothing is lost before it is known what is read from them: a
number without a point and an exponent is whole. Objects keep all their fields in order.
-/

set_option autoImplicit false

namespace PixelLayout.Json

structure Text where
  points : List Nat
  deriving DecidableEq, Repr, Inhabited

namespace Text

def ofString (s : String) : Text := ⟨s.toList.map (·.toNat)⟩

def isScalar (n : Nat) : Bool := n < 0xD800 || (0xDFFF < n && n < 0x110000)

def toString? (t : Text) : Option String :=
  if t.points.all isScalar then some (String.ofList (t.points.map Char.ofNat)) else none

end Text

inductive Value where
  | null
  | bool (b : Bool)
  | number (n : Decimal.Numeral) (whole : Bool)
  | text (t : Text)
  | array (elements : List Value)
  | object (fields : List (Text × Value))
  deriving Inhabited

namespace Value

def ofInt (n : Int) : Value := .number ⟨n < 0, n.natAbs, 0⟩ true

def ofString (s : String) : Value := .text (.ofString s)

def record (fields : List (String × Value)) : Value :=
  .object (fields.map fun f => (.ofString f.1, f.2))

def isNull : Value → Bool
  | null => true
  | _ => false

def int? : Value → Option Int
  -- A negative zero is not whole.
  | number ⟨negative, digits, _⟩ true =>
    if negative then (if digits = 0 then none else some (-(digits : Int))) else some digits
  | _ => none

def double? : Value → Option Float
  | number n _ => if n.toFloat.isFinite then some n.toFloat else none
  | _ => none

def string? : Value → Option String
  | text t => t.toString?
  | _ => none

def field? (key : String) : Value → Option Value
  | object fields => (fields.find? fun f => f.1 == .ofString key).map (·.2)
  | _ => none

end Value

end PixelLayout.Json
