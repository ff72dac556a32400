/-!
# Decimal numerals

A numeral is a sign, a whole number of digits and a power of ten. It stands for the double
nearest to that value, ties to even, where a negative zero keeps its sign and what is too large
is infinite. The texts read here have an optional sign, digits with an optional point among or
around them, and an optional exponent; the words for infinity and for no number at all are read
in any case of their letters.
-/

set_option autoImplicit false

namespace PixelLayout.Decimal

structure Numeral where
  negative : Bool
  digits : Nat
  scale : Int
  deriving DecidableEq, Repr, Inhabited

def signed (negative : Bool) (x : Float) : Float := if negative then -x else x

def Numeral.toFloat (n : Numeral) : Float :=
  signed n.negative (Float.ofScientific n.digits (n.scale < 0) n.scale.natAbs)

def infinity : Float := 1.0 / 0.0

def notANumber : Float := 0.0 / 0.0

def isDigit (c : Char) : Bool := '0' ≤ c && c ≤ '9'

def digitValue (c : Char) : Nat := c.toNat - '0'.toNat

def natOf (cs : List Char) : Nat := cs.foldl (fun n c => 10 * n + digitValue c) 0

def takeSign : List Char → Bool × List Char
  | '-' :: cs => (true, cs)
  | '+' :: cs => (false, cs)
  | cs => (false, cs)

def exponent? : List Char → Option Int
  | [] => some 0
  | c :: cs =>
    if c == 'e' || c == 'E' then
      let (negative, ds) := takeSign cs
      if ds.isEmpty || !ds.all isDigit then none
      else some (if negative then -(natOf ds : Int) else natOf ds)
    else none

def takeFraction : List Char → List Char × List Char
  | '.' :: cs => (cs.takeWhile isDigit, cs.dropWhile isDigit)
  | cs => ([], cs)

def unsigned? (negative : Bool) (cs : List Char) : Option Numeral :=
  let whole := cs.takeWhile isDigit
  let (fraction, rest) := takeFraction (cs.dropWhile isDigit)
  if whole.isEmpty && fraction.isEmpty then none
  else (exponent? rest).map fun e => ⟨negative, natOf (whole ++ fraction), e - fraction.length⟩

def numeral? (cs : List Char) : Option Numeral :=
  let (negative, rest) := takeSign cs
  unsigned? negative rest

def named? (cs : List Char) : Option Float :=
  match String.ofList (cs.map Char.toLower) with
  | "inf" => some infinity
  | "infinity" => some infinity
  | "nan" => some notANumber
  | _ => none

def float? (cs : List Char) : Option Float :=
  match numeral? cs with
  | some n => some n.toFloat
  | none =>
    let (negative, rest) := takeSign cs
    (named? rest).map (signed negative)

end PixelLayout.Decimal
