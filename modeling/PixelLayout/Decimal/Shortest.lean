import PixelLayout.Decimal.Binary
import PixelLayout.Decimal.Numeral

/-!
# The shortest decimal text of a double

A finite double is written with the fewest digits that read back as the same double, and among
those of that length with the nearest ones, a tie going to the larger. The text is positional
whatever the magnitude, has no point unless digits follow it, and keeps the sign of zero.
-/

set_option autoImplicit false

namespace PixelLayout.Decimal

def tenTo (n : Nat) : Nat := Nat.pow 10 n

structure Ratio where
  num : Nat
  den : Nat
  deriving DecidableEq, Repr

namespace Ratio

def ofBinary (b : Binary) : Ratio :=
  if 0 ≤ b.power then ⟨b.mantissa * twoTo b.power.toNat, 1⟩
  else ⟨b.mantissa, twoTo b.power.natAbs⟩

def scaled (r : Ratio) (power : Int) : Ratio :=
  if 0 ≤ power then ⟨r.num, r.den * tenTo power.toNat⟩
  else ⟨r.num * tenTo power.natAbs, r.den⟩

def floor (r : Ratio) : Nat := r.num / r.den

def nearFloor (r : Ratio) : Bool := 2 * (r.num % r.den) < r.den

end Ratio

def digitsOf (n : Nat) : List Char := Nat.toDigits 10 n

def bottomPower : Int := -330

def magnitude (r : Ratio) : Int := bottomPower + (digitsOf (r.scaled bottomPower).floor).length

def readsBack? (x : Float) (digits : Nat) (scale : Int) : Option Numeral :=
  let n : Numeral := ⟨false, digits, scale⟩
  if n.toFloat = x then some n else none

def onGrid? (x : Float) (r : Ratio) (scale : Int) : Option Numeral :=
  let s := r.scaled scale
  let low := readsBack? x s.floor scale
  let high := readsBack? x (s.floor + 1) scale
  if s.nearFloor then low.or high else high.or low

def exact (r : Ratio) (power : Int) : Numeral :=
  if 0 ≤ power then ⟨false, r.num, 0⟩ else ⟨false, r.num * Nat.pow 5 power.natAbs, power⟩

def shortest (x : Float) : Numeral :=
  let b := Binary.of x
  let r := Ratio.ofBinary b
  let top := magnitude r
  match (List.range 18).findSome? fun n : Nat => onGrid? x r (top - n) with
  | some n => n
  | none => exact r b.power

def positional (n : Numeral) : List Char :=
  let ds := digitsOf n.digits
  if 0 ≤ n.scale then ds ++ List.replicate n.scale.toNat '0'
  else
    let places := n.scale.natAbs
    let ds := List.replicate (places + 1 - ds.length) '0' ++ ds
    let cut := ds.length - places
    ds.take cut ++ '.' :: ds.drop cut

def write (x : Float) : List Char :=
  if x.isNaN then "NaN".toList
  else
    let negative := (Binary.of x).negative
    let size := x.abs
    (if negative then ['-'] else []) ++
      if size = infinity then "inf".toList
      else if size = 0.0 then ['0']
      else positional (shortest size)

end PixelLayout.Decimal
