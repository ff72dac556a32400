/-!
# Doubles as integers times powers of two

A finite double is a sign and a magnitude `m * 2 ^ q` with `m` below `2 ^ 53`. Rounding to whole
numbers works on that form and takes halves away from zero.
-/

set_option autoImplicit false

namespace PixelLayout.Decimal

def twoTo (n : Nat) : Nat := Nat.pow 2 n

structure Binary where
  negative : Bool
  mantissa : Nat
  power : Int
  deriving DecidableEq, Repr, Inhabited

def Binary.of (x : Float) : Binary :=
  -- The exponent field of all ones is read like any other, so that what is not finite comes out
  -- as a very large magnitude.
  let bits := x.toBits.toNat
  let exponent : Nat := bits / twoTo 52 % twoTo 11
  let fraction : Nat := bits % twoTo 52
  let negative := bits / twoTo 63 == 1
  if exponent = 0 then ⟨negative, fraction, -1074⟩
  else ⟨negative, twoTo 52 + fraction, exponent - 1075⟩

def Binary.rounded (b : Binary) : Nat :=
  if 0 ≤ b.power then b.mantissa * twoTo b.power.toNat
  else (b.mantissa + twoTo (b.power.natAbs - 1)) / twoTo b.power.natAbs

def roundWithin (low high : Int) (x : Float) : Int :=
  -- Halves are rounded away from zero. What is no number counts as zero.
  if x.isNaN then 0
  else
    let b := Binary.of x
    max low (min high (if b.negative then -(b.rounded : Int) else b.rounded))

end PixelLayout.Decimal
