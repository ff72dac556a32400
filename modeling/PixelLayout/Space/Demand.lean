import PixelLayout.Geometry.Axis

/-!
# What an item asks for along one axis

A demand has a least and possibly a greatest extent, a weight among the demands of its tier,
and a tier. Tiers are served one after the other: greedy items that are not spacers, greedy
spacers, and the rest. Within a tier the larger minimum goes first, then the tighter maximum
per unit of weight; an unbounded maximum counts as the greatest coordinate.
-/

set_option autoImplicit false

namespace PixelLayout.Space

inductive Tier where
  | greedy
  | greedySpacer
  | regular
  deriving DecidableEq, Repr, Inhabited

namespace Tier

def classify (greedy spacer : Bool) : Tier :=
  if greedy then (if spacer then greedySpacer else Tier.greedy) else regular

def all : List Tier := [greedy, greedySpacer, regular]

end Tier

structure Demand where
  min : Int
  max : Option Int
  stretch : Nat
  tier : Tier
  deriving DecidableEq, Repr, Inhabited

namespace Demand

def weight (d : Demand) : Nat := Max.max d.stretch 1

def canGrow (d : Demand) : Bool :=
  match d.max with
  | none => true
  | some m => d.min < m

def maxPerWeight (d : Demand) : Int := (d.max.getD Pixel.greatest).tdiv d.weight

def fit (d : Demand) (size : Int) : Int :=
  if size < d.min then d.min
  else match d.max with
    | none => size
    | some m => if size > m then m else size

def before (a b : Demand) : Bool :=
  b.min < a.min || (a.min == b.min && a.maxPerWeight ≤ b.maxPerWeight)

def Valid (d : Demand) : Prop := 0 ≤ d.min ∧ ∀ m ∈ d.max, d.min ≤ m

instance (d : Demand) : Decidable d.Valid :=
  inferInstanceAs (Decidable (0 ≤ d.min ∧ ∀ m ∈ d.max, d.min ≤ m))

end Demand

end PixelLayout.Space
