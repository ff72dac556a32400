import PixelLayout.Geometry.Rect
import PixelLayout.Item.Alignment
import PixelLayout.Item.Flags
import PixelLayout.Space.Demand

/-!
# Layout items

A layout knows its children only by what is recorded here: an identity, size constraints,
resize flags and a few switches. In a maximum, an extent of zero means unbounded. Some items
trade height for width; for those the height they need is a function of the width they get.
-/

set_option autoImplicit false

namespace PixelLayout

structure Item where
  id : Nat
  min : Size
  -- the minimum that the content asks for
  hint : Size
  max : Size
  preferred : Size
  flags : Flags
  spacer : Bool
  visible : Bool
  -- keeps its place while hidden
  keepsSpace : Bool
  alignment : Alignment
  heightForWidth : Option (Int → Int)

def areaHeight (area width : Int) : Int :=
  if width ≤ 0 then area else (area + width - 1).tdiv width

namespace Item

def plain (id : Nat) : Item :=
  ⟨id, .zero, .zero, .zero, .zero, .empty, false, true, false, .inherited, none⟩

def minimum (item : Item) : Size := (item.min.sup item.hint).capAt item.max

def laidOut (item : Item) : Bool := item.spacer || item.visible || item.keepsSpace

def isPlaceholder (item : Item) : Bool := item.preferred == .zero && item.flags.isEmpty

def inLine (item : Item) : Bool := item.laidOut && !item.isPlaceholder

def tier (item : Item) (axis : Axis) : Space.Tier :=
  Space.Tier.classify (item.flags.isGreedy axis) item.spacer

def axisMax (item : Item) (axis : Axis) : Option Int :=
  if item.max.along axis > 0 then some (item.max.along axis)
  else if item.preferred.along axis > 0 && !item.flags.canGrow axis then
    some (item.preferred.along axis)
  else none

def heightAt (item : Item) (width : Int) : Int :=
  match item.heightForWidth with
  | some height => height width
  | none => item.minimum.height

end Item

end PixelLayout
