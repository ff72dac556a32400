import PixelLayout.Item.Basic
import PixelLayout.Splitter.Fractions
import PixelLayout.Table

/-!
# Panes

The children of a splitter alternate between panes, which come first, and handles. A splitter
keeps a state for each pane: its size along the axis, its stretch, whether it sits out changes
of the space, by how much it has grown since its size was last set, the weight by which growth
is compared, and the share of the space pinned by a drag or by a list of fractions.
-/

set_option autoImplicit false

namespace PixelLayout.Splitter

structure Pane where
  size : Int
  stretch : Nat
  fixed : Bool
  growth : Int
  weight : Nat
  -- the item cannot grow along the axis
  keepsSize : Bool
  fraction : Option Float
  deriving DecidableEq

namespace Pane

def fresh : Pane := ⟨0, 1, false, 0, 1, false, none⟩

end Pane

def weightScale : Float := 1000000.0

def fractionWeight (fraction : Float) : Nat :=
  max (Decimal.roundWithin 0 4294967295 (fraction * weightScale)).toNat 1

def Pane.ownWeight (p : Pane) : Nat := (p.fraction.map fractionWeight).getD p.stretch

abbrev Panes := Table Pane

def stretchOf (panes : Panes) (id : Nat) : Nat := ((panes.get? id).map (·.stretch)).getD 1

def sizeOf (panes : Panes) (id : Nat) : Int := ((panes.get? id).map (·.size)).getD 0

def alternate {α : Type} : List α → List α
  | [] => []
  | [a] => [a]
  | a :: _ :: rest => a :: alternate rest

def shown (children : List Item) : List Item := (alternate children).filter (·.laidOut)

def isActiveHandle (children : List Item) (index : Nat) : Bool :=
  index % 2 == 1 && (children[index + 1]?).any (·.laidOut)
    && (alternate (children.take index)).any (·.laidOut)

def activeHandles (children : List Item) : List Nat :=
  (List.range children.length).filter (isActiveHandle children)

structure Limits where
  id : Nat
  least : Int
  most : Option Int
  deriving DecidableEq, Repr

namespace Limits

def of (axis : Axis) (item : Item) : Limits :=
  let least := max (item.minimum.along axis) 0
  let most := item.max.along axis
  ⟨item.id, least, if most > 0 then some (max most least) else none⟩

def fit (l : Limits) (size : Int) : Int := max ((l.most.map (min size ·)).getD size) l.least

end Limits

end PixelLayout.Splitter
