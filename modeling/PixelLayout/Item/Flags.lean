import PixelLayout.Geometry.Axis

/-!
# Resize flags

An item says for each axis whether it may be made smaller than its preferred extent, whether
it may be made larger, and whether it is greedy, that is, wants extra space before items
that are not. Their bit form gives the horizontal flags the even bits and the vertical
flags the odd ones.
-/

set_option autoImplicit false

namespace PixelLayout

structure AxisFlags where
  shrinkable : Bool
  growable : Bool
  greedy : Bool
  deriving DecidableEq, Repr, Inhabited

namespace AxisFlags

def all : AxisFlags := ⟨true, true, true⟩

def none : AxisFlags := ⟨false, false, false⟩

def both (f : Bool → Bool → Bool) (a b : AxisFlags) : AxisFlags :=
  ⟨f a.shrinkable b.shrinkable, f a.growable b.growable, f a.greedy b.greedy⟩

def bits (a : AxisFlags) : Nat :=
  (if a.shrinkable then 1 else 0) + (if a.growable then 4 else 0) + (if a.greedy then 16 else 0)

end AxisFlags

structure Flags where
  horizontal : AxisFlags
  vertical : AxisFlags
  deriving DecidableEq, Repr, Inhabited

namespace Flags

def empty : Flags := ⟨.none, .none⟩

def all : Flags := ⟨.all, .all⟩

def resizable : Flags := ⟨⟨true, true, false⟩, ⟨true, true, false⟩⟩

def along (f : Flags) (axis : Axis) : AxisFlags := axis.pick f.horizontal f.vertical

def only (axis : Axis) (a : AxisFlags) : Flags := axis.pick ⟨a, .none⟩ ⟨.none, a⟩

def shrinkable (axis : Axis) : Flags := only axis ⟨true, false, false⟩

def growable (axis : Axis) : Flags := only axis ⟨false, true, false⟩

def greedy (axis : Axis) : Flags := only axis ⟨false, false, true⟩

def canShrink (f : Flags) (axis : Axis) : Bool := (f.along axis).shrinkable

def canGrow (f : Flags) (axis : Axis) : Bool := (f.along axis).growable

def isGreedy (f : Flags) (axis : Axis) : Bool := (f.along axis).greedy

def both (op : Bool → Bool → Bool) (f g : Flags) : Flags :=
  ⟨f.horizontal.both op g.horizontal, f.vertical.both op g.vertical⟩

def union (f g : Flags) : Flags := both (· || ·) f g

def inter (f g : Flags) : Flags := both (· && ·) f g

def diff (f g : Flags) : Flags := both (fun a b => a && !b) f g

def join (fs : List Flags) : Flags := fs.foldl union empty

def isEmpty (f : Flags) : Bool := f == empty

def contains (f g : Flags) : Bool := f.inter g == g

def meets (f g : Flags) : Bool := !(f.inter g).isEmpty

def toBits (f : Flags) : Nat := f.horizontal.bits + 2 * f.vertical.bits

def ofBits (n : Nat) : Flags :=
  ⟨⟨n.testBit 0, n.testBit 2, n.testBit 4⟩, ⟨n.testBit 1, n.testBit 3, n.testBit 5⟩⟩

def named : List (String × Flags) :=
  [("SHRINKABLE_HORZ", shrinkable .horizontal), ("SHRINKABLE_VERT", shrinkable .vertical),
   ("GROWABLE_HORZ", growable .horizontal), ("GROWABLE_VERT", growable .vertical),
   ("GREEDY_HORZ", greedy .horizontal), ("GREEDY_VERT", greedy .vertical)]

def names (f : Flags) : List String := (named.filter fun n => f.contains n.2).map (·.1)

theorem ofBits_toBits (f : Flags) : ofBits f.toBits = f := by
  rcases f with ⟨⟨a, b, c⟩, ⟨d, e, g⟩⟩
  cases a <;> cases b <;> cases c <;> cases d <;> cases e <;> cases g <;> rfl

end Flags

end PixelLayout
