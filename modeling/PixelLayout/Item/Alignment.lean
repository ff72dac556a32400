import PixelLayout.Geometry.Axis

/-!
# Alignment

On one axis content stands near the start of its space, in the middle, or near the end. An
item or a layout either fixes this on both axes or inherits it; what inherits from nothing is
centered.
-/

set_option autoImplicit false

namespace PixelLayout

inductive Align where
  | near
  | center
  | far
  deriving DecidableEq, Repr, Inhabited

def Align.offset (a : Align) (space size : Int) : Int :=
  -- Content that is too large keeps its anchor, so the offset may be negative.
  match a with
  | near => 0
  | center => (space - size).tdiv 2
  | far => space - size

inductive Alignment where
  | inherited
  | fixed (horizontal vertical : Align)
  deriving DecidableEq, Repr, Inhabited

namespace Alignment

def horizontal : Alignment → Align
  | inherited => .center
  | fixed h _ => h

def vertical : Alignment → Align
  | inherited => .center
  | fixed _ v => v

def along (a : Alignment) (axis : Axis) : Align := axis.pick a.horizontal a.vertical

def orElse (a other : Alignment) : Alignment :=
  match a with
  | inherited => other
  | fixed h v => fixed h v

end Alignment

end PixelLayout
