import PixelLayout.Geometry.Axis

/-!
# Points, sizes, rectangles and margins

A rectangle is given by its top left corner and its size, a size by its two extents. The
functions that take an axis read or build these values by the extent along the axis and
the extent across it.
-/

set_option autoImplicit false

namespace PixelLayout

structure Point where
  x : Int
  y : Int
  deriving DecidableEq, Repr, Inhabited

structure Size where
  width : Int
  height : Int
  deriving DecidableEq, Repr, Inhabited

namespace Size

def zero : Size := ⟨0, 0⟩

def ofAxes (axis : Axis) (main other : Int) : Size :=
  axis.pick ⟨main, other⟩ ⟨other, main⟩

def along (s : Size) (axis : Axis) : Int := axis.pick s.width s.height

def across (s : Size) (axis : Axis) : Int := s.along axis.cross

def sup (s t : Size) : Size := ⟨max s.width t.width, max s.height t.height⟩

def capAt (s limit : Size) : Size where
  -- An extent of the limit that is not positive caps nothing.
  width := if limit.width > 0 then min s.width limit.width else s.width
  height := if limit.height > 0 then min s.height limit.height else s.height

end Size

structure Margins where
  hNear : Int
  vNear : Int
  hFar : Int
  vFar : Int
  deriving DecidableEq, Repr, Inhabited

namespace Margins

def all (n : Int) : Margins := ⟨n, n, n, n⟩

def zero : Margins := all 0

def hasNegative (m : Margins) : Bool := m.hNear < 0 || m.vNear < 0 || m.hFar < 0 || m.vFar < 0

def horizontal (m : Margins) : Int := Pixel.saturate (m.hNear + m.hFar)

def vertical (m : Margins) : Int := Pixel.saturate (m.vNear + m.vFar)

def near (m : Margins) (axis : Axis) : Int := axis.pick m.hNear m.vNear

def far (m : Margins) (axis : Axis) : Int := axis.pick m.hFar m.vFar

def sum (m : Margins) (axis : Axis) : Int := axis.pick m.horizontal m.vertical

end Margins

structure Rect where
  x : Int
  y : Int
  width : Int
  height : Int
  deriving DecidableEq, Repr, Inhabited

namespace Rect

def ofSize (s : Size) : Rect := ⟨0, 0, s.width, s.height⟩

def ofAxes (axis : Axis) (start start' extent extent' : Int) : Rect :=
  axis.pick ⟨start, start', extent, extent'⟩ ⟨start', start, extent', extent⟩

def right (r : Rect) : Int := Pixel.saturate (r.x + r.width)

def bottom (r : Rect) : Int := Pixel.saturate (r.y + r.height)

def size (r : Rect) : Size := ⟨r.width, r.height⟩

def origin (r : Rect) : Point := ⟨r.x, r.y⟩

def isEmpty (r : Rect) : Bool := r.width ≤ 0 || r.height ≤ 0

def contains (r : Rect) (p : Point) : Bool :=
  r.x ≤ p.x && p.x < r.right && r.y ≤ p.y && p.y < r.bottom

def start (r : Rect) (axis : Axis) : Int := axis.pick r.x r.y

section OfAxes

variable (axis : Axis) (position position' extent extent' : Int)

theorem ofAxes_start : (ofAxes axis position position' extent extent').start axis = position := by
  cases axis <;> rfl

theorem ofAxes_start_cross :
    (ofAxes axis position position' extent extent').start axis.cross = position' := by
  cases axis <;> rfl

theorem ofAxes_along :
    (ofAxes axis position position' extent extent').size.along axis = extent := by
  cases axis <;> rfl

theorem ofAxes_across :
    (ofAxes axis position position' extent extent').size.along axis.cross = extent' := by
  cases axis <;> rfl

end OfAxes

def inner (r : Rect) (m : Margins) : Rect where
  x := Pixel.saturate (r.x + m.hNear)
  y := Pixel.saturate (r.y + m.vNear)
  width := max (r.width - m.horizontal) 0
  height := max (r.height - m.vertical) 0

end Rect

end PixelLayout
