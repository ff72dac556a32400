/-!
# The two layout axes

Every mode works along one axis and across it. The horizontal axis runs left to right, the
vertical one top to bottom. Coordinates are unbounded integers; the few operations that
saturate do so at the ends of the pixel range below.
-/

set_option autoImplicit false

namespace PixelLayout

inductive Axis where
  | horizontal
  | vertical
  deriving DecidableEq, Repr, Inhabited

namespace Axis

def cross : Axis → Axis
  | horizontal => vertical
  | vertical => horizontal

def pick {α : Type} (axis : Axis) (h v : α) : α :=
  match axis with
  | horizontal => h
  | vertical => v

@[simp] theorem cross_cross (axis : Axis) : axis.cross.cross = axis := by
  cases axis <;> rfl

@[simp] theorem pick_horizontal {α : Type} (h v : α) : horizontal.pick h v = h := rfl

@[simp] theorem pick_vertical {α : Type} (h v : α) : vertical.pick h v = v := rfl

end Axis

namespace Pixel

def least : Int := -2147483648

def greatest : Int := 2147483647

def saturate (n : Int) : Int := max least (min greatest n)

theorem saturate_of_bounds {n : Int} (h : least ≤ n) (h' : n ≤ greatest) : saturate n = n := by
  simp only [saturate, least, greatest] at *
  omega

theorem saturate_nonneg {n : Int} : 0 ≤ saturate n ↔ 0 ≤ n := by
  simp only [saturate, least, greatest]
  omega

theorem saturate_eq_zero {n : Int} : saturate n = 0 ↔ n = 0 := by
  simp only [saturate, least, greatest]
  omega

end Pixel

end PixelLayout
