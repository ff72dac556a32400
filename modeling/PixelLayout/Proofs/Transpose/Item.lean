import PixelLayout.Batch
import PixelLayout.Item.Basic
import PixelLayout.Layout.Basic

/-!
# Both axes swapped

What is given for each axis is transposed by swapping the two. Everything that is read along an axis
is then found along the other one, and what does not depend on an axis stays. Height for width is the
one property of an item that prefers an axis, so it is left alone and excluded where it matters.
-/

set_option autoImplicit false

namespace PixelLayout

theorem Axis.cross_inj {a b : Axis} : a.cross = b.cross ↔ a = b :=
  ⟨fun h => by rw [← a.cross_cross, h, b.cross_cross], congrArg cross⟩

namespace Size

def transpose (s : Size) : Size := ⟨s.height, s.width⟩

@[simp] theorem along_transpose (s : Size) (axis : Axis) :
    s.transpose.along axis = s.along axis.cross := by
  cases axis <;> rfl

theorem ext_along {s t : Size} (h : ∀ axis, s.along axis = t.along axis) : s = t := by
  cases s
  cases t
  exact (mk.injEq ..).mpr ⟨h .horizontal, h .vertical⟩

theorem map_along_transpose (sizes : List Size) (axis : Axis) :
    (sizes.map transpose).map (·.along axis.cross) = sizes.map (·.along axis) := by
  rw [List.map_map]
  exact List.map_congr_left fun s _ => by simp

theorem transpose_inj {s t : Size} : s.transpose = t.transpose ↔ s = t :=
  ⟨fun h => congrArg transpose h, fun h => congrArg transpose h⟩

theorem ofAxes_transpose (axis : Axis) (main other : Int) :
    ofAxes axis.cross main other = (ofAxes axis main other).transpose := by
  cases axis <;> rfl

end Size

namespace Margins

def transpose (m : Margins) : Margins := ⟨m.vNear, m.hNear, m.vFar, m.hFar⟩

theorem transpose_inj {m n : Margins} : m.transpose = n.transpose ↔ m = n :=
  ⟨fun h => congrArg transpose h, fun h => congrArg transpose h⟩

@[simp] theorem near_transpose (m : Margins) (axis : Axis) :
    m.transpose.near axis = m.near axis.cross := by
  cases axis <;> rfl

@[simp] theorem sum_transpose (m : Margins) (axis : Axis) :
    m.transpose.sum axis = m.sum axis.cross := by
  cases axis <;> rfl

@[simp] theorem hasNegative_transpose (m : Margins) :
    m.transpose.hasNegative = m.hasNegative := by
  show (decide (m.vNear < 0) || decide (m.hNear < 0) || decide (m.vFar < 0) ||
    decide (m.hFar < 0)) = m.hasNegative
  rw [Bool.eq_iff_iff]
  simp only [hasNegative, Bool.or_eq_true, decide_eq_true_eq]
  omega

end Margins

namespace Rect

def transpose (r : Rect) : Rect := ⟨r.y, r.x, r.height, r.width⟩

@[simp] theorem size_transpose (r : Rect) : r.transpose.size = r.size.transpose := rfl

@[simp] theorem start_transpose (r : Rect) (axis : Axis) :
    r.transpose.start axis = r.start axis.cross := by
  cases axis <;> rfl

theorem ext_along {r r' : Rect} (starts : ∀ axis, r.start axis = r'.start axis)
    (extents : ∀ axis, r.size.along axis = r'.size.along axis) : r = r' := by
  cases r
  cases r'
  exact (mk.injEq ..).mpr
    ⟨starts .horizontal, starts .vertical, extents .horizontal, extents .vertical⟩

theorem ofAxes_transpose (axis : Axis) (start start' extent extent' : Int) :
    ofAxes axis.cross start start' extent extent' =
      (ofAxes axis start start' extent extent').transpose := by
  cases axis <;> rfl

end Rect

def Batch.transpose (b : Batch) : Batch := b.map fun e => (e.1, e.2.transpose)

namespace Alignment

def transpose : Alignment → Alignment
  | inherited => inherited
  | fixed h v => fixed v h

@[simp] theorem transpose_transpose (a : Alignment) : a.transpose.transpose = a := by
  cases a <;> rfl

theorem transpose_inj {a b : Alignment} : a.transpose = b.transpose ↔ a = b := by
  refine ⟨fun h => ?_, fun h => congrArg transpose h⟩
  rw [← transpose_transpose a, h, transpose_transpose]

@[simp] theorem along_transpose (a : Alignment) (axis : Axis) :
    a.transpose.along axis = a.along axis.cross := by
  cases a <;> cases axis <;> rfl

theorem orElse_transpose (a other : Alignment) :
    a.transpose.orElse other.transpose = (a.orElse other).transpose := by
  cases a <;> rfl

end Alignment

namespace Flags

def transpose (f : Flags) : Flags := ⟨f.vertical, f.horizontal⟩

@[simp] theorem along_transpose (f : Flags) (axis : Axis) :
    f.transpose.along axis = f.along axis.cross := by
  cases axis <;> rfl

@[simp] theorem canShrink_transpose (f : Flags) (axis : Axis) :
    f.transpose.canShrink axis = f.canShrink axis.cross :=
  congrArg AxisFlags.shrinkable (f.along_transpose axis)

@[simp] theorem canGrow_transpose (f : Flags) (axis : Axis) :
    f.transpose.canGrow axis = f.canGrow axis.cross :=
  congrArg AxisFlags.growable (f.along_transpose axis)

@[simp] theorem isGreedy_transpose (f : Flags) (axis : Axis) :
    f.transpose.isGreedy axis = f.isGreedy axis.cross :=
  congrArg AxisFlags.greedy (f.along_transpose axis)

theorem union_transpose (f g : Flags) :
    f.transpose.union g.transpose = (f.union g).transpose := rfl

theorem diff_transpose (f g : Flags) : f.transpose.diff g.transpose = (f.diff g).transpose := rfl

theorem only_transpose (axis : Axis) (a : AxisFlags) :
    only axis.cross a = (only axis a).transpose := by
  cases axis <;> rfl

@[simp] theorem isEmpty_transpose (f : Flags) : f.transpose.isEmpty = f.isEmpty := by
  rw [Bool.eq_iff_iff, isEmpty, isEmpty, beq_iff_eq, beq_iff_eq]
  obtain ⟨h, v⟩ := f
  simp [transpose, empty, and_comm]

theorem join_transpose (fs : List Flags) : join (fs.map transpose) = (join fs).transpose := by
  have fold : ∀ f : Flags, (fs.map transpose).foldl union f.transpose =
      (fs.foldl union f).transpose := by
    induction fs with
    | nil => exact fun _ => rfl
    | cons g fs ih => exact fun f => ih (f.union g)
  exact fold empty

end Flags

namespace Item

def transpose (item : Item) : Item :=
  { item with
    min := item.min.transpose
    hint := item.hint.transpose
    max := item.max.transpose
    preferred := item.preferred.transpose
    flags := item.flags.transpose
    alignment := item.alignment.transpose }

variable (item : Item)

@[simp] theorem transpose_id : item.transpose.id = item.id := rfl

@[simp] theorem transpose_max : item.transpose.max = item.max.transpose := rfl

@[simp] theorem transpose_preferred : item.transpose.preferred = item.preferred.transpose := rfl

@[simp] theorem transpose_flags : item.transpose.flags = item.flags.transpose := rfl

@[simp] theorem transpose_spacer : item.transpose.spacer = item.spacer := rfl

@[simp] theorem transpose_alignment : item.transpose.alignment = item.alignment.transpose := rfl

@[simp] theorem minimum_transpose : item.transpose.minimum = item.minimum.transpose := rfl

@[simp] theorem laidOut_transpose : item.transpose.laidOut = item.laidOut := rfl

@[simp] theorem isPlaceholder_transpose : item.transpose.isPlaceholder = item.isPlaceholder := by
  have preferred : (item.preferred.transpose == Size.zero) = (item.preferred == Size.zero) := by
    rw [Bool.eq_iff_iff, beq_iff_eq, beq_iff_eq]
    exact Size.transpose_inj (t := .zero)
  show (item.preferred.transpose == Size.zero && item.flags.transpose.isEmpty) = _
  rw [preferred, Flags.isEmpty_transpose]
  rfl

@[simp] theorem inLine_transpose : item.transpose.inLine = item.inLine := by
  rw [inLine, isPlaceholder_transpose, laidOut_transpose, inLine]

@[simp] theorem tier_transpose (axis : Axis) : item.transpose.tier axis = item.tier axis.cross :=
  congrArg (Space.Tier.classify · item.spacer) (item.flags.isGreedy_transpose axis)

@[simp] theorem axisMax_transpose (axis : Axis) :
    item.transpose.axisMax axis = item.axisMax axis.cross := by
  simp only [axisMax, transpose, Size.along_transpose, Flags.canGrow_transpose]

def Plain : Prop := item.heightForWidth = none

variable {item}

theorem heightAt_of_plain (plain : item.Plain) (width : Int) :
    item.heightAt width = item.minimum.height := by
  rw [heightAt, plain]

end Item

section Children

variable (children : List Item)

@[simp] theorem map_id_transpose :
    (children.map Item.transpose).map (·.id) = children.map (·.id) := by
  rw [List.map_map]
  rfl

@[simp] theorem any_id_transpose (p : Nat → Bool) :
    (children.map Item.transpose).any (fun c => p c.id) = children.any fun c => p c.id := by
  rw [List.any_map]
  rfl

theorem filter_transpose {p : Item → Bool} (same : ∀ c : Item, p c.transpose = p c) :
    (children.map Item.transpose).filter p = (children.filter p).map Item.transpose := by
  rw [List.filter_map]
  exact congrArg _ (List.filter_congr fun c _ => same c)

theorem filter_laidOut_transpose : (children.map Item.transpose).filter (·.laidOut) =
    (children.filter (·.laidOut)).map Item.transpose :=
  filter_transpose children Item.laidOut_transpose

theorem join_flags_transpose : Flags.join ((children.map Item.transpose).map (·.flags)) =
    (Flags.join (children.map (·.flags))).transpose := by
  rw [← Flags.join_transpose, List.map_map, List.map_map]
  rfl

end Children

namespace Settings

def transpose (s : Settings) : Settings := ⟨s.margins.transpose, s.spacing, s.alignment.transpose⟩

@[simp] theorem transpose_margins (s : Settings) : s.transpose.margins = s.margins.transpose := rfl

@[simp] theorem transpose_spacing (s : Settings) : s.transpose.spacing = s.spacing := rfl

@[simp] theorem transpose_alignment (s : Settings) :
    s.transpose.alignment = s.alignment.transpose := rfl

theorem check_transpose {s : Settings} (h : s.check = .ok ()) : s.transpose.check = .ok () := by
  unfold check at h ⊢
  split at h
  · cases h
  split at h
  · cases h
  · next margins spacing =>
    rw [transpose_margins, Margins.hasNegative_transpose, if_neg margins]
    exact if_neg spacing

end Settings

namespace View

def transpose (v : View) : View := ⟨v.suspended, v.children.map .transpose, v.bounds.transpose⟩

def Plain (v : View) : Prop := ∀ c ∈ v.children, c.Plain

end View

end PixelLayout
