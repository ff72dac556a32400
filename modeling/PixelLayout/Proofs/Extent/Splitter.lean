import PixelLayout.Proofs.Extent.Line
import PixelLayout.Proofs.Splitter.Panes

/-!
# Extents in a splitter

Handles are as wide as they are set, and across the axis everything fills the bounds. So a rectangle
of a splitter is negative only if the size of a pane is. A handle that is let go leaves both of its
panes with a size that is not negative, if it comes to rest inside the span of these panes; it does
so if their minimums fit into the span.
-/

set_option autoImplicit false

namespace PixelLayout.Splitter

def Drag.Rests (d : Drag) (handleWidth position : Int) : Prop :=
  d.start ≤ d.clamp position ∧ d.clamp position + handleWidth ≤ d.stop

/-- So it does if there is room for the minimums of the two panes and the handle. -/
theorem Drag.rests_of_room {s : Splitter} {children : List Item} {bounds : Rect} {handle : Nat}
    {d : Drag} (h : s.drag? children bounds handle = some d) (room : d.low ≤ d.high)
    (position : Int) : d.Rests s.handleWidth position := by
  obtain ⟨-, i, before, after, first, second, -, -, -, -, -, rfl⟩ := drag_eq_some h
  have least := least_nonneg s.axis before
  have least' := least_nonneg s.axis after
  simp only [Rests, clamp] at room ⊢
  split
  · omega
  · split <;> omega

section Place

variable (s : Splitter) (children : List Item)

/-- The rectangles of a splitter, one by one. -/
theorem placeFrom_nonneg_iff (bounds : Rect) (position : Int) (items : List (Item × Nat)) :
    Batch.Nonneg (((items.map (·.1)).zip (s.placeFrom children bounds position items)).filterMap
      fun (item, rect) => rect.map fun r => (item.id, r)) ↔
    ∀ p ∈ items, ∀ e ∈ s.extent? children (bounds.size.along s.axis.cross) p.2 p.1,
      0 ≤ e.1 ∧ 0 ≤ e.2 := by
  unfold Batch.Nonneg
  induction items generalizing position with
  | nil => simp
  | cons p items ih =>
    rw [List.forall_mem_cons]
    simp only [placeFrom]
    cases he : s.extent? children (bounds.size.along s.axis.cross) p.2 p.1 with
    | none => simpa using ih position
    | some e =>
      simp only [List.map_cons, List.zip_cons_cons, List.filterMap_cons, Option.map_some,
        List.forall_mem_cons, ih, Option.mem_def, Option.some.injEq, forall_eq']
      exact and_congr_left' Rect.nonneg_ofAxes

/-- Only a pane can come out negative. -/
theorem nonneg_batch_iff {s : Splitter} (handle : 0 ≤ s.handleWidth) {bounds : Rect}
    (hb : bounds.Nonneg) :
    Batch.Nonneg (s.batch children bounds) ↔
      ∀ c ∈ shown children, 0 ≤ sizeOf s.panes c.id := by
  have cross := hb.along s.axis.cross
  have items : children.zipIdx.map (·.1) = children := List.zipIdx_map_fst 0 children
  have each := s.placeFrom_nonneg_iff children bounds (bounds.start s.axis) children.zipIdx
  rw [items] at each
  refine each.trans ⟨fun h c hc => ?_, fun h p hp e he => ?_⟩
  · obtain ⟨halt, laid⟩ := List.mem_filter.mp hc
    obtain ⟨i, hi, even⟩ := exists_of_mem_alternate halt
    have placed : s.extent? children (bounds.size.along s.axis.cross) i c =
        some (sizeOf s.panes c.id, bounds.size.along s.axis.cross) := by
      simp [extent?, even, laid]
    exact (h (c, i) (List.mem_zipIdx_iff_getElem?.mpr hi) _ placed).1
  · have hi := List.mem_zipIdx_iff_getElem?.mp hp
    simp only [extent?, Option.mem_def] at he
    split at he
    · cases he
      split
      · exact ⟨handle, cross⟩
      · exact ⟨le_rfl, le_rfl⟩
    · next even =>
      split at he
      · next laid =>
        cases he
        have halt := mem_alternate_of_getElem? hi (by simpa using even)
        exact ⟨h p.1 (List.mem_filter.mpr ⟨halt, laid⟩), cross⟩
      · cases he

end Place

end PixelLayout.Splitter
