import PixelLayout.Proofs.Line.Least
import PixelLayout.Proofs.Splitter.Bounds

/-!
# The least size of a splitter

A reset fits each share into the limits of its pane, so that together the panes may be larger than
the space. The loop takes back what is too much, from panes that are larger than their minimums.
Unless a pane is fixed it can take back all of it exactly if the minimums and the handles that take
space fit into the bounds, which is what the least size of the splitter counts.
-/

set_option autoImplicit false

namespace PixelLayout

theorem total_map_filter {α : Type} (p : α → Bool) (f : α → Int) (as : List α) :
    total ((as.filter p).map f) = total (as.map fun a => if p a then f a else 0) := by
  induction as with
  | nil => rfl
  | cons a as ih => cases h : p a <;> simp [h, ih]

/-- Rectangles that lie end to end, none of them negative, stay within their extents together. -/
theorem Batch.Abuts.within {axis : Axis} {position : Int} {b : Batch} (h : b.Abuts axis position)
    (nonneg : ∀ e ∈ b, 0 ≤ e.2.size.along axis) :
    ∀ e ∈ b, position ≤ e.2.start axis ∧ e.2.start axis + e.2.size.along axis ≤
      position + total (b.map fun e => e.2.size.along axis) := by
  induction b generalizing position with
  | nil => nofun
  | cons first b ih =>
    obtain ⟨begins, behind⟩ := h
    obtain ⟨extent, rest⟩ := List.forall_mem_cons.mp nonneg
    have left : 0 ≤ total (b.map fun e => e.2.size.along axis) :=
      total_nonneg (List.forall_mem_map.mpr rest)
    rw [List.map_cons, total_cons, List.forall_mem_cons]
    refine ⟨by omega, fun e he => ?_⟩
    have within := ih behind rest e he
    omega

namespace Splitter

section Extent

variable (s : Splitter) (children : List Item) (bounds : Rect)

theorem total_zipIdx_even (f : Item → Int) : ∀ (items : List Item) (index : Nat), index % 2 = 0 →
    total ((items.zipIdx index).map fun p => if p.2 % 2 = 0 then f p.1 else 0) =
      total ((alternate items).map f)
  | [], _, _ => rfl
  | [c], index, even => by simp [alternate, even]
  | c :: c' :: items, index, even => by
    have rest := total_zipIdx_even f items (index + 2) (by omega)
    have odd : (index + 1) % 2 ≠ 0 := by omega
    simp only [List.zipIdx_cons, List.map_cons, total_cons, alternate, if_pos even, if_neg odd,
      rest, Int.zero_add]

theorem total_if_eq_mul (p : Nat → Bool) (n : Int) (is : List Nat) :
    total (is.map fun i => if p i then n else 0) = (is.filter p).length * n := by
  rw [← total_map_filter p fun _ => n]
  induction is.filter p with
  | nil => simp
  | cons i is ih =>
    rw [List.map_cons, total_cons, ih, List.length_cons, Int.natCast_succ, Int.add_mul, Int.one_mul,
      Int.add_comm]

def taken (p : Item × Nat) : Int :=
  (s.extent? children (bounds.size.along s.axis.cross) p.2 p.1).elim 0 (·.1)

theorem taken_eq (p : Item × Nat) : s.taken children bounds p =
    (if p.2 % 2 = 0 then if p.1.laidOut then sizeOf s.panes p.1.id else 0 else 0) +
      if isActiveHandle children p.2 then s.handleWidth else 0 := by
  by_cases even : p.2 % 2 = 0
  · have inactive : isActiveHandle children p.2 = false := by simp [isActiveHandle, even]
    cases laid : p.1.laidOut <;> simp [taken, extent?, even, inactive, laid]
  · have odd : p.2 % 2 = 1 := by omega
    cases active : isActiveHandle children p.2 <;> simp [taken, extent?, odd, active]

theorem total_entriesFrom (position : Int) (items : List (Item × Nat)) :
    total ((s.entriesFrom children bounds position items).map fun e => e.2.size.along s.axis) =
      total (items.map (s.taken children bounds)) := by
  induction items generalizing position with
  | nil => rfl
  | cons p items ih =>
    rw [List.map_cons, total_cons, taken]
    cases h : s.extent? children (bounds.size.along s.axis.cross) p.2 p.1 with
    | none =>
      rw [entriesFrom_none h, ih]
      exact (Int.zero_add _).symm
    | some e =>
      rw [entriesFrom_some h, List.map_cons, total_cons, ih, Rect.ofAxes_along]
      rfl

theorem exists_of_mem_entriesFrom (position : Int) (items : List (Item × Nat)) :
    ∀ e ∈ s.entriesFrom children bounds position items,
      ∃ p ∈ items, e.2.size.along s.axis = s.taken children bounds p := by
  induction items generalizing position with
  | nil => nofun
  | cons p items ih =>
    have later (position : Int) : ∀ e ∈ s.entriesFrom children bounds position items,
        ∃ q ∈ p :: items, e.2.size.along s.axis = s.taken children bounds q := fun e he =>
      have ⟨q, hq, same⟩ := ih position e he
      ⟨q, List.mem_cons_of_mem _ hq, same⟩
    cases h : s.extent? children (bounds.size.along s.axis.cross) p.2 p.1 with
    | none =>
      rw [entriesFrom_none h]
      exact later position
    | some extents =>
      rw [entriesFrom_some h, List.forall_mem_cons]
      refine ⟨⟨p, List.mem_cons_self, ?_⟩, later _⟩
      rw [Rect.ofAxes_along, taken, h]
      rfl

/-- The rectangles together are as long as the panes and the handles that take space. -/
theorem total_batch :
    total ((s.batch children bounds).map fun e => e.2.size.along s.axis) =
      used s.panes ((shown children).map (·.id)) +
        (activeHandles children).length * s.handleWidth := by
  have panes :=
    total_zipIdx_even (fun c => if c.laidOut then sizeOf s.panes c.id else 0) children 0 rfl
  have handles : total (children.zipIdx.map fun p =>
      if isActiveHandle children p.2 then s.handleWidth else 0) =
      (activeHandles children).length * s.handleWidth := by
    have indices : children.zipIdx.map Prod.snd = List.range children.length := by
      rw [List.zipIdx_map_snd, List.range_eq_range']
    rw [activeHandles, ← total_if_eq_mul, ← indices, List.map_map]
    rfl
  rw [batch_eq, total_entriesFrom, List.map_congr_left fun p _ => s.taken_eq children bounds p,
    total_map_add, panes, handles, ← total_map_filter, used, List.map_map]
  rfl

variable {s children bounds}

/-- If the panes and the handles that take space fit into the bounds, the rectangles stay within
them. -/
theorem batch_within (handle : 0 ≤ s.handleWidth)
    (sizes : ∀ c ∈ shown children, 0 ≤ sizeOf s.panes c.id)
    (fits : used s.panes ((shown children).map (·.id)) +
      (activeHandles children).length * s.handleWidth ≤ bounds.size.along s.axis) :
    ∀ e ∈ s.batch children bounds, bounds.start s.axis ≤ e.2.start s.axis ∧
      e.2.start s.axis + e.2.size.along s.axis ≤
        bounds.start s.axis + bounds.size.along s.axis := by
  have tiles := s.batch_tiles children bounds
  have nonneg : ∀ e ∈ s.batch children bounds, 0 ≤ e.2.size.along s.axis := by
    rw [batch_eq]
    intro e he
    obtain ⟨p, hp, same⟩ := s.exists_of_mem_entriesFrom children bounds _ _ e he
    have child := List.mem_zipIdx_iff_getElem?.mp hp
    have pane : 0 ≤ if p.2 % 2 = 0 then
        if p.1.laidOut then sizeOf s.panes p.1.id else 0 else 0 := by
      split
      · next even =>
        split
        · next laid =>
          exact sizes p.1 (List.mem_filter.mpr ⟨mem_alternate_of_getElem? child even, laid⟩)
        · exact Int.le_refl 0
      · exact Int.le_refl 0
    have active : 0 ≤ if isActiveHandle children p.2 then s.handleWidth else 0 := by
      split
      · exact handle
      · exact Int.le_refl 0
    rw [same, taken_eq]
    exact Int.add_nonneg pane active
  intro e he
  have within := tiles.abuts.within nonneg e he
  rw [s.total_batch] at within
  omega

end Extent

section Reset

variable {limits : List Limits} {panes : Panes} {id : Nat} {p : Pane}

/-- Handing out space neither fixes nor frees a pane, and does not move one that keeps its size. -/
theorem distribute_get? (amount : Int) (state : panes.get? id = some p) :
    ∃ p', (distribute limits panes amount).1.get? id = some p' ∧ p'.fixed = p.fixed ∧
      p'.keepsSize = p.keepsSize ∧ (p.keepsSize = true → p' = p) := by
  refine distribute_induction (P := fun t => ∃ p', t.get? id = some p' ∧ p'.fixed = p.fixed ∧
    p'.keepsSize = p.keepsSize ∧ (p.keepsSize = true → p' = p)) ?_ amount
    ⟨p, state, rfl, rfl, fun _ => rfl⟩
  rintro growing t l q - pliable ⟨p', hp', free, movable, kept⟩
  rw [Table.get?_insert]
  split
  · next same =>
    obtain rfl : q = p' := by
      have hq := pliable.state
      rw [same, hp'] at hq
      exact (Option.some.inj hq).symm
    refine ⟨_, rfl, free, movable, fun keeps => ?_⟩
    rw [← movable, pliable.movable] at keeps
    cases keeps
  · exact ⟨p', hp', free, movable, kept⟩

theorem get?_reset (s : Splitter) {children : List Item}
    (distinct : ((shown children).map (·.id)).Nodup) {c : Item} (hc : c ∈ shown children)
    (space : Int) : ∃ stretchTotal, (s.reset children space).panes.get? c.id =
      some (resetPane s.axis space stretchTotal c ((s.panes.get? c.id).getD .fresh)) := by
  have pane : (alternate children).any (·.id == c.id) = true :=
    List.any_eq_true.mpr ⟨c, (List.mem_filter.mp hc).1, beq_self_eq_true _⟩
  let panes := s.panes.keep fun id => (alternate children).any (·.id == id)
  let stretchTotal := totalWeight ((shown children).map fun c => stretchOf panes c.id)
  have kept : panes.get? c.id = s.panes.get? c.id := by
    rw [Table.get?_keep, if_pos pane]
  have state :=
    panes.get?_foldl_modify (·.id) .fresh (resetPane s.axis space stretchTotal) distinct hc
  rw [kept] at state
  exact ⟨stretchTotal, state⟩

theorem minimum_le_max {axis : Axis} {item : Item} (h : 0 < item.max.along axis) :
    item.minimum.along axis ≤ item.max.along axis := by
  cases axis
  · have capped : item.minimum.width = _ := if_pos h
    exact capped.trans_le (Int.min_le_right _ _)
  · have capped : item.minimum.height = _ := if_pos h
    exact capped.trans_le (Int.min_le_right _ _)

theorem Limits.most_eq {axis : Axis} {item : Item} (nonneg : 0 ≤ item.minimum.along axis)
    (limited : 0 < item.max.along axis) :
    (Limits.of axis item).most = some (item.max.along axis) := by
  have most : (Limits.of axis item).most =
      some (max (item.max.along axis) (max (item.minimum.along axis) 0)) := if_pos limited
  rw [most, Int.max_eq_left nonneg, Int.max_eq_left (minimum_le_max limited)]

theorem Limits.fit_least (axis : Axis) (item : Item) :
    (Limits.of axis item).fit (Limits.of axis item).least = (Limits.of axis item).least := by
  have ordered := (allows_fit (least_le_most axis item) (Limits.of axis item).least).2
  unfold fit
  cases h : (Limits.of axis item).most with
  | none => exact Int.max_self _
  | some most => exact Int.max_eq_right (Int.min_le_left _ _)

structure Pane.Restored (p : Pane) (axis : Axis) (item : Item) : Prop where
  least : item.minimum.along axis ≤ p.size
  most : 0 < item.max.along axis → p.size ≤ item.max.along axis
  keepsSize : p.keepsSize = !item.flags.canGrow axis
  kept : p.keepsSize = true → p.size = item.minimum.along axis

section Least

variable (s : Splitter) {children : List Item} {bounds : Rect}

/-- After a reset and after space is handed out, the panes are as they should be, and those are
fixed that were fixed before. -/
theorem restored_of_reset (distinct : ((shown children).map (·.id)).Nodup) {c : Item}
    (hc : c ∈ shown children)
    (nonneg : 0 ≤ c.minimum.along s.axis) (space amount : Int) :
    ∃ p,
      (distribute (s.limits children) (s.reset children space).panes amount).1.get? c.id = some p ∧
      p.Restored s.axis c ∧ p.fixed = ((s.panes.get? c.id).getD .fresh).fixed := by
  have single := single_of_nodup distinct
  obtain ⟨stretchTotal, state⟩ := s.get?_reset distinct hc space
  obtain ⟨p, hp, fixed, keepsSize, kept⟩ :=
    @distribute_get? (s.limits children) _ _ _ amount state
  have limits : Limits.of s.axis c ∈ s.limits children := List.mem_map_of_mem hc
  have within := distribute_allows (s.limits_single single) limits
    (s.reset_allows single space _ limits) amount
  have size : sizeOf (distribute (s.limits children) (s.reset children space).panes amount).1
      (Limits.of s.axis c).id = p.size := sizeOf_of_get? hp
  have least : (Limits.of s.axis c).least = c.minimum.along s.axis := Int.max_eq_left nonneg
  rw [size, Limits.Allows, least] at within
  refine ⟨p, hp, ⟨within.1, fun limited => ?_, keepsSize, fun keeps => ?_⟩, fixed⟩
  · exact within.2 _ (Limits.most_eq nonneg limited)
  · have rigid := keepsSize.symm.trans keeps
    rw [kept rigid, ← least, ← Limits.fit_least]
    exact congrArg (Limits.of s.axis c).fit (if_pos rigid)

theorem minSize_along (children : List Item) : (s.minSize children).along s.axis =
    total ((shown children).map (·.minimum.along s.axis)) +
      (activeHandles children).length * s.handleWidth := by
  have along (main other : Int) : (Size.ofAxes s.axis main other).along s.axis = main := by
    cases s.axis <;> rfl
  rw [minSize, along, List.map_map]
  rfl

variable {s} (restored : ∀ c ∈ shown children, ∃ p, s.panes.get? c.id = some p ∧
  p.Restored s.axis c ∧ p.fixed = false)

include restored

theorem least_le_sizeOf :
    List.Forall₂ (· ≤ ·) ((shown children).map (·.minimum.along s.axis))
      (((shown children).map (·.id)).map (sizeOf s.panes)) := by
  rw [List.map_map, List.forall₂_map_left_iff, List.forall₂_map_right_iff, List.forall₂_same]
  intro c hc
  obtain ⟨p, state, pane, -⟩ := restored c hc
  exact pane.least.trans_eq (sizeOf_of_get? state).symm

/-- Balanced panes of which none is fixed do not need more than the space, if their minimums fit. -/
theorem Balanced.used_le (balanced : s.Balanced children bounds)
    (room : total ((shown children).map (·.minimum.along s.axis)) ≤ s.paneSpace children bounds) :
    used s.panes ((shown children).map (·.id)) ≤ s.paneSpace children bounds := by
  rcases balanced with filled | ⟨wide, -⟩ | ⟨-, spent⟩
  · exact filled.le
  · exact wide.le
  · -- panes that cannot shrink have their minimums
    refine le_trans (total_le_of_forall₂ ?_) room
    rw [List.map_map, List.forall₂_map_left_iff, List.forall₂_map_right_iff, List.forall₂_same]
    intro c hc
    obtain ⟨p, state, pane, free⟩ := restored c hc
    obtain ⟨q, state', stuck⟩ := spent c hc
    obtain rfl := Option.some.inj (state.symm.trans state')
    show sizeOf s.panes c.id ≤ _
    rw [sizeOf_of_get? state]
    rcases stuck with fixed | keeps | least
    · rw [free] at fixed
      cases fixed
    · exact (pane.kept keeps).le
    · exact least

end Least

end Reset

end Splitter

namespace Layout

open Splitter

/-- A pass that clears leaves the panes as they should be, and fixes none of them. -/
theorem restored_of_clears {l : Layout} {s : Splitter} (mode : l.mode = .splitter s) {v : View}
    (distinct : ((shown v.children).map (·.id)).Nodup) (cleared : l.clears v = true) {c : Item}
    (hc : c ∈ shown v.children) (nonneg : 0 ≤ c.minimum.along s.axis)
    (free : ∀ p ∈ s.panes.get? c.id, p.fixed = false) :
    ∃ p, (s.settle v.children v.bounds (l.startsAfresh v.children)).1.panes.get? c.id = some p ∧
      p.Restored s.axis c ∧ p.fixed = false := by
  have pass := s.settle_panes v.children v.bounds (l.startsAfresh v.children)
  rw [rebased_limits, rebased_of_clears mode cleared] at pass
  obtain ⟨p, state, pane, fixed⟩ := s.restored_of_reset distinct hc nonneg
    (s.paneSpace v.children v.bounds) (s.excess v.children v.bounds (l.startsAfresh v.children))
  rw [← pass] at state
  refine ⟨p, state, pane, fixed.trans ?_⟩
  cases before : s.panes.get? c.id with
  | none => rfl
  | some q => exact free q before

/-- Along its axis a splitter does not overflow bounds that are as large as its least size. If no
pane is fixed, a pass that clears brings each pane that is laid out within its limits, those that
cannot grow to their minimums, and all rectangles within the bounds. In bounds just as large as the
least size each pane has its minimum. -/
theorem least_size_suffices {l : Layout} (made : l.Made) (ds : List Deed) {s : Splitter}
    (mode : (l.after ds).mode = .splitter s) (v : View) (distinct : v.ids.Nodup)
    (nonneg : ∀ c ∈ shown v.children, 0 ≤ c.minimum.along s.axis)
    (free : ∀ c ∈ shown v.children, ∀ p ∈ s.panes.get? c.id, p.fixed = false)
    (cleared : (l.after ds).clears v = true)
    (wide : ((l.after ds).freshMinSize (some v) v.bounds.size).along s.axis ≤
      v.bounds.size.along s.axis) :
    let splitter := l.after ds
    let least := (splitter.freshMinSize (some v) v.bounds.size).along s.axis
    let start := v.bounds.start s.axis
    let space := v.bounds.size.along s.axis
    ∃ s', (splitter.undergo (.pass v)).mode = .splitter s' ∧
      (∀ c ∈ shown v.children, ∃ p, s'.panes.get? c.id = some p ∧ p.Restored s.axis c) ∧
      (∀ e ∈ (splitter.arrangement v).batch,
        start ≤ e.2.start s.axis ∧ e.2.start s.axis + e.2.size.along s.axis ≤ start + space) ∧
      (least = space → ∀ c ∈ shown v.children,
        sizeOf s'.panes c.id = c.minimum.along s.axis) := by
  intro splitter least start space
  let reset := splitter.startsAfresh v.children
  let s' := (s.settle v.children v.bounds reset).1
  obtain ⟨passed, arranged⟩ := arrangement_of_splitter mode v
  have axis : s'.axis = s.axis := s.settle_axis v.children v.bounds reset
  have handles : s'.handleWidth = s.handleWidth := s.settle_handleWidth v.children v.bounds reset
  have handle : 0 ≤ s'.handleWidth := by
    have sound := (made.sound ds).mode
    rw [mode] at sound
    exact handles ▸ sound
  have needed : least = total ((shown v.children).map (·.minimum.along s'.axis)) +
      (activeHandles v.children).length * s'.handleWidth := by
    rw [axis, handles, ← s.minSize_along]
    show (splitter.mode.minSize _ _ _).along s.axis = _
    rw [mode]
    rfl
  have minimums : 0 ≤ total ((shown v.children).map (·.minimum.along s'.axis)) :=
    total_nonneg (List.forall_mem_map.mpr fun c hc => axis ▸ nonneg c hc)
  have room : s'.paneSpace v.children v.bounds =
      space - (activeHandles v.children).length * s'.handleWidth := by
    rw [paneSpace, axis, max_eq_left]
    change least ≤ space at wide
    omega
  have restored : ∀ c ∈ shown v.children, ∃ p, s'.panes.get? c.id = some p ∧
      p.Restored s'.axis c ∧ p.fixed = false := by
    intro c hc
    rw [axis]
    exact restored_of_clears mode (shown_nodup distinct) cleared hc (nonneg c hc) (free c hc)
  have held := (holdsShown_after made ds s mode).settle_shown v.children v.bounds reset
  have balanced : s'.Balanced v.children v.bounds :=
    s.settle_balanced v.bounds reset (shown_nodup distinct) held nonneg
  have sizes := least_le_sizeOf restored
  -- where the loop cannot take back more, all panes are at their minimums, and these fit
  have fits : used s'.panes ((shown v.children).map (·.id)) ≤ s'.paneSpace v.children v.bounds := by
    refine balanced.used_le restored ?_
    change least ≤ space at wide
    omega
  refine ⟨s', passed, fun c hc => ?_, ?_, fun tight => ?_⟩
  · obtain ⟨p, state, pane, -⟩ := restored c hc
    exact ⟨p, state, axis ▸ pane⟩
  · have positive : ∀ c ∈ shown v.children, 0 ≤ sizeOf s'.panes c.id := by
      intro c hc
      obtain ⟨p, state, pane, -⟩ := restored c hc
      have least : 0 ≤ c.minimum.along s'.axis := axis ▸ nonneg c hc
      exact (least.trans pane.least).trans_eq (sizeOf_of_get? state).symm
    have within := @batch_within s' v.children v.bounds handle positive
    rw [axis] at within
    rw [arranged]
    exact within (by omega)
  · have same := eq_of_forall₂_of_total_le sizes (by rw [used] at fits; omega)
    rw [axis, List.map_map] at same
    exact fun c hc => (List.map_inj_left.mp same c hc).symm

def jammed (width : Int) : View where
  suspended := false
  children := [{ Item.plain 1 with min := ⟨20, 0⟩, flags := .resizable }, Item.plain 2,
    { Item.plain 3 with min := ⟨30, 0⟩ }, Item.plain 4,
    { Item.plain 5 with min := ⟨90, 0⟩, visible := false }, Item.plain 6,
    { Item.plain 7 with min := ⟨10, 0⟩, max := ⟨15, 0⟩, flags := .resizable }]
  bounds := ⟨5, 7, width, 20⟩

/-- In the least bounds a reset gives the first pane 49 pixels of 60, and the others their minimums.
The loop takes back all that is too much. -/
theorem jammed_within :
    let splitter := columns.after [.change true (some (jammed 68)) (.stretch 1 9), .attach]
    splitter.freshMinSize (some (jammed 68)) ⟨68, 20⟩ = ⟨68, 0⟩ ∧
    (splitter.arrangement (jammed 68)).batch =
      [(1, ⟨5, 7, 20, 20⟩), (2, ⟨25, 7, 4, 20⟩), (3, ⟨29, 7, 30, 20⟩), (4, ⟨59, 7, 0, 0⟩),
        (6, ⟨59, 7, 4, 20⟩), (7, ⟨63, 7, 10, 20⟩)] ∧
    ∃ s', (splitter.undergo (.pass (jammed 68))).mode = .splitter s' ∧
      (∀ c ∈ shown (jammed 68).children, ∃ p, s'.panes.get? c.id = some p ∧
        p.Restored .horizontal c) ∧
      (∀ e ∈ (splitter.arrangement (jammed 68)).batch,
        5 ≤ e.2.x ∧ e.2.x + e.2.width ≤ 5 + 68) ∧
      ∀ c ∈ shown (jammed 68).children, sizeOf s'.panes c.id = c.minimum.width := by
  intro splitter
  obtain ⟨s, mode, axis, panes⟩ : ∃ s, splitter.mode = .splitter s ∧ s.axis = .horizontal ∧
      s.panes = ⟨[(1, { Pane.fresh with stretch := 9, weight := 9 })]⟩ := ⟨_, rfl, rfl, rfl⟩
  have free : ∀ c ∈ shown (jammed 68).children, ∀ p ∈ s.panes.get? c.id, p.fixed = false := by
    rw [panes]
    decide
  have least : splitter.freshMinSize (some (jammed 68)) ⟨68, 20⟩ = ⟨68, 0⟩ := by decide
  obtain ⟨s', passed, restored, within, tight⟩ :=
    least_size_suffices columns_made _ mode (jammed 68) (by decide) (by rw [axis]; decide) free rfl
      (by rw [axis]; decide)
  rw [axis] at restored within tight
  exact ⟨least, by decide, s', passed, restored, within, tight (by decide)⟩

end Layout

end PixelLayout
