import Mathlib.Data.List.Sort
import PixelLayout.Proofs.Extent.Nonnegative
import PixelLayout.Proofs.Splitter.Rounds

/-!
# How a splitter fills its bounds

The batch of a splitter has one entry for each handle and for each pane that is laid out, end to end
from the start of the bounds. The handles that take space are those right before a pane that is laid
out, other than the first such pane. Each pane that was shown at the last pass has a state, so that
the loop that hands out space reaches all of them.
-/

set_option autoImplicit false

namespace PixelLayout

def Batch.Abuts (axis : Axis) : Int → Batch → Prop
  | _, [] => True
  | position, e :: rest =>
    e.2.start axis = position ∧ Abuts axis (position + e.2.size.along axis) rest

namespace Splitter

section Handles

def isShownPane (children : List Item) (index : Nat) : Bool :=
  index % 2 == 0 && (children[index]?).any (·.laidOut)

def shownPlaces (children : List Item) : List Nat :=
  (List.range children.length).filter (isShownPane children)

variable {children : List Item} {i : Nat}

theorem isShownPane_iff : isShownPane children i = true ↔
    i % 2 = 0 ∧ ∃ c, children[i]? = some c ∧ c.laidOut = true := by
  simp [isShownPane, Option.any_eq_true]

theorem mem_shownPlaces : i ∈ shownPlaces children ↔ isShownPane children i = true := by
  rw [shownPlaces, List.mem_filter, List.mem_range]
  constructor
  · exact And.right
  · intro shown
    obtain ⟨-, c, hc, -⟩ := isShownPane_iff.mp shown
    exact ⟨(List.getElem?_eq_some_iff.mp hc).1, shown⟩

theorem any_alternate_take_iff :
    (alternate (children.take i)).any (·.laidOut) = true ↔
      ∃ j < i, isShownPane children j = true := by
  rw [List.any_eq_true]
  constructor
  · rintro ⟨c, hc, laid⟩
    obtain ⟨j, hj, even⟩ := exists_of_mem_alternate hc
    rw [List.getElem?_take] at hj
    split at hj
    · next less => exact ⟨j, less, isShownPane_iff.mpr ⟨even, c, hj, laid⟩⟩
    · cases hj
  · rintro ⟨j, less, shown⟩
    obtain ⟨even, c, hc, laid⟩ := isShownPane_iff.mp shown
    have taken : (children.take i)[j]? = some c := by
      rw [List.getElem?_take, if_pos less, hc]
    exact ⟨c, mem_alternate_of_getElem? taken even, laid⟩

/-- A handle takes space exactly if the child right behind it is a pane that is laid out, and some
pane before it is laid out too. -/
theorem isActiveHandle_iff : isActiveHandle children i = true ↔
    isShownPane children (i + 1) = true ∧ ∃ j < i, isShownPane children j = true := by
  rw [isActiveHandle, Bool.and_eq_true, Bool.and_eq_true, any_alternate_take_iff, isShownPane,
    Bool.and_eq_true, beq_iff_eq, beq_iff_eq]
  have parity : i % 2 = 1 ↔ (i + 1) % 2 = 0 := by omega
  rw [parity]

theorem mem_activeHandles : i ∈ activeHandles children ↔ isActiveHandle children i = true := by
  rw [activeHandles, List.mem_filter, List.mem_range]
  constructor
  · exact And.right
  · intro active
    obtain ⟨-, c, hc, -⟩ := isShownPane_iff.mp (isActiveHandle_iff.mp active).1
    have inside := (List.getElem?_eq_some_iff.mp hc).1
    exact ⟨by omega, active⟩

theorem shownPlaces_pairwise (children : List Item) : (shownPlaces children).Pairwise (· < ·) :=
  List.pairwise_lt_range.filter _

theorem activeHandles_pairwise (children : List Item) :
    (activeHandles children).Pairwise (· < ·) :=
  List.pairwise_lt_range.filter _

/-- In an increasing list everything but the first member has a smaller member. -/
theorem mem_tail_iff {l : List Nat} (increasing : l.Pairwise (· < ·)) {x : Nat} :
    x ∈ l.tail ↔ x ∈ l ∧ ∃ y ∈ l, y < x := by
  cases l with
  | nil => simp
  | cons a l =>
    obtain ⟨first, -⟩ := List.pairwise_cons.mp increasing
    rw [List.tail_cons]
    constructor
    · intro hx
      exact ⟨List.mem_cons_of_mem _ hx, a, List.mem_cons_self, first x hx⟩
    · rintro ⟨hx, y, hy, less⟩
      rcases List.mem_cons.mp hx with rfl | hx
      · rcases List.mem_cons.mp hy with rfl | hy
        · omega
        · have := first y hy
          omega
      · exact hx

/-- The handles that take space are those right before the panes laid out but the first. -/
theorem activeHandles_succ (children : List Item) :
    (activeHandles children).map (· + 1) = (shownPlaces children).tail := by
  have increasing : ((activeHandles children).map (· + 1)).Pairwise (· < ·) := by
    rw [List.pairwise_map]
    exact (activeHandles_pairwise children).imp fun h => by omega
  have places := shownPlaces_pairwise children
  refine increasing.eq_of_mem_iff (places.sublist (List.tail_sublist _)) fun k => ?_
  simp only [mem_tail_iff places, List.mem_map, mem_activeHandles, isActiveHandle_iff,
    mem_shownPlaces]
  constructor
  · rintro ⟨i, ⟨shown, j, less, before⟩, rfl⟩
    exact ⟨shown, j, before, by omega⟩
  · rintro ⟨shown, j, before, less⟩
    have even := (isShownPane_iff.mp shown).1
    have even' := (isShownPane_iff.mp before).1
    -- both indices are even, so the handle between the pane and the one before it is at `k - 1`
    have behind : k - 1 + 1 = k := by omega
    exact ⟨k - 1, ⟨behind.symm ▸ shown, j, by omega, before⟩, behind⟩

end Handles

section Batch

def isPlaced (p : Item × Nat) : Bool := p.2 % 2 == 1 || p.1.laidOut

def placed (children : List Item) : List (Item × Nat) := children.zipIdx.filter isPlaced

/-- How the rectangle of a child lies in the bounds. Along the axis a pane has its size and a handle
that takes space its width, and across it they fill the bounds. Any other handle is empty. -/
structure Spans (s : Splitter) (children : List Item) (bounds : Rect) (p : Item × Nat) (r : Rect) :
    Prop where
  pane : p.2 % 2 = 0 → r.size.along s.axis = sizeOf s.panes p.1.id
  active : isActiveHandle children p.2 = true → r.size.along s.axis = s.handleWidth
  across : p.2 % 2 = 0 ∨ isActiveHandle children p.2 = true →
    r.start s.axis.cross = bounds.start s.axis.cross ∧
      r.size.along s.axis.cross = bounds.size.along s.axis.cross
  empty : p.2 % 2 = 1 → isActiveHandle children p.2 = false → r.size = .zero

structure Tiles (s : Splitter) (children : List Item) (bounds : Rect) (batch : Batch) : Prop where
  entries : List.Forall₂ (fun p e => e.1 = p.1.id ∧ s.Spans children bounds p e.2)
    (placed children) batch
  abuts : batch.Abuts s.axis (bounds.start s.axis)

variable (s : Splitter) (children : List Item) (bounds : Rect)

def entriesFrom (position : Int) (items : List (Item × Nat)) : Batch :=
  ((items.map (·.1)).zip (s.placeFrom children bounds position items)).filterMap
    fun (item, rect) => rect.map fun r => (item.id, r)

theorem batch_eq : s.batch children bounds =
    s.entriesFrom children bounds (bounds.start s.axis) children.zipIdx := by
  rw [entriesFrom, List.zipIdx_map_fst]
  rfl

variable {s children bounds} {p : Item × Nat} {position : Int}

theorem entriesFrom_none (h : s.extent? children (bounds.size.along s.axis.cross) p.2 p.1 = none)
    (items : List (Item × Nat)) : s.entriesFrom children bounds position (p :: items) =
      s.entriesFrom children bounds position items := by
  simp [entriesFrom, placeFrom, h]

theorem entriesFrom_some {e : Int × Int}
    (h : s.extent? children (bounds.size.along s.axis.cross) p.2 p.1 = some e)
    (items : List (Item × Nat)) : s.entriesFrom children bounds position (p :: items) =
      (p.1.id, .ofAxes s.axis position (bounds.start s.axis.cross) e.1 e.2) ::
        s.entriesFrom children bounds (position + e.1) items := by
  simp [entriesFrom, placeFrom, h]

theorem isSome_extent? (s : Splitter) (children : List Item) (across : Int) (p : Item × Nat) :
    (s.extent? children across p.2 p.1).isSome = isPlaced p := by
  unfold extent? isPlaced
  cases p.2 % 2 == 1 <;> cases p.1.laidOut <;> rfl

/-- With its extent a child spans the bounds. -/
theorem spans_of_extent? {e : Int × Int}
    (h : s.extent? children (bounds.size.along s.axis.cross) p.2 p.1 = some e) (position : Int) :
    s.Spans children bounds p (.ofAxes s.axis position (bounds.start s.axis.cross) e.1 e.2) := by
  unfold extent? at h
  split at h
  · next odd =>
    have odd : p.2 % 2 = 1 := beq_iff_eq.mp odd
    cases active : isActiveHandle children p.2 with
    | true =>
      rw [active] at h
      cases h
      constructor
      · omega
      · exact fun _ => Rect.ofAxes_along ..
      · exact fun _ => ⟨Rect.ofAxes_start_cross .., Rect.ofAxes_across ..⟩
      · exact fun _ inactive => absurd (active.symm.trans inactive) nofun
    | false =>
      rw [active] at h
      cases h
      constructor
      · omega
      · exact fun h => absurd (active.symm.trans h) nofun
      · rintro (even | h)
        · omega
        · exact absurd (active.symm.trans h) nofun
      · intro _ _
        cases s.axis <;> rfl
  · next even =>
    have even : ¬ p.2 % 2 = 1 := fun odd => even (beq_iff_eq.mpr odd)
    split at h
    · cases h
      constructor
      · exact fun _ => Rect.ofAxes_along ..
      · intro active
        simp [isActiveHandle, even] at active
      · exact fun _ => ⟨Rect.ofAxes_start_cross .., Rect.ofAxes_across ..⟩
      · exact fun odd => absurd odd even
    · cases h

theorem entriesFrom_spans (position : Int) (items : List (Item × Nat)) :
    List.Forall₂ (fun p e => e.1 = p.1.id ∧ s.Spans children bounds p e.2)
      (items.filter isPlaced) (s.entriesFrom children bounds position items) := by
  induction items generalizing position with
  | nil => exact .nil
  | cons p items ih =>
    have some := s.isSome_extent? children (bounds.size.along s.axis.cross) p
    cases h : s.extent? children (bounds.size.along s.axis.cross) p.2 p.1 with
    | none =>
      rw [h] at some
      rw [entriesFrom_none h, List.filter_cons_of_neg (by simp [← some])]
      exact ih position
    | some e =>
      rw [h] at some
      rw [entriesFrom_some h, List.filter_cons_of_pos some.symm]
      exact .cons ⟨rfl, spans_of_extent? h position⟩ (ih _)

theorem entriesFrom_abuts (position : Int) (items : List (Item × Nat)) :
    (s.entriesFrom children bounds position items).Abuts s.axis position := by
  induction items generalizing position with
  | nil => trivial
  | cons p items ih =>
    cases h : s.extent? children (bounds.size.along s.axis.cross) p.2 p.1 with
    | none =>
      rw [entriesFrom_none h]
      exact ih position
    | some e =>
      rw [entriesFrom_some h]
      constructor
      · exact Rect.ofAxes_start ..
      · rw [Rect.ofAxes_along]
        exact ih _

variable (s children bounds)

theorem batch_tiles : s.Tiles children bounds (s.batch children bounds) := by
  rw [batch_eq]
  exact ⟨entriesFrom_spans _ _, entriesFrom_abuts _ _⟩

end Batch

section Held

def Held (s : Splitter) : Prop := ∀ id ∈ s.lastShown, s.panes.contains id = true

theorem Held.settle {s : Splitter} (h : s.Held) (children : List Item) (bounds : Rect)
    (reset : Bool) : (s.settle children bounds reset).1.Held := by
  intro id hid
  rw [contains_settle]
  change id ∈ (s.rebased children bounds reset).lastShown at hid
  unfold rebased at hid ⊢
  split at hid
  · next again =>
    rw [if_pos again, contains_reset, Bool.or_eq_true]
    left
    obtain ⟨c, hc, rfl⟩ := List.mem_map.mp hid
    exact List.any_eq_true.mpr ⟨c, hc, beq_self_eq_true _⟩
  · next kept =>
    rw [if_neg kept]
    exact h id hid

theorem Held.settle_shown {s : Splitter} (h : s.Held) (children : List Item) (bounds : Rect)
    (reset : Bool) : ∀ c ∈ shown children,
      (s.settle children bounds reset).1.panes.contains c.id = true := by
  intro c hc
  have lastShown : (s.settle children bounds reset).1.lastShown = (shown children).map (·.id) :=
    s.rebased_lastShown bounds reset
  exact h.settle children bounds reset c.id (lastShown ▸ List.mem_map_of_mem hc)

end Held

end Splitter

namespace Layout

/-- A pass settles the sizes of a splitter and gives the batch for them. -/
theorem arrangement_of_splitter {l : Layout} {s : Splitter} (mode : l.mode = .splitter s)
    (v : View) :
    let settled := (s.settle v.children v.bounds (l.startsAfresh v.children)).1
    (l.arrangement v).mode = .splitter settled ∧
      (l.arrangement v).batch = settled.batch v.children v.bounds := by
  rw [arrangement, mode]
  exact ⟨rfl, rfl⟩

def HoldsShown (l : Layout) : Prop := ∀ s, l.mode = .splitter s → s.Held

variable {l l' : Layout} {view : Option View} {c : Change}

theorem HoldsShown.revised (h : l.HoldsShown) (revised : Revised l view c l') :
    l'.HoldsShown := by
  intro s' hs'
  cases revised with
  | margins | spacing | alignment => exact h s' hs'
  | boxAxis | boxStretch | flowStretch | range | rowStretch | columnStretch => cases hs'
  | splitterAxis hm | handleWidth hm =>
    cases hs'
    have held := h _ hm
    exact held
  | splitterStretch hm =>
    cases hs'
    intro id hid
    rw [Splitter.contains_restretch, h _ hm id hid, Bool.or_true]
  | fixed hm =>
    cases hs'
    intro id hid
    rw [Table.contains_modify, h _ hm id hid, Bool.or_true]
  | fractions hm =>
    cases hs'
    intro id hid
    rw [Splitter.contains_pinAll, h _ hm id hid, Bool.or_true]
  | release hm =>
    cases hs'
    intro id hid
    rw [Splitter.contains_drop, h _ hm id hid, Bool.or_true, Bool.or_true]

theorem HoldsShown.undergo (h : l.HoldsShown) (d : Deed) : (l.undergo d).HoldsShown := by
  cases d with
  | attach | detach | request | start | mark => exact h
  | query view size =>
    intro s hs
    exact h s ((minSizeFor_mode view size).symm.trans hs)
  | pass v =>
    intro s' hs'
    change (l.mode.arrange _ _ _ _).mode = .splitter s' at hs'
    cases hm : l.mode with
    | box | grid | flow =>
      rw [hm] at hs'
      cases hs'
    | splitter s =>
      rw [hm] at hs'
      cases hs'
      exact (h s hm).settle _ _ _
  | change attached view c =>
    simp only [Layout.undergo]
    cases hr : l.revised? attached view c with
    | none => exact h
    | some l' =>
      have held := h.revised (revised_of_revised? hr)
      exact held

theorem holdsShown_after (made : l.Made) (ds : List Deed) : (l.after ds).HoldsShown := by
  refine after_induction (fun l d h => h.undergo d) ?_ ds
  intro s hs
  have fresh := made.new.mode
  rw [hs] at fresh
  cases fresh
  nofun

open Splitter in
/-- At all times a pass over a splitter tiles the bounds, and the handles that take space are those
right before the panes laid out but the first. The loop that hands out the space the panes do not
fill ends, after no more rounds than there are pixels, with the panes balanced. -/
theorem splitter_tiles (made : l.Made) (ds : List Deed) {s : Splitter}
    (mode : (l.after ds).mode = .splitter s) (v : View) (distinct : v.ids.Nodup)
    (nonneg : ∀ c ∈ v.children, 0 ≤ c.minimum.along s.axis) :
    let splitter := l.after ds
    let reset := splitter.startsAfresh v.children
    let start := s.rebased v.children v.bounds reset
    let excess := s.excess v.children v.bounds reset
    ∃ s', (splitter.passed v).mode = .splitter s' ∧
      s'.Tiles v.children v.bounds (splitter.arrangement v).batch ∧
      (activeHandles v.children).map (· + 1) = (shownPlaces v.children).tail ∧
      (∃ n ≤ excess.natAbs, ∃ left, ∀ k x,
        Rounds (s'.limits v.children) k (start.panes, excess) x ↔ k = n ∧ x = (s'.panes, left)) ∧
      s'.Balanced v.children v.bounds := by
  intro splitter reset start excess
  let s' := (s.settle v.children v.bounds reset).1
  have passed : (splitter.passed v).mode = .splitter s' := by
    show (splitter.mode.arrange _ _ _ _).mode = _
    rw [mode]
    rfl
  have arranged : (splitter.arrangement v).batch = s'.batch v.children v.bounds := by
    show (splitter.mode.arrange _ _ _ _).batch = _
    rw [mode]
    rfl
  have held := (holdsShown_after made ds s mode).settle_shown v.children v.bounds reset
  have shown : ∀ c ∈ shown v.children, 0 ≤ c.minimum.along s.axis := fun c hc =>
    nonneg c ((alternate_sublist _).subset (List.mem_filter.mp hc).1)
  obtain ⟨n, few, rounds⟩ := rounds_distribute (start.limits v.children) start.panes excess
  exact ⟨s', passed, arranged ▸ s'.batch_tiles v.children v.bounds, activeHandles_succ _,
    ⟨n, few, _, rounds⟩, s.settle_balanced v.bounds reset (shown_nodup distinct) held shown⟩

def halfHidden : View where
  suspended := false
  children := [{ Item.plain 1 with visible := false }, Item.plain 2,
    { Item.plain 3 with max := ⟨30, 0⟩, flags := .resizable }, Item.plain 4,
    { Item.plain 5 with visible := false }, Item.plain 6,
    { Item.plain 7 with flags := .resizable }]
  bounds := ⟨5, 7, 104, 20⟩

open Splitter in
theorem half_hidden_tiles :
    ((columns.after [.attach]).arrangement halfHidden).batch =
      [(2, ⟨5, 7, 0, 0⟩), (3, ⟨5, 7, 30, 20⟩), (4, ⟨35, 7, 0, 0⟩), (6, ⟨35, 7, 4, 20⟩),
        (7, ⟨39, 7, 70, 20⟩)] ∧
    (activeHandles halfHidden.children).map (· + 1) = [6] ∧
    ∃ s', ((columns.after [.attach]).passed halfHidden).mode = .splitter s' ∧
      s'.Tiles halfHidden.children halfHidden.bounds
        ((columns.after [.attach]).arrangement halfHidden).batch ∧
      s'.Balanced halfHidden.children halfHidden.bounds ∧
      ∃ n ≤ 20, ∃ start left,
        Rounds (s'.limits halfHidden.children) n (start, 20) (s'.panes, left) := by
  have made : columns.Made := .splitter (show splitter .horizontal none = .ok columns from rfl)
  obtain ⟨s', mode, tiles, active, ⟨n, few, left, rounds⟩, balanced⟩ :=
    splitter_tiles made [.attach] rfl halfHidden (by decide) (by decide)
  exact ⟨by decide, active, s', mode, tiles, balanced, n, few, _, left,
    (rounds n _).mpr ⟨rfl, rfl⟩⟩

end Layout

end PixelLayout
