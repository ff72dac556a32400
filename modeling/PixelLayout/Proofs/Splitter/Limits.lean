import PixelLayout.Proofs.Splitter.Reversal
import PixelLayout.Proofs.Splitter.Tiling

/-!
# Sizes and limits of panes

A reset fits each pane into its limits, and handing out space moves no pane out of them: one that is
too small does not shrink, and one that is too large does not grow. The two panes around a handle
and the handle itself fill a span without gaps. So a handle that is let go leaves both panes their
minimums, if they had them before; it does not look at the maximums.
-/

set_option autoImplicit false

namespace PixelLayout.Splitter

theorem Limits.allows_fit {l : Limits} (sound : ∀ most ∈ l.most, l.least ≤ most) (size : Int) :
    l.Allows (l.fit size) := by
  constructor
  · exact Int.le_max_right _ _
  · intro most hmost
    have ordered := sound most hmost
    have fitted : l.fit size = max (min size most) l.least := by
      rw [fit, Option.mem_def.mp hmost]
      rfl
    omega

theorem Limits.least_le_most (axis : Axis) (item : Item) :
    ∀ most ∈ (Limits.of axis item).most, (Limits.of axis item).least ≤ most := by
  intro most hmost
  simp only [Limits.of, Option.mem_def] at hmost ⊢
  split at hmost
  · cases hmost
    exact Int.le_max_right _ _
  · cases hmost

section Sizes

variable {α : Type} {panes : Panes}

theorem sizeOf_modify (panes : Panes) (id id' : Nat) {f : Pane → Pane}
    (keeps : ∀ p, (f p).size = p.size) :
    sizeOf (panes.modify id .fresh f) id' = sizeOf panes id' := by
  rw [Table.modify, sizeOf_insert]
  split
  · next same =>
    subst same
    rw [keeps, sizeOf]
    cases panes.get? id <;> rfl
  · rfl

theorem sizeOf_foldl_modify (panes : Panes) (id : Nat) (key : α → Nat) {f : α → Pane → Pane}
    (keeps : ∀ a p, (f a p).size = p.size) (as : List α) :
    sizeOf (as.foldl (fun t a => t.modify (key a) .fresh (f a)) panes) id = sizeOf panes id := by
  induction as generalizing panes with
  | nil => rfl
  | cons a as ih => rw [List.foldl_cons, ih, sizeOf_modify panes _ _ (keeps a)]

theorem sizeOf_map (panes : Panes) (id : Nat) {f : Pane → Pane}
    (keeps : ∀ p, (f p).size = p.size) : sizeOf (panes.map f) id = sizeOf panes id := by
  rw [sizeOf, Table.get?_map, Option.map_map, sizeOf]
  exact congrArg (fun g => ((panes.get? id).map g).getD 0) (funext keeps)

theorem sizeOf_restretch (s : Splitter) (item factor id : Nat) :
    sizeOf (s.restretch item factor).panes id = sizeOf s.panes id := by
  rw [← sizeOf_modify s.panes item id (f := fun p => { p with stretch := factor }) fun _ => rfl]
  exact sizeOf_map (f := fun p => { p with fraction := none, weight := p.stretch }) _ id fun _ => rfl

theorem sizeOf_pinAll (s : Splitter) (shares : List (Nat × Float)) (id : Nat) :
    sizeOf (s.pinAll shares).panes id = sizeOf s.panes id :=
  sizeOf_foldl_modify s.panes id Prod.fst (f := fun share p =>
    { p with fraction := some share.2, weight := fractionWeight share.2, growth := 0 })
    (fun _ _ => rfl) shares

theorem sizeOf_drop (s : Splitter) (d : Drag) (position : Int) (id : Nat) :
    sizeOf (s.drop d position).panes id =
      if d.after = id then d.stop - position - s.handleWidth
      else if d.before = id then position - d.start
      else sizeOf s.panes id := by
  refine (sizeOf_map (f := Pane.pin _) _ id fun _ => rfl).trans ?_
  rw [Table.modify, sizeOf_insert, Table.modify, sizeOf_insert]

end Sizes

section Pass

variable {limits : List Limits}

/-- Handing out space moves the size of a pane towards its limits or keeps it within them. -/
theorem distribute_narrows (single : ∀ l ∈ limits, ∀ l' ∈ limits, l.id = l'.id → l = l')
    {l : Limits} (hl : l ∈ limits) (panes : Panes) (amount : Int) :
    min l.least (sizeOf panes l.id) ≤ sizeOf (distribute limits panes amount).1 l.id ∧
      ∀ most ∈ l.most, sizeOf (distribute limits panes amount).1 l.id ≤
        max most (sizeOf panes l.id) := by
  refine distribute_induction (P := fun t => min l.least (sizeOf panes l.id) ≤ sizeOf t l.id ∧
    ∀ most ∈ l.most, sizeOf t l.id ≤ max most (sizeOf panes l.id)) ?_ amount ?_
  · intro growing t l' p hl' pliable kept
    rw [sizeOf_insert]
    split
    · next same =>
      obtain rfl := single l' hl' l hl same
      have size : sizeOf t l'.id = p.size := sizeOf_of_get? pliable.state
      rw [size] at kept
      have room := pliable.room
      cases growing with
      | true =>
        simp only [hasRoom, if_true, Option.all_eq_true, decide_eq_true_eq] at room
        refine ⟨?_, fun most hmost => ?_⟩
        · exact Int.le_trans kept.1 (Int.le_add_of_nonneg_right (by decide))
        · exact Int.le_trans (room most hmost) (Int.le_max_left _ _)
      | false =>
        simp only [hasRoom, Bool.false_eq_true, if_false, decide_eq_true_eq] at room
        refine ⟨?_, fun most hmost => ?_⟩
        · exact Int.le_trans (Int.min_le_left _ _) (Int.le_sub_one_of_lt room)
        · exact Int.le_trans (Int.sub_le_self _ (by decide)) (kept.2 most hmost)
    · exact kept
  · exact ⟨Int.min_le_right _ _, fun _ _ => Int.le_max_right _ _⟩

/-- So what the limits allow they allow afterwards. -/
theorem distribute_allows (single : ∀ l ∈ limits, ∀ l' ∈ limits, l.id = l'.id → l = l')
    {l : Limits} (hl : l ∈ limits) {panes : Panes} (within : l.Allows (sizeOf panes l.id))
    (amount : Int) : l.Allows (sizeOf (distribute limits panes amount).1 l.id) := by
  obtain ⟨least, most⟩ := distribute_narrows single hl panes amount
  refine ⟨?_, fun m hm => ?_⟩
  · rwa [Int.min_eq_left within.1] at least
  · exact Int.max_eq_left (within.2 m hm) ▸ most m hm

variable (s : Splitter) {children : List Item}

/-- A pane that a reset shows has a state that the reset made for an item of its id. -/
theorem exists_get?_reset {c : Item} (hc : c ∈ shown children) (space : Int) :
    ∃ c' ∈ shown children, c'.id = c.id ∧ ∃ stretchTotal p,
      (s.reset children space).panes.get? c.id =
        some (resetPane s.axis space stretchTotal c' p) := by
  have known : c.id ∈ (shown children).map (·.id) := List.mem_map_of_mem hc
  let panes := s.panes.keep fun id => (alternate children).any (·.id == id)
  let stretchTotal := totalWeight ((shown children).map fun c => stretchOf panes c.id)
  obtain ⟨c', hc', same, p, state⟩ := Table.exists_get?_foldl_modify panes (·.id) .fresh
    (resetPane s.axis space stretchTotal) known
  exact ⟨c', hc', same, stretchTotal, p, state⟩

theorem reset_allows
    (single : ∀ c ∈ shown children, ∀ c' ∈ shown children, c.id = c'.id → c = c') (space : Int) :
    ∀ l ∈ s.limits children, l.Allows (sizeOf (s.reset children space).panes l.id) := by
  intro l hl
  obtain ⟨c, hc, rfl⟩ := List.mem_map.mp hl
  obtain ⟨c', hc', same, stretchTotal, p, state⟩ := s.exists_get?_reset hc space
  obtain rfl := single c' hc' c hc same
  show (Limits.of s.axis c').Allows (sizeOf _ c'.id)
  rw [sizeOf_of_get? state]
  exact Limits.allows_fit (Limits.least_le_most s.axis c') _

theorem single_of_nodup (distinct : ((shown children).map (·.id)).Nodup) :
    ∀ c ∈ shown children, ∀ c' ∈ shown children, c.id = c'.id → c = c' :=
  fun _ hc _ hc' same => List.inj_on_of_nodup_map distinct hc hc' same

theorem limits_single
    (single : ∀ c ∈ shown children, ∀ c' ∈ shown children, c.id = c'.id → c = c') :
    ∀ l ∈ s.limits children, ∀ l' ∈ s.limits children, l.id = l'.id → l = l' := by
  intro l hl l' hl' same
  obtain ⟨c, hc, rfl⟩ := List.mem_map.mp hl
  obtain ⟨c', hc', rfl⟩ := List.mem_map.mp hl'
  rw [single c hc c' hc' same]

theorem rebased_limits (bounds : Rect) (reset : Bool) :
    (s.rebased children bounds reset).limits children = s.limits children := by
  rw [limits, limits, rebased_axis]

end Pass

section Span

variable (s : Splitter) (children : List Item) (cross : Int)

def width (index : Nat) : Int :=
  ((children[index]?).bind (s.extent? children cross index)).elim 0 (·.1)

def offset : Nat → Int
  | 0 => 0
  | index + 1 => offset index + s.width children cross index

variable {s children cross}

theorem width_pane {index : Nat} (even : index % 2 = 0) {c : Item} (hc : children[index]? = some c)
    (laid : c.laidOut = true) : s.width children cross index = sizeOf s.panes c.id := by
  simp [width, hc, extent?, even, laid]

theorem width_handle {index : Nat} (active : isActiveHandle children index = true)
    (inside : index < children.length) : s.width children cross index = s.handleWidth := by
  have odd : index % 2 = 1 := by
    simp only [isActiveHandle, Bool.and_eq_true, beq_iff_eq] at active
    exact active.1.1
  simp [width, List.getElem?_eq_getElem inside, extent?, odd, active]

/-- A pane that is not laid out takes up nothing, and neither does a handle that is not active. -/
theorem width_eq_zero {index : Nat} (hidden : isShownPane children index = false)
    (inactive : isActiveHandle children index = false) : s.width children cross index = 0 := by
  unfold width
  cases hc : children[index]? with
  | none => rfl
  | some c =>
    simp only [isShownPane, hc, Option.any_some, Bool.and_eq_false_iff] at hidden
    rw [Option.bind_some, extent?, inactive]
    by_cases odd : index % 2 = 1
    · simp [odd]
    · have laid : c.laidOut = false := hidden.resolve_left (by simp; omega)
      simp [odd, laid]

/-- Each rectangle lies behind what is before it. -/
theorem placeFrom_getD (s : Splitter) (bounds : Rect) {index : Nat} {items : List Item}
    (h : ∀ j, items[j]? = children[index + j]?) (j : Nat) :
    let cross := bounds.size.along s.axis.cross
    (s.placeFrom children bounds (bounds.start s.axis + s.offset children cross index)
        (items.zipIdx index)).getD j none =
      ((children[index + j]?).bind (s.extent? children cross (index + j))).map fun e =>
        .ofAxes s.axis (bounds.start s.axis + s.offset children cross (index + j))
          (bounds.start s.axis.cross) e.1 e.2 := by
  intro cross
  induction items generalizing index j with
  | nil =>
    rw [← h j]
    rfl
  | cons c items ih =>
    have first : children[index]? = some c := (h 0).symm
    have rest : ∀ j, items[j]? = children[index + 1 + j]? := by
      intro j
      rw [show index + 1 + j = index + (j + 1) by omega, ← h (j + 1)]
      rfl
    have next : s.offset children cross (index + 1) = s.offset children cross index +
        ((s.extent? children cross index c).elim 0 (·.1)) := by
      rw [offset, width, first, Option.bind_some]
    rw [List.zipIdx_cons, placeFrom]
    cases he : s.extent? children (bounds.size.along s.axis.cross) index c with
    | none =>
      have next : s.offset children cross (index + 1) = s.offset children cross index := by
        rw [next, he]
        exact Int.add_zero _
      cases j with
      | zero => simp [cross, first, he]
      | succ j =>
        rw [show index + (j + 1) = index + 1 + j by omega, ← ih rest j, next]
        rfl
    | some e =>
      have next : s.offset children cross (index + 1) = s.offset children cross index + e.1 := by
        rw [next, he]
        rfl
      cases j with
      | zero => simp [cross, first, he]
      | succ j =>
        rw [show index + (j + 1) = index + 1 + j by omega, ← ih rest j, next, ← Int.add_assoc]
        rfl

theorem place_getD (s : Splitter) (children : List Item) (bounds : Rect) (j : Nat) :
    let cross := bounds.size.along s.axis.cross
    (s.place children bounds).getD j none =
      ((children[j]?).bind (s.extent? children cross j)).map fun e =>
        .ofAxes s.axis (bounds.start s.axis + s.offset children cross j)
          (bounds.start s.axis.cross) e.1 e.2 := by
  have all : ∀ j, children[j]? = children[0 + j]? := fun j => by rw [Nat.zero_add]
  have h := s.placeFrom_getD bounds all j
  simpa only [place, offset, Int.add_zero, Nat.zero_add] using h

theorem isSome_place_getD (bounds : Rect) {j : Nat} (even : j % 2 = 0) :
    ((s.place children bounds).getD j none).isSome = isShownPane children j := by
  rw [place_getD, Option.isSome_map, isShownPane]
  cases children[j]? with
  | none => simp
  | some c => cases laid : c.laidOut <;> simp [extent?, even, laid]

/-- The pane before a handle is the last one before it that is laid out. -/
theorem shown_of_paneBefore {bounds : Rect} {handle i : Nat}
    (h : paneBefore? (s.place children bounds) handle = some i) :
    isShownPane children i = true ∧ i < handle ∧
      ∀ j, i < j → j < handle → isShownPane children j = false := by
  obtain ⟨hi, later, earlier, split, none⟩ := List.find?_eq_some_iff_append.mp h
  rw [Bool.and_eq_true, beq_iff_eq] at hi
  have order : (List.range handle).reverse.Pairwise (· > ·) :=
    List.pairwise_reverse.mpr List.pairwise_lt_range
  refine ⟨?_, ?_, fun j after before => ?_⟩
  · rw [← isSome_place_getD bounds hi.1]
    exact hi.2
  · have member : i ∈ (List.range handle).reverse := by
      rw [split]
      simp
    simpa using member
  · have member : j ∈ later ++ i :: earlier := by
      rw [← split]
      simpa using before
    have behind : j ∈ later := by
      rw [split, List.pairwise_append, List.pairwise_cons] at order
      rcases List.mem_append.mp member with behind | ahead
      · exact behind
      · rcases List.mem_cons.mp ahead with rfl | ahead
        · omega
        · have := order.2.1.1 j ahead
          omega
    have hidden := none j behind
    rw [Bool.not_eq_true', Bool.and_eq_false_iff] at hidden
    by_cases even : j % 2 = 0
    · rw [← isSome_place_getD bounds even]
      exact hidden.resolve_left (by simp [even])
    · simp [isShownPane, even]

/-- Between the two panes around a handle nothing takes up space but the handle. -/
theorem offset_of_hidden {i handle : Nat} (odd : handle % 2 = 1)
    (hidden : ∀ j, i < j → j < handle → isShownPane children j = false) (n : Nat)
    (before : i + 1 + n ≤ handle) :
    s.offset children cross (i + 1 + n) = s.offset children cross (i + 1) := by
  induction n with
  | zero => rfl
  | succ n ih =>
    have inactive : isActiveHandle children (i + 1 + n) = false := by
      rw [Bool.eq_false_iff, Ne, isActiveHandle_iff]
      rintro ⟨shown, -⟩
      -- the pane right behind an active handle is laid out, and it is not behind the odd `handle`
      have even := (isShownPane_iff.mp shown).1
      rw [hidden _ (by omega) (by omega)] at shown
      cases shown
    rw [show i + 1 + (n + 1) = i + 1 + n + 1 from rfl, offset, ih (by omega),
      width_eq_zero (hidden _ (by omega) (by omega)) inactive, Int.add_zero]

/-- A handle that takes space, with the panes around it: the one right behind it, and the last one
before it that is laid out, which is the child at `index`. The drag may move it between the start of
the one and the end of the other, as far as both have their minimums. -/
structure Grip (s : Splitter) (children : List Item) (bounds : Rect) (handle : Nat) (d : Drag)
    (index : Nat) (before after : Item) : Prop where
  active : isActiveHandle children handle = true
  first : children[index]? = some before
  second : children[handle + 1]? = some after
  even : index % 2 = 0
  odd : handle % 2 = 1
  laid : before.laidOut = true
  laid' : after.laidOut = true
  ahead : index < handle
  hidden : ∀ j, index < j → j < handle → isShownPane children j = false
  drag : let cross := bounds.size.along s.axis.cross
    d = {
      before := before.id
      start := bounds.start s.axis + s.offset children cross index
      after := after.id
      stop := bounds.start s.axis + s.offset children cross (handle + 2)
      low := bounds.start s.axis + s.offset children cross index + (Limits.of s.axis before).least
      high := bounds.start s.axis + s.offset children cross (handle + 2)
        - (Limits.of s.axis after).least - s.handleWidth }

/-- A pane that is laid out has a rectangle behind what is before it. -/
theorem place_of_pane (s : Splitter) {children : List Item} (bounds : Rect) {index : Nat} {c : Item}
    (hc : children[index]? = some c) (even : index % 2 = 0) (laid : c.laidOut = true) :
    let cross := bounds.size.along s.axis.cross
    (s.place children bounds).getD index none = some (.ofAxes s.axis
      (bounds.start s.axis + s.offset children cross index) (bounds.start s.axis.cross)
      (sizeOf s.panes c.id) cross) := by
  rw [place_getD, hc]
  simp [extent?, even, laid]

theorem exists_grip {bounds : Rect} {handle : Nat} {d : Drag}
    (h : s.drag? children bounds handle = some d) :
    ∃ index before after, s.Grip children bounds handle d index before after := by
  obtain ⟨active, i, before, after, first, second, hi, hbefore, hafter, hfirst, hsecond, rfl⟩ :=
    drag_eq_some h
  obtain ⟨shownBefore, less, hidden⟩ := shown_of_paneBefore hi
  obtain ⟨shownAfter, -⟩ := isActiveHandle_iff.mp active
  obtain ⟨even, c, hc, laid⟩ := isShownPane_iff.mp shownBefore
  obtain ⟨even', c', hc', laid'⟩ := isShownPane_iff.mp shownAfter
  obtain rfl : c = before := Option.some.inj (hc.symm.trans hbefore)
  obtain rfl : c' = after := Option.some.inj (hc'.symm.trans hafter)
  rw [s.place_of_pane bounds hc even laid] at hfirst
  rw [s.place_of_pane bounds hc' even' laid'] at hsecond
  obtain rfl := Option.some.inj hfirst
  obtain rfl := Option.some.inj hsecond
  refine ⟨i, c, c', active, hc, hc', even, by omega, laid, laid', less, hidden, ?_⟩
  have behind : s.width children (bounds.size.along s.axis.cross) (handle + 1) =
      sizeOf s.panes c'.id := width_pane even' hc' laid'
  simp only [Rect.ofAxes_start, Rect.ofAxes_along, Int.add_assoc, offset, behind]

namespace Grip

variable {bounds : Rect} {handle index : Nat} {d : Drag} {before after : Item}
  (grip : s.Grip children bounds handle d index before after)

include grip

theorem before_mem : before ∈ shown children :=
  List.mem_filter.mpr ⟨mem_alternate_of_getElem? grip.first grip.even, grip.laid⟩

theorem after_mem : after ∈ shown children := by
  have even : (handle + 1) % 2 = 0 := by
    have := grip.odd
    omega
  exact List.mem_filter.mpr ⟨mem_alternate_of_getElem? grip.second even, grip.laid'⟩

theorem shown_before : isShownPane children index = true :=
  isShownPane_iff.mpr ⟨grip.even, before, grip.first, grip.laid⟩

theorem shown_after : isShownPane children (handle + 1) = true :=
  (isActiveHandle_iff.mp grip.active).1

theorem before_eq : d.before = before.id := by rw [grip.drag]

theorem after_eq : d.after = after.id := by rw [grip.drag]

theorem low_eq : d.low = d.start + (Limits.of s.axis before).least := by rw [grip.drag]

theorem high_eq : d.high = d.stop - (Limits.of s.axis after).least - s.handleWidth := by
  rw [grip.drag]

/-- The handle is right behind the pane before it. -/
theorem offset_handle (cross : Int) : s.offset children cross handle =
    s.offset children cross index + sizeOf s.panes before.id := by
  have ahead := grip.ahead
  have between : s.offset children cross (index + 1 + (handle - (index + 1))) =
      s.offset children cross (index + 1) := offset_of_hidden grip.odd grip.hidden _ (by omega)
  rwa [show index + 1 + (handle - (index + 1)) = handle by omega, offset,
    width_pane grip.even grip.first grip.laid] at between

theorem offset_stop (cross : Int) : s.offset children cross (handle + 2) =
    s.offset children cross handle + s.handleWidth + sizeOf s.panes after.id := by
  have odd := grip.odd
  have behind := (List.getElem?_eq_some_iff.mp grip.second).1
  rw [offset, offset, width_handle grip.active (by omega),
    width_pane (by omega) grip.second grip.laid']

/-- The span of the panes is their sizes and the width of the handle. -/
theorem span : d.stop - d.start =
    sizeOf s.panes before.id + s.handleWidth + sizeOf s.panes after.id := by
  rw [grip.drag]
  show _ + s.offset children _ (handle + 2) - (_ + s.offset children _ index) = _
  rw [grip.offset_stop, grip.offset_handle]
  omega

end Grip

/-- The range of a handle leaves both panes their minimums, and the span of the two is their sizes
and the width of the handle. -/
theorem span_of_drag {bounds : Rect} {handle : Nat} {d : Drag}
    (h : s.drag? children bounds handle = some d) :
    ∃ before ∈ shown children, ∃ after ∈ shown children,
      d.before = before.id ∧ d.after = after.id ∧
      d.low = d.start + (Limits.of s.axis before).least ∧
      d.high = d.stop - (Limits.of s.axis after).least - s.handleWidth ∧
      d.stop - d.start = sizeOf s.panes before.id + s.handleWidth + sizeOf s.panes after.id := by
  obtain ⟨index, before, after, grip⟩ := exists_grip h
  exact ⟨before, grip.before_mem, after, grip.after_mem, grip.before_eq, grip.after_eq, grip.low_eq,
    grip.high_eq, grip.span⟩

section Clamp

variable {d : Drag} {position : Int}

theorem Drag.clamp_of_within (h : d.low ≤ position) (h' : position ≤ d.high) :
    d.clamp position = position := by
  rw [clamp, if_neg (by omega), if_neg (by omega)]

theorem Drag.clamp_of_lt (h : position < d.low) : d.clamp position = d.low := if_pos h

theorem Drag.clamp_of_gt (ordered : d.low ≤ d.high) (h : d.high < position) :
    d.clamp position = d.high := by
  rw [clamp, if_neg (by omega), if_pos (by omega)]

theorem Drag.clamp_within (ordered : d.low ≤ d.high) (position : Int) :
    d.low ≤ d.clamp position ∧ d.clamp position ≤ d.high := by
  unfold clamp
  split
  · omega
  · split <;> omega

end Clamp

/-- So a handle that is let go anywhere leaves panes their minimums, if they had them. -/
theorem least_le_drop {bounds : Rect} {handle : Nat} {d : Drag} {known : List Limits}
    (single : ∀ k ∈ known, ∀ k' ∈ known, k.id = k'.id → k = k')
    (h : s.drag? children bounds handle = some d)
    (met : ∀ p ∈ shown children, p.id = d.before ∨ p.id = d.after → Limits.of s.axis p ∈ known)
    (least : ∀ k ∈ known, k.least ≤ sizeOf s.panes k.id) (position : Int) :
    ∀ k ∈ known, k.least ≤ sizeOf (s.drop d (d.clamp position)).panes k.id := by
  obtain ⟨before, hbefore, after, hafter, hb, ha, low, high, span⟩ := span_of_drag h
  have first := met before hbefore (.inl hb.symm)
  have second := met after hafter (.inr ha.symm)
  have room : (Limits.of s.axis before).least ≤ sizeOf s.panes before.id := least _ first
  have room' : (Limits.of s.axis after).least ≤ sizeOf s.panes after.id := least _ second
  have range := Drag.clamp_within (d := d) (by omega) position
  intro k hk
  rw [sizeOf_drop]
  split
  · next same =>
    obtain rfl := single _ second k hk (ha.symm.trans same)
    omega
  · split
    · next same =>
      obtain rfl := single _ first k hk (hb.symm.trans same)
      omega
    · exact least k hk

end Span

end PixelLayout.Splitter
