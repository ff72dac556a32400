import PixelLayout.Proofs.Splitter.Limits

/-!
# Moving one boundary

A handle that is let go within its range resizes the two panes around it, which together keep their
span. So every other pane and every other handle that takes space stays where it is, and the panes
fill the space as before: a pass over them finds nothing to hand out.
-/

set_option autoImplicit false

namespace PixelLayout.Splitter

section Places

theorem alternate_getElem? {α : Type} : ∀ (l : List α) (k : Nat), (alternate l)[k]? = l[2 * k]?
  | [], _ => rfl
  | [_], 0 => rfl
  | [_], _ + 1 => rfl
  | _ :: _ :: _, 0 => rfl
  | _ :: _ :: rest, k + 1 => alternate_getElem? rest k

variable {children : List Item} (distinct : ((shown children).map (·.id)).Nodup)

include distinct

theorem id_ne_of_lt {i j : Nat} {c c' : Item} (less : i < j) (even : i % 2 = 0) (even' : j % 2 = 0)
    (hc : children[i]? = some c) (hc' : children[j]? = some c') (laid : c.laidOut = true)
    (laid' : c'.laidOut = true) : c.id ≠ c'.id := by
  rw [shown, List.Nodup, List.pairwise_map, List.pairwise_filter, List.pairwise_iff_getElem]
    at distinct
  have first : (alternate children)[i / 2]? = some c := by
    rw [alternate_getElem?, ← hc]
    congr 1
    omega
  have second : (alternate children)[j / 2]? = some c' := by
    rw [alternate_getElem?, ← hc']
    congr 1
    omega
  obtain ⟨inside, rfl⟩ := List.getElem?_eq_some_iff.mp first
  obtain ⟨inside', rfl⟩ := List.getElem?_eq_some_iff.mp second
  exact distinct _ _ inside inside' (by omega) laid laid'

/-- If no id is shown twice, a pane that is shown is told by its id. -/
theorem eq_of_id_eq {i j : Nat} {c c' : Item} (even : i % 2 = 0) (even' : j % 2 = 0)
    (hc : children[i]? = some c) (hc' : children[j]? = some c') (laid : c.laidOut = true)
    (laid' : c'.laidOut = true) (same : c.id = c'.id) : i = j := by
  rcases Nat.lt_trichotomy i j with less | equal | less
  · exact absurd same (id_ne_of_lt distinct less even even' hc hc' laid laid')
  · exact equal
  · exact absurd same.symm (id_ne_of_lt distinct less even' even hc' hc laid' laid)

end Places

section Drop

variable {s : Splitter} {children : List Item} {bounds : Rect} {handle index : Nat} {d : Drag}
  {before after : Item}

theorem lt_of_isActiveHandle (active : isActiveHandle children handle = true) :
    handle < children.length :=
  List.mem_range.mp (List.mem_filter.mp (mem_activeHandles.mpr active)).1

/-- What a child that is not a pane, or not laid out, takes up does not depend on the panes. -/
theorem width_of_not_shown {cross : Int} {j : Nat} (hidden : ¬ isShownPane children j = true) :
    s.width children cross j = if isActiveHandle children j then s.handleWidth else 0 := by
  by_cases active : isActiveHandle children j = true
  · rw [width_handle active (lt_of_isActiveHandle active), if_pos active]
  · rw [width_eq_zero (Bool.eq_false_iff.mpr hidden) (Bool.eq_false_iff.mpr active), if_neg active]

/-- Two drags of one handle are drags between the same panes. -/
theorem Grip.unique {s' : Splitter} {d' : Drag} {index' : Nat} {before' after' : Item}
    (grip : s.Grip children bounds handle d index before after)
    (grip' : s'.Grip children bounds handle d' index' before' after') :
    index = index' ∧ before = before' ∧ after = after' := by
  have same : index = index' := by
    by_contra differ
    rcases Nat.lt_or_gt_of_ne differ with less | less
    · have hidden := grip.hidden index' less grip'.ahead
      rw [grip'.shown_before] at hidden
      cases hidden
    · have hidden := grip'.hidden index less grip.ahead
      rw [grip.shown_before] at hidden
      cases hidden
  subst same
  exact ⟨rfl, Option.some.inj (grip.first.symm.trans grip'.first),
    Option.some.inj (grip.second.symm.trans grip'.second)⟩

/-- Every handle that takes space can be dragged. -/
theorem exists_drag (s : Splitter) (bounds : Rect)
    (active : isActiveHandle children handle = true) :
    ∃ d, s.drag? children bounds handle = some d := by
  obtain ⟨shownAfter, j, less, shown⟩ := isActiveHandle_iff.mp active
  obtain ⟨even', after, hafter, laid'⟩ := isShownPane_iff.mp shownAfter
  have found : (paneBefore? (s.place children bounds) handle).isSome = true := by
    refine List.find?_isSome.mpr ⟨j, by simpa using less, ?_⟩
    have even := (isShownPane_iff.mp shown).1
    rw [isSome_place_getD bounds even, shown, even]
    rfl
  obtain ⟨i, hi⟩ := Option.isSome_iff_exists.mp found
  obtain ⟨even, before, hbefore, laid⟩ := isShownPane_iff.mp (shown_of_paneBefore hi).1
  have first := s.place_of_pane bounds hbefore even laid
  have second := s.place_of_pane bounds hafter even' laid'
  rw [drag?, if_pos active]
  simp only [hi, hbefore, hafter, first, second, Option.bind_eq_bind, Option.bind_some]
  exact ⟨_, rfl⟩

theorem Grip.drag?_eq (grip : s.Grip children bounds handle d index before after) :
    s.drag? children bounds handle = some d := by
  obtain ⟨d', h⟩ := s.exists_drag bounds grip.active
  obtain ⟨index', before', after', grip'⟩ := exists_grip h
  obtain ⟨rfl, rfl, rfl⟩ := grip.unique grip'
  rw [h, grip.drag, grip'.drag]

def shift (s : Splitter) (d : Drag) (position : Int) : Int :=
  position - d.start - sizeOf s.panes d.before

variable (distinct : ((shown children).map (·.id)).Nodup)
  (grip : s.Grip children bounds handle d index before after) (position : Int)

include distinct grip

theorem Grip.sizeOf_drop {j : Nat} {c : Item} (hc : children[j]? = some c) (even : j % 2 = 0)
    (laid : c.laidOut = true) : sizeOf (s.drop d position).panes c.id =
      if j = index then position - d.start
      else if j = handle + 1 then d.stop - position - s.handleWidth
      else sizeOf s.panes c.id := by
  have ahead := grip.ahead
  have odd := grip.odd
  have isFirst : before.id = c.id ↔ j = index := by
    constructor
    · exact fun same => eq_of_id_eq distinct even grip.even hc grip.first laid grip.laid same.symm
    · rintro rfl
      rw [Option.some.inj (hc.symm.trans grip.first)]
  have isSecond : after.id = c.id ↔ j = handle + 1 := by
    constructor
    · exact fun same =>
        eq_of_id_eq distinct even (by omega) hc grip.second laid grip.laid' same.symm
    · rintro rfl
      rw [Option.some.inj (hc.symm.trans grip.second)]
  rw [Splitter.sizeOf_drop, grip.before_eq, grip.after_eq, if_congr isFirst rfl rfl,
    if_congr isSecond rfl rfl]
  by_cases h : j = index
  · rw [if_neg (by omega), if_pos h, if_pos h]
  · rw [if_neg h, if_neg h]

/-- One of the two panes takes what the other one gives. -/
theorem Grip.width_drop (cross : Int) (j : Nat) :
    (s.drop d position).width children cross j = s.width children cross j +
      (if j = index then s.shift d position else 0) -
      (if j = handle + 1 then s.shift d position else 0) := by
  have ahead := grip.ahead
  have odd := grip.odd
  have span := grip.span
  have shift : s.shift d position = position - d.start - sizeOf s.panes before.id := by
    rw [Splitter.shift, grip.before_eq]
  by_cases shown : isShownPane children j = true
  · obtain ⟨even, c, hc, laid⟩ := isShownPane_iff.mp shown
    rw [width_pane even hc laid, width_pane even hc laid,
      grip.sizeOf_drop distinct position hc even laid, shift]
    by_cases first : j = index
    · subst first
      obtain rfl := Option.some.inj (hc.symm.trans grip.first)
      rw [if_pos rfl, if_pos rfl, if_neg (by omega)]
      omega
    · by_cases second : j = handle + 1
      · subst second
        obtain rfl := Option.some.inj (hc.symm.trans grip.second)
        rw [if_neg first, if_pos rfl, if_neg first, if_pos rfl]
        omega
      · rw [if_neg first, if_neg second, if_neg first, if_neg second]
        omega
  · have first : j ≠ index := by
      rintro rfl
      exact shown grip.shown_before
    have second : j ≠ handle + 1 := by
      rintro rfl
      exact shown grip.shown_after
    rw [if_neg first, if_neg second, width_of_not_shown shown, width_of_not_shown shown,
      Int.add_zero, Int.sub_zero]
    rfl

theorem Grip.offset_drop (cross : Int) (j : Nat) :
    (s.drop d position).offset children cross j = s.offset children cross j +
      (if index < j then s.shift d position else 0) -
      (if handle + 1 < j then s.shift d position else 0) := by
  induction j with
  | zero => simp [offset]
  | succ j ih =>
    have ahead := grip.ahead
    rw [offset, offset, ih, grip.width_drop distinct]
    split_ifs <;> omega

/-- The drag is between the same panes afterwards, in the same span and range. -/
theorem Grip.drop : (s.drop d position).Grip children bounds handle d index before after := by
  have ahead := grip.ahead
  have start (cross : Int) : (s.drop d position).offset children cross index =
      s.offset children cross index := by
    rw [grip.offset_drop distinct, if_neg (by omega), if_neg (by omega), Int.add_zero, Int.sub_zero]
  have stop (cross : Int) : (s.drop d position).offset children cross (handle + 2) =
      s.offset children cross (handle + 2) := by
    rw [grip.offset_drop distinct, if_pos (by omega), if_pos (by omega), Int.add_sub_cancel]
  refine { grip with drag := ?_ }
  intro cross
  rw [start, stop]
  exact grip.drag

/-- Every other pane keeps its rectangle, and so does every other handle that takes space. -/
theorem Grip.place_drop {j : Nat} (first : j ≠ index) (second : j ≠ handle + 1) (other : j ≠ handle)
    (kept : isShownPane children j = true ∨ isActiveHandle children j = true) :
    ((s.drop d position).place children bounds).getD j none =
      (s.place children bounds).getD j none := by
  have ahead := grip.ahead
  have outside : j < index ∨ handle + 1 < j := by
    by_contra inside
    have behind : index < j := by omega
    have before : j < handle := by omega
    have hidden : isShownPane children j = false := grip.hidden j behind before
    rcases kept with shown | active
    · rw [hidden] at shown
      cases shown
    · -- right behind the other handle a pane is laid out, which would be before this one
      have shown := (isActiveHandle_iff.mp active).1
      have odd := grip.odd
      have even := (isShownPane_iff.mp shown).1
      rw [grip.hidden (j + 1) (by omega) (by omega)] at shown
      cases shown
  have offset : (s.drop d position).offset children (bounds.size.along s.axis.cross) j =
      s.offset children (bounds.size.along s.axis.cross) j := by
    rw [grip.offset_drop distinct]
    rcases outside with less | more
    · rw [if_neg (by omega), if_neg (by omega), Int.add_zero, Int.sub_zero]
    · rw [if_pos (by omega), if_pos (by omega), Int.add_sub_cancel]
  rw [place_getD, place_getD, show (s.drop d position).axis = s.axis from rfl, offset]
  cases hc : children[j]? with
  | none => rfl
  | some c =>
    rw [Option.bind_some, Option.bind_some]
    have extent : (s.drop d position).extent? children (bounds.size.along s.axis.cross) j c =
        s.extent? children (bounds.size.along s.axis.cross) j c := by
      unfold extent?
      split
      · rfl
      · next even =>
        have even : j % 2 = 0 := by simpa using even
        split
        · next laid =>
          rw [grip.sizeOf_drop distinct position hc even laid, if_neg first, if_neg second]
        · rfl
    rw [extent]

omit distinct in
theorem Grip.place_handle :
    (s.place children bounds).getD handle none = some (.ofAxes s.axis
      (d.start + sizeOf s.panes before.id) (bounds.start s.axis.cross) s.handleWidth
      (bounds.size.along s.axis.cross)) := by
  have inside := lt_of_isActiveHandle grip.active
  have start : d.start = _ := congrArg Drag.start grip.drag
  rw [place_getD, List.getElem?_eq_getElem inside, Option.bind_some, grip.offset_handle, start,
    Int.add_assoc]
  simp [extent?, grip.odd, grip.active]

omit distinct in
theorem Grip.place_before :
    (s.place children bounds).getD index none = some (.ofAxes s.axis d.start
      (bounds.start s.axis.cross) (sizeOf s.panes before.id) (bounds.size.along s.axis.cross)) := by
  have start : d.start = _ := congrArg Drag.start grip.drag
  rw [start]
  exact s.place_of_pane bounds grip.first grip.even grip.laid

omit distinct in
theorem Grip.place_after :
    (s.place children bounds).getD (handle + 1) none = some (.ofAxes s.axis
      (d.stop - sizeOf s.panes after.id) (bounds.start s.axis.cross) (sizeOf s.panes after.id)
      (bounds.size.along s.axis.cross)) := by
  have odd := grip.odd
  have stop : d.stop = bounds.start s.axis +
      s.offset children (bounds.size.along s.axis.cross) (handle + 2) :=
    congrArg Drag.stop grip.drag
  have behind : s.offset children (bounds.size.along s.axis.cross) (handle + 2) =
      s.offset children (bounds.size.along s.axis.cross) (handle + 1) +
        sizeOf s.panes after.id := by
    rw [offset, width_pane (by omega) grip.second grip.laid']
  rw [s.place_of_pane bounds grip.second (by omega) grip.laid', stop, behind, ← Int.add_assoc,
    Int.add_sub_cancel]

end Drop

section Congr

variable {s s' : Splitter} {children : List Item} {bounds : Rect} (axis : s'.axis = s.axis)
  (handle : s'.handleWidth = s.handleWidth) (sizes : ∀ id, sizeOf s'.panes id = sizeOf s.panes id)

include axis handle sizes

theorem placeFrom_congr (position : Int) (items : List (Item × Nat)) :
    s'.placeFrom children bounds position items = s.placeFrom children bounds position items := by
  induction items generalizing position with
  | nil => rfl
  | cons p items ih =>
    have extent (cross : Int) : s'.extent? children cross p.2 p.1 =
        s.extent? children cross p.2 p.1 := by
      simp only [extent?, handle, sizes]
    simp only [placeFrom, axis, extent, ih]

/-- Splitters whose panes have the same sizes give the same batch. -/
theorem batch_congr : s'.batch children bounds = s.batch children bounds := by
  rw [batch, batch, place, place, axis, placeFrom_congr axis handle sizes]

end Congr

structure Filled (s : Splitter) (children : List Item) (bounds : Rect) : Prop where
  lastShown : s.lastShown = (shown children).map (·.id)
  fills : used s.panes ((shown children).map (·.id)) = s.paneSpace children bounds
  least : ∀ c ∈ shown children, (Limits.of s.axis c).least ≤ sizeOf s.panes c.id

section Filled

variable {s : Splitter} {children : List Item} {bounds : Rect} {handle index : Nat} {d : Drag}
  {before after : Item}

/-- A pass over panes that fill the space changes nothing. -/
theorem Filled.settle (filled : s.Filled children bounds) :
    s.settle children bounds false = (s, 0) := by
  have kept := rebased_eq_self filled.lastShown bounds
  have none : s.excess children bounds false = 0 := by
    rw [excess, kept]
    exact Int.sub_eq_zero_of_eq filled.fills.symm
  rw [settle_eq, kept, none]
  rfl

theorem growth_drop (s : Splitter) (d : Drag) (position : Int) :
    (s.drop d position).panes.All (·.growth = 0) := by
  intro id p state
  rw [drop, Table.get?_map] at state
  obtain ⟨q, -, rfl⟩ := Option.map_eq_some_iff.mp state
  rfl

/-- Letting the handle go at the same place again does not change a size. -/
theorem sizeOf_drop_again (s : Splitter) (d : Drag) (position : Int) (id : Nat) :
    sizeOf ((s.drop d position).drop d position).panes id =
      sizeOf (s.drop d position).panes id := by
  rw [sizeOf_drop, sizeOf_drop]
  split_ifs <;> rfl

variable (distinct : ((shown children).map (·.id)).Nodup)
  (grip : s.Grip children bounds handle d index before after) (position : Int)

include grip

theorem Grip.low_le_high
    (least : ∀ c ∈ shown children, (Limits.of s.axis c).least ≤ sizeOf s.panes c.id) :
    d.low ≤ d.high := by
  have low := grip.low_eq
  have high := grip.high_eq
  have room := least before grip.before_mem
  have room' := least after grip.after_mem
  have span := grip.span
  omega

include distinct

theorem Grip.id_ne : before.id ≠ after.id := by
  have ahead := grip.ahead
  have odd := grip.odd
  exact id_ne_of_lt distinct (by omega) grip.even (by omega) grip.first grip.second grip.laid
    grip.laid'

/-- The panes are as large together as they were. -/
theorem Grip.used_drop : used (s.drop d position).panes ((shown children).map (·.id)) =
    used s.panes ((shown children).map (·.id)) := by
  have span := grip.span
  have other : sizeOf (s.panes.modify before.id .fresh fun p =>
      { p with size := position - d.start }) after.id = sizeOf s.panes after.id := by
    rw [Table.modify, sizeOf_insert, if_neg (grip.id_ne distinct)]
  have pinned (panes : Panes) (whole : Int) (ids : List Nat) :
      used (panes.map (.pin whole)) ids = used panes ids :=
    congrArg total (List.map_congr_left fun id _ =>
      sizeOf_map (f := Pane.pin whole) panes id fun _ => rfl)
  rw [Splitter.drop, pinned, grip.after_eq, Table.modify,
    used_insert distinct (List.mem_map_of_mem grip.after_mem), grip.before_eq, other, Table.modify,
    used_insert distinct (List.mem_map_of_mem grip.before_mem)]
  show _ + (position - d.start - _) + (d.stop - position - s.handleWidth - _) = _
  omega

/-- Panes that fill the space still do so, and none of them is below its minimum. -/
theorem Grip.filled_drop (filled : s.Filled children bounds) :
    (s.drop d (d.clamp position)).Filled children bounds := by
  refine ⟨filled.lastShown, (grip.used_drop distinct _).trans filled.fills, fun c hc => ?_⟩
  refine least_le_drop (s.limits_single (single_of_nodup distinct)) grip.drag?_eq
    (fun p hp _ => List.mem_map_of_mem hp) (fun k hk => ?_) position (Limits.of s.axis c)
    (List.mem_map_of_mem hc)
  obtain ⟨c, hc, rfl⟩ := List.mem_map.mp hk
  exact filled.least c hc

end Filled

def rect? (s : Splitter) (children : List Item) (bounds : Rect) (index : Nat) : Option Rect :=
  (s.place children bounds).getD index none

/-- The boundary at a handle has moved, and nothing else: the handle starts at the position, the two
panes around it fill the span that they filled and are not below their minimums, and all other panes
and handles that take space are where they were. -/
structure Moved (s s' : Splitter) (children : List Item) (bounds : Rect) (handle index : Nat)
    (before after : Item) (position : Int) : Prop where
  lands : ∃ r, s'.rect? children bounds handle = some r ∧ r.start s.axis = position ∧
    r.size.along s.axis = s.handleWidth
  panes : ∃ r r' q q',
    s.rect? children bounds index = some r ∧ s'.rect? children bounds index = some r' ∧
    s.rect? children bounds (handle + 1) = some q ∧
    s'.rect? children bounds (handle + 1) = some q' ∧
    r'.start s.axis = r.start s.axis ∧
    q'.start s.axis + q'.size.along s.axis = q.start s.axis + q.size.along s.axis ∧
    r'.size.along s.axis + q'.size.along s.axis = r.size.along s.axis + q.size.along s.axis ∧
    before.minimum.along s.axis ≤ r'.size.along s.axis ∧
    after.minimum.along s.axis ≤ q'.size.along s.axis
  others : ∀ j, j ≠ index → j ≠ handle → j ≠ handle + 1 →
    isShownPane children j = true ∨ isActiveHandle children j = true →
    s'.rect? children bounds j = s.rect? children bounds j

section Moved

variable {s : Splitter} {children : List Item} {bounds : Rect} {handle index : Nat} {d : Drag}
  {before after : Item} (grip : s.Grip children bounds handle d index before after)

include grip

theorem Grip.moved (distinct : ((shown children).map (·.id)).Nodup)
    (filled : s.Filled children bounds) (position : Int) :
    s.Moved (s.drop d (d.clamp position)) children bounds handle index before after
      (d.clamp position) := by
  let p := d.clamp position
  have odd := grip.odd
  have ahead := grip.ahead
  have span := grip.span
  have dropped : (s.drop d p).Grip children bounds handle d index before after :=
    grip.drop distinct p
  have fits := grip.filled_drop distinct position filled
  have first : sizeOf (s.drop d p).panes before.id = p - d.start := by
    rw [grip.sizeOf_drop distinct p grip.first grip.even grip.laid, if_pos rfl]
  have second : sizeOf (s.drop d p).panes after.id = d.stop - p - s.handleWidth := by
    rw [grip.sizeOf_drop distinct p grip.second (by omega) grip.laid', if_neg (by omega),
      if_pos rfl]
  have least := fits.least before grip.before_mem
  have least' := fits.least after grip.after_mem
  refine ⟨⟨_, dropped.place_handle, ?_, Rect.ofAxes_along ..⟩,
    ⟨_, _, _, _, grip.place_before, dropped.place_before, grip.place_after, dropped.place_after,
      ?_⟩,
    fun j first second other kept => grip.place_drop distinct p first other second kept⟩
  · refine (Rect.ofAxes_start ..).trans ?_
    rw [first]
    omega
  · have axis : (s.drop d p).axis = s.axis := rfl
    simp only [axis, Rect.ofAxes_start, Rect.ofAxes_along, first, second]
    rw [first] at least
    rw [second] at least'
    have enough : before.minimum.along s.axis ≤ p - d.start :=
      Int.le_trans (Int.le_max_left _ _) least
    have enough' : after.minimum.along s.axis ≤ d.stop - p - s.handleWidth :=
      Int.le_trans (Int.le_max_left _ _) least'
    exact ⟨trivial, by omega, by omega, enough, enough'⟩

end Moved

end PixelLayout.Splitter
