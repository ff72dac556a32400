import PixelLayout.Proofs.Grid.Cells
import PixelLayout.Proofs.History.Failure

/-!
# Giving an item a range

An item that is given a range takes it from all others that have a cell of it, and these lose all of
theirs. Nothing else happens to what belongs to children: the passes that follow drop the ranges of
former children and nothing more, whatever a container does meanwhile.
-/

set_option autoImplicit false

namespace PixelLayout

namespace Grid

def Displaces (g : Grid) (item : Nat) (r : Range) (id : Nat) : Prop :=
  id ≠ item ∧ ∃ r', g.ranges.get? id = some r' ∧ ¬ r'.Apart r

/-- The second grid is what the first one becomes when an item is given a range, so far as the ids
of current children go. -/
structure Reassigned (g : Grid) (item : Nat) (r : Range) (current : Nat → Prop) (g' : Grid) :
    Prop where
  given : g'.ranges.get? item = some r
  displaced : ∀ id, g.Displaces item r id → g'.ranges.get? id = none
  others : ∀ id, id ≠ item → current id → ¬ g.Displaces item r id →
    g'.ranges.get? id = g.ranges.get? id
  taken : ∀ i j, r.covers i j = true → g'.itemAt i j = some item
  vacated : ∀ id r', id = item ∨ g.Displaces item r id → g.ranges.get? id = some r' →
    ∀ i j, r'.covers i j = true → r.covers i j = false → g'.itemAt i j = none
  kept : ∀ i j id, g.itemAt i j = some id → id ≠ item → current id →
    ¬ g.Displaces item r id → g'.itemAt i j = some id
  free : ∀ i j, g.itemAt i j = none → r.covers i j = false → g'.itemAt i j = none
  rows : (g'.rowCount : Int) = max (g.rowCount : Int) (r.row + r.rowSpan)
  columns : (g'.columnCount : Int) = max (g.columnCount : Int) (r.column + r.columnSpan)
  rowStretch : g'.rowStretch = g.rowStretch ++ List.replicate (g'.rowCount - g.rowCount) 1
  columnStretch :
    g'.columnStretch = g.columnStretch ++ List.replicate (g'.columnCount - g.columnCount) 1

structure Sheds (current : Nat → Prop) (g g' : Grid) : Prop where
  ranges : ∀ id, g'.ranges.get? id = g.ranges.get? id ∨
    ¬ current id ∧ g'.ranges.get? id = none
  rowStretch : g'.rowStretch = g.rowStretch
  columnStretch : g'.columnStretch = g.columnStretch

namespace Sheds

variable {current : Nat → Prop} {g g' g'' : Grid}

theorem refl (current : Nat → Prop) (g : Grid) : Sheds current g g :=
  ⟨fun _ => .inl rfl, rfl, rfl⟩

theorem trans (h : Sheds current g g') (h' : Sheds current g' g'') : Sheds current g g'' where
  ranges id := by
    rcases h'.ranges id with same | dropped
    · rw [same]
      exact h.ranges id
    · exact .inr dropped
  rowStretch := h'.rowStretch.trans h.rowStretch
  columnStretch := h'.columnStretch.trans h.columnStretch

theorem refresh {children : List Item} (h : ∀ id, current id → id ∈ children.map (·.id))
    (reset : Bool) : Sheds current g (g.refresh children reset) where
  ranges id := by
    cases reset with
    | false => exact .inl rfl
    | true =>
      show (g.restrict children).ranges.get? id = _ ∨ _ ∧ (g.restrict children).ranges.get? id = _
      rw [restrict_ranges, Table.get?_keep]
      by_cases child : children.any (·.id == id) = true
      · exact .inl (if_pos child)
      · exact .inr ⟨fun is => child (any_of_mem_ids (h id is)), if_neg child⟩
  rowStretch := refresh_rowStretch reset
  columnStretch := refresh_columnStretch reset

theorem get?_of_current (h : Sheds current g g') {id : Nat} (is : current id) :
    g'.ranges.get? id = g.ranges.get? id :=
  (h.ranges id).resolve_right fun dropped => dropped.1 is

theorem get?_of_some (h : Sheds current g g') {id : Nat} {r : Range}
    (hr : g'.ranges.get? id = some r) : g.ranges.get? id = some r := by
  rcases h.ranges id with same | ⟨-, none⟩
  · rw [← same, hr]
  · simp [none] at hr

end Sheds

section Assign

variable {g : Grid} (h : g.WellFormed) {item : Nat} {r : Range}

theorem assign_get?_self : (g.assign item r).ranges.get? item = some r :=
  (Table.get?_insert _ _ _ _).trans (if_pos rfl)

include h

theorem WellFormed.displaces_iff {id : Nat} :
    g.Displaces item r id ↔ id ∈ occupants (g.opened item r).cells r := by
  simp only [Displaces, h.mem_occupants_opened, Range.Apart, not_forall, not_not]

theorem WellFormed.assign_get?_of_displaced {id : Nat} (displaced : g.Displaces item r id) :
    (g.assign item r).ranges.get? id = none := by
  have occupant := h.displaces_iff.mp displaced
  rw [assign_ranges, Table.get?_insert, if_neg displaced.1.symm, Table.get?_keep, if_neg]
  simpa using occupant

theorem WellFormed.assign_get?_of_other {id : Nat} (other : id ≠ item)
    (safe : ¬ g.Displaces item r id) :
    (g.assign item r).ranges.get? id = g.ranges.get? id := by
  have absent := mt h.displaces_iff.mpr safe
  rw [assign_ranges, Table.get?_insert, if_neg other.symm, Table.get?_keep, if_pos (by simpa),
    Table.get?_erase, if_neg other]

variable {g' : Grid} (h' : g'.WellFormed) {current : Nat → Prop}
  (sheds : Sheds current (g.assign item r) g')

include sheds

theorem WellFormed.get?_of_displaced {id : Nat} (displaced : g.Displaces item r id) :
    g'.ranges.get? id = none := by
  cases held : g'.ranges.get? id with
  | none => rfl
  | some r' =>
    have none := h.assign_get?_of_displaced displaced
    rw [sheds.get?_of_some held] at none
    cases none

include h'

/-- Outside the range nothing has an occupant that had none before. -/
theorem WellFormed.itemAt_of_outside {i j id : Nat} (held : g'.itemAt i j = some id)
    (outside : r.covers i j = false) :
    id ≠ item ∧ ¬ g.Displaces item r id ∧ g.itemAt i j = some id := by
  obtain ⟨r', hr', covers⟩ := (h'.cell i j id).mp held
  have before := sheds.get?_of_some hr'
  have other : id ≠ item := by
    rintro rfl
    rw [assign_get?_self] at before
    obtain rfl := Option.some.inj before
    simp [covers] at outside
  have safe : ¬ g.Displaces item r id := by
    intro displaced
    rw [h.get?_of_displaced sheds displaced] at hr'
    cases hr'
  rw [h.assign_get?_of_other other safe] at before
  exact ⟨other, safe, (h.cell i j id).mpr ⟨r', before, covers⟩⟩

theorem WellFormed.itemAt_of_vacated {id : Nat} {r' : Range}
    (gone : id = item ∨ g.Displaces item r id) (held : g.ranges.get? id = some r') {i j : Nat}
    (covers : r'.covers i j = true) (outside : r.covers i j = false) : g'.itemAt i j = none := by
  have before := (h.cell i j id).mpr ⟨r', held, covers⟩
  cases now : g'.itemAt i j with
  | none => rfl
  | some id' =>
    obtain ⟨other, safe, same⟩ := h.itemAt_of_outside h' sheds now outside
    obtain rfl := Option.some.inj (before.symm.trans same)
    exact (gone.elim other safe).elim

/-- An item is given a range, and after that only former children lose theirs. -/
theorem WellFormed.reassigned (valid : r.check = .ok ()) (is : current item) :
    g.Reassigned item r current g' := by
  have origin := r.check_ok_iff.mp valid
  have given : g'.ranges.get? item = some r :=
    (sheds.get?_of_current is).trans assign_get?_self
  have others (id : Nat) (other : id ≠ item) (is : current id) (safe : ¬ g.Displaces item r id) :
      g'.ranges.get? id = g.ranges.get? id :=
    (sheds.get?_of_current is).trans (h.assign_get?_of_other other safe)
  have rowStretch := sheds.rowStretch.trans (g.assign_rowStretch item r)
  have columnStretch := sheds.columnStretch.trans (g.assign_columnStretch item r)
  have rows : g'.rowCount = max g.rowCount _ :=
    (congrArg List.length rowStretch).trans (pad_length ..)
  have columns : g'.columnCount = max g.columnCount _ :=
    (congrArg List.length columnStretch).trans (pad_length ..)
  refine {
    given, others
    displaced := fun _ => h.get?_of_displaced sheds
    taken := fun i j covers => (h'.cell i j item).mpr ⟨r, given, covers⟩
    vacated := fun _ _ gone held _ _ => h.itemAt_of_vacated h' sheds gone held
    kept := ?kept, free := ?free, rows := ?rows, columns := ?columns
    rowStretch := ?rowStretch, columnStretch := ?columnStretch }
  case kept =>
    intro i j id held other is safe
    obtain ⟨r', hr', covers⟩ := (h.cell i j id).mp held
    exact (h'.cell i j id).mpr ⟨r', (others id other is safe).trans hr', covers⟩
  case free =>
    intro i j none outside
    cases now : g'.itemAt i j with
    | none => rfl
    | some id =>
      have before := (h.itemAt_of_outside h' sheds now outside).2.2
      rw [none] at before
      cases before
  case rows =>
    rw [rows]
    simp only [Range.along, Axis.pick_vertical]
    omega
  case columns =>
    rw [columns]
    simp only [Range.along, Axis.pick_horizontal]
    omega
  case rowStretch =>
    rw [rowCount, rowStretch]
    exact pad_eq_append ..
  case columnStretch =>
    rw [columnCount, columnStretch]
    exact pad_eq_append ..

end Assign

end Grid

namespace Layout

variable {σ : Type} {host : Host σ} {left number : Nat} {l : Layout} {s : σ}
  {log : List (Handover σ)} {o : Outcome σ} {g : Grid} {v : View}

theorem answered_grid (mode : l.mode = .grid g) :
    (l.answered host s v).mode = .grid (g.refresh v.children (l.startsAfresh v.children)) := by
  rw [answered, foldl_request_mode]
  show (l.mode.arrange _ _ _ _).mode = _
  rw [mode]
  rfl

/-- Passes drop the ranges of those that are not among the children they find, and do nothing else
to a grid. -/
theorem Course.sheds (course : Course host left number l s log o) (mode : l.mode = .grid g)
    {current : Nat → Prop}
    (found : ∀ h ∈ log, ∀ v, host.look h.found = some v → ∀ id, current id → id ∈ v.ids) :
    ∃ g', o.layout.mode = .grid g' ∧ Grid.Sheds current g g' := by
  induction course generalizing g with
  | out | busy | suspended => exact ⟨g, mode, .refl current g⟩
  | @deferred _ _ l s v look | @failed _ _ l s v _ look | @settled _ _ l s v look =>
    exact ⟨_, answered_grid mode, .refresh (found _ List.mem_cons_self v look) _⟩
  | @reopened _ _ l s v _ _ look _ _ _ ih =>
    obtain ⟨first, others⟩ := List.forall_mem_cons.mp found
    obtain ⟨g', mode', sheds⟩ := ih (answered_grid mode) others
    exact ⟨g', mode', (Grid.Sheds.refresh (first v look) _).trans sheds⟩

def Present (l : Layout) (host : Host σ) (c : Change) (s : σ) (id : Nat) : Prop :=
  ∀ t ∈ s :: (l.apply (some host.recorded) c (s, [])).state.2.map (·.found),
    ∀ v, host.look t = some v → id ∈ v.ids

/-- An accepted change is followed by passes. -/
theorem exists_course_of_revise {c : Change} {l' : Layout} {events : List Event}
    (revise : l.revise true (host.look s) c = .ok (some (l', events))) :
    ∃ o, Course host maxPasses 0 ((l'.forget.begun false).setPerforming true) s
        (l.apply (some host.recorded) c (s, [])).state.2 o ∧
      (l.apply (some host) c s).result = o.result ∧
      (l.apply (some host) c s).layout = o.layout.setPerforming false := by
  obtain ⟨log, o, course, update, recorded⟩ := exists_recorded host false l'.forget s
  refine ⟨o, ?_, ?_, ?_⟩
  · rw [apply_made host.recorded (s, []) revise, recorded]
    exact course
  · rw [apply_made host s revise, update]
    rfl
  · rw [apply_made host s revise, update]
    rfl

theorem revise_range (mode : l.mode = .grid g) {item : Nat} (child : item ∈ v.ids) {r : Range}
    (valid : r.check = .ok ()) :
    l.revise true (some v) (.range item r) = .ok (l.withMode (.grid (g.assign item r))) := by
  have known : requireChild (some v) item = .ok () := if_pos (any_of_mem_ids child)
  rw [revise, Change.steps, Setter.outcome_setRange, mode]
  dsimp only
  rw [valid, known]
  rfl

/-- Whatever a grid has been through, a child that is given a valid range gets it, and nothing but a
commit can fail. The items that have a cell of the range lose all of theirs, and all other children
keep theirs, whatever the container does while the passes go over it. -/
theorem range_reassigned {l : Layout} (made : l.Made) (ds : List Deed) {g : Grid}
    (mode : (l.after ds).mode = .grid g) (host : Host σ) {s : σ} {v : View}
    (look : host.look s = some v) {item : Nat} {r : Range} (valid : r.check = .ok ())
    (child : (l.after ds).Present host (.range item r) s item) :
    let o := (l.after ds).apply (some host) (.range item r) s
    (∀ e, o.result = .error e → e.isCommit = true) ∧
    ∃ g', o.layout.mode = .grid g' ∧
      g.Reassigned item r ((l.after ds).Present host (.range item r) s) g' := by
  set grid := l.after ds
  intro o
  have wf := (made.sound ds).grid mode
  have revise : grid.revise true (host.look s) (.range item r) = _ :=
    look ▸ revise_range mode (child s List.mem_cons_self v look) valid
  obtain ⟨o', course, result, layout⟩ := exists_course_of_revise revise
  refine ⟨fun e failed => course.isCommit (result.symm.trans failed), ?_⟩
  have found : ∀ h ∈ (grid.apply (some host.recorded) (.range item r) (s, [])).state.2,
      ∀ v, host.look h.found = some v →
        ∀ id, grid.Present host (.range item r) s id → id ∈ v.ids := by
    intro h hh v look id present
    exact present h.found (List.mem_cons_of_mem _ (List.mem_map_of_mem hh)) v look
  obtain ⟨g', mode', sheds⟩ := course.sheds (g := g.assign item r) rfl found
  have settled : o.layout.mode = .grid g' := (congrArg Layout.mode layout).trans mode'
  have wf' : g'.WellFormed := by
    obtain ⟨ds', after⟩ := exists_apply (some host) (.range item r) grid s
    have sound := made.sound (ds' ++ ds)
    rw [after_append, ← after] at sound
    exact sound.grid settled
  exact ⟨g', settled, wf.reassigned wf' sheds valid child⟩

def departing : Host Nat where
  look n := some
    ⟨false, (if n = 0 then [1, 2, 3, 4, 5, 6] else [1, 2, 3, 4, 5]).map Item.plain, ⟨0, 0, 40, 30⟩⟩
  commit n _ _ := ⟨.applied, if n = 0 then [false] else [], n + 1⟩

def packed : List Deed :=
  let change (item : Nat) (r : Range) : Deed := .change true (departing.look 0) (.range item r)
  [change 6 (.cell 2 3), change 5 (.cell 0 3), change 4 (.cell 2 2), change 3 ⟨2, 0, 1, 2⟩,
    change 2 ⟨0, 2, 2, 1⟩, change 1 ⟨0, 0, 2, 2⟩, .attach]

/-- The first item is moved down to a range with one of its own old cells, with cells of three other
items, and with a row that there is not yet. -/
theorem packed_reassigned :
    let c : Change := .range 1 ⟨1, 1, 3, 2⟩
    let grid := lattice.after packed
    ∃ g g', grid.mode = .grid g ∧ (grid.apply (some departing) c 0).layout.mode = .grid g' ∧
      g.cells = [[some 1, some 1, some 2, some 5], [some 1, some 1, some 2, none],
        [some 3, some 3, some 4, some 6]] ∧
      g'.cells = [[none, none, none, some 5], [none, some 1, some 1, none],
        [none, some 1, some 1, none], [none, some 1, some 1, none]] ∧
      g.Reassigned 1 ⟨1, 1, 3, 2⟩ (grid.Present departing c 0) g' := by
  intro c grid
  let g : Grid := ⟨⟨[(1, ⟨0, 0, 2, 2⟩), (2, ⟨0, 2, 2, 1⟩), (3, ⟨2, 0, 1, 2⟩), (4, .cell 2 2),
    (5, .cell 0 3), (6, .cell 2 3)]⟩, [[some 1, some 1, some 2, some 5],
      [some 1, some 1, some 2, none], [some 3, some 3, some 4, some 6]], [1, 1, 1], [1, 1, 1, 1]⟩
  have mode : (lattice.after packed).mode = .grid g := by cbv
  have child : (lattice.after packed).Present departing c 0 1 := by
    intro n _ v look
    obtain rfl := Option.some.inj look
    by_cases first : n = 0 <;> simp [View.ids, first, Item.plain]
  obtain ⟨-, g', mode', reassigned⟩ :=
    range_reassigned lattice_made packed mode departing (s := 0) rfl (by rfl) child
  have after : ((lattice.after packed).apply (some departing) c 0).layout.mode = .grid
    ⟨⟨[(5, .cell 0 3), (1, ⟨1, 1, 3, 2⟩)]⟩, [[none, none, none, some 5],
      [none, some 1, some 1, none], [none, some 1, some 1, none], [none, some 1, some 1, none]],
      [1, 1, 1, 1], [1, 1, 1, 1]⟩ := by cbv
  obtain rfl := Mode.grid.inj (mode'.symm.trans after)
  exact ⟨g, _, mode, mode', rfl, rfl, reassigned⟩

end Layout

end PixelLayout
