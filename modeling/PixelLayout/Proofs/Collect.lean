import PixelLayout.Flow.Arrange
import PixelLayout.Grid.Arrange
import PixelLayout.Line.Box
import PixelLayout.Proofs.Grid.Matrix
import PixelLayout.Proofs.Table

/-!
# Dropping what belongs to former children

A mode drops the stretch factors and the ranges of former children when it is refreshed. A well
formed grid is known by its ranges and its stretch factors, since these give the cells. What is done
for a child comes to the same before and after former children are dropped, although a range that
the child gets may displace some of theirs.
-/

set_option autoImplicit false

namespace PixelLayout

namespace Stretches

variable (s : Stretches) {children : List Item} {item : Nat}

theorem factor_restrict (child : children.any (·.id == item) = true) :
    (s.restrict children).factor item = s.factor item := by
  rw [factor, restrict, Table.get?_keep, if_pos child]
  rfl

/-- Former children may be dropped before or after a child gets a factor. -/
theorem restrict_set (child : children.any (·.id == item) = true) (factor : Nat) :
    (s.set item factor).restrict children = (s.restrict children).set item factor := by
  by_cases one : factor = 1
  · rw [set, set, if_pos one, if_pos one, restrict, restrict, Table.erase, Table.erase,
      Table.keep_keep, Table.keep_keep]
    exact Table.keep_congr fun _ _ => Bool.and_comm _ _
  · rw [set, set, if_neg one, if_neg one]
    exact Table.keep_insert child factor

end Stretches

namespace Grid

section Ranges

variable (g : Grid)

theorem release_keeps (item : Nat) : (g.release item).ranges = g.ranges.erase item := by
  cases hr : g.ranges.get? item with
  | none =>
    rw [release_of_none g item hr]
    refine (Table.keep_eq_self fun key held => ?_).symm
    rw [bne_iff_ne]
    rintro rfl
    simp [Table.contains, hr] at held
  | some r => rw [release_of_some g item hr]

theorem foldl_release_keeps (ids : List Nat) :
    (ids.foldl release g).ranges = g.ranges.keep fun id => !ids.contains id := by
  induction ids generalizing g with
  | nil => exact (Table.keep_eq_self fun _ _ => rfl).symm
  | cons item ids ih =>
    rw [List.foldl_cons, ih, release_keeps, Table.erase, Table.keep_keep]
    refine Table.keep_congr fun id _ => ?_
    rw [List.contains_cons, Bool.not_or]
    rfl

theorem restrict_ranges (children : List Item) :
    (g.restrict children).ranges = g.ranges.keep fun id => children.any (·.id == id) := by
  rw [restrict, foldl_release_keeps]
  refine Table.keep_congr fun id held => ?_
  have key := g.ranges.mem_keys_of_contains held
  cases child : children.any (·.id == id) <;> simp [key, child]

theorem restrict_rowStretch (children : List Item) :
    (g.restrict children).rowStretch = g.rowStretch := g.foldl_release_rowStretch _

theorem restrict_columnStretch (children : List Item) :
    (g.restrict children).columnStretch = g.columnStretch := g.foldl_release_columnStretch _

def opened (item : Nat) (r : Range) : Grid :=
  (g.release item).grow ((r.along .vertical).start + (r.along .vertical).count)
    ((r.along .horizontal).start + (r.along .horizontal).count)

theorem assign_ranges (item : Nat) (r : Range) :
    (g.assign item r).ranges = ((g.ranges.erase item).keep fun id =>
      !(occupants (g.opened item r).cells r).contains id).insert item r := by
  show ((occupants (g.opened item r).cells r).foldl release (g.opened item r)).ranges.insert _ _ = _
  rw [foldl_release_keeps]
  show (((g.release item).ranges.keep _).insert item r) = _
  rw [release_keeps]

theorem assign_rowStretch (item : Nat) (r : Range) :
    (g.assign item r).rowStretch =
      pad ((r.along .vertical).start + (r.along .vertical).count) 1 g.rowStretch := by
  show ((occupants _ _).foldl release (g.opened item r)).rowStretch = _
  rw [foldl_release_rowStretch]
  exact congrArg (pad _ 1) (g.release_rowStretch item)

theorem assign_columnStretch (item : Nat) (r : Range) :
    (g.assign item r).columnStretch =
      pad ((r.along .horizontal).start + (r.along .horizontal).count) 1 g.columnStretch := by
  show ((occupants _ _).foldl release (g.opened item r)).columnStretch = _
  rw [foldl_release_columnStretch]
  exact congrArg (pad _ 1) (g.release_columnStretch item)

end Ranges

namespace WellFormed

variable {g g' : Grid}

/-- Ranges and stretch factors make the grid. -/
theorem ext (h : g.WellFormed) (h' : g'.WellFormed) (ranges : g.ranges = g'.ranges)
    (rows : g.rowStretch = g'.rowStretch) (columns : g.columnStretch = g'.columnStretch) :
    g = g' := by
  have cell (i j : Nat) : g.itemAt i j = g'.itemAt i j := by
    apply Option.ext
    intro id
    rw [h.cell, h'.cell, ranges]
  have height : g.cells.length = g'.cells.length := by
    rw [h.rows, h'.rows, rowCount, rowCount, rows]
  have cells : g.cells = g'.cells := by
    refine List.ext_getElem height fun i hi hi' => ?_
    have width : g.cells[i].length = g'.cells[i].length := by
      rw [h.columns _ (List.getElem_mem hi), h'.columns _ (List.getElem_mem hi'), columnCount,
        columnCount, columns]
    refine List.ext_getElem width fun j hj hj' => ?_
    have same := cell i j
    simpa [itemAt, hi, hi', hj, hj'] using same
  cases g
  cases g'
  simp only at ranges rows columns cells
  subst ranges rows columns cells
  rfl

/-- A range displaces the others that have a cell of it. -/
theorem mem_occupants_opened (h : g.WellFormed) (item : Nat) (r : Range) (id : Nat) :
    id ∈ occupants (g.opened item r).cells r ↔
      id ≠ item ∧ ∃ r', g.ranges.get? id = some r' ∧
        ∃ i j, r'.covers i j = true ∧ r.covers i j = true := by
  have opened : (g.opened item r).WellFormed := (h.release item).grow _ _
  have ranges : (g.opened item r).ranges.get? id = if id = item then none else g.ranges.get? id :=
    g.release_ranges item id
  rw [mem_occupants]
  constructor
  · rintro ⟨i, j, held, covers⟩
    obtain ⟨r', hr', covers'⟩ := (opened.cell i j id).mp held
    rw [ranges] at hr'
    split at hr'
    · cases hr'
    · next other => exact ⟨other, r', hr', i, j, covers', covers⟩
  · rintro ⟨other, r', hr', i, j, covers', covers⟩
    refine ⟨i, j, (opened.cell i j id).mpr ⟨r', ?_, covers'⟩, covers⟩
    rw [ranges, if_neg other, hr']

variable {children : List Item}

/-- Former children may be dropped before or after a child gets a range. -/
theorem restrict_assign (h : g.WellFormed) {item : Nat}
    (child : children.any (·.id == item) = true) {r : Range} (valid : r.check = .ok ()) :
    (g.assign item r).restrict children = (g.restrict children).assign item r := by
  refine ((h.assign item valid).restrict children).ext ((h.restrict children).assign item valid)
    ?_ ?_ ?_
  · rw [restrict_ranges, assign_ranges, assign_ranges, Table.keep_insert child, restrict_ranges]
    refine congrArg (Table.insert · item r) ?_
    simp only [Table.erase, Table.keep_keep]
    refine Table.keep_congr fun id _ => ?_
    -- among the children, the range displaces the same ones before and after
    cases current : children.any (·.id == id) with
    | false => simp
    | true =>
      have same : id ∈ occupants (g.opened item r).cells r ↔
          id ∈ occupants ((g.restrict children).opened item r).cells r := by
        rw [h.mem_occupants_opened, (h.restrict children).mem_occupants_opened, restrict_ranges,
          Table.get?_keep, if_pos current]
      simp only [List.contains_eq_mem, decide_eq_decide.mpr same, Bool.and_true, Bool.true_and]
  · rw [restrict_rowStretch, assign_rowStretch, assign_rowStretch, restrict_rowStretch]
  · rw [restrict_columnStretch, assign_columnStretch, assign_columnStretch, restrict_columnStretch]

/-- What leaves the ranges alone may be done before or after former children are dropped. -/
theorem restrict_eq {g₁ g₂ : Grid} (h₁ : g₁.WellFormed) (h₂ : g₂.WellFormed)
    (ranges₁ : g₁.ranges = g.ranges) (ranges₂ : g₂.ranges = (g.restrict children).ranges)
    (rows : g₁.rowStretch = g₂.rowStretch) (columns : g₁.columnStretch = g₂.columnStretch) :
    g₁.restrict children = g₂ := by
  refine (h₁.restrict children).ext h₂ ?_ ?_ ?_
  · rw [restrict_ranges, ranges₁, ranges₂, restrict_ranges]
  · rw [restrict_rowStretch, rows]
  · rw [restrict_columnStretch, columns]

theorem restrict_setRow (h : g.WellFormed) (i : Nat) {factor : Nat} (valid : 1 ≤ factor) :
    Grid.restrict { g.grow (i + 1) g.columnCount with
        rowStretch := (g.grow (i + 1) g.columnCount).rowStretch.set i factor } children =
      let g' := g.restrict children
      { g'.grow (i + 1) g'.columnCount with
        rowStretch := (g'.grow (i + 1) g'.columnCount).rowStretch.set i factor } := by
  have count : (g.restrict children).columnCount = g.columnCount :=
    congrArg List.length (g.restrict_columnStretch children)
  refine restrict_eq (g := g) ((h.grow _ _).setRow i valid)
    (((h.restrict children).grow _ _).setRow i valid) rfl rfl ?_ ?_
  · show (pad _ 1 g.rowStretch).set i factor =
      (pad _ 1 (g.restrict children).rowStretch).set i factor
    rw [restrict_rowStretch]
  · show pad _ 1 g.columnStretch = pad _ 1 (g.restrict children).columnStretch
    rw [count, restrict_columnStretch]

theorem restrict_setColumn (h : g.WellFormed) (i : Nat) {factor : Nat} (valid : 1 ≤ factor) :
    Grid.restrict { g.grow g.rowCount (i + 1) with
        columnStretch := (g.grow g.rowCount (i + 1)).columnStretch.set i factor } children =
      let g' := g.restrict children
      { g'.grow g'.rowCount (i + 1) with
        columnStretch := (g'.grow g'.rowCount (i + 1)).columnStretch.set i factor } := by
  have count : (g.restrict children).rowCount = g.rowCount :=
    congrArg List.length (g.restrict_rowStretch children)
  refine restrict_eq (g := g) ((h.grow _ _).setColumn i valid)
    (((h.restrict children).grow _ _).setColumn i valid) rfl rfl ?_ ?_
  · show pad _ 1 g.rowStretch = pad _ 1 (g.restrict children).rowStretch
    rw [count, restrict_rowStretch]
  · show (pad _ 1 g.columnStretch).set i factor =
      (pad _ 1 (g.restrict children).columnStretch).set i factor
    rw [restrict_columnStretch]

end WellFormed

end Grid

section Refresh

variable {children : List Item} {item : Nat} (child : children.any (·.id == item) = true)
  (reset : Bool)

include child

theorem Box.refresh_factor (b : Box) :
    (b.refresh children reset).stretch.factor item = b.stretch.factor item := by
  rw [refresh]
  split
  · exact b.stretch.factor_restrict child
  · rfl

theorem Box.refresh_set (b : Box) (factor : Nat) :
    Box.refresh { b with stretch := b.stretch.set item factor } children reset =
      let b' := b.refresh children reset
      { b' with stretch := b'.stretch.set item factor } := by
  cases reset with
  | false => rfl
  | true => exact congrArg (Box.mk b.axis) (b.stretch.restrict_set child factor)

theorem Flow.refresh_factor (f : Flow) :
    (f.refresh children reset).stretch.factor item = f.stretch.factor item := by
  rw [refresh]
  split
  · exact f.stretch.factor_restrict child
  · rfl

theorem Flow.refresh_set (f : Flow) (factor : Nat) :
    Flow.refresh { f with stretch := f.stretch.set item factor } children reset =
      let f' := f.refresh children reset
      { f' with stretch := f'.stretch.set item factor } := by
  cases reset with
  | false => rfl
  | true => exact congrArg Flow.mk (f.stretch.restrict_set child factor)

end Refresh

section RefreshGrid

variable {g : Grid} {children : List Item} (reset : Bool)

theorem Grid.refresh_rowStretch : (g.refresh children reset).rowStretch = g.rowStretch := by
  cases reset with
  | false => rfl
  | true => exact g.restrict_rowStretch children

theorem Grid.refresh_columnStretch :
    (g.refresh children reset).columnStretch = g.columnStretch := by
  cases reset with
  | false => rfl
  | true => exact g.restrict_columnStretch children

variable (h : g.WellFormed)

include h

theorem Grid.WellFormed.refresh_assign {item : Nat}
    (child : children.any (·.id == item) = true) {r : Range} (valid : r.check = .ok ()) :
    (g.assign item r).refresh children reset = (g.refresh children reset).assign item r := by
  cases reset with
  | false => rfl
  | true => exact h.restrict_assign child valid

theorem Grid.WellFormed.refresh_setRow (i : Nat) {factor : Nat} (valid : 1 ≤ factor) :
    Grid.refresh { g.grow (i + 1) g.columnCount with
        rowStretch := (g.grow (i + 1) g.columnCount).rowStretch.set i factor } children reset =
      let g' := g.refresh children reset
      { g'.grow (i + 1) g'.columnCount with
        rowStretch := (g'.grow (i + 1) g'.columnCount).rowStretch.set i factor } := by
  cases reset with
  | false => rfl
  | true => exact h.restrict_setRow i valid

theorem Grid.WellFormed.refresh_setColumn (i : Nat) {factor : Nat} (valid : 1 ≤ factor) :
    Grid.refresh { g.grow g.rowCount (i + 1) with
        columnStretch := (g.grow g.rowCount (i + 1)).columnStretch.set i factor } children reset =
      let g' := g.refresh children reset
      { g'.grow g'.rowCount (i + 1) with
        columnStretch := (g'.grow g'.rowCount (i + 1)).columnStretch.set i factor } := by
  cases reset with
  | false => rfl
  | true => exact h.restrict_setColumn i valid

end RefreshGrid

end PixelLayout
