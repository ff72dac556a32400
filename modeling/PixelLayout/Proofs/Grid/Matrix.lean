import Mathlib.Data.List.ReduceOption
import PixelLayout.Grid.Matrix

/-!
# The matrix of a grid

The cells of a grid are those of its ranges: a cell has an occupant exactly if the range of that
item covers it. So ranges do not meet. Each of them is valid and inside the matrix, every row of
cells is as long as there are columns, and no track has a stretch factor below one. Giving and
taking ranges, growing the matrix and dropping the ranges of former children all keep this.
-/

set_option autoImplicit false

namespace PixelLayout

theorem Range.check_ok_iff (r : Range) : r.check = .ok () ↔
    0 ≤ r.row ∧ 0 ≤ r.column ∧ 1 ≤ r.rowSpan ∧ 1 ≤ r.columnSpan := by
  unfold check
  split
  · next out =>
    simp only [Bool.or_eq_true, decide_eq_true_eq] at out
    simp only [reduceCtorEq, false_iff]
    omega
  split
  · next out =>
    simp only [Bool.or_eq_true, decide_eq_true_eq] at out
    simp only [reduceCtorEq, false_iff]
    omega
  · next inside spans =>
    simp only [Bool.or_eq_true, decide_eq_true_eq] at inside spans
    simp only [true_iff]
    omega

def Range.Inside (r : Range) (rows columns : Nat) : Prop :=
  (r.along .vertical).start + (r.along .vertical).count ≤ rows ∧
    (r.along .horizontal).start + (r.along .horizontal).count ≤ columns

theorem Range.Inside.mono {r : Range} {rows columns rows' columns' : Nat}
    (h : r.Inside rows columns) (hr : rows ≤ rows') (hc : columns ≤ columns') :
    r.Inside rows' columns' :=
  ⟨Nat.le_trans h.1 hr, Nat.le_trans h.2 hc⟩

theorem Range.Inside.lt {r : Range} {rows columns i j : Nat} (h : r.Inside rows columns)
    (covers : r.covers i j = true) : i < rows ∧ j < columns := by
  simp only [Range.covers, Span.covers, Bool.and_eq_true, decide_eq_true_eq] at covers
  exact ⟨Nat.lt_of_lt_of_le covers.1.2 h.1, Nat.lt_of_lt_of_le covers.2.2 h.2⟩

namespace Grid

structure WellFormed (g : Grid) : Prop where
  rows : g.cells.length = g.rowCount
  columns : ∀ row ∈ g.cells, row.length = g.columnCount
  rowFactors : ∀ n ∈ g.rowStretch, 1 ≤ n
  columnFactors : ∀ n ∈ g.columnStretch, 1 ≤ n
  valid : ∀ id r, g.ranges.get? id = some r → r.check = .ok ()
  inside : ∀ id r, g.ranges.get? id = some r → r.Inside g.rowCount g.columnCount
  cell : ∀ i j id, g.itemAt i j = some id ↔ ∃ r, g.ranges.get? id = some r ∧ r.covers i j = true

theorem fresh_wellFormed : fresh.WellFormed where
  rows := rfl
  columns := by simp [fresh]
  rowFactors := by simp [fresh]
  columnFactors := by simp [fresh]
  valid := by simp [fresh, Table.empty, Table.get?, Table.lookup]
  inside := by simp [fresh, Table.empty, Table.get?, Table.lookup]
  cell := by simp [fresh, itemAt, Table.empty, Table.get?, Table.lookup]

section Cells

variable (cells : List (List (Option Nat))) (r : Range) (i j : Nat)

def cellAt : Option Nat := (cells.getD i []).getD j none

theorem itemAt_eq (g : Grid) : g.itemAt i j = cellAt g.cells i j := rfl

theorem cellAt_eq_some {id : Nat} :
    cellAt cells i j = some id ↔ ∃ row, cells[i]? = some row ∧ row[j]? = some (some id) := by
  simp only [cellAt, List.getD_eq_getElem?_getD]
  cases cells[i]? with
  | none => simp
  | some row => cases hj : row[j]? with
    | none => simp [hj]
    | some c => simp [hj]

theorem cellAt_fill_none :
    cellAt (fill cells r none) i j = if r.covers i j then none else cellAt cells i j := by
  simp only [cellAt, fill, List.getD_eq_getElem?_getD, List.getElem?_mapIdx]
  cases cells[i]? with
  | none => simp
  | some row => cases hj : row[j]? with
    | none => simp [hj]
    | some c => simp [hj]

theorem cellAt_fill_some (item : Nat) {rows columns : Nat} (hrows : cells.length = rows)
    (hcolumns : ∀ row ∈ cells, row.length = columns) (inside : r.Inside rows columns) :
    cellAt (fill cells r (some item)) i j =
      if r.covers i j then some item else cellAt cells i j := by
  by_cases covers : r.covers i j = true
  · obtain ⟨hi, hj⟩ := inside.lt covers
    rw [if_pos covers, cellAt_eq_some]
    have hi' : i < cells.length := hrows ▸ hi
    have hj' : j < cells[i].length := by
      rw [hcolumns _ (List.getElem_mem hi')]
      exact hj
    refine ⟨cells[i].mapIdx fun j c => if r.covers i j then some item else c, ?_, ?_⟩
    · simp [fill, hi']
    · simp [hj', covers]
  · rw [if_neg covers]
    simp only [cellAt, fill, List.getD_eq_getElem?_getD, List.getElem?_mapIdx]
    cases cells[i]? with
    | none => simp
    | some row => cases hj : row[j]? with
      | none => simp [hj]
      | some c => simp [hj, covers]

theorem mem_occupants {id : Nat} :
    id ∈ occupants cells r ↔ ∃ i j, cellAt cells i j = some id ∧ r.covers i j = true := by
  simp only [occupants, List.mem_flatten, List.mem_mapIdx, cellAt_eq_some,
    List.getElem?_eq_some_iff]
  constructor
  · rintro ⟨_, ⟨i, hi, rfl⟩, hid⟩
    obtain ⟨j, hj, h⟩ := List.mem_mapIdx.mp (List.reduceOption_mem_iff.mp hid)
    split at h
    · next covers => exact ⟨i, j, ⟨_, ⟨hi, rfl⟩, hj, h⟩, covers⟩
    · cases h
  · rintro ⟨i, j, ⟨_, ⟨hi, rfl⟩, hj, h⟩, covers⟩
    refine ⟨_, ⟨i, hi, rfl⟩, List.reduceOption_mem_iff.mpr (List.mem_mapIdx.mpr ⟨j, hj, ?_⟩)⟩
    rw [if_pos covers, h]

theorem fill_length (occupant : Option Nat) : (fill cells r occupant).length = cells.length := by
  simp [fill]

theorem fill_columns (occupant : Option Nat) {columns : Nat}
    (h : ∀ row ∈ cells, row.length = columns) :
    ∀ row ∈ fill cells r occupant, row.length = columns := by
  intro row hrow
  obtain ⟨i, hi, rfl⟩ := List.mem_mapIdx.mp hrow
  rw [List.length_mapIdx]
  exact h _ (List.getElem_mem hi)

end Cells

section Pad

variable {α : Type} (n : Nat) (a : α) (l : List α)

theorem pad_length : (pad n a l).length = max l.length n := by
  simp only [pad, List.length_append, List.length_replicate]
  omega

theorem pad_eq_append : pad n a l = l ++ List.replicate ((pad n a l).length - l.length) a := by
  rw [pad_length, pad]
  congr 2
  omega

theorem mem_pad {b : α} (h : b ∈ pad n a l) : b ∈ l ∨ b = a :=
  (List.mem_append.mp h).imp_right List.eq_of_mem_replicate

theorem pad_getD (i : Nat) : (pad n a l).getD i a = l.getD i a := by
  simp only [pad, List.getD_eq_getElem?_getD, List.getElem?_append, List.getElem?_replicate]
  split
  · rfl
  · next h =>
    rw [List.getElem?_eq_none (Nat.le_of_not_lt h)]
    split <;> rfl

end Pad

section Grow

variable (g : Grid) (rows columns : Nat)

theorem grow_rowCount : (g.grow rows columns).rowCount = max g.rowCount rows := pad_length _ _ _

theorem grow_columnCount : (g.grow rows columns).columnCount = max g.columnCount columns :=
  pad_length _ _ _

theorem cellAt_map_pad (cells : List (List (Option Nat))) (n i j : Nat) :
    cellAt (cells.map (pad n none)) i j = cellAt cells i j := by
  simp only [cellAt, List.getD_eq_getElem?_getD, List.getElem?_map]
  cases cells[i]? with
  | none => rfl
  | some row => exact pad_getD n none row j

theorem grow_itemAt (i j : Nat) : (g.grow rows columns).itemAt i j = g.itemAt i j := by
  rw [itemAt_eq, itemAt_eq, grow, cellAt_map_pad, cellAt, pad_getD]
  rfl

end Grow

section Release

variable (g : Grid) (item : Nat) (ids : List Nat)

theorem release_of_some {r : Range} (hr : g.ranges.get? item = some r) :
    g.release item = { g with ranges := g.ranges.erase item, cells := fill g.cells r none } := by
  simp only [release, hr]

theorem release_of_none (hr : g.ranges.get? item = none) : g.release item = g := by
  simp only [release, hr]

theorem release_rowStretch : (g.release item).rowStretch = g.rowStretch := by
  unfold release
  split <;> rfl

theorem release_columnStretch : (g.release item).columnStretch = g.columnStretch := by
  unfold release
  split <;> rfl

theorem release_ranges (id : Nat) :
    (g.release item).ranges.get? id = if id = item then none else g.ranges.get? id := by
  cases hr : g.ranges.get? item with
  | none =>
    rw [release_of_none g item hr]
    split
    · next h => rw [h, hr]
    · rfl
  | some r =>
    rw [release_of_some g item hr]
    exact Table.get?_erase _ _ _

theorem foldl_release_ranges (id : Nat) :
    (ids.foldl release g).ranges.get? id = if id ∈ ids then none else g.ranges.get? id := by
  induction ids generalizing g with
  | nil => rfl
  | cons item ids ih =>
    rw [List.foldl_cons, ih, release_ranges]
    by_cases hid : id = item <;> by_cases hmem : id ∈ ids <;> simp [hid, hmem]

theorem foldl_release_rowStretch : (ids.foldl release g).rowStretch = g.rowStretch := by
  induction ids generalizing g with
  | nil => rfl
  | cons item ids ih => exact (ih _).trans (g.release_rowStretch item)

theorem foldl_release_columnStretch : (ids.foldl release g).columnStretch = g.columnStretch := by
  induction ids generalizing g with
  | nil => rfl
  | cons item ids ih => exact (ih _).trans (g.release_columnStretch item)

end Release

namespace WellFormed

variable {g : Grid} (h : g.WellFormed)

include h

/-- An item leaves exactly its own cells. -/
theorem release_itemAt (item i j : Nat) :
    (g.release item).itemAt i j = if g.itemAt i j = some item then none else g.itemAt i j := by
  cases hr : g.ranges.get? item with
  | none =>
    rw [release_of_none g item hr, if_neg]
    rw [h.cell]
    simp [hr]
  | some r =>
    have own : g.itemAt i j = some item ↔ r.covers i j = true := by
      rw [h.cell]
      simp [hr]
    rw [release_of_some g item hr, itemAt_eq, cellAt_fill_none]
    simp only [← own]
    rfl

theorem release (item : Nat) : (g.release item).WellFormed where
  rows := by
    unfold Grid.release rowCount
    split
    · exact (fill_length _ _ _).trans h.rows
    · exact h.rows
  columns := by
    unfold Grid.release columnCount
    split
    · exact fill_columns _ _ _ h.columns
    · exact h.columns
  rowFactors := g.release_rowStretch item ▸ h.rowFactors
  columnFactors := g.release_columnStretch item ▸ h.columnFactors
  valid id r hr := by
    rw [release_ranges] at hr
    split at hr
    · cases hr
    · exact h.valid id r hr
  inside id r hr := by
    rw [release_ranges] at hr
    split at hr
    · cases hr
    · rw [rowCount, columnCount, release_rowStretch, release_columnStretch]
      exact h.inside id r hr
  cell i j id := by
    rw [h.release_itemAt, release_ranges]
    by_cases hid : id = item
    · subst hid
      split <;> simp_all
    · rw [if_neg hid, ← h.cell]
      split
      · next held => simp [held, Ne.symm hid]
      · rfl

theorem foldl_release (ids : List Nat) : (ids.foldl Grid.release g).WellFormed := by
  induction ids generalizing g with
  | nil => exact h
  | cons item ids ih => exact ih (h.release item)

theorem grow (rows columns : Nat) : (g.grow rows columns).WellFormed where
  rows := by
    simp only [Grid.grow, rowCount, List.length_map, pad_length]
    have := h.rows
    simp only [rowCount] at this
    omega
  columns := by
    intro row hrow
    obtain ⟨old, hold, rfl⟩ := List.mem_map.mp hrow
    have hlen : old.length ≤ g.columnCount := by
      rcases mem_pad _ _ _ hold with hold | rfl
      · exact Nat.le_of_eq (h.columns old hold)
      · exact Nat.zero_le _
    rw [columnCount] at hlen
    simp only [pad_length, columnCount, Grid.grow]
    omega
  rowFactors n hn := (mem_pad _ _ _ hn).elim (h.rowFactors n) (fun hn => hn ▸ Nat.le_refl 1)
  columnFactors n hn := (mem_pad _ _ _ hn).elim (h.columnFactors n) (fun hn => hn ▸ Nat.le_refl 1)
  valid := h.valid
  inside id r hr := by
    rw [grow_rowCount, grow_columnCount]
    exact (h.inside id r hr).mono (Nat.le_max_left _ _) (Nat.le_max_left _ _)
  cell i j id := by
    rw [grow_itemAt]
    exact h.cell i j id

/-- A range given to an item that has none, where no cell of it has an occupant. -/
theorem put {item : Nat} {r : Range} (free : g.ranges.get? item = none)
    (vacant : ∀ i j, r.covers i j = true → g.itemAt i j = none) (valid : r.check = .ok ())
    (inside : r.Inside g.rowCount g.columnCount) :
    Grid.WellFormed { g with
      ranges := g.ranges.insert item r, cells := fill g.cells r (some item) } where
  rows := (fill_length _ _ _).trans h.rows
  columns := fill_columns _ _ _ h.columns
  rowFactors := h.rowFactors
  columnFactors := h.columnFactors
  valid id r' hr' := by
    simp only [Table.get?_insert] at hr'
    split at hr'
    · cases hr'
      exact valid
    · exact h.valid id r' hr'
  inside id r' hr' := by
    simp only [Table.get?_insert] at hr'
    split at hr'
    · cases hr'
      exact inside
    · exact h.inside id r' hr'
  cell i j id := by
    rw [itemAt_eq, cellAt_fill_some g.cells r i j item h.rows h.columns inside, ← itemAt_eq]
    simp only [Table.get?_insert]
    by_cases hid : item = id
    · subst hid
      have absent : g.itemAt i j ≠ some item := by simp [h.cell, free]
      by_cases covers : r.covers i j = true <;> simp [covers, absent]
    · rw [if_neg hid, ← h.cell]
      by_cases covers : r.covers i j = true
      · simp [covers, hid, vacant i j covers]
      · simp [covers]

/-- Once every occupant of its cells is taken out, a range is free. -/
theorem vacated (r : Range) (i j : Nat) (covers : r.covers i j = true) :
    ((occupants g.cells r).foldl Grid.release g).itemAt i j = none := by
  by_contra held
  obtain ⟨id, held⟩ := Option.ne_none_iff_exists'.mp held
  obtain ⟨r', hr', covers'⟩ := ((h.foldl_release _).cell i j id).mp held
  rw [foldl_release_ranges] at hr'
  split at hr'
  · cases hr'
  · next kept =>
    exact kept ((mem_occupants _ _).mpr ⟨i, j, (h.cell i j id).mpr ⟨r', hr', covers'⟩, covers⟩)

theorem assign (item : Nat) {r : Range} (valid : r.check = .ok ()) :
    (g.assign item r).WellFormed := by
  unfold Grid.assign
  set rows := (r.along .vertical).start + (r.along .vertical).count
  set columns := (r.along .horizontal).start + (r.along .horizontal).count
  set grown := (g.release item).grow rows columns with hg
  have hgrown : grown.WellFormed := (h.release item).grow rows columns
  refine (hgrown.foldl_release (occupants grown.cells r)).put ?_ (hgrown.vacated r) valid ?_
  · rw [foldl_release_ranges]
    split
    · rfl
    · exact (g.release_ranges item item).trans (if_pos rfl)
  · rw [rowCount, columnCount, foldl_release_rowStretch, foldl_release_columnStretch]
    change r.Inside grown.rowCount grown.columnCount
    rw [hg, grow_rowCount, grow_columnCount]
    exact ⟨Nat.le_max_right _ _, Nat.le_max_right _ _⟩

/-- Other factors for the same tracks. -/
theorem setFactors {rowStretch columnStretch : List Nat}
    (rows : rowStretch.length = g.rowCount) (columns : columnStretch.length = g.columnCount)
    (rowFactors : ∀ n ∈ rowStretch, 1 ≤ n) (columnFactors : ∀ n ∈ columnStretch, 1 ≤ n) :
    Grid.WellFormed { g with rowStretch, columnStretch } where
  rows := h.rows.trans rows.symm
  columns row hrow := (h.columns row hrow).trans columns.symm
  rowFactors := rowFactors
  columnFactors := columnFactors
  valid := h.valid
  inside id r hr := by
    have inside := h.inside id r hr
    rwa [← rows, ← columns] at inside
  cell := h.cell

theorem setRow (i : Nat) {factor : Nat} (hf : 1 ≤ factor) :
    Grid.WellFormed { g with rowStretch := g.rowStretch.set i factor } :=
  h.setFactors List.length_set rfl
    (fun n hn => (List.mem_or_eq_of_mem_set hn).elim (h.rowFactors n) (fun hn => hn ▸ hf))
    h.columnFactors

theorem setColumn (i : Nat) {factor : Nat} (hf : 1 ≤ factor) :
    Grid.WellFormed { g with columnStretch := g.columnStretch.set i factor } :=
  h.setFactors rfl List.length_set h.rowFactors
    (fun n hn => (List.mem_or_eq_of_mem_set hn).elim (h.columnFactors n) (fun hn => hn ▸ hf))

theorem restrict (children : List Item) : (g.restrict children).WellFormed := h.foldl_release _

end WellFormed

end Grid

end PixelLayout
