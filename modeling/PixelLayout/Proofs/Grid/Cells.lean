import PixelLayout.Proofs.Collect
import PixelLayout.Proofs.Grid.Tracks
import PixelLayout.Proofs.History.Sound

/-!
# Cells and ranges in every history

Ranges are given and taken, tracks get stretch factors, containers come and go with their children,
and passes drop the ranges of former children, be they completed or not. All the while the matrix of
a grid shows the ranges and nothing else, and it never shrinks. As each range is inside the matrix,
so is every track that a pass looks up for an item.
-/

set_option autoImplicit false

namespace PixelLayout

def Range.Apart (r r' : Range) : Prop :=
  ∀ i j, ¬ (r.covers i j = true ∧ r'.covers i j = true)

namespace Grid

theorem WellFormed.apart {g : Grid} (h : g.WellFormed) {id id' : Nat} (other : id ≠ id')
    {r r' : Range} (hr : g.ranges.get? id = some r) (hr' : g.ranges.get? id' = some r') :
    r.Apart r' := by
  rintro i j ⟨covers, covers'⟩
  have held := (h.cell i j id).mpr ⟨r, hr, covers⟩
  have held' := (h.cell i j id').mpr ⟨r', hr', covers'⟩
  exact other (Option.some.inj (held.symm.trans held'))

structure FitsInto (g g' : Grid) : Prop where
  rows : g.rowCount ≤ g'.rowCount
  columns : g.columnCount ≤ g'.columnCount

namespace FitsInto

variable (g : Grid)

theorem refl : g.FitsInto g := ⟨le_rfl, le_rfl⟩

theorem trans {g g' g'' : Grid} (h : g.FitsInto g') (h' : g'.FitsInto g'') : g.FitsInto g'' :=
  ⟨h.rows.trans h'.rows, h.columns.trans h'.columns⟩

theorem grow (rows columns : Nat) : g.FitsInto (g.grow rows columns) where
  rows := (le_max_left _ _).trans_eq (g.grow_rowCount rows columns).symm
  columns := (le_max_left _ _).trans_eq (g.grow_columnCount rows columns).symm

theorem assign (item : Nat) (r : Range) : g.FitsInto (g.assign item r) where
  rows := by
    rw [rowCount, rowCount, assign_rowStretch, pad_length]
    exact le_max_left _ _
  columns := by
    rw [columnCount, columnCount, assign_columnStretch, pad_length]
    exact le_max_left _ _

theorem refresh (children : List Item) (reset : Bool) :
    g.FitsInto (g.refresh children reset) where
  rows := (congrArg List.length (refresh_rowStretch reset)).ge
  columns := (congrArg List.length (refresh_columnStretch reset)).ge

theorem setRow (i factor : Nat) :
    g.FitsInto { g with rowStretch := g.rowStretch.set i factor } where
  rows := List.length_set.ge
  columns := le_rfl

theorem setColumn (i factor : Nat) :
    g.FitsInto { g with columnStretch := g.columnStretch.set i factor } where
  rows := le_rfl
  columns := List.length_set.ge

end FitsInto

theorem WellFormed.within {g : Grid} (h : g.WellFormed) {children : List Item} {p : Placement}
    (hp : p ∈ g.placements children) {axis : Axis} {α : Type} {l : List α}
    (length : l.length = axis.pick g.columnCount g.rowCount) : (p.range.along axis).Within l := by
  have held := (mem_placements hp).2
  refine ⟨Range.count_pos (h.valid _ _ held) axis, ?_⟩
  rw [length]
  exact (h.inside _ _ held).along axis

def Finds (g : Grid) (settings : Settings) (children : List Item) (bounds : Rect)
    (p : Placement) : Prop :=
  let ps := g.placements children
  ∀ axis, let r := g.ruler settings ps bounds.width axis
    let space := space settings bounds axis
    let tracks := p.range.along axis
    tracks.Within r.stretch ∧ tracks.Within (r.tracks ps) ∧ tracks.Within (r.sizes ps space) ∧
      tracks.Within (r.starts ps space (origin settings bounds axis))

theorem WellFormed.finds {g : Grid} (h : g.WellFormed) (settings : Settings)
    {children : List Item} {p : Placement} (hp : p ∈ g.placements children) (bounds : Rect) :
    g.Finds settings children bounds p := by
  intro axis r space tracks
  have stretch : r.stretch.length = axis.pick g.columnCount g.rowCount :=
    g.ruler_stretch_length settings _ bounds.width axis
  exact ⟨h.within hp stretch, h.within hp ((r.tracks_length _).trans stretch),
    h.within hp ((r.sizes_length _ space).trans stretch),
    h.within hp ((r.starts_length _ space _).trans stretch)⟩

end Grid

namespace Layout

def Grows (l l' : Layout) : Prop :=
  ∀ g, l.mode = .grid g → ∃ g', l'.mode = .grid g' ∧ g.FitsInto g'

namespace Grows

variable {l l' l'' : Layout}

theorem of_mode_eq (h : l'.mode = l.mode) : l.Grows l' := fun g hg => ⟨g, h.trans hg, .refl g⟩

theorem trans (h : l.Grows l') (h' : l'.Grows l'') : l.Grows l'' := by
  intro g hg
  obtain ⟨g', hg', fits⟩ := h g hg
  obtain ⟨g'', hg'', fits'⟩ := h' g' hg'
  exact ⟨g'', hg'', fits.trans fits'⟩

theorem revised {view : Option View} {c : Change} (revised : Revised l view c l') :
    l.Grows l' := by
  intro g hg
  cases revised with
  | margins | spacing | alignment => exact ⟨g, hg, .refl g⟩
  | boxAxis mode | splitterAxis mode | boxStretch mode | flowStretch mode | splitterStretch mode
  | handleWidth mode | fixed mode | fractions mode | release mode =>
    rw [mode] at hg
    cases hg
  | @range _ mode _ _ item _ r =>
    rw [mode] at hg
    cases hg
    exact ⟨_, rfl, .assign g item r⟩
  | rowStretch mode =>
    rw [mode] at hg
    cases hg
    exact ⟨_, rfl, (Grid.FitsInto.grow g _ _).trans (.setRow _ _ _)⟩
  | columnStretch mode =>
    rw [mode] at hg
    cases hg
    exact ⟨_, rfl, (Grid.FitsInto.grow g _ _).trans (.setColumn _ _ _)⟩

theorem undergo (l : Layout) (d : Deed) : l.Grows (l.undergo d) := by
  cases d with
  | attach | detach | request | start | mark => exact of_mode_eq rfl
  | query view size => exact of_mode_eq (minSizeFor_mode view size)
  | pass v =>
    intro g hg
    have mode : (l.undergo (.pass v)).mode =
        (l.mode.arrange l.settings v.children v.bounds (l.startsAfresh v.children)).mode := rfl
    rw [hg] at mode
    exact ⟨_, mode, .refresh g v.children _⟩
  | change attached view c =>
    simp only [Layout.undergo]
    cases hr : l.revised? attached view c with
    | none => exact of_mode_eq rfl
    | some l' => exact (revised (revised_of_revised? hr)).trans (of_mode_eq rfl)

theorem after (l : Layout) (ds : List Deed) : l.Grows (l.after ds) :=
  after_induction (fun l' d h => h.trans (undergo l' d)) (of_mode_eq rfl) ds

end Grows

/-- In every history, an item has a cell of a grid exactly if its range covers it. So the ranges of
different items have no cell in common. They are inside the matrix, where each pass looks their
tracks up, and every row of the matrix is as long as there are columns. No track has a stretch factor
below one. Whatever comes later, rows and columns only become more. -/
theorem matrix_after {l : Layout} (made : l.Made) (ds : List Deed) {g : Grid}
    (mode : (l.after ds).mode = .grid g) :
    (∀ i j id, g.itemAt i j = some id ↔
      ∃ r, g.ranges.get? id = some r ∧ r.covers i j = true) ∧
    (∀ id id' r r', id ≠ id' → g.ranges.get? id = some r → g.ranges.get? id' = some r' →
      r.Apart r') ∧
    (∀ id r, g.ranges.get? id = some r → r.Inside g.rowCount g.columnCount) ∧
    (∀ (settings : Settings) (children : List Item) (bounds : Rect),
      ∀ p ∈ g.placements children, g.Finds settings children bounds p) ∧
    g.cells.length = g.rowCount ∧ (∀ row ∈ g.cells, row.length = g.columnCount) ∧
    (∀ n ∈ g.rowStretch, 1 ≤ n) ∧ (∀ n ∈ g.columnStretch, 1 ≤ n) ∧
    ∀ later, ∃ g', (l.after (later ++ ds)).mode = .grid g' ∧
      g.rowCount ≤ g'.rowCount ∧ g.columnCount ≤ g'.columnCount := by
  have wf : g.WellFormed := by
    have sound := (made.sound ds).mode
    rwa [mode] at sound
  refine ⟨wf.cell, fun id id' r r' other hr hr' => wf.apart other hr hr', wf.inside, ?_, wf.rows,
    wf.columns, wf.rowFactors, wf.columnFactors, fun later => ?_⟩
  · exact fun settings children bounds p hp => wf.finds settings hp bounds
  · rw [after_append]
    obtain ⟨g', mode', fits⟩ := Grows.after (l.after ds) later g mode
    exact ⟨g', mode', fits.rows, fits.columns⟩

def lattice : Layout := ⟨.zero, .idle, [], [], .grid .fresh⟩

theorem lattice_made : lattice.Made := .grid (show grid none = .ok lattice from rfl)

def crowded : List Deed :=
  let view (ids : List Nat) : View := ⟨false, ids.map Item.plain, ⟨0, 0, 100, 100⟩⟩
  let change (c : Change) : Deed := .change true (some (view [1, 2, 3])) c
  [.pass (view [1, 2]), change (.rowStretch 2 3), change (.range 2 ⟨0, 1, 2, 1⟩),
    change (.range 3 (.cell 1 0)), change (.range 1 ⟨0, 0, 1, 2⟩), .attach]

theorem lattice_crowded : ∃ g, (lattice.after crowded).mode = .grid g ∧
    g.cells = [[none, some 2], [none, some 2], [none, none]] ∧
    (∀ i j id, g.itemAt i j = some id ↔
      ∃ r, g.ranges.get? id = some r ∧ r.covers i j = true) ∧
    ∀ later, ∃ g', (lattice.after (later ++ crowded)).mode = .grid g' ∧
      3 ≤ g'.rowCount ∧ 2 ≤ g'.columnCount := by
  let g : Grid := ⟨⟨[(2, ⟨0, 1, 2, 1⟩)]⟩, [[none, some 2], [none, some 2], [none, none]],
    [1, 1, 3], [1, 1]⟩
  have mode : (lattice.after crowded).mode = .grid g := by cbv
  obtain ⟨cell, -, -, -, -, -, -, -, grows⟩ := matrix_after lattice_made crowded mode
  exact ⟨g, mode, rfl, cell, grows⟩

end Layout

end PixelLayout
