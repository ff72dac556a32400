import PixelLayout.Proofs.Grid.Retain
import PixelLayout.Proofs.Transpose.Item

/-!
# Empty tracks

A track that no laid out child covers has no part in the geometry of a grid. The grid without it, in
which the ranges behind it are moved up by one, gives every child the same rectangle and asks for the
same least size. So the geometry depends on the tracks in use only: on their stretch factors, in their
order, and on which of them each child covers.
-/

set_option autoImplicit false

namespace PixelLayout

namespace Grid

variable {g g' : Grid} {keep : Axis → Nat → Bool}

def factors (g : Grid) (axis : Axis) : List Nat := axis.pick g.columnStretch g.rowStretch

structure Spares (g g' : Grid) (keep : Axis → Nat → Bool) (ps : List Placement) : Prop where
  factors : ∀ axis, g'.factors axis = retain (keep axis) (g.factors axis)
  within : ∀ p ∈ ps, ∀ axis, (p.range.along axis).Within (g.factors axis)
  kept : ∀ p ∈ ps, ∀ axis, (p.range.along axis).Kept (keep axis)

namespace Spares

variable {ps : List Placement} (h : g.Spares g' keep ps) (settings : Settings)

include h

theorem columns (width : Int) : (g.ruler settings ps width .horizontal).Spares
    (g'.ruler settings (ps.map (.ranked keep)) width .horizontal) keep ps where
  axis := rfl
  spacing := rfl
  stretch := h.factors .horizontal
  fits p hp := h.within p hp .horizontal
  kept p hp := h.kept p hp .horizontal
  need _ _ := rfl

/-- The needs of the rows are the same too, as the columns give every child the same width. -/
theorem ruler (width : Int) (axis : Axis) : (g.ruler settings ps width axis).Spares
    (g'.ruler settings (ps.map (.ranked keep)) width axis) keep ps := by
  cases axis with
  | horizontal => exact h.columns settings width
  | vertical =>
    exact {
      axis := rfl
      spacing := rfl
      stretch := h.factors .vertical
      fits := fun p hp => h.within p hp .vertical
      kept := fun p hp => h.kept p hp .vertical
      need := fun p hp => congrArg p.item.heightAt <|
        (h.columns settings width).spanExtent (width - settings.margins.horizontal) hp }

theorem rect (bounds : Rect) {p : Placement} (hp : p ∈ ps) :
    g'.rect settings (ps.map (.ranked keep)) bounds (p.ranked keep) =
      g.rect settings ps bounds p := by
  have placed (axis : Axis) :
      g'.placedOn settings (ps.map (.ranked keep)) bounds (p.ranked keep) axis =
        g.placedOn settings ps bounds p axis :=
    (h.ruler settings bounds.width axis).placed _ _ hp _
  rw [Grid.rect, placed, placed]
  rfl

theorem minExtent (width : Int) (axis : Axis) :
    Grid.minExtent ((g'.ruler settings (ps.map (.ranked keep)) width axis).tracks
      (ps.map (.ranked keep))) settings.spacing =
    Grid.minExtent ((g.ruler settings ps width axis).tracks ps) settings.spacing := by
  have extent := (h.ruler settings width axis).minExtent
  rwa [ruler_spacing, ruler_spacing] at extent

end Spares

section Geometry

variable {children : List Item} (h : g.Spares g' keep (g.placements children)) (settings : Settings)

include h

theorem Spares.arrange (bounds : Rect) :
    let ps := (g.placements children).map (.ranked keep)
    g.arrange settings children bounds =
      ps.map fun p => (p.item.id, g'.rect settings ps bounds p) := by
  intro ps
  rw [arrange_eq, List.map_map]
  apply List.map_congr_left
  intro p hp
  exact congrArg (Prod.mk p.item.id) (h.rect settings bounds hp).symm

theorem Spares.minSize_along (size : Size) (axis : Axis) :
    let ps := (g.placements children).map (.ranked keep)
    (g.minSize settings children size).along axis = settings.margins.sum axis +
      Grid.minExtent ((g'.ruler settings ps size.width axis).tracks ps) settings.spacing := by
  intro ps
  rw [Grid.minSize_along, h.minExtent]

end Geometry

end Grid

section Others

def others (axis : Axis) (i : Nat) (axis' : Axis) (j : Nat) : Bool := !(axis' == axis && j == i)

variable {α : Type} (i : Nat)

theorem others_self (axis : Axis) : others axis i axis = (· != i) := by
  funext j
  simp [others, bne]

theorem others_of_ne {axis axis' : Axis} (other : axis' ≠ axis) :
    others axis i axis' = fun _ => true := by
  funext j
  simp [others, other]

theorem retain_ne (l : List α) : retain (· != i) l = l.eraseIdx i := by
  induction l generalizing i with
  | nil => rfl
  | cons a l ih =>
    cases i with
    | zero =>
      rw [retain, if_neg (by simp)]
      exact retain_of_all (fun _ => rfl) l
    | succ i =>
      rw [retain, if_pos (by simp), List.eraseIdx_cons_succ, ← ih]
      congr 2
      funext j
      simp [bne]

theorem rank_ne (j : Nat) : rank (· != i) j = if i < j then j - 1 else j := by
  induction j with
  | zero => rfl
  | succ j ih =>
    rw [rank_succ, ih]
    simp only [bne_iff_ne]
    split_ifs <;> omega

theorem rank_true (j : Nat) : rank (fun _ => true) j = j := by
  induction j with
  | zero => rfl
  | succ j ih => rw [rank_succ, ih, if_pos rfl]

end Others

namespace Range

variable (r : Range) (axis : Axis) (i : Nat)

def without : Range :=
  axis.pick { r with column := if i < r.column then r.column - 1 else r.column }
    { r with row := if i < r.row then r.row - 1 else r.row }

variable {r}

theorem without_eq_ranked (valid : r.check = .ok ()) :
    r.without axis i = r.ranked (others axis i) := by
  have shifted {n : Int} (hn : 0 ≤ n) :
      (if (i : Int) < n then n - 1 else n) = rank (· != i) n.toNat := by
    rw [rank_ne]
    split_ifs <;> omega
  have same {n : Int} (hn : 0 ≤ n) : n = rank (fun _ => true) n.toNat := by
    rw [rank_true]
    omega
  obtain ⟨row, column, -⟩ := r.check_ok_iff.mp valid
  cases axis with
  | horizontal =>
    rw [ranked, others_self, others_of_ne i (by decide), ← same row, ← shifted column]
    rfl
  | vertical =>
    rw [ranked, others_self, others_of_ne i (by decide), ← same column, ← shifted row]
    rfl

theorem along_without (valid : r.check = .ok ()) (axis' : Axis) :
    (r.without axis i).along axis' = (r.along axis').ranked (others axis i axis') := by
  rw [without_eq_ranked axis i valid, along_ranked]

end Range

namespace Grid

variable (g : Grid) (children : List Item) (axis : Axis) (i : Nat)

def without : Grid where
  ranges := g.ranges.map (·.without axis i)
  cells := axis.pick (g.cells.map (·.eraseIdx i)) (g.cells.eraseIdx i)
  rowStretch := axis.pick g.rowStretch (g.rowStretch.eraseIdx i)
  columnStretch := axis.pick (g.columnStretch.eraseIdx i) g.columnStretch

def Idle : Prop := ∀ c ∈ children, c.laidOut = true →
  ∀ r, g.ranges.get? c.id = some r → (r.along axis).covers i = false

def used (j : Nat) : Bool := (g.placements children).any fun p => (p.range.along axis).covers j

/-- What a grid is to its laid out children: the stretch factors of the tracks in use, in their order,
and the children with the tracks that they cover, counted among those in use. -/
structure Outline where
  columns : List Nat
  rows : List Nat
  placed : List Placement

def outline : Outline where
  columns := retain (g.used children .horizontal) g.columnStretch
  rows := retain (g.used children .vertical) g.rowStretch
  placed := (g.placements children).map (.ranked (g.used children))

def Outline.grid (o : Outline) : Grid := ⟨.empty, [], o.rows, o.columns⟩

variable {g children axis i}

theorem kept_others {r : Range} (free : (r.along axis).covers i = false) (axis' : Axis) :
    (r.along axis').Kept (others axis i axis') := by
  intro j covers
  by_contra left
  simp only [others, Bool.not_eq_true', Bool.not_eq_false, Bool.and_eq_true, beq_iff_eq] at left
  obtain ⟨rfl, rfl⟩ := left
  rw [free] at covers
  cases covers

theorem Idle.free (idle : g.Idle children axis i) {p : Placement}
    (hp : p ∈ g.placements children) : (p.range.along axis).covers i = false := by
  obtain ⟨c, laid, hp⟩ := List.mem_filterMap.mp hp
  obtain ⟨r, held, rfl⟩ := Option.map_eq_some_iff.mp hp
  obtain ⟨child, laid⟩ := List.mem_filter.mp laid
  exact idle c child laid r held

theorem without_factors (axis' : Axis) : (g.without axis i).factors axis' =
    retain (others axis i axis') (g.factors axis') := by
  by_cases same : axis' = axis
  · subst same
    rw [others_self, retain_ne]
    cases axis' <;> rfl
  · rw [others_of_ne i same, retain_of_all fun _ => rfl]
    cases axis <;> cases axis' <;> first | rfl | exact absurd rfl same

def formerIndex (axis : Axis) (i : Nat) (axis' : Axis) (j : Nat) : Nat :=
  if axis' = axis ∧ i ≤ j then j + 1 else j

theorem others_formerIndex (axis' : Axis) (j : Nat) :
    others axis i axis' (formerIndex axis i axis' j) = true := by
  by_cases same : axis' = axis
  · subst same
    simp only [others_self, bne_iff_ne, formerIndex, true_and]
    split_ifs <;> omega
  · rw [others_of_ne i same]

theorem rank_formerIndex (axis' : Axis) (j : Nat) :
    rank (others axis i axis') (formerIndex axis i axis' j) = j := by
  by_cases same : axis' = axis
  · subst same
    simp only [others_self, rank_ne, formerIndex, true_and]
    split_ifs <;> omega
  · rw [others_of_ne i same, rank_true, formerIndex, if_neg fun h => same h.1]

theorem without_itemAt (row column : Nat) : (g.without axis i).itemAt row column =
    g.itemAt (formerIndex axis i .vertical row) (formerIndex axis i .horizontal column) := by
  have moved {α : Type} (l : List α) (j : Nat) (a : α) :
      (l.eraseIdx i).getD j a = l.getD (if i ≤ j then j + 1 else j) a := by
    rw [List.getD_eq_getElem?_getD, List.getElem?_eraseIdx, List.getD_eq_getElem?_getD]
    by_cases ahead : j < i
    · rw [if_pos ahead, if_neg (Nat.not_le.mpr ahead)]
    · rw [if_neg ahead, if_pos (Nat.le_of_not_lt ahead)]
  cases axis with
  | horizontal =>
    have line : (g.cells.map (·.eraseIdx i)).getD row [] = (g.cells.getD row []).eraseIdx i := by
      simp only [List.getD_eq_getElem?_getD, List.getElem?_map]
      cases g.cells[row]? <;> rfl
    show ((g.cells.map (·.eraseIdx i)).getD row []).getD column none = _
    rw [line, moved]
    simp [itemAt, formerIndex]
  | vertical =>
    show ((g.cells.eraseIdx i).getD row []).getD column none = _
    rw [moved]
    simp [itemAt, formerIndex]

theorem covers_without {r : Range} (valid : r.check = .ok ())
    (free : (r.along axis).covers i = false) (row column : Nat) :
    (r.without axis i).covers row column =
      r.covers (formerIndex axis i .vertical row) (formerIndex axis i .horizontal column) := by
  have along (axis' : Axis) (j : Nat) : ((r.without axis i).along axis').covers j =
      (r.along axis').covers (formerIndex axis i axis' j) := by
    have place := (kept_others free axis').ranked_covers (others_formerIndex axis' j)
    rw [rank_formerIndex] at place
    rw [r.along_without axis i valid, place]
  rw [Range.covers, along, along]
  rfl

theorem without_ranges {id : Nat} {r' : Range} : (g.without axis i).ranges.get? id = some r' ↔
    ∃ r, g.ranges.get? id = some r ∧ r.without axis i = r' := by
  rw [without, Table.get?_map, Option.map_eq_some_iff]

namespace WellFormed

variable (h : g.WellFormed)

include h

/-- If no range covers the track at all, then the grid without it is a proper grid again. -/
theorem without (free : ∀ id r, g.ranges.get? id = some r → (r.along axis).covers i = false) :
    (g.without axis i).WellFormed where
  rows := by
    have rows := h.rows
    rw [rowCount] at rows ⊢
    cases axis <;> simp [Grid.without, List.length_eraseIdx, rows]
  columns row hrow := by
    cases axis with
    | horizontal =>
      obtain ⟨old, hold, rfl⟩ := List.mem_map.mp hrow
      have columns := h.columns old hold
      rw [columnCount] at columns ⊢
      simp [Grid.without, List.length_eraseIdx, columns]
    | vertical => exact h.columns row (List.mem_of_mem_eraseIdx hrow)
  rowFactors n hn := by
    cases axis with
    | horizontal => exact h.rowFactors n hn
    | vertical => exact h.rowFactors n (List.mem_of_mem_eraseIdx hn)
  columnFactors n hn := by
    cases axis with
    | horizontal => exact h.columnFactors n (List.mem_of_mem_eraseIdx hn)
    | vertical => exact h.columnFactors n hn
  valid id r' hr' := by
    obtain ⟨r, hr, rfl⟩ := without_ranges.mp hr'
    have valid := r.check_ok_iff.mp (h.valid id r hr)
    rw [Range.check_ok_iff]
    cases axis <;> simp only [Range.without, Axis.pick_horizontal, Axis.pick_vertical] <;>
      split_ifs <;> omega
  inside id r' hr' := by
    obtain ⟨r, hr, rfl⟩ := without_ranges.mp hr'
    have inside (axis' : Axis) : ((r.without axis i).along axis').start
        + ((r.without axis i).along axis').count ≤ ((g.without axis i).factors axis').length := by
      have kept := kept_others (free id r hr) axis'
      have held := (h.inside id r hr).along axis'
      rw [r.along_without axis i (h.valid id r hr), without_factors]
      apply kept.inside_retain
      cases axis' <;> exact held
    exact ⟨inside .vertical, inside .horizontal⟩
  cell row column id := by
    have covers {r : Range} (hr : g.ranges.get? id = some r) :=
      covers_without (h.valid id r hr) (free id r hr) row column
    rw [without_itemAt, h.cell]
    constructor
    · rintro ⟨r, hr, held⟩
      exact ⟨_, without_ranges.mpr ⟨r, hr, rfl⟩, (covers hr).trans held⟩
    · rintro ⟨r', hr', held⟩
      obtain ⟨r, hr, rfl⟩ := without_ranges.mp hr'
      exact ⟨r, hr, (covers hr).symm.trans held⟩

theorem placements_without : (g.without axis i).placements children =
    (g.placements children).map (.ranked (others axis i)) := by
  rw [placements, placements, List.map_filterMap]
  apply List.filterMap_congr
  intro c _
  show ((g.ranges.map (·.without axis i)).get? c.id).map _ = _
  rw [Table.get?_map, Option.map_map, Option.map_map]
  apply Option.map_congr
  intro r hr
  exact congrArg (Placement.mk c) (Range.without_eq_ranked axis i (h.valid c.id r hr))

theorem spares_without (idle : g.Idle children axis i) :
    g.Spares (g.without axis i) (others axis i) (g.placements children) where
  factors := without_factors
  within p hp axis' := h.within hp (by cases axis' <;> rfl)
  kept p hp axis' := kept_others (idle.free hp) axis'

theorem spares_outline : g.Spares (g.outline children).grid (g.used children)
    (g.placements children) where
  factors axis' := by cases axis' <;> rfl
  within p hp axis' := h.within hp (by cases axis' <;> rfl)
  kept p hp axis' j covers := List.any_eq_true.mpr ⟨p, hp, covers⟩

variable (settings : Settings)

theorem arrange_without (idle : g.Idle children axis i) (bounds : Rect) :
    (g.without axis i).arrange settings children bounds = g.arrange settings children bounds := by
  rw [(h.spares_without idle).arrange settings bounds, arrange_eq, h.placements_without]

theorem minSize_without (idle : g.Idle children axis i) (size : Size) :
    (g.without axis i).minSize settings children size = g.minSize settings children size := by
  apply Size.ext_along
  intro axis'
  rw [(h.spares_without idle).minSize_along settings size, Grid.minSize_along,
    h.placements_without]

/-- The outline is all that the geometry needs. -/
theorem arrange_outline (bounds : Rect) :
    let o := g.outline children
    g.arrange settings children bounds =
      o.placed.map fun p => (p.item.id, o.grid.rect settings o.placed bounds p) :=
  h.spares_outline.arrange settings bounds

theorem minSize_outline (size : Size) (axis' : Axis) :
    let o := g.outline children
    (g.minSize settings children size).along axis' = settings.margins.sum axis' +
      minExtent ((o.grid.ruler settings o.placed size.width axis').tracks o.placed)
        settings.spacing :=
  h.spares_outline.minSize_along settings size axis'

variable {g' : Grid} (h' : g'.WellFormed) (same : g'.outline children = g.outline children)

include h' same

theorem arrange_eq_of_outline (bounds : Rect) :
    g'.arrange settings children bounds = g.arrange settings children bounds := by
  rw [h.arrange_outline, h'.arrange_outline, same]

theorem minSize_eq_of_outline (size : Size) :
    g'.minSize settings children size = g.minSize settings children size := by
  apply Size.ext_along
  intro axis'
  rw [h.minSize_outline, h'.minSize_outline, same]

end WellFormed

end Grid

namespace Layout

def withGrid (l : Layout) (g : Grid) : Layout := { l with mode := .grid g }

/-- A pass gives the children the same rectangles in both layouts, and both ask for the same least
size at every size, whether it is computed or remembered. -/
structure SameGeometry (l l' : Layout) (v : View) : Prop where
  batch : (l'.arrangement v).batch = (l.arrangement v).batch
  computed : ∀ size, l'.freshMinSize (some v) size = l.freshMinSize (some v) size
  answer : ∀ size, (l'.minSizeFor (some v) size).1 = (l.minSizeFor (some v) size).1

theorem sameGeometry_withGrid {l : Layout} {g g' : Grid} (mode : l.mode = .grid g) {v : View}
    (arrange : g'.arrange l.settings v.children v.bounds = g.arrange l.settings v.children v.bounds)
    (minSize : ∀ size, g'.minSize l.settings v.children size =
      g.minSize l.settings v.children size) : l.SameGeometry (l.withGrid g') v := by
  have computed (size : Size) :
      (l.withGrid g').freshMinSize (some v) size = l.freshMinSize (some v) size := by
    show g'.minSize l.settings v.children size = l.mode.minSize l.settings v.children size
    rw [minSize, mode]
    rfl
  refine ⟨?_, computed, fun size => ?_⟩
  · rw [batch_of_grid mode v, batch_of_grid (l := l.withGrid g') rfl v, Grid.arrange_refresh,
      Grid.arrange_refresh]
    exact arrange
  · have memo : (l.withGrid g').memo = l.memo := rfl
    rw [minSizeFor_def, minSizeFor_def, memo]
    cases l.memo.lookup size with
    | some m => rfl
    | none => exact computed size

/-- Whatever a grid has been through, a track that no laid out child covers does not show: without it
every pass gives the same rectangles, and every least size is the same. So any grid that comes to the
same stretch factors of the tracks in use, and to the same children on these, has the same geometry. -/
theorem empty_tracks_invisible {l : Layout} (made : l.Made) (ds : List Deed) {g : Grid}
    (mode : (l.after ds).mode = .grid g) (v : View) :
    let grid := l.after ds
    (∀ axis i, g.Idle v.children axis i →
      grid.SameGeometry (grid.withGrid (g.without axis i)) v) ∧
    ∀ (l' : Layout) (ds' : List Deed) (g' : Grid), l'.Made → (l'.after ds').mode = .grid g' →
      g'.outline v.children = g.outline v.children → grid.SameGeometry (grid.withGrid g') v := by
  intro grid
  have wf : g.WellFormed := (made.sound ds).grid mode
  constructor
  · intro axis i idle
    exact sameGeometry_withGrid mode (wf.arrange_without _ idle _)
      fun size => wf.minSize_without _ idle size
  · intro l' ds' g' made' mode' same
    have wf' : g'.WellFormed := (made'.sound ds').grid mode'
    exact sameGeometry_withGrid mode (wf.arrange_eq_of_outline _ wf' same _)
      fun size => wf.minSize_eq_of_outline _ wf' same size

def gapped : View where
  suspended := false
  children := [{ Item.plain 1 with min := ⟨20, 10⟩, preferred := ⟨40, 30⟩ },
    { Item.plain 2 with
      min := ⟨40, 0⟩, flags := .resizable, heightForWidth := some (areaHeight 800) },
    { Item.plain 3 with visible := false },
    { Item.plain 4 with min := ⟨7, 15⟩, flags := .resizable }]
  bounds := ⟨10, 20, 90, 70⟩

def spacedOut : List Deed :=
  let change (c : Change) : Deed := .change true (some gapped) c
  [.attach, change (.columnStretch 1 5), change (.range 4 (.cell 2 3)),
    change (.range 3 ⟨1, 1, 1, 2⟩), change (.range 2 ⟨0, 2, 1, 2⟩), change (.range 1 (.cell 0 0))]

def closedUp : List Deed :=
  let change (item : Nat) (r : Range) : Deed := .change true (some gapped) (.range item r)
  [change 1 (.cell 0 0), change 2 ⟨0, 1, 1, 2⟩, change 4 (.cell 1 2)]

def narrowed : Grid :=
  ⟨⟨[(1, .cell 0 0), (2, ⟨0, 1, 1, 2⟩), (3, ⟨1, 1, 1, 2⟩), (4, .cell 2 2)]⟩,
    [[some 1, some 2, some 2], [none, some 3, none], [none, none, some 4]], [1, 1, 1], [1, 1, 1]⟩

theorem gapped_invisible :
    let grid := mosaic.after spacedOut
    (grid.arrangement gapped).batch =
      [(1, ⟨13, 23, 27, 30⟩), (2, ⟨44, 23, 53, 30⟩), (4, ⟨69, 57, 28, 30⟩)] ∧
    grid.freshMinSize (some gapped) ⟨50, 50⟩ = ⟨70, 45⟩ ∧
    grid.SameGeometry (grid.withGrid narrowed) gapped ∧
    ∃ g, (mosaic.after closedUp).mode = .grid g ∧ grid.SameGeometry (grid.withGrid g) gapped := by
  intro grid
  have arranged : ((mosaic.after spacedOut).arrangement gapped).batch =
      [(1, ⟨13, 23, 27, 30⟩), (2, ⟨44, 23, 53, 30⟩), (4, ⟨69, 57, 28, 30⟩)] := by cbv
  have least : (mosaic.after spacedOut).freshMinSize (some gapped) ⟨50, 50⟩ = ⟨70, 45⟩ := by cbv
  let g : Grid :=
    ⟨⟨[(1, .cell 0 0), (2, ⟨0, 2, 1, 2⟩), (3, ⟨1, 1, 1, 2⟩), (4, .cell 2 3)]⟩,
      [[some 1, none, some 2, some 2], [none, some 3, some 3, none], [none, none, none, some 4]],
      [1, 1, 1], [1, 5, 1, 1]⟩
  let g' : Grid := ⟨⟨[(4, .cell 1 2), (2, ⟨0, 1, 1, 2⟩), (1, .cell 0 0)]⟩,
    [[some 1, some 2, some 2], [none, none, some 4]], [1, 1], [1, 1, 1]⟩
  have mode : (mosaic.after spacedOut).mode = .grid g := by cbv
  have mode' : (mosaic.after closedUp).mode = .grid g' := by cbv
  have idle : g.Idle gapped.children .horizontal 1 := by
    intro c child laid r hr
    simp only [gapped, List.mem_cons, List.not_mem_nil, or_false] at child
    rcases child with rfl | rfl | rfl | rfl
    · cases hr
      rfl
    · cases hr
      rfl
    · cases laid
    · cases hr
      rfl
  have bare : g.without .horizontal 1 = narrowed := by rfl
  have outline : g'.outline gapped.children = g.outline gapped.children := by rfl
  obtain ⟨left, same⟩ := empty_tracks_invisible mosaic_made spacedOut mode gapped
  refine ⟨arranged, least, bare ▸ left .horizontal 1 idle, g', mode', ?_⟩
  exact same mosaic closedUp g' mosaic_made mode' outline

end Layout

end PixelLayout
