import PixelLayout.Proofs.Collect
import PixelLayout.Proofs.Grid.Tracks
import PixelLayout.Proofs.Transpose.Item

/-!
# The columns of a grid as rows

A well formed grid is known by its ranges and its stretch factors, and its transpose is the one that
has them with rows and columns swapped. Giving and taking ranges and stretch factors come to the same
before and after. So do the tracks: those of an axis are made from the same items in the same order as
those of the other axis of the transpose. This needs that rows ask for no heights at the widths of
columns, which are known only after them.
-/

set_option autoImplicit false

namespace PixelLayout

namespace Range

variable (r : Range)

def transpose : Range := ⟨r.column, r.row, r.columnSpan, r.rowSpan⟩

@[simp] theorem along_transpose (axis : Axis) : r.transpose.along axis = r.along axis.cross := by
  cases axis <;> rfl

theorem covers_transpose (i j : Nat) : r.transpose.covers i j = r.covers j i := by
  rw [covers, covers, Bool.and_comm, along_transpose, along_transpose]
  rfl

theorem check_transpose : r.transpose.check = .ok () ↔ r.check = .ok () := by
  simp only [check_ok_iff, transpose]
  omega

variable {r}

theorem Inside.transpose {rows columns : Nat} (h : r.Inside rows columns) :
    r.transpose.Inside columns rows := ⟨h.2, h.1⟩

end Range

namespace Grid

variable (g : Grid)

def transpose : Grid where
  ranges := g.ranges.map .transpose
  cells := (List.range g.columnCount).map fun j =>
    (List.range g.rowCount).map fun i => g.itemAt i j
  rowStretch := g.columnStretch
  columnStretch := g.rowStretch

theorem transpose_itemAt (i j : Nat) : g.transpose.itemAt j i =
    if j < g.columnCount ∧ i < g.rowCount then g.itemAt i j else none := by
  simp only [itemAt_eq j i, cellAt, transpose, List.getD_eq_getElem?_getD, List.getElem?_map]
  by_cases column : j < g.columnCount
  · by_cases row : i < g.rowCount
    · simp [column, row]
    · simp [column, row]
  · simp [column]

theorem transpose_ranges {id : Nat} {r : Range} :
    g.transpose.ranges.get? id = some r ↔ g.ranges.get? id = some r.transpose := by
  rw [transpose, Table.get?_map, Option.map_eq_some_iff]
  constructor
  · rintro ⟨r, hr, rfl⟩
    exact hr
  · exact fun hr => ⟨r.transpose, hr, rfl⟩

namespace WellFormed

variable {g} (h : g.WellFormed)

include h

theorem transpose : g.transpose.WellFormed where
  rows := by
    rw [Grid.transpose, List.length_map, List.length_range]
    rfl
  columns row hrow := by
    obtain ⟨j, -, rfl⟩ := List.mem_map.mp hrow
    rw [List.length_map, List.length_range]
    rfl
  rowFactors := h.columnFactors
  columnFactors := h.rowFactors
  valid id r hr := r.check_transpose.mp (h.valid id _ (g.transpose_ranges.mp hr))
  inside id r hr := (h.inside id _ (g.transpose_ranges.mp hr)).transpose
  cell j i id := by
    simp only [transpose_itemAt, transpose_ranges]
    constructor
    · intro held
      split at held
      · obtain ⟨r, hr, covers⟩ := (h.cell i j id).mp held
        exact ⟨r.transpose, hr, (r.covers_transpose j i).trans covers⟩
      · cases held
    · rintro ⟨r, hr, covers⟩
      have covers : r.transpose.covers i j = true := (r.covers_transpose i j).trans covers
      obtain ⟨row, column⟩ := (h.inside id _ hr).lt covers
      rw [if_pos ⟨column, row⟩]
      exact (h.cell i j id).mpr ⟨_, hr, covers⟩

variable (children : List Item)

theorem restrict_transpose :
    g.transpose.restrict (children.map .transpose) = (g.restrict children).transpose := by
  refine (h.transpose.restrict _).ext (h.restrict children).transpose ?_ ?_ ?_
  · rw [restrict_ranges]
    show (g.ranges.map .transpose).keep _ = (g.restrict children).ranges.map .transpose
    rw [restrict_ranges, Table.map_keep]
    exact congrArg _ (funext fun id => any_id_transpose children (· == id))
  · rw [restrict_rowStretch]
    exact (g.restrict_columnStretch children).symm
  · rw [restrict_columnStretch]
    exact (g.restrict_rowStretch children).symm

theorem refresh_transpose (reset : Bool) :
    g.transpose.refresh (children.map .transpose) reset =
      (g.refresh children reset).transpose := by
  cases reset with
  | false => rfl
  | true => exact h.restrict_transpose children

theorem assign_transpose (item : Nat) {r : Range} (valid : r.check = .ok ()) :
    g.transpose.assign item r.transpose = (g.assign item r).transpose := by
  refine (h.transpose.assign item (r.check_transpose.mpr valid)).ext
    (h.assign item valid).transpose ?_ ?_ ?_
  · show _ = (g.assign item r).ranges.map .transpose
    rw [assign_ranges, assign_ranges, Table.map_insert, Table.map_keep, Table.erase, Table.erase,
      Table.map_keep]
    -- the range displaces the same ones as its transpose
    have same (id : Nat) : id ∈ occupants (g.transpose.opened item r.transpose).cells r.transpose ↔
        id ∈ occupants (g.opened item r).cells r := by
      simp only [h.mem_occupants_opened, h.transpose.mem_occupants_opened, transpose_ranges]
      refine and_congr_right fun _ => ⟨?_, ?_⟩
      · rintro ⟨r', hr', i, j, covers', covers⟩
        rw [Range.covers_transpose] at covers
        exact ⟨_, hr', j, i, (r'.covers_transpose j i).trans covers', covers⟩
      · rintro ⟨r', hr', i, j, covers', covers⟩
        exact ⟨r'.transpose, hr', j, i, (r'.covers_transpose j i).trans covers',
          (r.covers_transpose j i).trans covers⟩
    simp only [List.contains_eq_mem, decide_eq_decide.mpr (same _)]
    rfl
  · rw [assign_rowStretch]
    exact (g.assign_columnStretch item r).symm
  · rw [assign_columnStretch]
    exact (g.assign_rowStretch item r).symm

theorem setRow_transpose (i : Nat) {factor : Nat} (valid : 1 ≤ factor) :
    { g.transpose.grow g.transpose.rowCount (i + 1) with
        columnStretch := (g.transpose.grow g.transpose.rowCount (i + 1)).columnStretch.set i factor } =
      Grid.transpose { g.grow (i + 1) g.columnCount with
        rowStretch := (g.grow (i + 1) g.columnCount).rowStretch.set i factor } :=
  ((h.transpose.grow _ _).setColumn i valid).ext ((h.grow _ _).setRow i valid).transpose rfl rfl rfl

theorem setColumn_transpose (i : Nat) {factor : Nat} (valid : 1 ≤ factor) :
    { g.transpose.grow (i + 1) g.transpose.columnCount with
        rowStretch := (g.transpose.grow (i + 1) g.transpose.columnCount).rowStretch.set i factor } =
      Grid.transpose { g.grow g.rowCount (i + 1) with
        columnStretch := (g.grow g.rowCount (i + 1)).columnStretch.set i factor } :=
  ((h.transpose.grow _ _).setRow i valid).ext ((h.grow _ _).setColumn i valid).transpose rfl rfl rfl

end WellFormed

def Placement.transpose (p : Placement) : Placement := ⟨p.item.transpose, p.range.transpose⟩

theorem placements_transpose (children : List Item) :
    g.transpose.placements (children.map .transpose) =
      (g.placements children).map .transpose := by
  rw [placements, filter_laidOut_transpose, List.filterMap_map, placements,
    List.map_filterMap]
  refine congrArg (List.filterMap · _) (funext fun item => ?_)
  show ((g.ranges.map .transpose).get? item.id).map _ = _
  rw [Table.get?_map, Option.map_map, Option.map_map]
  rfl

section Rulers

structure Ruler.Crosses (r r' : Ruler) (ps : List Placement) : Prop where
  axis : r'.axis = r.axis.cross
  spacing : r'.spacing = r.spacing
  stretch : r'.stretch = r.stretch
  need : ∀ p ∈ ps, r'.need p.transpose = r.need p

namespace Ruler.Crosses

variable {r r' : Ruler} {ps : List Placement} (h : r.Crosses r' ps)

include h

theorem along (p : Placement) : p.transpose.range.along r'.axis = p.range.along r.axis := by
  rw [Placement.transpose, Range.along_transpose, h.axis, Axis.cross_cross]

theorem occupy {p : Placement} (hp : p ∈ ps) (tracks : List Track) :
    r'.occupy tracks p.transpose = r.occupy tracks p := by
  have most : p.transpose.item.axisMax r'.axis = p.item.axisMax r.axis := by
    rw [Placement.transpose, Item.axisMax_transpose, h.axis, Axis.cross_cross]
  have hold (t : Track) (need : Int) :
      t.hold p.transpose.item r'.axis need = t.hold p.item r.axis need := by
    simp [Track.hold, Placement.transpose, h.axis]
  simp only [Ruler.occupy, h.along, h.need p hp, most, hold]

theorem widen {p : Placement} (hp : p ∈ ps) (tracks : List Track) :
    r'.widen tracks p.transpose = r.widen tracks p := by
  have deficit : r'.deficit tracks p.transpose = r.deficit tracks p := by
    rw [Ruler.deficit, h.along, h.need p hp, h.spacing]
    rfl
  have weights (span : Span) : r'.weights span = r.weights span := by
    rw [Ruler.weights, h.stretch]
    rfl
  simp only [Ruler.widen, h.along, deficit, weights]

theorem tracks : r'.tracks (ps.map .transpose) = r.tracks ps := by
  simp only [Ruler.tracks, List.foldl_map, h.stretch]
  rw [List.foldl_ext _ _ _ fun tracks p hp => h.occupy hp tracks]
  exact List.foldl_ext _ _ _ fun tracks p hp => h.widen hp tracks

theorem placed (available origin : Int) (alignment : Alignment) (p : Placement) :
    r'.placed (ps.map .transpose) available origin alignment.transpose p.transpose =
      r.placed ps available origin alignment p := by
  have sizes : r'.sizes (ps.map .transpose) available = r.sizes ps available := by
    rw [Ruler.sizes, h.tracks, h.spacing, h.stretch]
    rfl
  have starts : r'.starts (ps.map .transpose) available origin = r.starts ps available origin := by
    rw [Ruler.starts, sizes, h.tracks, h.spacing]
    rfl
  rw [Ruler.placed, sizes, starts]
  simp only [place, Placement.transpose, h.axis, Range.along_transpose, Axis.cross_cross,
    Item.transpose_flags, Flags.canGrow_transpose, Item.transpose_preferred,
    Item.minimum_transpose, Size.along_transpose, Alignment.along_transpose]
  rfl

end Ruler.Crosses

variable (settings : Settings) {children : List Item} (plain : ∀ c ∈ children, c.Plain)

include plain

/-- Without a trade of height for width, the needs of rows do not depend on the container. -/
theorem ruler_crosses (width width' : Int) (axis : Axis) :
    (g.ruler settings (g.placements children) width axis).Crosses
      (g.transpose.ruler settings.transpose ((g.placements children).map .transpose) width'
        axis.cross) (g.placements children) where
  axis := by rw [ruler_axis, ruler_axis]
  spacing := by
    rw [ruler_spacing, ruler_spacing]
    rfl
  stretch := by cases axis <;> rfl
  need p hp := by
    have here : p.item.Plain := plain p.item (mem_placements hp).1
    have here' : p.transpose.item.Plain := here
    cases axis with
    | horizontal => exact Item.heightAt_of_plain here' _
    | vertical => exact (Item.heightAt_of_plain here _).symm

theorem arrange_transpose (bounds : Rect) :
    g.transpose.arrange settings.transpose (children.map .transpose) bounds.transpose =
      (g.arrange settings children bounds).transpose := by
  have placed (p : Placement) (axis : Axis) :
      g.transpose.placedOn settings.transpose ((g.placements children).map .transpose)
        bounds.transpose p.transpose axis.cross =
      g.placedOn settings (g.placements children) bounds p axis := by
    have crosses := g.ruler_crosses settings plain bounds.width bounds.transpose.width axis
    have space : space settings.transpose bounds.transpose axis.cross =
        space settings bounds axis := by
      simp [Grid.space]
    have origin : origin settings.transpose bounds.transpose axis.cross =
        origin settings bounds axis := by
      simp [Grid.origin]
    rw [placedOn, space, origin]
    exact (congrArg _ (Alignment.orElse_transpose ..)).trans (crosses.placed ..)
  rw [arrange_eq, arrange_eq, placements_transpose, Batch.transpose, List.map_map, List.map_map]
  refine List.map_congr_left fun p _ => congrArg (Prod.mk p.item.id) ?_
  have placed (axis : Axis) := placed p axis.cross
  simp only [Axis.cross_cross] at placed
  refine Rect.ext_along (fun axis => ?_) fun axis => ?_
  · rw [rect_start, placed, Rect.start_transpose, rect_start]
  · rw [rect_along, placed, Rect.size_transpose, Size.along_transpose, rect_along]

theorem minSize_transpose (size : Size) :
    g.transpose.minSize settings.transpose (children.map .transpose) size.transpose =
      (g.minSize settings children size).transpose := by
  refine Size.ext_along fun axis => ?_
  have crosses := g.ruler_crosses settings plain size.width size.transpose.width axis.cross
  rw [Axis.cross_cross] at crosses
  rw [minSize_along, placements_transpose, crosses.tracks, Size.along_transpose, minSize_along]
  simp

omit plain in
theorem flags_transpose (children : List Item) :
    flags (children.map .transpose) = (flags children).transpose := by
  rw [flags, filter_laidOut_transpose, join_flags_transpose, List.isEmpty_map, flags]
  split <;> rfl

end Rulers

end Grid

end PixelLayout
