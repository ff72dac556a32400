import PixelLayout.Proofs.Grid.Cells

/-!
# Rectangles in a grid

Ranges that have no cell in common are one behind the other on some axis. There the tracks of one
item are all before those of the other, so its rectangle ends at least the spacing before the other
one starts. On an axis where the bounds are no less than the least size, all rectangles stay between
the margins; for items that trade height for width too, as the least height is found for the widths
that they get.
-/

set_option autoImplicit false

namespace PixelLayout

/-- Some axis has one of the ranges wholly before the other. -/
theorem Range.exists_axis_apart {r r' : Range} (valid : r.check = .ok ())
    (valid' : r'.check = .ok ()) (apart : r.Apart r') :
    ∃ axis, (r.along axis).start + (r.along axis).count ≤ (r'.along axis).start ∨
      (r'.along axis).start + (r'.along axis).count ≤ (r.along axis).start := by
  by_contra meet
  simp only [not_exists, not_or, Nat.not_le] at meet
  obtain ⟨rows, rows'⟩ := meet .vertical
  obtain ⟨columns, columns'⟩ := meet .horizontal
  have rowCount := Range.count_pos valid .vertical
  have rowCount' := Range.count_pos valid' .vertical
  have columnCount := Range.count_pos valid .horizontal
  have columnCount' := Range.count_pos valid' .horizontal
  -- the later one of both starts is covered by both on each axis
  refine apart (max (r.along .vertical).start (r'.along .vertical).start)
    (max (r.along .horizontal).start (r'.along .horizontal).start) ?_
  simp only [covers, Bool.and_eq_true, Span.covers_iff]
  omega

namespace Rect

def Apart (spacing : Int) (r r' : Rect) : Prop :=
  ∃ axis, r.start axis + r.size.along axis + spacing ≤ r'.start axis ∨
    r'.start axis + r'.size.along axis + spacing ≤ r.start axis

def Between (r bounds : Rect) (margins : Margins) (axis : Axis) : Prop :=
  let start := bounds.start axis + margins.near axis
  start ≤ r.start axis ∧
    r.start axis + r.size.along axis ≤ start + (bounds.size.along axis - margins.sum axis)

end Rect

namespace Grid

section Placed

variable {g : Grid} (h : g.WellFormed) {settings : Settings} (spacing : 0 ≤ settings.spacing)
  {children : List Item} (bounds : Rect) {p : Placement} (hp : p ∈ g.placements children)
  (axis : Axis)

include h hp

theorem WellFormed.within_ruler :
    let r := g.ruler settings (g.placements children) bounds.width axis
    (p.range.along r.axis).Within r.stretch := by
  intro r
  rw [g.ruler_axis]
  exact h.within hp (g.ruler_stretch_length settings _ _ _)

include spacing

/-- On an axis where its tracks are all before those of another item, an item ends at least the
spacing before that one starts. -/
theorem WellFormed.rect_before {p' : Placement} (hp' : p' ∈ g.placements children)
    (behind : (p.range.along axis).start + (p.range.along axis).count ≤
      (p'.range.along axis).start) :
    (g.rect settings (g.placements children) bounds p).start axis
        + (g.rect settings (g.placements children) bounds p).size.along axis + settings.spacing ≤
      (g.rect settings (g.placements children) bounds p').start axis := by
  have space := g.ruler_spacing settings (g.placements children) bounds.width axis
  rw [← g.ruler_axis settings (g.placements children) bounds.width axis] at behind
  rw [rect_start, rect_along, rect_start, ← space]
  exact Ruler.placed_before _ _ hp (h.within_ruler bounds hp axis) (space ▸ spacing) _
    (h.within_ruler bounds hp' axis) behind _

theorem WellFormed.rect_between
    (fits : (g.minSize settings children bounds.size).along axis ≤ bounds.size.along axis) :
    (g.rect settings (g.placements children) bounds p).Between bounds settings.margins axis := by
  have space := g.ruler_spacing settings (g.placements children) bounds.width axis
  rw [minSize_along] at fits
  unfold Rect.Between
  rw [rect_start, rect_along]
  refine ⟨Ruler.origin_le_placed _ _ (h.within_ruler bounds hp axis) (space ▸ spacing) _,
    Ruler.placed_end_le _ _ hp (h.within_ruler bounds hp axis) (space ▸ spacing) _ ?_⟩
  rw [space]
  exact Int.le_sub_left_of_add_le fits

theorem WellFormed.rect_apart {p' : Placement} (hp' : p' ∈ g.placements children)
    (other : p.item.id ≠ p'.item.id) :
    (g.rect settings (g.placements children) bounds p).Apart settings.spacing
      (g.rect settings (g.placements children) bounds p') := by
  have held := (mem_placements hp).2
  have held' := (mem_placements hp').2
  obtain ⟨axis, behind | behind⟩ := Range.exists_axis_apart (h.valid _ _ held)
    (h.valid _ _ held') (h.apart other held held')
  · exact ⟨axis, .inl (h.rect_before spacing bounds hp axis hp' behind)⟩
  · exact ⟨axis, .inr (h.rect_before spacing bounds hp' axis hp behind)⟩

end Placed

theorem placements_map_item (g : Grid) (children : List Item) :
    (g.placements children).map (·.item) =
      children.filter fun c => c.laidOut && g.ranges.contains c.id := by
  unfold placements
  induction children with
  | nil => rfl
  | cons c cs ih =>
    cases laid : c.laidOut with
    | false => simpa [laid] using ih
    | true => cases held : g.ranges.get? c.id with
      | none => simpa [laid, held, Table.contains] using ih
      | some r => simpa [laid, held, Table.contains] using ih

theorem placements_pairwise (g : Grid) {children : List Item}
    (distinct : (children.map (·.id)).Nodup) :
    (g.placements children).Pairwise fun p p' => p.item.id ≠ p'.item.id := by
  have ids : ((g.placements children).map (·.item.id)).Nodup := by
    have items := congrArg (List.map (·.id)) (g.placements_map_item children)
    rw [List.map_map] at items
    exact items ▸ distinct.sublist (List.filter_sublist.map _)
  exact List.pairwise_map.mp ids

section Refresh

variable (g : Grid) (children : List Item) (reset : Bool)

/-- Dropping the ranges of former children does not matter to the others. -/
theorem placements_refresh : (g.refresh children reset).placements children =
    g.placements children := by
  cases reset with
  | false => rfl
  | true =>
    refine List.filterMap_congr fun c hc => ?_
    have child : children.any (·.id == c.id) = true :=
      List.any_eq_true.mpr ⟨c, (List.mem_filter.mp hc).1, beq_self_eq_true _⟩
    show ((g.restrict children).ranges.get? c.id).map _ = _
    rw [restrict_ranges, Table.get?_keep, if_pos child]

theorem arrange_refresh (settings : Settings) (bounds : Rect) :
    (g.refresh children reset).arrange settings children bounds =
      g.arrange settings children bounds := by
  simp only [arrange_def, placements_refresh, tracks_def, columnRuler, rowRuler, refresh_rowStretch,
    refresh_columnStretch]

theorem minSize_refresh (settings : Settings) (size : Size) :
    (g.refresh children reset).minSize settings children size =
      g.minSize settings children size := by
  simp only [minSize_def, placements_refresh, tracks_def, columnRuler, rowRuler, refresh_rowStretch,
    refresh_columnStretch]

end Refresh

end Grid

namespace Layout

/-- A pass over a grid gives every laid out child that has a range one rectangle, in the order of the
children. If the children are distinct, then on some axis one of any two rectangles ends at least the
spacing before the other one starts. On an axis where the bounds are no less than the least size for
them, all rectangles are between the margins. -/
theorem rectangles_apart {l : Layout} (made : l.Made) (ds : List Deed) {g : Grid}
    (mode : (l.after ds).mode = .grid g) (v : View) (distinct : v.ids.Nodup) :
    let grid := l.after ds
    let batch := (grid.arrangement v).batch
    batch.map (·.1) =
      (v.children.filter fun c => c.laidOut && g.ranges.contains c.id).map (·.id) ∧
    batch.Pairwise (fun e e' => e.2.Apart grid.settings.spacing e'.2) ∧
    ∀ axis, (grid.freshMinSize (some v) v.bounds.size).along axis ≤ v.bounds.size.along axis →
      ∀ e ∈ batch, e.2.Between v.bounds grid.settings.margins axis := by
  intro grid batch
  have sound := made.sound ds
  -- the pass may first drop the ranges of former children, which have no part in it
  have wf : (g.refresh v.children (grid.startsAfresh v.children)).WellFormed := by
    have kept := sound.mode.arrange grid.settings v.children v.bounds (grid.startsAfresh v.children)
    rwa [mode] at kept
  set g' := g.refresh v.children (grid.startsAfresh v.children)
  have same : g'.placements v.children = g.placements v.children := g.placements_refresh _ _
  have arranged : batch = g'.arrange grid.settings v.children v.bounds := by
    show (grid.mode.arrange _ _ _ _).batch = _
    rw [mode]
    rfl
  rw [arranged, Grid.arrange_eq]
  refine ⟨?_, ?_, fun axis fits e he => ?_⟩
  · rw [List.map_map, same, ← Grid.placements_map_item, List.map_map]
    rfl
  · refine List.pairwise_map.mpr ((g'.placements_pairwise distinct).imp_of_mem ?_)
    exact fun hp hp' other => wf.rect_apart sound.settings.2 v.bounds hp hp' other
  · obtain ⟨p, hp, rfl⟩ := List.mem_map.mp he
    refine wf.rect_between sound.settings.2 v.bounds hp axis ?_
    have least : grid.freshMinSize (some v) v.bounds.size =
        g.minSize grid.settings v.children v.bounds.size := by
      show grid.mode.minSize _ _ _ = _
      rw [mode]
      rfl
    rw [g.minSize_refresh, ← least]
    exact fits

def mosaic : Layout := ⟨⟨.all 3, 4, .inherited⟩, .idle, [], [], .grid .fresh⟩

theorem mosaic_made : mosaic.Made :=
  .grid (show grid (some ⟨.all 3, 4, .inherited⟩) = .ok mosaic from rfl)

def tiles : View where
  suspended := false
  children := [{ Item.plain 1 with min := ⟨50, 10⟩ }, { Item.plain 2 with preferred := ⟨20, 10⟩ },
    { Item.plain 3 with flags := .resizable, heightForWidth := some (areaHeight 400) }, .plain 4]
  bounds := ⟨10, 20, 90, 70⟩

def tiled : List Deed :=
  let change (item : Nat) (r : Range) : Deed := .change true (some tiles) (.range item r)
  [change 3 (.cell 1 1), change 2 (.cell 1 0), change 1 ⟨0, 0, 1, 2⟩, .attach]

theorem tiles_apart :
    let grid := mosaic.after tiled
    let batch := (grid.arrangement tiles).batch
    batch = [(1, ⟨30, 33, 50, 10⟩), (2, ⟨23, 67, 20, 10⟩), (3, ⟨57, 57, 40, 30⟩)] ∧
    grid.freshMinSize (some tiles) ⟨90, 70⟩ = ⟨56, 30⟩ ∧
    batch.Pairwise (fun e e' => e.2.Apart 4 e'.2) ∧
    ∀ axis, ∀ e ∈ batch, e.2.Between ⟨10, 20, 90, 70⟩ (.all 3) axis := by
  intro grid batch
  have arranged : ((mosaic.after tiled).arrangement tiles).batch =
      [(1, ⟨30, 33, 50, 10⟩), (2, ⟨23, 67, 20, 10⟩), (3, ⟨57, 57, 40, 30⟩)] := by cbv
  have least : (mosaic.after tiled).freshMinSize (some tiles) ⟨90, 70⟩ = ⟨56, 30⟩ := by cbv
  obtain ⟨g, mode⟩ : ∃ g, grid.mode = .grid g := ⟨_, rfl⟩
  obtain ⟨-, apart, between⟩ := rectangles_apart mosaic_made tiled mode tiles (by decide)
  refine ⟨arranged, least, apart, fun axis => between axis ?_⟩
  show ((mosaic.after tiled).freshMinSize (some tiles) ⟨90, 70⟩).along axis ≤ _
  rw [least]
  cases axis <;> decide

end Layout

end PixelLayout
