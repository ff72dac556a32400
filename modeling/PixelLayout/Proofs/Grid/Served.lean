import PixelLayout.Proofs.Grid.Needs

/-!
# Minimums in a grid

No track gets less than its minimum, even if there is no space for it. The room of an item is what
its tracks get together, with the spacing between them, so it is at least what the item needs. The
rows are measured at just the widths that the columns give to the items, so those that trade height
for width have the height for the width that they get.
-/

set_option autoImplicit false

namespace PixelLayout

namespace Grid

section Taken

variable (spacing : Int)

theorem taken_append (es es' : List (Track × Int)) :
    taken spacing (es ++ es') = taken spacing es + taken spacing es' := by
  induction es with
  | nil => simp [taken]
  | cons e es ih =>
    rw [List.cons_append, taken, taken, ih, add_assoc]

theorem taken_of_used {es : List (Track × Int)} (used : ∀ e ∈ es, e.1.occupied = true) :
    taken spacing es = total (es.map (·.2)) + spacing * es.length := by
  rw [taken_eq, List.filter_eq_self.mpr used]

/-- A track starts where those before it end. -/
theorem trackStarts_getD (position : Int) {es : List (Track × Int)} {i : Nat} (hi : i < es.length) :
    (trackStarts spacing position es).getD i 0 = position + taken spacing (es.take i) := by
  induction es generalizing position i with
  | nil => cases hi
  | cons e es ih =>
    cases i with
    | zero => simp [trackStarts, taken]
    | succ i =>
      rw [trackStarts, List.getD_cons_succ, ih _ (Nat.lt_of_succ_lt_succ hi), List.take_succ_cons,
        taken]
      split <;> omega

end Taken

theorem scatter_le {tracks : List Track} {sizes : List Int}
    (idle : ∀ t ∈ tracks, t.occupied = false → t.min = 0)
    (h : List.Forall₂ (· ≤ ·) ((tracks.filter (·.occupied)).map (·.min)) sizes) :
    List.Forall₂ (· ≤ ·) (tracks.map (·.min)) (scatter tracks sizes) := by
  induction tracks generalizing sizes with
  | nil => exact .nil
  | cons t ts ih =>
    obtain ⟨idle, idles⟩ := List.forall_mem_cons.mp idle
    cases used : t.occupied with
    | true =>
      rw [List.filter_cons_of_pos used, List.map_cons] at h
      cases h with
      | cons least rest =>
        simp only [scatter, used, if_true]
        exact .cons least (ih idles rest)
    | false =>
      rw [List.filter_cons_of_neg (by simp [used])] at h
      simp only [scatter, used, Bool.false_eq_true, if_false]
      exact .cons (idle used).le (ih idles h)

theorem mem_slice {α : Type} {s : Span} {l : List α} {a : α} (h : a ∈ slice s l) :
    ∃ i, s.covers i = true ∧ l[i]? = some a := by
  obtain ⟨j, hj⟩ := List.mem_iff_getElem?.mp h
  rw [slice_getElem?] at hj
  split at hj
  · next inside => exact ⟨s.start + j, Span.covers_iff.mpr (by omega), hj⟩
  · cases hj

/-- An item gets any extent that its tracks have room for, unless it asks for less itself. -/
theorem le_place {p : Placement} {axis : Axis} {starts sizes : List Int} {n : Int}
    (room : n ≤ starts.getD (p.range.along axis).last 0 + sizes.getD (p.range.along axis).last 0 -
      starts.getD (p.range.along axis).start 0)
    (least : p.item.flags.canGrow axis = true ∨ n ≤ p.item.minimum.along axis)
    (alignment : Alignment) : n ≤ (place p axis starts sizes alignment).2 := by
  unfold place
  dsimp only
  rw [← Span.last]
  split
  · exact room
  · next rigid =>
    have asked := least.resolve_left rigid
    exact le_min (asked.trans (le_max_right _ _)) room

namespace Ruler

variable {r : Ruler} {ps : List Placement} (fits : r.Fits ps) (available origin : Int)
  {p : Placement}

theorem used_of_covered {i : Nat} {t : Track} (ht : (r.tracks ps)[i]? = some t) :
    t.occupied = ps.any fun p => (p.range.along r.axis).covers i := by
  obtain ⟨hi, rfl⟩ := List.getElem?_eq_some_iff.mp ht
  exact r.tracks_occupied ps hi

theorem used_of_mem_slice (hp : p ∈ ps) {t : Track}
    (ht : t ∈ slice (p.range.along r.axis) (r.tracks ps)) : t.occupied = true := by
  obtain ⟨i, covers, ht⟩ := mem_slice ht
  rw [used_of_covered ht, List.any_eq_true]
  exact ⟨p, hp, covers⟩

include fits

theorem min_of_idle : ∀ t ∈ r.tracks ps, t.occupied = false → t.min = 0 := by
  intro t ht idle
  obtain ⟨i, ht⟩ := List.mem_iff_getElem?.mp ht
  have free : ∀ p ∈ ps, (p.range.along r.axis).covers i = false := by
    rw [used_of_covered ht] at idle
    simpa using idle
  have least := min_of_free fits free
  simpa [ht] using least

/-- No track gets less than its minimum, whatever space there is. -/
theorem mins_le_sizes :
    List.Forall₂ (· ≤ ·) ((r.tracks ps).map (·.min)) (r.sizes ps available) := by
  have valid := request_valid (r.tracks_laid ps) r.stretch available r.spacing
  have served := Space.Request.forall₂_sizes (p := fun d n => d.min ≤ n)
    fun d hd => (Space.Request.allows_award valid hd).1
  rw [← List.forall₂_map_left_iff (f := fun d : Space.Demand => d.min)] at served
  exact scatter_le (min_of_idle fits) (demands_map_min (r.tracks ps) r.stretch ▸ served)

variable (hp : p ∈ ps)

include hp

/-- The room that an item has is what its tracks give together, with the spacing between them. -/
theorem room_eq :
    (r.starts ps available origin).getD (p.range.along r.axis).last 0
        + (r.sizes ps available).getD (p.range.along r.axis).last 0
        - (r.starts ps available origin).getD (p.range.along r.axis).start 0 =
      r.spanned (p.range.along r.axis) (r.sizes ps available) := by
  have within := fits p hp
  obtain ⟨count, inside⟩ := within
  set s := p.range.along r.axis
  set es := (r.tracks ps).zip (r.sizes ps available)
  have length : es.length = r.stretch.length := by
    rw [List.length_zip, tracks_length, sizes_length, Nat.min_self]
  have sizes : es.map (·.2) = r.sizes ps available :=
    List.map_snd_zip (by rw [tracks_length, sizes_length])
  have tracks : es.map (·.1) = r.tracks ps :=
    List.map_fst_zip (by rw [tracks_length, sizes_length])
  obtain ⟨t, n, final, used, size⟩ := exists_used available hp (covers_last (fits p hp))
    (last_lt (fits p hp))
  have inner : taken r.spacing (slice s es) =
      total (slice s (r.sizes ps available)) + r.spacing * s.count := by
    have each : ∀ e ∈ slice s es, e.1.occupied = true := by
      intro e he
      apply used_of_mem_slice hp
      rw [← tracks, slice_map]
      exact List.mem_map_of_mem he
    rw [taken_of_used _ each, ← slice_map, sizes, slice_length s (length ▸ inside)]
  have ends : taken r.spacing (es.take s.start) + taken r.spacing (slice s es) =
      taken r.spacing (es.take s.last) + (n + r.spacing) := by
    rw [← taken_append, slice, ← List.take_add, show s.start + s.count = s.last + 1 by
      rw [Span.last]; omega, List.take_add_one, final, taken_append]
    simp [taken, used]
  have first : s.start < es.length := by omega
  have last : s.last < es.length := length ▸ last_lt (fits p hp)
  rw [starts, trackStarts_getD _ _ first, trackStarts_getD _ _ last, size, spanned]
  rw [inner] at ends
  linarith

theorem spanExtent_eq :
    spanExtent (r.tracks ps) (r.sizes ps available) (p.range.along r.axis) r.spacing =
      r.spanned (p.range.along r.axis) (r.sizes ps available) := by
  obtain ⟨count, inside⟩ := fits p hp
  have used : (slice (p.range.along r.axis) (r.tracks ps)).countP (·.occupied) =
      (p.range.along r.axis).count := by
    rw [List.countP_eq_length.mpr fun t ht => used_of_mem_slice hp ht,
      slice_length _ (r.tracks_length ps ▸ inside)]
  rw [spanExtent, used, spanned, max_eq_left (by omega)]

/-- An item has room for what it needs. -/
theorem need_le_room :
    r.need p ≤ (r.starts ps available origin).getD (p.range.along r.axis).last 0
        + (r.sizes ps available).getD (p.range.along r.axis).last 0
        - (r.starts ps available origin).getD (p.range.along r.axis).start 0 := by
  rw [room_eq fits available origin hp]
  exact (tracks_suffice fits hp).trans (r.spanned_le (mins_le_sizes fits available))

theorem need_le_placed (least : p.item.flags.canGrow r.axis = true ∨
    r.need p ≤ p.item.minimum.along r.axis) (alignment : Alignment) :
    r.need p ≤ (r.placed ps available origin alignment p).2 :=
  le_place (need_le_room fits available origin hp) least alignment

/-- An item that can grow fills its tracks. -/
theorem placed_of_grows (grows : p.item.flags.canGrow r.axis = true) (alignment : Alignment) :
    (r.placed ps available origin alignment p).2 =
      r.spanned (p.range.along r.axis) (r.sizes ps available) := by
  rw [← room_eq fits available origin hp, placed, place, if_pos grows]
  rfl

end Ruler

section Placed

variable {g : Grid} (h : g.WellFormed) (settings : Settings) {children : List Item} (bounds : Rect)

include h

theorem WellFormed.fits (axis : Axis) :
    (g.ruler settings (g.placements children) bounds.width axis).Fits (g.placements children) :=
  fun _ hp => h.within_ruler bounds hp axis

variable {p : Placement} (hp : p ∈ g.placements children)

include hp

theorem WellFormed.minimum_width_le :
    p.item.minimum.width ≤ (g.rect settings (g.placements children) bounds p).width :=
  Ruler.need_le_placed (h.fits settings bounds .horizontal) _ _ hp (.inr le_rfl) _

theorem WellFormed.minimum_height_le (plain : p.item.heightForWidth = none) :
    p.item.minimum.height ≤ (g.rect settings (g.placements children) bounds p).height := by
  have need : (g.ruler settings (g.placements children) bounds.width .vertical).need p =
      p.item.minimum.height := by
    show p.item.heightAt _ = _
    rw [Item.heightAt, plain]
  rw [← need]
  exact Ruler.need_le_placed (h.fits settings bounds .vertical) _ _ hp (.inr need.le) _

/-- The width that the rows measure an item at is the width that it gets. -/
theorem WellFormed.heightForWidth_le {height : Int → Int}
    (trades : p.item.heightForWidth = some height)
    (grows : ∀ axis, p.item.flags.canGrow axis = true) :
    height (g.rect settings (g.placements children) bounds p).width ≤
      (g.rect settings (g.placements children) bounds p).height := by
  have columns : (g.ruler settings (g.placements children) bounds.width .horizontal).Fits
      (g.placements children) := h.fits settings bounds .horizontal
  have width : (g.rect settings (g.placements children) bounds p).width = _ :=
    Ruler.placed_of_grows columns _ _ hp (grows .horizontal) _
  rw [← Ruler.spanExtent_eq columns _ hp] at width
  have need : (g.ruler settings (g.placements children) bounds.width .vertical).need p =
      height (g.rect settings (g.placements children) bounds p).width := by
    show p.item.heightAt _ = _
    rw [Item.heightAt, trades, width]
    rfl
  rw [← need]
  exact Ruler.need_le_placed (h.fits settings bounds .vertical) _ _ hp (.inl (grows .vertical)) _

end Placed

end Grid

structure Item.Honoured (c : Item) (r : Rect) : Prop where
  width : c.minimum.width ≤ r.width
  height : c.heightForWidth = none → c.minimum.height ≤ r.height
  traded : ∀ height, c.heightForWidth = some height → (∀ axis, c.flags.canGrow axis = true) →
    height r.width ≤ r.height

theorem Grid.WellFormed.honoured {g : Grid} (h : g.WellFormed) (settings : Settings)
    {children : List Item} (bounds : Rect) {p : Placement} (hp : p ∈ g.placements children) :
    p.item.Honoured (g.rect settings (g.placements children) bounds p) where
  width := h.minimum_width_le settings bounds hp
  height plain := h.minimum_height_le settings bounds hp plain
  traded _ trades grows := h.heightForWidth_le settings bounds hp trades grows

namespace Layout

theorem batch_of_grid {l : Layout} {g : Grid} (mode : l.mode = .grid g) (v : View) :
    (l.arrangement v).batch = Grid.arrange (g.refresh v.children (l.startsAfresh v.children))
      l.settings v.children v.bounds := by
  show (l.mode.arrange _ _ _ _).batch = _
  rw [mode]
  rfl

/-- Whatever a grid has been through, and however small the bounds are, a pass gives every laid out
child that has a range a rectangle with what it asks for at least. -/
theorem minimums_honoured {l : Layout} (made : l.Made) (ds : List Deed) {g : Grid}
    (mode : (l.after ds).mode = .grid g) (v : View) :
    List.Forall₂ (fun (c : Item) (e : Nat × Rect) => e.1 = c.id ∧ c.Honoured e.2)
      (v.children.filter fun c => c.laidOut && g.ranges.contains c.id)
      ((l.after ds).arrangement v).batch := by
  have sound := made.sound ds
  set grid := l.after ds
  -- the pass may first drop the ranges of former children, which have no part in it
  have wf : (g.refresh v.children (grid.startsAfresh v.children)).WellFormed := by
    have kept := sound.mode.arrange grid.settings v.children v.bounds (grid.startsAfresh v.children)
    rwa [mode] at kept
  set g' := g.refresh v.children (grid.startsAfresh v.children)
  have same : g'.placements v.children = g.placements v.children := g.placements_refresh _ _
  rw [batch_of_grid mode v, Grid.arrange_eq, ← Grid.placements_map_item, ← same,
    List.forall₂_map_left_iff, List.forall₂_map_right_iff, List.forall₂_same]
  exact fun p hp => ⟨rfl, wf.honoured grid.settings v.bounds hp⟩

def crammed : View where
  suspended := false
  children := [{ Item.plain 1 with min := ⟨50, 10⟩ },
    { Item.plain 2 with
      min := ⟨40, 0⟩, flags := .resizable, heightForWidth := some (areaHeight 800) },
    { Item.plain 3 with min := ⟨7, 15⟩ }]
  bounds := ⟨0, 0, 30, 10⟩

def overlapping : List Deed :=
  let change (item : Nat) (r : Range) : Deed := .change true (some crammed) (.range item r)
  [change 3 (.cell 1 4), change 2 ⟨1, 1, 1, 2⟩, change 1 ⟨0, 0, 1, 2⟩, .attach]

theorem crammed_honoured :
    let batch := ((mosaic.after overlapping).arrangement crammed).batch
    batch = [(1, ⟨6, 3, 50, 10⟩), (2, ⟨30, 17, 40, 20⟩), (3, ⟨74, 19, 7, 15⟩)] ∧
    List.Forall₂ (fun (c : Item) (e : Nat × Rect) => e.1 = c.id ∧ c.Honoured e.2)
      crammed.children batch := by
  intro batch
  have arranged : ((mosaic.after overlapping).arrangement crammed).batch =
      [(1, ⟨6, 3, 50, 10⟩), (2, ⟨30, 17, 40, 20⟩), (3, ⟨74, 19, 7, 15⟩)] := by cbv
  let g : Grid := ⟨⟨[(1, ⟨0, 0, 1, 2⟩), (2, ⟨1, 1, 1, 2⟩), (3, .cell 1 4)]⟩,
    [[some 1, some 1, none, none, none], [none, some 2, some 2, none, some 3]], [1, 1],
    [1, 1, 1, 1, 1]⟩
  have mode : (mosaic.after overlapping).mode = .grid g := by cbv
  have all : (crammed.children.filter fun c => c.laidOut && g.ranges.contains c.id) =
      crammed.children := List.filter_eq_self.mpr (by decide)
  have honoured := minimums_honoured mosaic_made overlapping mode crammed
  rw [all] at honoured
  exact ⟨arranged, honoured⟩

end Layout

end PixelLayout
