import PixelLayout.Proofs.Flow.Stack
import PixelLayout.Proofs.Grid.Disjoint

/-!
# Where the items of a line stand

The items of a line follow each other from its start, behind a pad and with the same gap on top of
the spacing between any two of them. Pad and gaps are taken from what the extents leave over. So all
items stay between the margins exactly if their least extents and the spacing between them fit in
there; if they do not, the last item ends beyond the far margin.
-/

set_option autoImplicit false

namespace PixelLayout

theorem total_le_of_forall₂ {ms ns : List Int} (h : List.Forall₂ (· ≤ ·) ms ns) :
    total ms ≤ total ns := by
  induction h with
  | nil => exact le_rfl
  | cons hle _ ih => exact Int.add_le_add hle ih

namespace Line

variable (l : Line)

theorem rect_start (item : Item) (position extent : Int) :
    (l.rect item position extent).start l.axis = position := Rect.ofAxes_start ..

theorem rect_along (item : Item) (position extent : Int) :
    (l.rect item position extent).size.along l.axis = extent := Rect.ofAxes_along ..

theorem rect_across (item : Item) (position extent : Int) :
    (l.rect item position extent).size.along l.axis.cross = l.crossExtent item :=
  Rect.ofAxes_across ..

section Each

/-- The rectangles of the items, with what can be read off their extents along the axis. -/
theorem place_forall₂_iff {p : Item → Rect → Prop} {q : Item → Int → Prop}
    (h : ∀ c position extent, p c (l.rect c position extent) ↔ q c extent) (gap position : Int)
    (es : List (Item × Int)) :
    List.Forall₂ (fun c e => e.1 = c.id ∧ p c e.2) (es.map Prod.fst)
      (((es.map Prod.fst).map (·.id)).zip (l.place gap position es)) ↔ ∀ e ∈ es, q e.1 e.2 := by
  induction es generalizing position with
  | nil => simp [place]
  | cons e es ih =>
    obtain ⟨item, extent⟩ := e
    simp only [List.map_cons, place, List.zip_cons_cons, List.forall₂_cons, ih, h, true_and,
      List.forall_mem_cons]

theorem arrange_forall₂_iff {p : Item → Rect → Prop} {q : Item → Int → Prop}
    (h : ∀ c position extent, p c (l.rect c position extent) ↔ q c extent) (items : List Item) :
    List.Forall₂ (fun c e => e.1 = c.id ∧ p c e.2) items (l.arrange items) ↔
      List.Forall₂ q items (l.extents items) := by
  have fst : (items.zip (l.extents items)).map Prod.fst = items :=
    List.map_fst_zip (l.extents_length items).ge
  have each := l.place_forall₂_iff h (l.pads items).2 (l.start l.axis + (l.pads items).1)
    (items.zip (l.extents items))
  rw [fst] at each
  refine each.trans ?_
  simp [List.forall₂_iff_zip, l.extents_length items]

theorem place_map_size (axis : Axis) {size : Item → Int → Int}
    (h : ∀ c position extent, (l.rect c position extent).size.along axis = size c extent)
    (gap position : Int) (es : List (Item × Int)) :
    (l.place gap position es).map (·.size.along axis) = es.map fun e => size e.1 e.2 := by
  induction es generalizing position with
  | nil => rfl
  | cons e es ih =>
    obtain ⟨item, extent⟩ := e
    rw [place, List.map_cons, List.map_cons, ih, h]

theorem rects_map_along (items : List Item) :
    (l.rects items).map (·.size.along l.axis) = l.extents items := by
  refine (l.place_map_size l.axis l.rect_along _ _ _).trans ?_
  exact List.map_snd_zip (l.extents_length items).le

theorem rects_map_across (items : List Item) :
    (l.rects items).map (·.size.along l.axis.cross) = items.map l.crossExtent := by
  have fst : (items.zip (l.extents items)).map Prod.fst = items :=
    List.map_fst_zip (l.extents_length items).ge
  refine (l.place_map_size l.axis.cross (fun c p e => l.rect_across c p e) _ _ _).trans ?_
  conv_rhs => rw [← fst, List.map_map]
  rfl

theorem arrange_map_snd (items : List Item) : (l.arrange items).map Prod.snd = l.rects items := by
  rw [arrange_def, List.map_snd_zip]
  rw [rects_length, List.length_map]

end Each

section Reach

def reach (gap : Int) (extents : List Int) : Int :=
  total extents + (l.settings.spacing + gap) * (extents.length - 1)

theorem reach_cons (gap extent : Int) {extents : List Int} :
    l.reach gap (extent :: extents) = extent + (l.settings.spacing + gap) + l.reach gap extents := by
  simp only [reach, total_cons, List.length_cons]
  push_cast
  ring

variable {l} {gap : Int} (apart : 0 ≤ l.settings.spacing + gap)

include apart

theorem reach_nonneg {extents : List Int} (some : extents ≠ []) (nonneg : ∀ n ∈ extents, 0 ≤ n) :
    0 ≤ l.reach gap extents := by
  have pos := List.length_pos_iff.mpr some
  exact Int.add_nonneg (total_nonneg nonneg) (mul_nonneg apart (by omega))

theorem le_start_of_mem_place (position : Int) {es : List (Item × Int)}
    (nonneg : ∀ e ∈ es, 0 ≤ e.2) : ∀ r ∈ l.place gap position es, position ≤ r.start l.axis := by
  induction es generalizing position with
  | nil => simp [place]
  | cons e es ih =>
    obtain ⟨item, extent⟩ := e
    obtain ⟨hextent, hes⟩ := List.forall_mem_cons.mp nonneg
    refine List.forall_mem_cons.mpr ⟨(l.rect_start item position extent).ge, fun r hr => ?_⟩
    have later := ih (position + (extent + l.settings.spacing + gap)) hes r hr
    omega

/-- All of them end before a position exactly if the last one does. -/
theorem place_end_le_iff (position stop : Int) {es : List (Item × Int)} (some : es ≠ [])
    (nonneg : ∀ e ∈ es, 0 ≤ e.2) :
    (∀ r ∈ l.place gap position es, r.start l.axis + r.size.along l.axis ≤ stop) ↔
      position + l.reach gap (es.map Prod.snd) ≤ stop := by
  induction es generalizing position with
  | nil => exact absurd rfl some
  | cons e es ih =>
    obtain ⟨item, extent⟩ := e
    obtain ⟨hextent, hes⟩ := List.forall_mem_cons.mp nonneg
    rw [place, List.forall_mem_cons, rect_start, rect_along]
    cases es with
    | nil => simp [place, reach]
    | cons next es =>
      have behind : 0 ≤ l.reach gap ((next :: es).map Prod.snd) :=
        reach_nonneg apart (by simp) (List.forall_mem_map.mpr hes)
      have total : l.reach gap (((item, extent) :: next :: es).map Prod.snd) =
          extent + (l.settings.spacing + gap) + l.reach gap ((next :: es).map Prod.snd) :=
        l.reach_cons gap extent
      rw [ih _ (by simp) hes, total]
      omega

end Reach

section Fits

def leastReach (items : List Item) : Int := l.reach 0 (items.map l.least)

variable {l} (spacing : 0 ≤ l.settings.spacing) {items : List Item} (some : items ≠ [])

theorem least_le_extents (items : List Item) :
    List.Forall₂ (· ≤ ·) (items.map l.least) (l.extents items) := by
  have allowed := (Space.Request.sizes_bounds _ (l.request_valid items)).1
  rw [request, List.forall₂_map_left_iff] at allowed
  rw [List.forall₂_map_left_iff]
  exact allowed.imp fun _ _ h => h.1

theorem request_gaps (items : List Item) :
    (l.request items).gaps = l.settings.spacing * (items.length - 1) := by
  rw [Space.Request.gaps, request, List.length_map]

theorem request_minimums (items : List Item) :
    (l.request items).minimums = total (items.map l.least) := by
  rw [Space.Request.minimums, request, List.map_map]
  rfl

include spacing some

/-- The extents fit inside the margins exactly if the least ones do. -/
theorem reach_extents_le_iff :
    l.reach 0 (l.extents items) ≤ l.space l.axis ↔ l.leastReach items ≤ l.space l.axis := by
  have least := total_le_of_forall₂ (l.least_le_extents items)
  have more : l.leastReach items ≤ l.reach 0 (l.extents items) := by
    simp only [leastReach, reach, extents_length, List.length_map]
    omega
  refine ⟨more.trans, fun fits => ?_⟩
  have room : 0 ≤ l.space l.axis := by
    refine le_trans (reach_nonneg (by omega) (by simpa using some) ?_) fits
    exact List.forall_mem_map.mpr fun c _ => le_max_right _ _
  have available : (l.request items).available = l.space l.axis := max_eq_left room
  have handed := (Space.Request.sizes_bounds _ (l.request_valid items)).2.2
  rw [request_gaps, request_minimums, available] at handed
  simp only [leastReach, reach, List.length_map, add_zero] at fits
  simp only [reach, extents_length, add_zero]
  exact (handed fits).1

omit spacing in
/-- The pads come out of the slack. -/
theorem pads_bounds : 0 ≤ (l.pads items).1 ∧ 0 ≤ (l.pads items).2 ∧
    (l.pads items).1 + (l.pads items).2 * (items.length - 1) ≤ l.slack items := by
  have pos := List.length_pos_iff.mpr some
  have slack : 0 ≤ l.slack items := le_max_right _ _
  rw [pads_def]
  cases l.settings.alignment.along l.axis with
  | near => simpa using slack
  | far => simpa using slack
  | center =>
    have part : (l.slack items).tdiv (items.length + 1) = l.slack items / (items.length + 1) :=
      Int.tdiv_eq_ediv_of_nonneg slack
    have share : 0 ≤ l.slack items / (items.length + 1) := Int.ediv_nonneg slack (by omega)
    have whole : l.slack items / (items.length + 1) * (items.length + 1) ≤ l.slack items :=
      Int.ediv_mul_le _ (by omega)
    simp only [part]
    refine ⟨share, share, ?_⟩
    linarith

omit spacing in
/-- There is no more slack than the extents leave over. -/
theorem slack_le (fits : l.reach 0 (l.extents items) ≤ l.space l.axis) :
    l.slack items ≤ l.space l.axis - l.reach 0 (l.extents items) := by
  have lengths := l.extents_length items
  have shown : (l.extents items).isEmpty = false := by
    rw [List.isEmpty_eq_false_iff, ← List.length_pos_iff, lengths]
    exact List.length_pos_iff.mpr some
  have rest : Space.slack (l.extents items) (l.space l.axis) l.settings.spacing =
      Pixel.saturate (l.space l.axis - l.reach 0 (l.extents items)) := by
    rw [Space.slack, shown, reach, add_zero]
    rfl
  rw [slack_def, rest]
  simp only [Pixel.saturate, Pixel.least]
  omega

/-- A line stays between the margins exactly if its least extents fit in there. -/
theorem rects_between_iff :
    (∀ r ∈ l.rects items, r.Between l.bounds l.settings.margins l.axis) ↔
      l.leastReach items ≤ l.space l.axis := by
  obtain ⟨lead, gap, pads⟩ := l.pads_bounds some
  have extents : (items.zip (l.extents items)).map Prod.snd = l.extents items :=
    List.map_snd_zip (l.extents_length items).le
  have nonneg : ∀ e ∈ items.zip (l.extents items), 0 ≤ e.2 :=
    fun e he => l.extents_nonneg items _ (List.of_mem_zip he).2
  have shown : items.zip (l.extents items) ≠ [] := by
    rw [← List.length_pos_iff, List.length_zip, extents_length, min_self]
    exact List.length_pos_iff.mpr some
  have apart : 0 ≤ l.settings.spacing + (l.pads items).2 := Int.add_nonneg spacing gap
  have starts := le_start_of_mem_place apart (l.start l.axis + (l.pads items).1) nonneg
  have ends := place_end_le_iff apart (l.start l.axis + (l.pads items).1)
    (l.start l.axis + l.space l.axis) shown nonneg
  have gaps : l.reach (l.pads items).2 (l.extents items) =
      l.reach 0 (l.extents items) + (l.pads items).2 * (items.length - 1) := by
    simp only [reach, extents_length]
    ring
  have pos := List.length_pos_iff.mpr some
  have padded : 0 ≤ (l.pads items).2 * ((items.length : Int) - 1) := mul_nonneg gap (by omega)
  have slack := l.slack_le some
  rw [extents, gaps] at ends
  rw [← reach_extents_le_iff spacing some]
  constructor
  · intro between
    have := ends.mp fun r hr => (between r hr).2
    omega
  · intro fits r hr
    have room := slack fits
    refine ⟨le_trans ?_ (starts r hr), ends.mpr (by omega) r hr⟩
    exact Int.le_add_of_nonneg_right lead

end Fits

end Line

end PixelLayout
