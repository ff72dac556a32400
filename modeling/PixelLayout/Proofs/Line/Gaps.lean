import PixelLayout.Proofs.Line.Least

/-!
# Pads and gaps of a line

Behind its pad a line puts one item after the other, any two neighbours at the same distance. The
alignment says where the slack goes: behind the last item, before the first one, or in equal parts
to all places around the items, with what cannot be divided behind the last one. A line that is
short of space has no slack, and is packed from its start on.
-/

set_option autoImplicit false

namespace PixelLayout

theorem Settings.Nonneg.margins_sum {s : Settings} (valid : s.Nonneg) (axis : Axis) :
    0 ≤ s.margins.sum axis := by
  have margins := valid.1
  simp only [Margins.hasNegative, Bool.or_eq_false_iff, decide_eq_false_iff_not] at margins
  cases axis
  · exact Pixel.saturate_nonneg.mpr (by omega)
  · exact Pixel.saturate_nonneg.mpr (by omega)

namespace Line

section Places

variable (l : Line) (gap position : Int) {es : List (Item × Int)}

theorem place_head? (shown : es ≠ []) :
    ∃ first, (l.place gap position es).head? = some first ∧ first.start l.axis = position := by
  cases es with
  | nil => exact absurd rfl shown
  | cons e es => exact ⟨_, rfl, l.rect_start ..⟩

theorem place_getLast? (shown : es ≠ []) :
    ∃ last, (l.place gap position es).getLast? = some last ∧
      last.start l.axis + last.size.along l.axis = position + l.reach gap (es.map Prod.snd) := by
  induction es generalizing position with
  | nil => exact absurd rfl shown
  | cons e es ih =>
    obtain ⟨item, extent⟩ := e
    cases es with
    | nil =>
      refine ⟨l.rect item position extent, rfl, ?_⟩
      rw [l.rect_start, l.rect_along]
      simp [reach]
    | cons next es =>
      obtain ⟨last, hlast, ends⟩ := ih (position + (extent + l.settings.spacing + gap)) (by simp)
      refine ⟨last, ?_, ?_⟩
      · rw [place, place, List.getLast?_cons_cons, ← hlast]
        rfl
      · rw [ends, List.map_cons (a := (item, extent)), l.reach_cons]
        ring

/-- Each item starts where the one before it ends, behind the spacing and the gap. -/
theorem place_isChain (es : List (Item × Int)) :
    (l.place gap position es).IsChain fun r r' =>
      r'.start l.axis = r.start l.axis + r.size.along l.axis + (l.settings.spacing + gap) := by
  induction es generalizing position with
  | nil => exact .nil
  | cons e es ih =>
    obtain ⟨item, extent⟩ := e
    cases es with
    | nil => exact .singleton _
    | cons next es =>
      obtain ⟨item', extent'⟩ := next
      refine .cons_cons ?_ (ih _)
      rw [l.rect_start, l.rect_start, l.rect_along]
      ring

end Places

section Slack

variable {l : Line} {items : List Item}

/-- An item is given at least what it needs, and what it may have at most, unless it needs more. -/
theorem extents_allowed (items : List Item) :
    List.Forall₂ (fun c extent => l.least c ≤ extent ∧
        ∀ most ∈ c.axisMax l.axis, extent ≤ max most (l.least c))
      items (l.extents items) := by
  have allowed := (Space.Request.sizes_bounds _ (l.request_valid items)).1
  rw [request, List.forall₂_map_left_iff] at allowed
  refine allowed.imp fun c extent h => ⟨h.1, fun most hmost => h.2 _ ?_⟩
  exact Option.mem_map_of_mem (max · (l.least c)) hmost

theorem rects_allowed (items : List Item) :
    List.Forall₂ (fun c r => r = l.rect c (r.start l.axis) (r.size.along l.axis) ∧
        l.least c ≤ r.size.along l.axis ∧
        ∀ most ∈ c.axisMax l.axis, r.size.along l.axis ≤ max most (l.least c))
      items (l.rects items) := by
  have each := (l.arrange_forall₂_iff (p := fun c r =>
      r = l.rect c (r.start l.axis) (r.size.along l.axis) ∧ l.least c ≤ r.size.along l.axis ∧
      ∀ most ∈ c.axisMax l.axis, r.size.along l.axis ≤ max most (l.least c))
    (fun c position extent => by rw [l.rect_start, l.rect_along, eq_self, true_and]) items).mpr
    (extents_allowed items)
  rw [← l.arrange_map_snd, List.forall₂_map_right_iff]
  exact each.imp fun _ _ h => h.2

theorem reach_extents (items : List Item) :
    l.reach 0 (l.extents items) = total ((l.rects items).map (·.size.along l.axis)) +
      l.settings.spacing * (items.length - 1 : Int) := by
  rw [l.rects_map_along, reach, l.extents_length, add_zero]

variable (shown : items ≠ []) (spacing : 0 ≤ l.settings.spacing)

include shown

/-- The first item starts behind the pad, and the last one ends behind all extents and gaps. -/
theorem rects_ends : ∃ first last, (l.rects items).head? = some first ∧
    (l.rects items).getLast? = some last ∧
    first.start l.axis = l.start l.axis + (l.pads items).1 ∧
    last.start l.axis + last.size.along l.axis = l.start l.axis + (l.pads items).1 +
      (l.reach 0 (l.extents items) + (l.pads items).2 * (items.length - 1)) := by
  have extents : (items.zip (l.extents items)).map Prod.snd = l.extents items :=
    List.map_snd_zip (l.extents_length items).le
  have filled : items.zip (l.extents items) ≠ [] := by
    rw [← List.length_pos_iff, List.length_zip, extents_length, min_self]
    exact List.length_pos_iff.mpr shown
  have spread : l.reach (l.pads items).2 (l.extents items) =
      l.reach 0 (l.extents items) + (l.pads items).2 * (items.length - 1) := by
    simp only [reach, l.extents_length]
    ring
  obtain ⟨first, hfirst, begins⟩ :=
    l.place_head? (l.pads items).2 (l.start l.axis + (l.pads items).1) filled
  obtain ⟨last, hlast, ends⟩ :=
    l.place_getLast? (l.pads items).2 (l.start l.axis + (l.pads items).1) filled
  rw [extents, spread] at ends
  exact ⟨first, last, hfirst, hlast, begins, ends⟩

theorem slack_eq_max : l.slack items =
    max (Pixel.saturate (l.space l.axis - l.reach 0 (l.extents items))) 0 := by
  have some : (l.extents items).isEmpty = false := by
    rw [List.isEmpty_eq_false_iff, ← List.length_pos_iff, l.extents_length]
    exact List.length_pos_iff.mpr shown
  rw [slack_def, Space.slack, some, reach, add_zero]
  rfl

include spacing

theorem slack_eq (room : l.space l.axis ≤ Pixel.greatest)
    (fits : l.leastReach items ≤ l.space l.axis) :
    l.slack items = l.space l.axis - l.reach 0 (l.extents items) := by
  have handed := (reach_extents_le_iff spacing shown).mpr fits
  have filled : l.extents items ≠ [] := by
    rw [← List.length_pos_iff, l.extents_length]
    exact List.length_pos_iff.mpr shown
  have apart : 0 ≤ l.settings.spacing + 0 := by omega
  have used := reach_nonneg apart filled (l.extents_nonneg items)
  rw [slack_eq_max shown, Pixel.saturate_of_bounds, max_eq_left (by omega)]
  · simp only [Pixel.least]
    omega
  · omega

/-- A line that is short of space gives each item just what it needs. -/
theorem extents_of_short (short : l.space l.axis < l.leastReach items) :
    l.extents items = items.map l.least := by
  have least := l.least_le_extents items
  have available : (l.request items).available = max (l.space l.axis) 0 := rfl
  obtain ⟨-, cramped, fit⟩ := Space.Request.sizes_bounds _ (l.request_valid items)
  rw [request_gaps, request_minimums, available] at cramped fit
  simp only [leastReach, reach, List.length_map, add_zero] at short
  by_cases enough : total (items.map l.least) + l.settings.spacing * (items.length - 1) ≤
      max (l.space l.axis) 0
  · -- then the space is negative, and neither the items nor the gaps take any
    have handed : total (l.extents items) + _ ≤ _ := (fit enough).1
    have count := List.length_pos_iff.mpr shown
    have apart : 0 ≤ l.settings.spacing * ((items.length : Int) - 1) :=
      mul_nonneg spacing (by omega)
    have needed : 0 ≤ total (items.map l.least) :=
      total_nonneg (List.forall_mem_map.mpr fun c _ => le_max_right _ _)
    exact (eq_of_forall₂_of_total_le least (by omega)).symm
  · have packed := cramped (by omega)
    rw [request, List.map_map] at packed
    exact packed

theorem slack_of_short (short : l.space l.axis < l.leastReach items) : l.slack items = 0 := by
  have used : l.reach 0 (l.extents items) = l.leastReach items := by
    rw [extents_of_short shown spacing short, leastReach]
  have negative : ¬ 0 ≤ Pixel.saturate (l.space l.axis - l.reach 0 (l.extents items)) := by
    rw [Pixel.saturate_nonneg]
    omega
  rw [slack_eq_max shown, max_eq_right (by omega)]

omit shown spacing in
theorem pads_of_slack_eq_zero (none : l.slack items = 0) : l.pads items = (0, 0) := by
  rw [pads_def, none]
  cases l.settings.alignment.along l.axis <;> simp

omit shown spacing in
/-- Centered, the pad behind the items is as large as the one in front of them but for what the
division leaves over. -/
theorem pads_center (items : List Item) (center : l.settings.alignment.along l.axis = .center) :
    let share := l.slack items / (items.length + 1)
    l.pads items = (share, share) ∧ share * (items.length + 1) ≤ l.slack items ∧
      l.slack items ≤ share * (items.length + 1) + items.length := by
  intro share
  have positive : (0 : Int) < items.length + 1 := by omega
  have truncated : (l.slack items).tdiv (items.length + 1) = share :=
    Int.tdiv_eq_ediv_of_nonneg (le_max_right _ _)
  have below : l.slack items < (share + 1) * (items.length + 1) :=
    Int.lt_ediv_add_one_mul_self _ positive
  refine ⟨?_, Int.ediv_mul_le _ positive.ne', ?_⟩
  · rw [pads_def, center, truncated]
  · rw [add_one_mul] at below
    omega

end Slack

/-- A line gives each of its items a rectangle of its own, with at least the extent that the item
needs, and at most the one that it may have, or needs. Neighbours are apart by the spacing and a gap
that is the same everywhere. If the items and the spacing between them fit, they all stay inside:
packed at the near end or at the far end, or centered, with the same pad in front of them as between
any two, and up to a pixel for each item more behind them. If they do not fit, each item has just
what it needs, and they are packed from the start on, however they are aligned. -/
theorem positions (l : Line) (valid : l.settings.Nonneg)
    (range : l.bounds.size.along l.axis ≤ Pixel.greatest) {items : List Item} (shown : items ≠ []) :
    let rects := l.rects items
    let start := l.start l.axis
    let space := l.space l.axis
    let align := l.settings.alignment.along l.axis
    let spacings := l.settings.spacing * (items.length - 1 : Int)
    let needed := total (items.map l.least) + spacings
    let slack := space - (total (rects.map (·.size.along l.axis)) + spacings)
    List.Forall₂ (fun c r => r = l.rect c (r.start l.axis) (r.size.along l.axis) ∧
        l.least c ≤ r.size.along l.axis ∧
        ∀ most ∈ c.axisMax l.axis, r.size.along l.axis ≤ max most (l.least c)) items rects ∧
    ∃ first last gap, rects.head? = some first ∧ rects.getLast? = some last ∧
      let lead := first.start l.axis - start
      let trail := start + space - (last.start l.axis + last.size.along l.axis)
      rects.IsChain (fun r r' => r'.start l.axis =
        r.start l.axis + r.size.along l.axis + (l.settings.spacing + gap)) ∧
      (needed ≤ space →
        (∀ r ∈ rects, r.Between l.bounds l.settings.margins l.axis) ∧
        (align = .near → lead = 0 ∧ gap = 0) ∧
        (align = .far → trail = 0 ∧ gap = 0) ∧
        (align = .center → lead = slack / (items.length + 1) ∧ gap = lead ∧
          lead ≤ trail ∧ trail ≤ lead + items.length)) ∧
      (space < needed →
        rects.map (·.size.along l.axis) = items.map l.least ∧ lead = 0 ∧ gap = 0) := by
  intro rects start space align spacings needed slack
  have least : l.leastReach items = needed := by
    simp only [leastReach, reach, List.length_map, add_zero]
    rfl
  have used : space - l.reach 0 (l.extents items) = slack := by rw [reach_extents]
  obtain ⟨first, last, hfirst, hlast, begins, ends⟩ := rects_ends (l := l) shown
  refine ⟨rects_allowed items, first, last, (l.pads items).2, hfirst, hlast, l.place_isChain _ _ _,
    fun fits => ?_, fun short => ?_⟩
  · rw [← least] at fits
    have room : space ≤ Pixel.greatest := by
      have margins := valid.margins_sum l.axis
      exact (sub_le_self _ margins).trans range
    have rest : l.slack items = slack := (slack_eq shown valid.2 room fits).trans used
    have unused : 0 ≤ l.slack items := le_max_right _ _
    have aligned : l.settings.alignment.along l.axis = align := rfl
    refine ⟨(rects_between_iff valid.2 shown).mpr fits, fun near => ?_, fun far => ?_,
      fun center => ?_⟩
    · have pads : l.pads items = (0, 0) := by rw [Line.pads_def, aligned, near]
      rw [pads, add_zero] at begins
      exact ⟨sub_eq_zero.mpr begins, congrArg Prod.snd pads⟩
    · have pads : l.pads items = (l.slack items, 0) := by rw [Line.pads_def, aligned, far]
      rw [pads, rest] at ends
      exact ⟨by omega, congrArg Prod.snd pads⟩
    · obtain ⟨pads, below, above⟩ := pads_center items center
      rw [rest] at pads below above
      have pad : (l.pads items).1 = slack / (items.length + 1) := congrArg Prod.fst pads
      have gap : (l.pads items).2 = slack / (items.length + 1) := congrArg Prod.snd pads
      rw [pad, gap, mul_sub_one] at ends
      rw [mul_add_one] at below above
      rw [begins, pad, gap, add_sub_cancel_left]
      exact ⟨rfl, rfl, by omega, by omega⟩
  · rw [← least] at short
    have pads := pads_of_slack_eq_zero (slack_of_short shown valid.2 short)
    rw [pads, add_zero] at begins
    exact ⟨(l.rects_map_along items).trans (extents_of_short shown valid.2 short),
      sub_eq_zero.mpr begins, congrArg Prod.snd pads⟩

def centered : Line := ⟨.vertical, ⟨.all 4, 3, .inherited⟩, ⟨10, 20, 50, 120⟩, .empty⟩

def signs : List Item := [{ Item.plain 1 with min := ⟨20, 10⟩, preferred := ⟨30, 15⟩ },
  { Item.plain 2 with
    preferred := ⟨40, 20⟩, heightForWidth := some (areaHeight 1000) },
  { Item.plain 3 with min := ⟨16, 16⟩, max := ⟨0, 25⟩, flags := .resizable }]

/-- Of the pixels left over, ten are in front of the signs and between them, and twelve behind. -/
theorem signs_positions :
    centered.rects signs = [⟨20, 34, 30, 15⟩, ⟨15, 62, 40, 24⟩, ⟨14, 99, 42, 25⟩] ∧
    List.Forall₂ (fun c r => centered.least c ≤ r.height ∧
      ∀ most ∈ c.axisMax .vertical, r.height ≤ max most (centered.least c))
      signs (centered.rects signs) ∧
    (centered.rects signs).IsChain (fun r r' => r'.y = r.y + r.height + (3 + 10)) ∧
    ∀ r ∈ centered.rects signs, r.Between ⟨10, 20, 50, 120⟩ (.all 4) .vertical := by
  have placed : centered.rects signs = [⟨20, 34, 30, 15⟩, ⟨15, 62, 40, 24⟩, ⟨14, 99, 42, 25⟩] := by
    cbv
  obtain ⟨each, first, last, gap, hfirst, -, apart, fit, -⟩ :=
    positions centered ⟨by decide, by decide⟩ (by decide) (show signs ≠ [] by decide)
  obtain ⟨inside, -, -, center⟩ := fit (by decide)
  have lead : first.start .vertical - 24 = gap := (center rfl).2.1.symm
  rw [placed, List.head?_cons, Option.some.injEq] at hfirst
  obtain rfl : gap = 10 := by
    rw [← lead, ← hfirst]
    rfl
  exact ⟨placed, each.imp fun _ _ h => h.2, apart, inside⟩

end Line

end PixelLayout
