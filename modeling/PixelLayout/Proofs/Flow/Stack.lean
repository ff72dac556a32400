import PixelLayout.Proofs.Extent.Line
import PixelLayout.Proofs.History.Sound

/-!
# How a flow stacks its rows

Each row of a flow is as high as its items need, and starts below the one before it with the spacing
in between. An item that grows fills the height of its row. Any other keeps the height it prefers,
and if that is more than the row has, it stands out of the row, at the side that its alignment
leaves open. By no more than this do rectangles of different rows come closer than the spacing.
-/

set_option autoImplicit false

namespace PixelLayout

/-- Content stands in its space, but for what it exceeds it by. -/
theorem Align.offset_within (a : Align) (space size : Int) :
    let excess := max (size - space) 0
    0 ≤ a.offset space size + a.offset excess 0 ∧
      a.offset space size + size ≤ space + (excess - a.offset excess 0) := by
  intro excess
  by_cases fits : size ≤ space
  · have hexcess : excess = 0 := max_eq_right (by omega)
    have inside := a.offset_bounds fits
    have none := a.offset_bounds (le_refl (0 : Int))
    rw [hexcess]
    omega
  · have hexcess : excess = size - space := max_eq_left (by omega)
    rw [hexcess]
    cases a with
    | near =>
      simp only [offset]
      omega
    | center =>
      simp only [offset, sub_zero]
      rw [← neg_sub size space, Int.neg_tdiv]
      omega
    | far =>
      simp only [offset]
      omega

namespace Line

variable (l : Line)

theorem rect_y (horizontal : l.axis = .horizontal) (item : Item) (position extent : Int) :
    (l.rect item position extent).y = l.start .vertical +
      ((item.alignment.orElse l.settings.alignment).along .vertical).offset (l.space .vertical)
        (l.crossExtent item) := by
  rw [rect, horizontal]
  rfl

theorem rect_height (horizontal : l.axis = .horizontal) (item : Item) (position extent : Int) :
    (l.rect item position extent).height = l.crossExtent item := by
  rw [rect, horizontal]
  rfl

theorem place_length (gap position : Int) (es : List (Item × Int)) :
    (l.place gap position es).length = es.length := by
  induction es generalizing position with
  | nil => rfl
  | cons e es ih => simp [place, ih]

theorem rects_length (items : List Item) : (l.rects items).length = items.length := by
  rw [rects_def, place_length, List.length_zip, extents_length, Nat.min_self]

theorem exists_rect_of_mem_place (gap position : Int) (items : List Item) (extents : List Int) :
    ∀ e ∈ items.zip (l.place gap position (items.zip extents)),
      ∃ position extent, e.2 = l.rect e.1 position extent := by
  induction items generalizing position extents with
  | nil => simp
  | cons item items ih =>
    cases extents with
    | nil => simp [place]
    | cons extent extents =>
      intro e he
      rw [List.zip_cons_cons, place, List.zip_cons_cons] at he
      rcases List.mem_cons.mp he with rfl | he
      · exact ⟨position, extent, rfl⟩
      · exact ih _ extents e he

theorem exists_rect (items : List Item) :
    ∀ e ∈ items.zip (l.rects items), ∃ position extent, e.2 = l.rect e.1 position extent :=
  l.exists_rect_of_mem_place _ _ _ _

theorem arrange_eq (items : List Item) :
    l.arrange items = (items.zip (l.rects items)).map fun e => (e.1.id, e.2) := by
  rw [arrange_def, List.zip_map_left]
  rfl

end Line

def Item.overhang (item : Item) (need : Int) : Int :=
  if item.flags.canGrow .vertical then 0
  else Max.max (Max.max item.preferred.height item.minimum.height - need) 0

def Item.overhangAbove (item : Item) (fallback : Alignment) (need : Int) : Int :=
  ((item.alignment.orElse fallback).along .vertical).offset (item.overhang need) 0

def Item.overhangBelow (item : Item) (fallback : Alignment) (need : Int) : Int :=
  item.overhang need - item.overhangAbove fallback need

theorem Item.overhang_eq_zero_iff {item : Item} {need : Int} :
    item.overhang need = 0 ↔ item.flags.canGrow .vertical = true ∨
      Max.max item.preferred.height item.minimum.height ≤ need := by
  unfold overhang
  split
  · next grows => simp [grows]
  · next rigid =>
    simp only [rigid, Bool.false_eq_true, false_or]
    omega

theorem Item.no_overhang {item : Item} {need : Int}
    (h : item.flags.canGrow .vertical = true ∨
      Max.max item.preferred.height item.minimum.height ≤ need) (fallback : Alignment) :
    item.overhangAbove fallback need = 0 ∧ item.overhangBelow fallback need = 0 := by
  have none := overhang_eq_zero_iff.mpr h
  have above : item.overhangAbove fallback need = 0 := by
    rw [overhangAbove, none]
    cases (item.alignment.orElse fallback).along .vertical <;> rfl
  rw [overhangBelow, above, none]
  exact ⟨rfl, rfl⟩

namespace Flow

variable (f : Flow) (settings : Settings)

/-- An item stands in its row but for its overhang. -/
theorem rect_in_row (margins : Margins) (x y width need : Int) (item : Item)
    (position extent : Int) :
    let l := f.rowLine settings margins ⟨x, y, width, need + margins.vertical⟩
    let r := l.rect item position extent
    y + margins.vNear ≤ r.y + item.overhangAbove settings.alignment need ∧
    r.y + r.height ≤ y + margins.vNear + need + item.overhangBelow settings.alignment need := by
  intro l r
  set a := (item.alignment.orElse settings.alignment).along .vertical with ha
  have hy : r.y = y + margins.vNear + a.offset need (l.crossExtent item) := by
    have hspace := f.rowLine_space settings margins x y width need
    rw [← hspace]
    exact l.rect_y rfl item position extent
  have hheight : r.height = l.crossExtent item := l.rect_height rfl item position extent
  have hover : item.overhang need = max (l.crossExtent item - need) 0 := by
    have hspace : l.space .vertical = need := f.rowLine_space settings margins x y width need
    have hextent : l.crossExtent item = if item.flags.canGrow .vertical then need
        else max item.preferred.height item.minimum.height := by
      rw [← hspace]
      rfl
    rw [hextent, Item.overhang]
    split
    · omega
    · rfl
  have within := a.offset_within need (l.crossExtent item)
  rw [hy, hheight, Item.overhangBelow, Item.overhangAbove, ← ha, hover]
  omega

def placedRows (x width : Int) : Bool → Int → List (List Item) → List (List (Item × Rect))
  | _, _, [] => []
  | first, y, row :: rest =>
    let margins := rowMargins settings.margins first rest.isEmpty
    let height := f.rowNeed settings width row + margins.vertical
    row.zip ((f.rowLine settings margins ⟨x, y, width, height⟩).rects row)
      :: placedRows x width false (y + (height + settings.spacing)) rest

theorem placedRows_fst (x width : Int) (first : Bool) (y : Int) (rows : List (List Item)) :
    (f.placedRows settings x width first y rows).map (·.map Prod.fst) = rows := by
  induction rows generalizing first y with
  | nil => rfl
  | cons row rows ih =>
    simp only [placedRows, List.map_cons, ih]
    rw [List.map_fst_zip (Line.rects_length _ row).ge]

theorem stack_eq (x width : Int) (first : Bool) (y : Int) (rows : List (List Item)) :
    f.stack settings x width first y rows =
      (f.placedRows settings x width first y rows).flatten.map fun e => (e.1.id, e.2) := by
  induction rows generalizing first y with
  | nil => rfl
  | cons row rows ih =>
    simp only [stack_cons, placedRows, List.flatten_cons, List.map_append, ih]
    rw [Line.arrange_eq]

def top (first : Bool) (y : Int) : Int := y + if first then settings.margins.vNear else 0

theorem row_inside (x width y : Int) (first : Bool) (row : List Item) (rest : List (List Item)) :
    let margins := rowMargins settings.margins first rest.isEmpty
    let need := f.rowNeed settings width row
    ∀ e ∈ row.zip ((f.rowLine settings margins ⟨x, y, width, need + margins.vertical⟩).rects row),
      top settings first y ≤ e.2.y + e.1.overhangAbove settings.alignment need ∧
      e.2.y + e.2.height ≤
        top settings first y + need + e.1.overhangBelow settings.alignment need := by
  intro margins need e he
  obtain ⟨position, extent, hrect⟩ := Line.exists_rect _ row e he
  rw [hrect]
  exact f.rect_in_row settings margins x y width need e.1 position extent

section Stacked

variable {settings} (valid : settings.Nonneg) (range : settings.margins.vNear ≤ Pixel.greatest)
  (x width : Int)

include valid range

/-- The next row starts the spacing below what the row before it needs. -/
theorem top_next (first : Bool) (y need : Int) (row : List Item) (rest : List (List Item)) :
    top settings false (y + (need +
        (rowMargins settings.margins first (row :: rest).isEmpty).vertical + settings.spacing)) =
      top settings first y + need + settings.spacing := by
  have near : 0 ≤ settings.margins.vNear := by
    have := valid.1
    simp only [Margins.hasNegative, Bool.or_eq_false_iff, decide_eq_false_iff_not] at this
    omega
  have exact : (rowMargins settings.margins first (row :: rest).isEmpty).vertical =
      if first then settings.margins.vNear else 0 := by
    simp only [rowMargins, Margins.vertical, List.isEmpty_cons, Bool.false_eq_true, if_false]
    cases first <;> simp only [Bool.false_eq_true, if_false, if_true, add_zero] <;>
      refine Pixel.saturate_of_bounds ?_ ?_ <;> simp only [Pixel.least, Pixel.greatest] at * <;>
      omega
  rw [exact]
  simp only [top, Bool.false_eq_true, if_false]
  omega

theorem top_le_placedRows {rows : List (List Item)} (nonneg : ∀ row ∈ rows, ∀ c ∈ row, c.Nonneg)
    (first : Bool) (y : Int) :
    ∀ row ∈ f.placedRows settings x width first y rows, ∀ e ∈ row,
      top settings first y ≤ e.2.y + e.1.overhangAbove settings.alignment
        (f.rowNeed settings width (row.map Prod.fst)) := by
  induction rows generalizing first y with
  | nil => simp [placedRows]
  | cons row rest ih =>
    obtain ⟨hrow, hrest⟩ := List.forall_mem_cons.mp nonneg
    intro row' hrow' e he
    rcases List.mem_cons.mp hrow' with rfl | hrow'
    · have inside := f.row_inside settings x width y first row rest e he
      rw [List.map_fst_zip (Line.rects_length _ row).ge]
      exact inside.1
    · have later := ih hrest false _ row' hrow' e he
      have need := f.rowNeed_nonneg settings width hrow
      have spacing := valid.2
      cases rest with
      | nil => cases hrow'
      | cons next rest =>
        rw [top_next valid range] at later
        omega

/-- The rows keep the spacing between them, but for what their items stand out of them. -/
theorem placedRows_pairwise {rows : List (List Item)} (nonneg : ∀ row ∈ rows, ∀ c ∈ row, c.Nonneg)
    (first : Bool) (y : Int) :
    (f.placedRows settings x width first y rows).Pairwise fun row row' => ∀ e ∈ row, ∀ e' ∈ row',
      e.2.y + e.2.height + settings.spacing ≤ e'.2.y
        + e.1.overhangBelow settings.alignment (f.rowNeed settings width (row.map Prod.fst))
        + e'.1.overhangAbove settings.alignment (f.rowNeed settings width (row'.map Prod.fst)) := by
  induction rows generalizing first y with
  | nil => exact List.Pairwise.nil
  | cons row rest ih =>
    obtain ⟨hrow, hrest⟩ := List.forall_mem_cons.mp nonneg
    refine List.pairwise_cons.mpr ⟨fun row' hrow' e he e' he' => ?_, ih hrest false _⟩
    -- this row ends where its need does, and all later ones start at or below the next row's top
    have inside := f.row_inside settings x width y first row rest e he
    have later := f.top_le_placedRows valid range x width hrest false _ row' hrow' e' he'
    rw [List.map_fst_zip (Line.rects_length _ row).ge]
    cases rest with
    | nil => cases hrow'
    | cons next rest =>
      rw [top_next valid range] at later
      omega

end Stacked

/-- Every rectangle of an earlier row ends at least the spacing above each one of a later row, and
none starts above the top margin, but for what the items stand out of their rows. An item does so
only if it does not grow with its row and is higher than that. -/
theorem rows_apart {settings : Settings} (valid : settings.Nonneg)
    (range : settings.margins.vNear ≤ Pixel.greatest) {children : List Item}
    (nonneg : ∀ c ∈ children.filter (·.inLine), c.Nonneg) (bounds : Rect) :
    let need := fun row : List (Item × Rect) =>
      f.rowNeed settings bounds.width (row.map Prod.fst)
    let above := fun (row : List (Item × Rect)) (item : Item) =>
      item.overhangAbove settings.alignment (need row)
    let below := fun (row : List (Item × Rect)) (item : Item) =>
      item.overhangBelow settings.alignment (need row)
    ∃ placed : List (List (Item × Rect)),
      placed.map (·.map Prod.fst) = rows settings children bounds.width ∧
      f.arrange settings children bounds = placed.flatten.map (fun e => (e.1.id, e.2)) ∧
      placed.Pairwise (fun row row' => ∀ e ∈ row, ∀ e' ∈ row',
        e.2.y + e.2.height + settings.spacing ≤ e'.2.y + below row e.1 + above row' e'.1) ∧
      (∀ row ∈ placed, ∀ e ∈ row,
        bounds.y + settings.margins.vNear ≤ e.2.y + above row e.1) ∧
      ∀ row ∈ placed, ∀ e ∈ row, e.1.flags.canGrow .vertical = true ∨
        max e.1.preferred.height e.1.minimum.height ≤ need row →
        above row e.1 = 0 ∧ below row e.1 = 0 := by
  intro need above below
  have items : ∀ row ∈ rows settings children bounds.width, ∀ c ∈ row, c.Nonneg :=
    fun row hrow c hc => nonneg c (mem_of_mem_rows hrow hc)
  refine ⟨f.placedRows settings bounds.x bounds.width true bounds.y _,
    f.placedRows_fst settings _ _ _ _ _, f.stack_eq settings _ _ _ _ _, ?_, ?_, ?_⟩
  · exact f.placedRows_pairwise valid range bounds.x bounds.width items true bounds.y
  · exact f.top_le_placedRows valid range bounds.x bounds.width items true bounds.y
  · exact fun row _ e _ fits => e.1.no_overhang fits settings.alignment

def tallItems : List Item :=
  [1, 2].map fun id => { Item.plain id with min := ⟨40, 10⟩, preferred := ⟨40, 50⟩ }

theorem tallItems_nonneg : ∀ c ∈ tallItems.filter (·.inLine), c.Nonneg := by
  intro c hc
  obtain ⟨id, -, rfl⟩ := List.mem_map.mp (List.mem_filter.mp hc).1
  exact ⟨show (0 : Int) ≤ 40 by decide, show (0 : Int) ≤ 10 by decide, nofun⟩

theorem tall_items_apart :
    ∃ placed : List (List (Item × Rect)),
      placed.map (·.map Prod.fst) = rows .spacious tallItems 78 ∧
      Flow.fresh.arrange .spacious tallItems ⟨0, 0, 78, 200⟩ =
        placed.flatten.map (fun e => (e.1.id, e.2)) ∧
      placed.Pairwise fun row row' => ∀ e ∈ row, ∀ e' ∈ row',
        e.2.y + e.2.height + 6 ≤ e'.2.y
          + e.1.overhangBelow .inherited (Flow.fresh.rowNeed .spacious 78 (row.map Prod.fst))
          + e'.1.overhangAbove .inherited (Flow.fresh.rowNeed .spacious 78 (row'.map Prod.fst)) := by
  have valid : Settings.spacious.Nonneg := ⟨by decide, by decide⟩
  have range : Settings.spacious.margins.vNear ≤ Pixel.greatest := by decide
  obtain ⟨placed, hrows, hbatch, apart, -⟩ :=
    rows_apart .fresh valid range tallItems_nonneg ⟨0, 0, 78, 200⟩
  exact ⟨placed, hrows, hbatch, apart⟩

/-- The rows are ten pixels high. The items are fifty pixels high, in the middle of their rows: the
first one starts eleven pixels above the bounds, and overlaps the second one. -/
theorem tall_items_overlap :
    Settings.spacious.Nonneg ∧ (∀ c ∈ tallItems.filter (·.inLine), c.Nonneg) ∧
    tallItems.map (·.min) = [⟨40, 10⟩, ⟨40, 10⟩] ∧
    tallItems.map (·.preferred) = [⟨40, 50⟩, ⟨40, 50⟩] ∧
    tallItems.map (·.max) = [.zero, .zero] ∧
    (rows .spacious tallItems 78).map (·.map (·.id)) = [[1], [2]] ∧
    ∃ upper lower : Rect,
      Flow.fresh.arrange .spacious tallItems ⟨0, 0, 78, 200⟩ = [(1, upper), (2, lower)] ∧
      ¬ upper.y + upper.height + Settings.spacious.spacing ≤ lower.y ∧
      ¬ 0 + Settings.spacious.margins.vNear ≤ upper.y :=
  ⟨⟨by decide, by decide⟩, tallItems_nonneg, rfl, rfl, rfl, rfl, ⟨19, -11, 40, 50⟩,
    ⟨19, 5, 40, 50⟩, by cbv, by decide, by decide⟩

end Flow

end PixelLayout
