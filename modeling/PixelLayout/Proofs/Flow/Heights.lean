import PixelLayout.Proofs.Flow.Breaks
import PixelLayout.Proofs.Line.Least

/-!
# The height that a flow reports and uses

A row is as high as its tallest item needs at the width that the item gets, and that width does not
depend on where the row is or how high it is. So each row starts below what the rows before it need,
with the spacing behind each of them, and the last one ends, with the bottom margin behind it, exactly
at the least height for the same width.
-/

set_option autoImplicit false

namespace PixelLayout

theorem Align.offset_self (a : Align) (n : Int) : a.offset n n = 0 := by
  cases a <;> simp [offset]

namespace Flow

def tallest (row : List (Item × Rect)) : Int :=
  ((row.map fun e => e.1.heightAt e.2.width).max?).getD 0

theorem tallest_isGreatest {row : List (Item × Rect)} (some : row ≠ []) :
    IsGreatest {need | ∃ e ∈ row, e.1.heightAt e.2.width = need} (tallest row) := by
  have filled : row.map (fun e => e.1.heightAt e.2.width) ≠ [] := by simpa using some
  obtain ⟨most, hmost⟩ := Option.isSome_iff_exists.mp (List.isSome_max?_of_ne_nil filled)
  obtain ⟨mem, largest⟩ := List.max?_eq_some_iff.mp hmost
  rw [tallest, hmost, Option.getD_some]
  constructor
  · exact List.mem_map.mp mem
  · rintro need ⟨e, he, rfl⟩
    exact largest _ (List.mem_map_of_mem he)

def pitch (settings : Settings) (row : List (Item × Rect)) : Int := tallest row + settings.spacing

theorem total_pitch (settings : Settings) (rows : List (List (Item × Rect))) :
    total (rows.map (pitch settings)) =
      total (rows.map tallest) + settings.spacing * rows.length := by
  induction rows with
  | nil => simp
  | cons row rows ih =>
    rw [List.map_cons, total_cons, ih, pitch, List.map_cons, total_cons, List.length_cons]
    push_cast
    ring

section Row

variable (f : Flow) (settings : Settings) (row : List Item)

/-- The widths in a row do not depend on its height, nor on where it is. -/
theorem rowLine_extents (first last : Bool) (bounds : Rect) :
    (f.rowLine settings (rowMargins settings.margins first last) bounds).extents row =
      (f.rowLine settings settings.margins ⟨0, 0, bounds.width, 0⟩).extents row := by
  apply Line.extents_congr
  · exact fun c _ => Line.demand_row rfl rfl rfl
  · rfl
  · rfl

theorem tallest_row (first last : Bool) (x y width height : Int) :
    tallest (row.zip ((f.rowLine settings (rowMargins settings.margins first last)
      ⟨x, y, width, height⟩).rects row)) = f.rowNeed settings width row := by
  set l := f.rowLine settings (rowMargins settings.margins first last) ⟨x, y, width, height⟩
  have widths : (l.rects row).map (·.width) = l.extents row := l.rects_map_along row
  have needs : (row.zip (l.rects row)).map (fun e => e.1.heightAt e.2.width) =
      List.zipWith Item.heightAt row (l.extents row) := by
    rw [← widths, List.zipWith_map_right, ← List.map_uncurry_zip_eq_zipWith]
    rfl
  have extents : l.extents row = _ := f.rowLine_extents settings row first last ⟨x, y, width, height⟩
  rw [tallest, needs, extents]
  rfl

/-- An item that grows fills the height of its row. -/
theorem rect_fills_row (margins : Margins) (x y width need : Int) {item : Item}
    (grows : item.flags.canGrow .vertical = true) (position extent : Int) :
    let r := (f.rowLine settings margins ⟨x, y, width, need + margins.vertical⟩).rect item position
      extent
    r.y = y + margins.vNear ∧ r.height = need := by
  intro r
  set l := f.rowLine settings margins ⟨x, y, width, need + margins.vertical⟩
  have space : l.space .vertical = need := f.rowLine_space settings margins x y width need
  have fills : l.crossExtent item = need := by
    rw [Line.crossExtent]
    exact (if_pos grows).trans space
  have top : r.y = _ := l.rect_y rfl item position extent
  have height : r.height = _ := l.rect_height rfl item position extent
  rw [top, height, fills, space, Align.offset_self, add_zero]
  exact ⟨rfl, rfl⟩

theorem rowNeed_refresh {children : List Item} (present : ∀ c ∈ row, c ∈ children) (reset : Bool)
    (width : Int) :
    (f.refresh children reset).rowNeed settings width row = f.rowNeed settings width row := by
  have extents : ((f.refresh children reset).rowLine settings settings.margins ⟨0, 0, width, 0⟩).extents
      row = (f.rowLine settings settings.margins ⟨0, 0, width, 0⟩).extents row := by
    apply Line.extents_congr
    · intro c hc
      have child : children.any (·.id == c.id) = true :=
        List.any_eq_true.mpr ⟨c, present c hc, beq_self_eq_true _⟩
      exact Line.demand_row rfl rfl (f.refresh_factor child reset)
    · rfl
    · rfl
  rw [rowNeed_def, rowNeed_def, extents]

end Row

/-- Dropping the stretch factors of former children does not matter to the others. -/
theorem minSize_refresh (f : Flow) (settings : Settings) (children : List Item) (reset : Bool)
    (size : Size) :
    (f.refresh children reset).minSize settings children size = f.minSize settings children size := by
  have needs : (rows settings children size.width).map
      ((f.refresh children reset).rowNeed settings size.width) =
      (rows settings children size.width).map (f.rowNeed settings size.width) := by
    apply List.map_congr_left
    intro row hrow
    apply rowNeed_refresh
    exact fun c hc => (List.mem_filter.mp (mem_of_mem_rows hrow hc)).1
  rw [minSize_def, minSize_def, needs]

section Stacked

variable (f : Flow) {settings : Settings} (valid : settings.Nonneg)
  (range : settings.margins.vNear + settings.margins.vFar ≤ Pixel.greatest) (x width : Int)

theorem placedRows_tallest (first : Bool) (y : Int) (rows : List (List Item)) :
    (f.placedRows settings x width first y rows).map tallest =
      rows.map (f.rowNeed settings width) := by
  induction rows generalizing first y with
  | nil => rfl
  | cons row rows ih =>
    rw [placedRows, List.map_cons, List.map_cons, ih, tallest_row]

include valid range

theorem vertical_eq : settings.margins.vertical = settings.margins.vNear + settings.margins.vFar := by
  have margins := valid.1
  simp only [Margins.hasNegative, Bool.or_eq_false_iff, decide_eq_false_iff_not] at margins
  apply Pixel.saturate_of_bounds
  · simp only [Pixel.least]
    omega
  · exact range

theorem vNear_le_greatest : settings.margins.vNear ≤ Pixel.greatest := by
  have margins := valid.1
  simp only [Margins.hasNegative, Bool.or_eq_false_iff, decide_eq_false_iff_not] at margins
  omega

/-- Each row starts where the rows before it end, with the spacing behind each of them. -/
theorem placedRows_getElem? {rows : List (List Item)}
    (grows : ∀ row ∈ rows, ∀ c ∈ row, c.flags.canGrow .vertical = true) (first : Bool) (y : Int)
    {j : Nat} {row : List (Item × Rect)}
    (hrow : (f.placedRows settings x width first y rows)[j]? = some row) :
    ∀ e ∈ row, e.2.y = top settings first y +
        total (((f.placedRows settings x width first y rows).take j).map (pitch settings)) ∧
      e.2.height = tallest row := by
  induction rows generalizing first y j with
  | nil => simp [placedRows] at hrow
  | cons items rest ih =>
    obtain ⟨hitems, hrest⟩ := List.forall_mem_cons.mp grows
    rw [placedRows] at hrow ⊢
    set margins := rowMargins settings.margins first rest.isEmpty with hmargins
    set need := f.rowNeed settings width items with hneed
    set line := f.rowLine settings margins ⟨x, y, width, need + margins.vertical⟩ with hline
    have high : tallest (items.zip (line.rects items)) = need :=
      f.tallest_row settings items first rest.isEmpty x y width _
    cases j with
    | zero =>
      obtain rfl : items.zip (line.rects items) = row := by simpa using hrow
      intro e he
      obtain ⟨position, extent, hrect⟩ := Line.exists_rect line items e he
      have fills := f.rect_fills_row settings margins x y width need
        (hitems e.1 (List.of_mem_zip he).1) position extent
      rw [high, hrect, List.take_zero, List.map_nil, total_nil, add_zero]
      exact fills
    | succ j =>
      rw [List.getElem?_cons_succ] at hrow
      cases rest with
      | nil => simp [placedRows] at hrow
      | cons next rest =>
        intro e he
        obtain ⟨start, height⟩ := ih hrest false _ hrow e he
        have step := top_next valid (vNear_le_greatest valid range) first y need next rest
        rw [List.take_succ_cons, List.map_cons, total_cons, pitch, high, start]
        constructor
        · rw [hmargins, step]
          omega
        · exact height

/-- The last row ends where all rows do, with the spacing between them. -/
theorem placedRows_getLast? {rows : List (List Item)}
    (grows : ∀ row ∈ rows, ∀ c ∈ row, c.flags.canGrow .vertical = true) (y : Int)
    {row : List (Item × Rect)}
    (hrow : (f.placedRows settings x width true y rows).getLast? = some row) :
    ∀ e ∈ row, e.2.y + e.2.height = y + settings.margins.vNear +
      total (rows.map (f.rowNeed settings width)) + settings.spacing * (rows.length - 1) := by
  intro e he
  set placed := f.placedRows settings x width true y rows with hplaced
  obtain ⟨above, hlast⟩ := List.getLast?_eq_some_iff.mp hrow
  have index : placed[above.length]? = some row := by simp [hlast]
  obtain ⟨start, height⟩ := f.placedRows_getElem? valid range x width grows true y index e he
  have needs : rows.map (f.rowNeed settings width) = placed.map tallest :=
    (f.placedRows_tallest x width true y rows).symm
  have count : rows.length = above.length + 1 := by
    have := congrArg List.length needs
    rw [hlast] at this
    simpa using this
  rw [start, height, needs, count, ← hplaced, hlast, List.take_left, total_pitch, List.map_append,
    total_append, List.map_singleton, total_cons, total_nil, top, if_pos rfl]
  push_cast
  ring

end Stacked

theorem minSize_height (f : Flow) {settings : Settings} (valid : settings.Nonneg)
    (range : settings.margins.vNear + settings.margins.vFar ≤ Pixel.greatest)
    {children : List Item} (size : Size) (some : rows settings children size.width ≠ []) :
    let rows := rows settings children size.width
    (f.minSize settings children size).height = settings.margins.vNear +
      total (rows.map (f.rowNeed settings size.width)) + settings.spacing * (rows.length - 1) +
      settings.margins.vFar := by
  intro rows
  have pos : 0 < rows.length := List.length_pos_iff.mpr some
  have gaps : max (rows.length - 1 : Int) 0 = rows.length - 1 := max_eq_left (by omega)
  rw [minSize_def, minSizeOf, vertical_eq valid range, gaps]
  ring

/-- Rows as high as their tallest items, each below the ones before it, down to the least height. -/
theorem stands_in_rows (f : Flow) {settings : Settings} (valid : settings.Nonneg)
    (range : settings.margins.vNear + settings.margins.vFar ≤ Pixel.greatest) {children : List Item}
    (shown : children.filter (·.inLine) ≠ []) (nonneg : ∀ c ∈ children.filter (·.inLine), c.Nonneg)
    (grows : ∀ c ∈ children.filter (·.inLine), c.flags.canGrow .vertical = true) (bounds : Rect) :
    let placed := f.placedRows settings bounds.x bounds.width true bounds.y
      (rows settings children bounds.width)
    (∀ j row, placed[j]? = some row →
      IsGreatest {need | ∃ e ∈ row, e.1.heightAt e.2.width = need} (tallest row) ∧
      ∀ e ∈ row, e.2.height = tallest row ∧
        e.2.y = bounds.y + settings.margins.vNear + total ((placed.take j).map (pitch settings))) ∧
    ∃ last, placed.getLast? = some last ∧ ∀ e ∈ last,
      e.2.y + e.2.height + settings.margins.vFar - bounds.y =
        (f.minSize settings children bounds.size).height := by
  intro placed
  have breaks := rows_breaks valid.2 (fun c hc => (nonneg c hc).minimum .horizontal) bounds.width
  have items : placed.map (·.map Prod.fst) = rows settings children bounds.width :=
    f.placedRows_fst settings _ _ _ _ _
  have growing : ∀ row ∈ rows settings children bounds.width, ∀ c ∈ row,
      c.flags.canGrow .vertical = true :=
    fun row hrow c hc => grows c (mem_of_mem_rows hrow hc)
  constructor
  · intro j row hrow
    have stands := f.placedRows_getElem? valid range _ _ growing true bounds.y hrow
    have filled : row ≠ [] := by
      rintro rfl
      have empty : [] ∈ placed.map (·.map Prod.fst) :=
        List.mem_map.mpr ⟨[], List.mem_of_getElem? hrow, rfl⟩
      rw [items] at empty
      exact breaks.filled [] empty rfl
    exact ⟨tallest_isGreatest filled, fun e he => (stands e he).symm⟩
  · have some : rows settings children bounds.width ≠ [] := by
      intro none
      apply shown
      rw [← breaks.whole, none]
      rfl
    have filled : placed ≠ [] := by
      intro none
      apply some
      rw [← items, none]
      rfl
    have last := List.getLast?_eq_some_getLast filled
    have height := f.minSize_height valid range bounds.size some
    refine ⟨placed.getLast filled, last, fun e he => ?_⟩
    have ends := f.placedRows_getLast? valid range _ _ growing bounds.y last e he
    rw [ends, height]
    simp only [Rect.size]
    omega

end Flow

namespace Layout

/-- If all laid out children of a flow can grow in height, then every row is as high as its tallest
item needs at the width that it gets, and so are all items of the row. They start below the top margin
and the rows before theirs, each with the spacing behind it. Down to the bottom margin behind the last
row it is exactly the least height for the same width, as it would be computed before the pass and as
the flow answers it behind the pass. -/
theorem height_used {l : Layout} (made : l.Made) (ds : List Deed) {f : Flow}
    (mode : (l.after ds).mode = .flow f)
    (range : let m := (l.after ds).settings.margins; m.vNear + m.vFar ≤ Pixel.greatest) (v : View)
    (shown : v.children.filter (·.inLine) ≠ [])
    (nonneg : ∀ c ∈ v.children.filter (·.inLine), c.Nonneg)
    (grows : ∀ c ∈ v.children.filter (·.inLine), c.flags.canGrow .vertical = true) :
    let flow := l.after ds
    let settings := flow.settings
    let passed := flow.undergo (.pass v)
    ∃ placed : List (List (Item × Rect)),
      placed.map (·.map Prod.fst) = Flow.rows settings v.children v.bounds.width ∧
      (flow.arrangement v).batch = placed.flatten.map (fun e => (e.1.id, e.2)) ∧
      (∀ j row, placed[j]? = some row →
        IsGreatest {need | ∃ e ∈ row, e.1.heightAt e.2.width = need} (Flow.tallest row) ∧
        ∀ e ∈ row, e.2.height = Flow.tallest row ∧ e.2.y = v.bounds.y + settings.margins.vNear +
          total ((placed.take j).map fun row => Flow.tallest row + settings.spacing)) ∧
      ∃ last, placed.getLast? = some last ∧ ∀ e ∈ last,
        let used := e.2.y + e.2.height + settings.margins.vFar - v.bounds.y
        used = (flow.freshMinSize (some v) v.bounds.size).height ∧
        used = (passed.minSizeFor (some v) v.bounds.size).1.height := by
  intro flow settings passed
  have valid : settings.Nonneg := (made.sound ds).settings
  -- the pass may first drop the stretch factors of former children, which have no part in it
  set f' := f.refresh v.children (flow.startsAfresh v.children)
  have fresh : flow.freshMinSize (some v) v.bounds.size =
      f'.minSize settings v.children v.bounds.size := by
    rw [Flow.minSize_refresh]
    show flow.mode.minSize _ _ _ = _
    rw [mode]
    rfl
  have answered : (passed.minSizeFor (some v) v.bounds.size).1 =
      f'.minSize settings v.children v.bounds.size := by
    show (flow.mode.arrange _ _ _ _).mode.minSize _ _ _ = _
    rw [mode]
    rfl
  obtain ⟨stands, ends⟩ := f'.stands_in_rows valid range shown nonneg grows v.bounds
  refine ⟨_, f'.placedRows_fst settings v.bounds.x v.bounds.width true v.bounds.y _, ?_, stands, ?_⟩
  · show (flow.mode.arrange _ _ _ _).batch = _
    rw [mode]
    exact f'.stack_eq settings _ _ _ _ _
  · rw [fresh, answered]
    obtain ⟨last, hlast, height⟩ := ends
    exact ⟨last, hlast, fun e he => ⟨height e he, height e he⟩⟩

def page : Layout := ⟨⟨⟨3, 4, 5, 6⟩, 2, .inherited⟩, .idle, [], [], .flow .fresh⟩

theorem page_made : page.Made :=
  .flow (show flow (some ⟨⟨3, 4, 5, 6⟩, 2, .inherited⟩) = .ok page from rfl)

def paragraphs : View where
  suspended := false
  children := [
    { Item.plain 1 with
      min := ⟨20, 0⟩, flags := .resizable, heightForWidth := some (areaHeight 1200) },
    { Item.plain 2 with min := ⟨30, 25⟩, flags := .resizable },
    { Item.plain 3 with min := ⟨60, 10⟩, preferred := ⟨70, 5⟩, flags := .growable .vertical },
    { Item.plain 4 with
      min := ⟨40, 0⟩, flags := .resizable, heightForWidth := some (areaHeight 900) }]
  bounds := ⟨10, 20, 100, 50⟩

def weighed : List Deed := [.change true (some paragraphs) (.stretch 2 2), .attach]

theorem paragraphs_nonneg : ∀ c ∈ paragraphs.children.filter (·.inLine), c.Nonneg := by
  intro c hc
  have child : c ∈ paragraphs.children := (List.mem_filter.mp hc).1
  simp only [paragraphs, List.mem_cons, List.not_mem_nil, or_false] at child
  rcases child with rfl | rfl | rfl | rfl
  · exact Item.nonneg_wrapping (by decide) (by decide) (by decide) rfl
  · exact ⟨by decide, by decide, nofun⟩
  · exact ⟨by decide, by decide, nofun⟩
  · exact Item.nonneg_wrapping (by decide) (by decide) (by decide) rfl

theorem paragraphs_height_used :
    let flow := page.after weighed
    (flow.arrangement paragraphs).batch =
      [(1, ⟨13, 24, 34, 36⟩), (2, ⟨49, 24, 56, 36⟩), (3, ⟨24, 62, 70, 10⟩), (4, ⟨13, 74, 92, 10⟩)] ∧
    ∃ placed : List (List (Item × Rect)),
      placed.map (·.map Prod.fst) = Flow.rows page.settings paragraphs.children 100 ∧
      (flow.arrangement paragraphs).batch = placed.flatten.map (fun e => (e.1.id, e.2)) ∧
      (∀ j row, placed[j]? = some row → ∀ e ∈ row, e.2.height = Flow.tallest row ∧
        e.2.y = 20 + 4 + total ((placed.take j).map fun row => Flow.tallest row + 2)) ∧
      ∃ last, placed.getLast? = some last ∧ ∀ e ∈ last, e.2.y + e.2.height + 6 - 20 = 70 := by
  intro flow
  have arranged : ((page.after weighed).arrangement paragraphs).batch =
      [(1, ⟨13, 24, 34, 36⟩), (2, ⟨49, 24, 56, 36⟩), (3, ⟨24, 62, 70, 10⟩), (4, ⟨13, 74, 92, 10⟩)] := by
    cbv
  have least : (page.after weighed).freshMinSize (some paragraphs) ⟨100, 50⟩ = ⟨68, 70⟩ := by cbv
  obtain ⟨f, mode⟩ : ∃ f, (page.after weighed).mode = .flow f := ⟨_, rfl⟩
  have grows : ∀ c ∈ paragraphs.children.filter (·.inLine), c.flags.canGrow .vertical = true := by
    decide
  obtain ⟨placed, items, batch, stands, last, hlast, ends⟩ :=
    height_used page_made weighed mode (by decide) paragraphs (by decide) paragraphs_nonneg grows
  refine ⟨arranged, placed, items, batch, fun j row hrow => (stands j row hrow).2, last, hlast, ?_⟩
  intro e he
  have used := (ends e he).1
  rw [show paragraphs.bounds.size = ⟨100, 50⟩ from rfl, least] at used
  exact used

end Layout

end PixelLayout
