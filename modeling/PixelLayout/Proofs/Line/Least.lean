import PixelLayout.Proofs.Collect
import PixelLayout.Proofs.Flow.Wrap
import PixelLayout.Proofs.Line.Positions

/-!
# Least sizes of rows and columns

A row stays between its margins exactly if it is as wide as its least size, and at its least height
each item gets the height that it needs at the width it gets there. A column measures an item at the
width that the item gets, but makes room for it by its height at the full width inside the margins.
So its least height is enough exactly if what is handed out happens to be what the items need, and
always if no item needs another height at its own width than at the full one.
-/

set_option autoImplicit false

namespace PixelLayout

theorem eq_of_forall₂_of_total_le {ms ns : List Int} (h : List.Forall₂ (· ≤ ·) ms ns)
    (le : total ns ≤ total ms) : ms = ns := by
  induction h with
  | nil => rfl
  | @cons m n ms ns hle rest ih =>
    have behind := total_le_of_forall₂ rest
    simp only [total_cons] at le
    rw [ih (by omega), show m = n by omega]

theorem le_foldl_max {n : Int} {ns : List Int} (h : n ∈ ns) (a : Int) : n ≤ ns.foldl max a :=
  (foldl_max_le_iff.mp le_rfl).2 n h

theorem areaHeight_nonneg {area : Int} (h : 0 ≤ area) (width : Int) : 0 ≤ areaHeight area width := by
  unfold areaHeight
  split
  · exact h
  · exact Int.tdiv_nonneg (by omega) (by omega)

theorem Item.nonneg_wrapping {c : Item} {area : Int} (width : 0 ≤ c.min.width)
    (height : 0 ≤ c.min.height) (h : 0 ≤ area) (trades : c.heightForWidth = some (areaHeight area)) :
    c.Nonneg := by
  refine ⟨width, height, fun height' hheight => ?_⟩
  rw [trades, Option.some.injEq] at hheight
  exact hheight ▸ areaHeight_nonneg h

def Item.HighEnough (c : Item) (r : Rect) : Prop := c.heightAt r.width ≤ r.height

def Item.widthIn (c : Item) (inner : Int) : Int :=
  if c.flags.canGrow .horizontal then inner else Max.max c.preferred.width c.minimum.width

namespace Line

theorem extents_congr {l l' : Line} {items : List Item}
    (demands : ∀ c ∈ items, l'.demand c = l.demand c)
    (space : l'.space l'.axis = l.space l.axis) (spacing : l'.settings.spacing = l.settings.spacing) :
    l'.extents items = l.extents items := by
  rw [extents, extents, request, request, List.map_congr_left demands, space, spacing]

variable {l : Line}

theorem leastReach_eq {items : List Item} (some : items ≠ []) :
    l.leastReach items = total (items.map l.least) + l.gaps items.length := by
  have pos := List.length_pos_iff.mpr some
  rw [leastReach, reach, gaps, List.length_map, add_zero, max_eq_left (by omega)]

section Row

variable (row : l.axis = .horizontal)

include row

theorem demand_row {l' : Line} (row' : l'.axis = .horizontal) {c : Item}
    (factor : l'.stretch.factor c.id = l.stretch.factor c.id) : l'.demand c = l.demand c := by
  unfold demand least
  rw [row, row', factor]

theorem least_row {item : Item} (h : 0 ≤ item.minimum.width) : l.least item = item.minimum.width := by
  unfold least
  rw [row]
  exact max_eq_left h

theorem highEnough_row {c : Item} {position extent : Int} :
    c.HighEnough (l.rect c position extent) ↔ c.heightAt extent ≤ l.crossExtent c := by
  have width := l.rect_along c position extent
  have height := l.rect_across c position extent
  rw [row] at width height
  rw [Item.HighEnough, show (l.rect c position extent).width = extent from width,
    show (l.rect c position extent).height = l.crossExtent c from height]

theorem heights_row (items : List Item) :
    l.heights items = List.zipWith Item.heightAt items (l.extents items) := by
  have widths := l.rects_map_along items
  rw [row] at widths
  rw [heights_def, ← widths, List.zipWith_map_right]
  rfl

/-- With the height that some row is found to need, a row that hands out the same widths has enough
height for each of its items. -/
theorem heights_suffice {l₀ : Line} (row₀ : l₀.axis = .horizontal) {items : List Item}
    (same : l₀.extents items = l.extents items)
    (space : l.space .vertical = (l₀.heights items).foldl max 0) :
    List.Forall₂ (fun c width => c.heightForWidth = none ∨ c.flags.canGrow .vertical = true →
        c.heightAt width ≤ l.crossExtent c)
      items (l.extents items) := by
  refine List.forall₂_iff_zip.mpr ⟨(l.extents_length items).symm, fun {c width} hmem served => ?_⟩
  have need : c.heightAt width ≤ l.space .vertical := by
    rw [space, heights_row row₀, same]
    refine le_foldl_max ?_ 0
    rw [← List.map_uncurry_zip_eq_zipWith]
    exact List.mem_map_of_mem (f := Function.uncurry Item.heightAt) hmem
  unfold crossExtent
  rw [row]
  show _ ≤ if c.flags.canGrow .vertical then l.space .vertical else _
  split
  · exact need
  · next rigid =>
    have none := served.resolve_right rigid
    rw [Item.heightAt, none]
    exact le_max_right _ _

end Row

section Column

variable (column : l.axis = .vertical)

include column

theorem least_column {item : Item} (h : 0 ≤ item.heightAt (l.space .horizontal)) :
    l.least item = item.heightAt (l.space .horizontal) := by
  unfold least
  rw [column]
  cases trades : item.heightForWidth with
  | none =>
    rw [Item.heightAt, trades] at h ⊢
    exact max_eq_left h
  | some height =>
    rw [Item.heightAt, trades] at h ⊢
    exact max_eq_left h

theorem crossExtent_column (item : Item) :
    l.crossExtent item = item.widthIn (l.space .horizontal) := by
  unfold crossExtent
  rw [column]
  rfl

theorem highEnough_column {c : Item} {position extent : Int} :
    c.HighEnough (l.rect c position extent) ↔ c.heightAt (l.crossExtent c) ≤ extent := by
  have width := l.rect_across c position extent
  have height := l.rect_along c position extent
  rw [column] at width height
  rw [Item.HighEnough, show (l.rect c position extent).width = l.crossExtent c from width,
    show (l.rect c position extent).height = extent from height]

theorem heights_column (items : List Item) :
    l.heights items = items.map fun c => c.heightAt (l.crossExtent c) := by
  have widths := l.rects_map_across items
  rw [column] at widths
  have each : l.heights items = List.zipWith Item.heightAt items
      ((l.rects items).map (·.size.along Axis.vertical.cross)) := by
    rw [List.zipWith_map_right]
    rfl
  rw [each, widths, List.zipWith_map_right, List.zipWith_self]

section Fits

variable (spacing : 0 ≤ l.settings.spacing) {items : List Item}
  (space : l.space .vertical = total (l.heights items) + l.gaps items.length)

include spacing space

/-- At the height that its items are found to need, a column stays between its margins exactly if
its items need no more at the full width. -/
theorem column_between_iff :
    (∀ r ∈ l.rects items, r.Between l.bounds l.settings.margins .vertical) ↔
      total (items.map l.least) ≤ total (l.heights items) := by
  by_cases none : items = []
  · subst none
    exact iff_of_true nofun le_rfl
  · have between := rects_between_iff spacing none
    rw [column, leastReach_eq none, space] at between
    exact between.trans (add_le_add_iff_right _)

/-- Inside the margins the items together get no more than they are found to need. -/
theorem total_extents_le
    (between : ∀ r ∈ l.rects items, r.Between l.bounds l.settings.margins .vertical) :
    total (l.extents items) ≤ total (l.heights items) := by
  by_cases none : items = []
  · subst none
    have nothing : l.extents [] = [] := List.length_eq_zero_iff.mp (l.extents_length [])
    rw [nothing]
    exact le_refl (0 : Int)
  · rw [← column] at between
    have fits := (reach_extents_le_iff spacing none).mpr ((rects_between_iff spacing none).mp between)
    have pos := List.length_pos_iff.mpr none
    rw [column, space, reach, extents_length, gaps, max_eq_left (by omega), add_zero] at fits
    exact le_of_add_le_add_right fits

/-- Then it stays between them and each item has the height that it needs, if and only if what is
handed out is just that. -/
theorem served_column_iff (nonneg : ∀ c ∈ items, 0 ≤ c.heightAt (l.space .horizontal)) :
    (∀ r ∈ l.rects items, r.Between l.bounds l.settings.margins .vertical) ∧
        List.Forall₂ (fun c height => c.heightForWidth ≠ none →
          c.heightAt (l.crossExtent c) ≤ height) items (l.extents items) ↔
      l.extents items = l.heights items := by
  have least := l.least_le_extents items
  constructor
  · rintro ⟨between, served⟩
    have total := total_extents_le column spacing space between
    rw [List.forall₂_map_left_iff] at least
    have needs : List.Forall₂ (· ≤ ·) (l.heights items) (l.extents items) := by
      rw [heights_column column, List.forall₂_map_left_iff]
      refine List.forall₂_iff_zip.mpr ⟨(l.extents_length items).symm, fun {c height} hmem => ?_⟩
      have hleast := (List.forall₂_iff_zip.mp least).2 hmem
      by_cases trades : c.heightForWidth = none
      · -- the least height of the item is the one that it needs at every width
        rw [least_column column (nonneg c (List.of_mem_zip hmem).1)] at hleast
        rw [Item.heightAt, trades] at hleast ⊢
        exact hleast
      · exact (List.forall₂_iff_zip.mp served).2 hmem trades
    exact (eq_of_forall₂_of_total_le needs total).symm
  · intro exact'
    refine ⟨(column_between_iff column spacing space).mpr ?_, ?_⟩
    · exact exact' ▸ total_le_of_forall₂ least
    · rw [exact', heights_column column, List.forall₂_map_right_iff, List.forall₂_same]
      exact fun c _ _ => le_rfl

/-- So it does if no item needs another height at its own width than at the full one. -/
theorem extents_of_same_heights (nonneg : ∀ c ∈ items, 0 ≤ c.heightAt (l.space .horizontal))
    (same : ∀ c ∈ items, c.heightAt (l.crossExtent c) = c.heightAt (l.space .horizontal)) :
    l.extents items = l.heights items := by
  have least : items.map l.least = l.heights items := by
    rw [heights_column column]
    refine List.map_congr_left fun c hc => ?_
    rw [least_column column (nonneg c hc), same c hc]
  have between := (column_between_iff column spacing space).mpr (le_of_eq (congrArg total least))
  have total := total_extents_le column spacing space between
  rw [← least] at total ⊢
  exact (eq_of_forall₂_of_total_le (l.least_le_extents items) total).symm

end Fits

end Column

end Line

namespace Box

variable (b : Box) (settings : Settings) {children : List Item}

theorem refresh_axis (children : List Item) (reset : Bool) :
    (b.refresh children reset).axis = b.axis := by
  cases reset <;> rfl

section Row

variable {b} (horizontal : b.axis = .horizontal)

include horizontal

theorem minSize_row (children : List Item) (size : Size) :
    let items := children.filter (·.inLine)
    let line := b.line settings (.ofSize size)
    b.minSize settings children size =
      ⟨settings.margins.horizontal + total (items.map (·.minimum.width)) + line.gaps items.length,
        settings.margins.vertical + (line.heights items).foldl max 0⟩ := by
  rw [minSize_def, Line.minSize_def, Line.minSizeOf,
    show (b.line settings (.ofSize size)).axis = .horizontal from horizontal]
  rfl

theorem between_row_iff (spacing : 0 ≤ settings.spacing) (shown : children.filter (·.inLine) ≠ [])
    (widths : ∀ c ∈ children.filter (·.inLine), 0 ≤ c.minimum.width) (size : Size) (bounds : Rect) :
    (∀ e ∈ b.arrange settings children bounds, e.2.Between bounds settings.margins .horizontal) ↔
      (b.minSize settings children size).width ≤ bounds.width := by
  let l := b.line settings bounds
  let items := children.filter (·.inLine)
  have between := Line.rects_between_iff (l := l) spacing shown
  rw [Line.leastReach_eq shown, ← l.arrange_map_snd, List.forall_mem_map,
    show l.axis = .horizontal from horizontal] at between
  have least : items.map l.least = items.map (·.minimum.width) :=
    List.map_congr_left fun c hc => Line.least_row horizontal (widths c hc)
  rw [least] at between
  rw [minSize_row settings horizontal]
  refine between.trans ?_
  show total (items.map (·.minimum.width)) + l.gaps items.length ≤
      bounds.width - settings.margins.horizontal ↔
    settings.margins.horizontal + total (items.map (·.minimum.width)) + l.gaps items.length ≤
      bounds.width
  omega

theorem row_heights (reset : Bool) (size : Size) (x y : Int) :
    List.Forall₂ (fun c e => e.1 = c.id ∧
        (c.heightForWidth = none ∨ c.flags.canGrow .vertical = true → c.HighEnough e.2))
      (children.filter (·.inLine))
      ((b.refresh children reset).arrange settings children
        ⟨x, y, size.width, (b.minSize settings children size).height⟩) := by
  have horizontal' : (b.refresh children reset).axis = .horizontal :=
    (b.refresh_axis children reset).trans horizontal
  let l₀ := b.line settings (.ofSize size)
  let l := (b.refresh children reset).line settings
    ⟨x, y, size.width, (b.minSize settings children size).height⟩
  let items := children.filter (·.inLine)
  have same : l₀.extents items = l.extents items := by
    refine Line.extents_congr (fun c hc => ?_) ?_ rfl
    · refine Line.demand_row horizontal' horizontal (refresh_factor ?_ reset b).symm
      exact List.any_eq_true.mpr ⟨c, (List.mem_filter.mp hc).1, beq_self_eq_true _⟩
    · rw [show l₀.axis = .horizontal from horizontal, show l.axis = .horizontal from horizontal']
      rfl
  have space : l.space .vertical = (l₀.heights items).foldl max 0 := by
    show (b.minSize settings children size).height - settings.margins.vertical = _
    rw [minSize_row settings horizontal]
    exact add_sub_cancel_left _ _
  refine (l.arrange_forall₂_iff (p := fun c r =>
      c.heightForWidth = none ∨ c.flags.canGrow .vertical = true → c.HighEnough r)
    (fun c position extent => ?_) items).mpr
    (Line.heights_suffice horizontal' horizontal same space)
  rw [Line.highEnough_row horizontal']

end Row

section Column

variable {b} (vertical : b.axis = .vertical)

include vertical

theorem heights_eq (items : List Item) (bounds : Rect) :
    (b.line settings bounds).heights items =
      items.map fun c => c.heightAt (c.widthIn (bounds.width - settings.margins.horizontal)) := by
  rw [Line.heights_column vertical]
  refine List.map_congr_left fun c _ => ?_
  rw [Line.crossExtent_column vertical]
  rfl

theorem minSize_column (children : List Item) (size : Size) :
    let items := children.filter (·.inLine)
    let inner := size.width - settings.margins.horizontal
    b.minSize settings children size =
      ⟨settings.margins.horizontal + (items.map (·.minimum.width)).foldl max 0,
        settings.margins.vertical + total (items.map fun c => c.heightAt (c.widthIn inner)) +
          (b.line settings (.ofSize size)).gaps items.length⟩ := by
  have heights := heights_eq settings vertical (children.filter (·.inLine)) (.ofSize size)
  dsimp only
  rw [show size.width = (Rect.ofSize size).width from rfl, ← heights]
  rw [minSize_def, Line.minSize_def, Line.minSizeOf,
    show (b.line settings (.ofSize size)).axis = .vertical from vertical]
  rfl

end Column

end Box

namespace Layout

variable {l : Layout}

/-- A row stays between its side margins exactly if its bounds are as wide as its least size. At the
height of its least size for a width, in bounds of that width, each item gets the height that it
needs at its width, unless it trades height for width and cannot grow with the row. -/
theorem row_between_iff (made : l.Made) (ds : List Deed) {b : Box}
    (mode : (l.after ds).mode = .box b) (horizontal : b.axis = .horizontal) (v : View)
    (shown : v.children.filter (·.inLine) ≠ [])
    (widths : ∀ c ∈ v.children.filter (·.inLine), 0 ≤ c.minimum.width) (size : Size) :
    let row := l.after ds
    let least := row.freshMinSize (some v) size
    (∀ bounds, (∀ e ∈ (row.arrangement { v with bounds }).batch,
        e.2.Between bounds row.settings.margins .horizontal) ↔ least.width ≤ bounds.width) ∧
    ∀ x y, List.Forall₂ (fun c e => e.1 = c.id ∧
        (c.heightForWidth = none ∨ c.flags.canGrow .vertical = true → c.HighEnough e.2))
      (v.children.filter (·.inLine))
      (row.arrangement { v with bounds := ⟨x, y, size.width, least.height⟩ }).batch := by
  intro row least
  set b' := b.refresh v.children (row.startsAfresh v.children) with hb'
  have horizontal' : b'.axis = .horizontal := (b.refresh_axis _ _).trans horizontal
  have arranged : ∀ bounds, (row.arrangement { v with bounds }).batch =
      b'.arrange row.settings v.children bounds := by
    intro bounds
    show (row.mode.arrange _ _ _ _).batch = _
    rw [mode]
    rfl
  have hleast : least = b.minSize row.settings v.children size := by
    show row.mode.minSize _ _ _ = _
    rw [mode]
    rfl
  have spacing : 0 ≤ row.settings.spacing := (made.sound ds).settings.2
  refine ⟨fun bounds => ?_, fun x y => ?_⟩
  · rw [arranged, Box.between_row_iff _ horizontal' spacing shown widths size, hleast,
      Box.minSize_row _ horizontal, Box.minSize_row _ horizontal']
    rfl
  · rw [arranged, hleast]
    exact Box.row_heights _ horizontal _ size x y

def captioned : View where
  suspended := false
  children := [{ Item.plain 1 with min := ⟨30, 10⟩, flags := .resizable },
    { Item.plain 2 with flags := .resizable, heightForWidth := some (areaHeight 900) },
    { Item.plain 3 with min := ⟨20, 0⟩, preferred := ⟨20, 40⟩ }]
  bounds := ⟨0, 0, 110, 50⟩

/-- The caption has been given a stretch of three. -/
theorem captioned_between :
    let row := row.after [.change true (some captioned) (.stretch 2 3), .attach]
    row.freshMinSize (some captioned) ⟨110, 0⟩ = ⟨80, 56⟩ ∧
    (∀ bounds, (∀ e ∈ (row.arrangement { captioned with bounds }).batch,
        e.2.Between bounds (.all 9) .horizontal) ↔ 80 ≤ bounds.width) ∧
    ∀ x y, List.Forall₂ (fun c e => e.1 = c.id ∧
        (c.heightForWidth = none ∨ c.flags.canGrow .vertical = true → c.HighEnough e.2))
      captioned.children (row.arrangement { captioned with bounds := ⟨x, y, 110, 56⟩ }).batch := by
  have widths : ∀ c ∈ captioned.children.filter (·.inLine), 0 ≤ c.minimum.width := by decide
  have least : (row.after [.change true (some captioned) (.stretch 2 3), .attach]).freshMinSize
      (some captioned) ⟨110, 0⟩ = ⟨80, 56⟩ := by cbv
  obtain ⟨between, heights⟩ := row_between_iff row_made
    [.change true (some captioned) (.stretch 2 3), .attach] rfl rfl captioned (by decide) widths
    ⟨110, 0⟩
  rw [least] at between heights
  exact ⟨least, between, heights⟩

/-- In bounds with the height of its least size for their width, a column stays between its margins
exactly if at their own widths the items together need as much as at the full width. It does so and
gives each item that trades height for width the height that it needs, exactly if each item gets
just what it needs at its own width; so always if no item needs another height at that width than at
the full one. -/
theorem column_served_iff (made : l.Made) (ds : List Deed) {b : Box}
    (mode : (l.after ds).mode = .box b) (vertical : b.axis = .vertical) (v : View)
    (nonneg : ∀ c ∈ v.children.filter (·.inLine), c.Nonneg) (size : Size) (x y : Int) :
    let column := l.after ds
    let items := v.children.filter (·.inLine)
    let inner := size.width - column.settings.margins.horizontal
    let needs := items.map fun c => c.heightAt (c.widthIn inner)
    let bounds : Rect := ⟨x, y, size.width, (column.freshMinSize (some v) size).height⟩
    let batch := (column.arrangement { v with bounds }).batch
    let between := ∀ e ∈ batch, e.2.Between bounds column.settings.margins .vertical
    let served := List.Forall₂
      (fun c e => e.1 = c.id ∧ (c.heightForWidth ≠ none → c.HighEnough e.2)) items batch
    (between ↔ total (items.map (·.heightAt inner)) ≤ total needs) ∧
    (between ∧ served ↔ batch.map (·.2.height) = needs) ∧
    ((∀ c ∈ items, c.heightAt (c.widthIn inner) = c.heightAt inner) → between ∧ served) := by
  intro column items inner needs bounds batch between served
  set b' := b.refresh v.children (column.startsAfresh v.children)
  have vertical' : b'.axis = .vertical := (b.refresh_axis _ _).trans vertical
  let l := b'.line column.settings bounds
  have arranged : batch = l.arrange items := by
    show (column.mode.arrange _ _ _ _).batch = _
    rw [mode]
    rfl
  have spacing : 0 ≤ column.settings.spacing := (made.sound ds).settings.2
  have heights : l.heights items = needs := Box.heights_eq _ vertical' items bounds
  have space : l.space .vertical = total (l.heights items) + l.gaps items.length := by
    have least : (column.freshMinSize (some v) size).height =
        column.settings.margins.vertical + total needs + l.gaps items.length := by
      show (column.mode.minSize _ _ _).height = _
      rw [mode]
      exact congrArg Size.height (Box.minSize_column _ vertical v.children size)
    show (column.freshMinSize (some v) size).height - column.settings.margins.vertical = _
    rw [heights, least]
    omega
  have nonneg' : ∀ c ∈ items, 0 ≤ c.heightAt (l.space .horizontal) :=
    fun c hc => (nonneg c hc).heightAt _
  have inside : between ↔
      ∀ r ∈ l.rects items, r.Between l.bounds l.settings.margins .vertical := by
    rw [← l.arrange_map_snd, List.forall_mem_map, ← arranged]
    rfl
  have least : items.map l.least = items.map (·.heightAt inner) :=
    List.map_congr_left fun c hc => Line.least_column vertical' (nonneg' c hc)
  have extents : batch.map (·.2.height) = l.extents items := by
    have along := l.rects_map_along items
    rw [show l.axis = .vertical from vertical', ← l.arrange_map_snd, List.map_map, ← arranged] at along
    exact along
  have each : served ↔ List.Forall₂ (fun c height => c.heightForWidth ≠ none →
      c.heightAt (l.crossExtent c) ≤ height) items (l.extents items) := by
    show List.Forall₂ _ items batch ↔ _
    rw [arranged]
    refine l.arrange_forall₂_iff (p := fun c r => c.heightForWidth ≠ none → c.HighEnough r)
      (fun c position extent => ?_) items
    rw [Line.highEnough_column vertical']
  have fits := Line.column_between_iff vertical' spacing space
  have exactly := Line.served_column_iff vertical' spacing space nonneg'
  rw [least] at fits
  rw [inside, each, extents, ← heights]
  refine ⟨fits, exactly, fun same => exactly.mpr ?_⟩
  refine Line.extents_of_same_heights vertical' spacing space nonneg' fun c hc => ?_
  rw [Line.crossExtent_column vertical']
  exact same c hc

def column : Layout := ⟨.zero, .idle, [], [], .box (.ofAxis .vertical)⟩

theorem column_made : column.Made :=
  .box (show box .vertical (some .zero) = .ok column from rfl)

def texts : View where
  suspended := false
  children := [{ Item.plain 1 with flags := .resizable, heightForWidth := some (areaHeight 1000) },
    { Item.plain 2 with preferred := ⟨40, 0⟩, heightForWidth := some (areaHeight 700) },
    { Item.plain 3 with min := ⟨20, 5⟩, preferred := ⟨20, 10⟩ }]
  bounds := ⟨5, 7, 40, 60⟩

theorem texts_nonneg : ∀ c ∈ texts.children.filter (·.inLine), c.Nonneg := by
  intro c hc
  have hmem := (List.mem_filter.mp hc).1
  simp only [texts, List.mem_cons, List.not_mem_nil, or_false] at hmem
  rcases hmem with rfl | rfl | rfl
  · exact Item.nonneg_wrapping (by decide) (by decide) (by decide) rfl
  · exact Item.nonneg_wrapping (by decide) (by decide) (by decide) rfl
  · exact ⟨by decide, by decide, nofun⟩

theorem texts_served :
    let column := column.after [.attach]
    column.freshMinSize (some texts) ⟨40, 0⟩ = ⟨20, 48⟩ ∧
    let batch := (column.arrangement { texts with bounds := ⟨5, 7, 40, 48⟩ }).batch
    (∀ e ∈ batch, e.2.Between ⟨5, 7, 40, 48⟩ .zero .vertical) ∧
    List.Forall₂ (fun c e => e.1 = c.id ∧ (c.heightForWidth ≠ none → c.HighEnough e.2))
      texts.children batch ∧
    batch.map (·.2.height) = [25, 18, 5] := by
  have least : (column.after [.attach]).freshMinSize (some texts) ⟨40, 0⟩ = ⟨20, 48⟩ := by cbv
  obtain ⟨-, exactly, same⟩ := column_served_iff column_made [.attach] rfl rfl texts
    texts_nonneg ⟨40, 0⟩ 5 7
  rw [least] at exactly same
  have served := same (by decide)
  exact ⟨least, served.1, served.2, exactly.mp served⟩

def narrowText : View where
  suspended := false
  children := [{ Item.plain 1 with preferred := ⟨10, 0⟩, heightForWidth := some (areaHeight 1000) },
    { Item.plain 2 with min := ⟨0, 10⟩, flags := .ofBits 12 }]
  bounds := ⟨0, 0, 100, 110⟩

def wideText : View where
  suspended := false
  children := [{ Item.plain 1 with
    preferred := ⟨100, 0⟩, heightForWidth := some (areaHeight 1000) }]
  bounds := ⟨0, 0, 10, 10⟩

/-- The narrow text is measured as a hundred pixels high, but shares ninety of them with the field.
The wide one is measured as ten pixels high, but is as high as it would be at the width of the
column. -/
theorem texts_not_served :
    (∀ c ∈ narrowText.children ++ wideText.children, c.Nonneg) ∧
    let column := column.after [.attach]
    column.freshMinSize (some narrowText) ⟨100, 0⟩ = ⟨0, 110⟩ ∧
    (column.arrangement narrowText).batch = [(1, ⟨45, 0, 10, 55⟩), (2, ⟨0, 55, 100, 55⟩)] ∧
    ¬ areaHeight 1000 10 ≤ 55 ∧
    column.freshMinSize (some wideText) ⟨10, 0⟩ = ⟨0, 10⟩ ∧
    (column.arrangement wideText).batch = [(1, ⟨-45, 0, 100, 100⟩)] ∧
    ¬ Rect.Between ⟨-45, 0, 100, 100⟩ wideText.bounds .zero .vertical := by
  refine ⟨fun c hc => ?_, by cbv, by cbv, by decide, by cbv, by cbv, ?_⟩
  · simp only [narrowText, wideText, List.cons_append, List.nil_append, List.mem_cons,
      List.not_mem_nil, or_false] at hc
    rcases hc with rfl | rfl | rfl
    · exact Item.nonneg_wrapping (by decide) (by decide) (by decide) rfl
    · exact ⟨by decide, by decide, fun _ trades => by cases trades⟩
    · exact Item.nonneg_wrapping (by decide) (by decide) (by decide) rfl
  · rintro ⟨-, beyond⟩
    exact absurd beyond (by decide)

end Layout

end PixelLayout
