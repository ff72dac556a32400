import PixelLayout.Flow.Arrange
import PixelLayout.Line.Box
import PixelLayout.Proofs.Space.Bounds

/-!
# Extents in lines and in flows

Along its axis a line gives every item an extent that is not negative, for the allocation starts
from minimums that are not. Across the axis an item that grows gets what is inside the margins,
however little that is. So it is exactly there that a rectangle of a line can be turned inside out.
The rows of a flow are as high as they need to be, and have no such rectangles.
-/

set_option autoImplicit false

namespace PixelLayout

def Rect.Nonneg (r : Rect) : Prop := 0 ≤ r.width ∧ 0 ≤ r.height

def Batch.Nonneg (b : Batch) : Prop := ∀ e ∈ b, e.2.Nonneg

structure Item.Nonneg (item : Item) : Prop where
  width : 0 ≤ item.min.width
  height : 0 ≤ item.min.height
  heights : ∀ height, item.heightForWidth = some height → ∀ width, 0 ≤ height width

/-- Content that is not too large stays inside its space. -/
theorem Align.offset_bounds (a : Align) {space size : Int} (h : size ≤ space) :
    0 ≤ a.offset space size ∧ a.offset space size + size ≤ space := by
  cases a with
  | near => exact ⟨le_rfl, by simpa [offset] using h⟩
  | center =>
    have half : (space - size).tdiv 2 = (space - size) / 2 :=
      Int.tdiv_eq_ediv_of_nonneg (by omega)
    simp only [offset, half]
    omega
  | far =>
    simp only [offset]
    omega

theorem Rect.nonneg_ofAxes {axis : Axis} {start start' extent extent' : Int} :
    (ofAxes axis start start' extent extent').Nonneg ↔ 0 ≤ extent ∧ 0 ≤ extent' := by
  cases axis
  · exact Iff.rfl
  · exact and_comm

theorem Rect.Nonneg.along {r : Rect} (h : r.Nonneg) (axis : Axis) : 0 ≤ r.size.along axis := by
  cases axis
  · exact h.1
  · exact h.2

theorem Size.capAt_nonneg {s limit : Size} (axis : Axis) (h : 0 ≤ s.along axis) :
    0 ≤ (s.capAt limit).along axis := by
  cases axis <;> simp only [along, capAt, Axis.pick_horizontal, Axis.pick_vertical] at h ⊢ <;>
    split <;> omega

theorem Item.Nonneg.minimum {item : Item} (h : item.Nonneg) (axis : Axis) :
    0 ≤ item.minimum.along axis := by
  refine Size.capAt_nonneg axis ?_
  cases axis
  · exact h.width.trans (le_max_left _ _)
  · exact h.height.trans (le_max_left _ _)

theorem Item.Nonneg.heightAt {item : Item} (h : item.Nonneg) (width : Int) :
    0 ≤ item.heightAt width := by
  unfold Item.heightAt
  cases hf : item.heightForWidth with
  | none => exact h.minimum .vertical
  | some height => exact h.heights height hf width

theorem Space.Request.sizes_nonneg {r : Space.Request} (hr : r.Valid) : ∀ n ∈ r.sizes, 0 ≤ n := by
  intro n hn
  rw [sizes_eq_map] at hn
  obtain ⟨d, hd, rfl⟩ := List.mem_map.mp hn
  exact (hr d.1 (List.fst_mem_of_mem_zipIdx hd)).1.trans (allows_award hr hd).1

namespace Line

variable (l : Line)

theorem demand_valid (item : Item) : (l.demand item).Valid := by
  refine ⟨le_max_right _ _, fun m hm => ?_⟩
  obtain ⟨n, -, rfl⟩ := Option.map_eq_some_iff.mp hm
  exact le_max_right _ _

theorem request_valid (items : List Item) : (l.request items).Valid := by
  intro d hd
  obtain ⟨item, -, rfl⟩ := List.mem_map.mp hd
  exact l.demand_valid item

theorem extents_nonneg (items : List Item) : ∀ n ∈ l.extents items, 0 ≤ n :=
  Space.Request.sizes_nonneg (l.request_valid items)

theorem extents_length (items : List Item) : (l.extents items).length = items.length :=
  (Space.Request.sizes_length _).trans (List.length_map _)

/-- The rectangles of a line, one by one. -/
theorem place_nonneg_iff (gap position : Int) (items : List Item) (extents : List Int) :
    Batch.Nonneg ((items.map (·.id)).zip (l.place gap position (items.zip extents))) ↔
      ∀ e ∈ items.zip extents, 0 ≤ e.2 ∧ 0 ≤ l.crossExtent e.1 := by
  unfold Batch.Nonneg
  induction items generalizing position extents with
  | nil => simp
  | cons item items ih =>
    cases extents with
    | nil => simp [place]
    | cons extent extents =>
      simp only [List.map_cons, List.zip_cons_cons, place, List.forall_mem_cons, ih]
      exact and_congr_left' Rect.nonneg_ofAxes

theorem arrange_nonneg_iff (items : List Item) :
    Batch.Nonneg (l.arrange items) ↔ ∀ item ∈ items, 0 ≤ l.crossExtent item := by
  rw [arrange_def, rects_def, place_nonneg_iff]
  constructor
  · intro h item hitem
    have fst : (items.zip (l.extents items)).map Prod.fst = items :=
      List.map_fst_zip (l.extents_length items).ge
    rw [← fst] at hitem
    obtain ⟨e, he, rfl⟩ := List.mem_map.mp hitem
    exact (h e he).2
  · intro h e he
    obtain ⟨hitem, hextent⟩ := List.of_mem_zip he
    exact ⟨l.extents_nonneg items _ hextent, h _ hitem⟩

/-- Across the axis only an item that grows can come out negative. -/
theorem crossExtent_nonneg_iff {item : Item} (h : item.Nonneg) :
    0 ≤ l.crossExtent item ↔
      (item.flags.canGrow l.axis.cross = true → 0 ≤ l.space l.axis.cross) := by
  unfold crossExtent
  split
  · next grows => simp [grows]
  · next rigid => simp [rigid, (h.minimum l.axis.cross).trans (le_max_right _ _)]

end Line

def Box.FitsAcross (b : Box) (settings : Settings) (children : List Item) (bounds : Rect) : Prop :=
  ∀ c ∈ children, c.inLine = true → c.flags.canGrow b.axis.cross = true →
    settings.margins.sum b.axis.cross ≤ bounds.size.along b.axis.cross

theorem Box.arrange_nonneg_iff (b : Box) (settings : Settings) {children : List Item}
    (hc : ∀ c ∈ children, c.Nonneg) (bounds : Rect) :
    Batch.Nonneg (b.arrange settings children bounds) ↔
      b.FitsAcross settings children bounds := by
  rw [arrange_def, Line.arrange_nonneg_iff]
  simp only [List.mem_filter, and_imp]
  refine forall_congr' fun c => forall_congr' fun hmem => forall_congr' fun _ => ?_
  rw [Line.crossExtent_nonneg_iff _ (hc c hmem)]
  exact imp_congr Iff.rfl sub_nonneg

namespace Flow

/-- The rows are the items in their order. -/
theorem flatten_wrapFrom (space spacing left : Int) (row items : List Item) :
    (wrapFrom space spacing row left items).flatten = row ++ items := by
  induction items generalizing row left with
  | nil => cases row <;> simp [wrapFrom]
  | cons item items ih =>
    cases row with
    | nil =>
      simp only [wrapFrom, List.isEmpty_nil, if_true]
      split <;> simp [ih]
    | cons a row =>
      simp only [wrapFrom, List.isEmpty_cons, Bool.false_eq_true, if_false]
      split <;> simp [ih]

theorem flatten_rows (settings : Settings) (children : List Item) (width : Int) :
    (rows settings children width).flatten = children.filter (·.inLine) :=
  flatten_wrapFrom _ _ _ _ _

theorem mem_of_mem_rows {settings : Settings} {children row : List Item} {width : Int}
    (hrow : row ∈ rows settings children width) {c : Item} (hc : c ∈ row) :
    c ∈ children.filter (·.inLine) := by
  rw [← flatten_rows settings children width]
  exact List.mem_flatten.mpr ⟨row, hrow, hc⟩

variable (f : Flow) (settings : Settings)

theorem rowNeed_nonneg (width : Int) {row : List Item} (h : ∀ c ∈ row, c.Nonneg) :
    0 ≤ f.rowNeed settings width row := by
  rw [rowNeed_def, needOf]
  cases hmax : (List.zipWith Item.heightAt row
      ((f.rowLine settings settings.margins ⟨0, 0, width, 0⟩).extents row)).max? with
  | none => exact le_rfl
  | some need =>
    have hneed := List.max?_mem hmax
    rw [← List.map_uncurry_zip_eq_zipWith] at hneed
    obtain ⟨e, he, rfl⟩ := List.mem_map.mp hneed
    exact (h e.1 (List.of_mem_zip he).1).heightAt e.2

/-- The space of a row across it is what the row needs. -/
theorem rowLine_space (margins : Margins) (x y width need : Int) :
    (f.rowLine settings margins ⟨x, y, width, need + margins.vertical⟩).space .vertical = need :=
  Int.add_sub_cancel _ _

theorem stack_nonneg (x width : Int) (first : Bool) (y : Int) {rows : List (List Item)}
    (h : ∀ row ∈ rows, ∀ c ∈ row, c.Nonneg) :
    Batch.Nonneg (f.stack settings x width first y rows) := by
  induction rows generalizing first y with
  | nil => nofun
  | cons row rows ih =>
    obtain ⟨hrow, hrows⟩ := List.forall_mem_cons.mp h
    refine List.forall_mem_append.mpr ⟨?_, ih false _ hrows⟩
    refine (Line.arrange_nonneg_iff _ row).mpr fun c hc => ?_
    refine (Line.crossExtent_nonneg_iff _ (hrow c hc)).mpr fun _ => ?_
    exact (f.rowNeed_nonneg settings width hrow).trans_eq
      (f.rowLine_space settings _ x y width _).symm

theorem arrange_nonneg {children : List Item} (h : ∀ c ∈ children, c.Nonneg) (bounds : Rect) :
    Batch.Nonneg (f.arrange settings children bounds) := by
  refine f.stack_nonneg settings _ _ _ _ fun row hrow c hc => h c ?_
  exact (List.mem_filter.mp (mem_of_mem_rows hrow hc)).1

end Flow

end PixelLayout
