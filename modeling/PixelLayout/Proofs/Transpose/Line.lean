import PixelLayout.Line.Box
import PixelLayout.Proofs.Flow.Stack
import PixelLayout.Proofs.Transpose.Item

/-!
# Rows and columns

A row of items is the transpose of a column of the transposed items, and so is its batch, its least
size and what it reports of its flags. Only items that trade height for width tell the two apart.
-/

set_option autoImplicit false

namespace PixelLayout

namespace Line

variable (l : Line)

def transpose : Line := ⟨l.axis.cross, l.settings.transpose, l.bounds.transpose, l.stretch⟩

@[simp] theorem transpose_axis : l.transpose.axis = l.axis.cross := rfl

@[simp] theorem transpose_settings : l.transpose.settings = l.settings.transpose := rfl

@[simp] theorem start_transpose (axis : Axis) : l.transpose.start axis = l.start axis.cross := by
  simp only [start, transpose, Settings.transpose_margins, Rect.start_transpose,
    Margins.near_transpose]

@[simp] theorem space_transpose (axis : Axis) : l.transpose.space axis = l.space axis.cross := by
  simp only [space, transpose, Settings.transpose_margins, Rect.size_transpose,
    Size.along_transpose, Margins.sum_transpose]

theorem least_of_plain {item : Item} (plain : item.Plain) :
    l.least item = max (item.minimum.along l.axis) 0 := by
  have none : item.heightForWidth = none := plain
  unfold least
  cases l.axis <;> simp [none]

theorem demand_transpose {item : Item} (plain : item.Plain) :
    l.transpose.demand item.transpose = l.demand item := by
  have plain' : item.transpose.Plain := plain
  have least : l.transpose.least item.transpose = l.least item := by
    simp [least_of_plain _ plain, least_of_plain _ plain']
  simp only [demand, least, transpose_axis, Item.axisMax_transpose, Item.tier_transpose,
    Item.transpose_id, Axis.cross_cross]
  rfl

section Items

variable {items : List Item} (plain : ∀ c ∈ items, c.Plain)

include plain

theorem request_transpose :
    l.transpose.request (items.map .transpose) = l.request items := by
  have demands : (items.map Item.transpose).map l.transpose.demand = items.map l.demand := by
    rw [List.map_map]
    exact List.map_congr_left fun c hc => l.demand_transpose (plain c hc)
  rw [request, request, demands]
  simp

theorem extents_transpose : l.transpose.extents (items.map .transpose) = l.extents items :=
  congrArg Space.Request.sizes (l.request_transpose plain)

theorem pads_transpose : l.transpose.pads (items.map .transpose) = l.pads items := by
  have slack : l.transpose.slack (items.map .transpose) = l.slack items := by
    rw [Line.slack_def, Line.slack_def, l.extents_transpose plain]
    simp
  rw [pads_def, pads_def, slack]
  simp

end Items

theorem rect_transpose (item : Item) (position extent : Int) :
    l.transpose.rect item.transpose position extent = (l.rect item position extent).transpose := by
  have extent' : l.transpose.crossExtent item.transpose = l.crossExtent item := by
    simp [crossExtent]
  rw [rect, rect, extent', transpose_axis, Rect.ofAxes_transpose]
  simp [Alignment.orElse_transpose]

theorem place_transpose (gap position : Int) (es : List (Item × Int)) :
    l.transpose.place gap position (es.map fun e => (e.1.transpose, e.2)) =
      (l.place gap position es).map .transpose := by
  induction es generalizing position with
  | nil => rfl
  | cons e es ih =>
    rw [List.map_cons, place, place, List.map_cons, ih, rect_transpose]
    rfl

variable {items : List Item} (plain : ∀ c ∈ items, c.Plain)

include plain

theorem rects_transpose :
    l.transpose.rects (items.map .transpose) = (l.rects items).map .transpose := by
  rw [rects_def, rects_def, l.pads_transpose plain, l.extents_transpose plain, List.zip_map_left]
  simp only [start_transpose, transpose_axis, Axis.cross_cross]
  exact l.place_transpose _ _ _

theorem arrange_transpose :
    l.transpose.arrange (items.map .transpose) = (l.arrange items).transpose := by
  rw [arrange_def, arrange_def, l.rects_transpose plain, map_id_transpose]
  exact List.zip_map_right ..

theorem heights_of_plain : l.heights items = items.map (·.minimum.height) := by
  have each : ∀ (rects : List Rect), items.length = rects.length →
      List.zipWith (fun item rect => item.heightAt rect.width) items rects =
        items.map (·.minimum.height) := by
    induction items with
    | nil => exact fun _ _ => rfl
    | cons item items ih =>
      obtain ⟨here, rest⟩ := List.forall_mem_cons.mp plain
      intro rects same
      cases rects with
      | nil => cases same
      | cons rect rects =>
        rw [List.zipWith_cons_cons, Item.heightAt_of_plain here, ih rest rects (by simpa using same)]
        rfl
  exact each _ (l.rects_length items).symm

theorem minSize_transpose :
    l.transpose.minSize (items.map .transpose) = (l.minSize items).transpose := by
  have plain' : ∀ c ∈ items.map Item.transpose, c.Plain := List.forall_mem_map.mpr plain
  have widths : (items.map Item.transpose).map (·.minimum.width) =
      items.map (·.minimum.height) := by
    rw [List.map_map]
    rfl
  have heights : (items.map Item.transpose).map (·.minimum.height) =
      items.map (·.minimum.width) := by
    rw [List.map_map]
    rfl
  rw [minSize_def, minSize_def, minSizeOf, minSizeOf, l.heights_of_plain plain,
    l.transpose.heights_of_plain plain', widths, heights, List.length_map]
  cases h : l.axis with
  | horizontal =>
    rw [transpose_axis, h]
    rfl
  | vertical =>
    rw [transpose_axis, h]
    rfl

end Line

namespace Box

variable (b : Box)

def transpose : Box := ⟨b.axis.cross, b.stretch⟩

variable (children : List Item)

theorem refresh_transpose (reset : Bool) :
    b.transpose.refresh (children.map .transpose) reset =
      (b.refresh children reset).transpose := by
  cases reset with
  | false => rfl
  | true =>
    have kept : b.stretch.restrict (children.map .transpose) = b.stretch.restrict children :=
      congrArg b.stretch.keep (funext fun id => any_id_transpose children (· == id))
    exact congrArg (Box.mk b.axis.cross) kept

variable {children} (plain : ∀ c ∈ children, c.Plain)

include plain in
theorem plain_inLine : ∀ c ∈ children.filter (·.inLine), c.Plain :=
  fun c hc => plain c (List.mem_filter.mp hc).1

theorem filter_inLine_transpose :
    (children.map Item.transpose).filter (·.inLine) =
      (children.filter (·.inLine)).map .transpose :=
  filter_transpose children Item.inLine_transpose

include plain in
theorem arrange_transpose (settings : Settings) (bounds : Rect) :
    b.transpose.arrange settings.transpose (children.map .transpose) bounds.transpose =
      (b.arrange settings children bounds).transpose := by
  rw [arrange_def, filter_inLine_transpose]
  exact (b.line settings bounds).arrange_transpose (plain_inLine plain)

include plain in
theorem minSize_transpose (settings : Settings) (size : Size) :
    b.transpose.minSize settings.transpose (children.map .transpose) size.transpose =
      (b.minSize settings children size).transpose := by
  rw [minSize_def, filter_inLine_transpose]
  exact (b.line settings (.ofSize size)).minSize_transpose (plain_inLine plain)

theorem flags_transpose (children : List Item) :
    b.transpose.flags (children.map .transpose) = (b.flags children).transpose := by
  have stuck : (((children.filter (·.laidOut)).map Item.transpose).any fun c =>
      !c.flags.canShrink b.transpose.axis.cross) =
      (children.filter (·.laidOut)).any fun c => !c.flags.canShrink b.axis.cross := by
    rw [List.any_map]
    exact congrArg (List.any _) (funext fun c => by simp [transpose])
  simp only [flags, List.isEmpty_map, filter_laidOut_transpose, join_flags_transpose, stuck]
  split
  · rfl
  split
  all_goals simp only [transpose, Flags.growable, Flags.shrinkable, Flags.only_transpose,
    Flags.union_transpose, Flags.diff_transpose]

end Box

end PixelLayout
