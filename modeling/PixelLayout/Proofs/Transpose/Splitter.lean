import PixelLayout.Proofs.Splitter.Leftover
import PixelLayout.Proofs.Transpose.Item
import PixelLayout.Splitter.Drag

/-!
# Splitters side by side and on top of each other

The state of the panes has no axis of its own. So a splitter and its transpose keep the same sizes
and hand the same pixels to the same panes, and a handle has the same range in both.
-/

set_option autoImplicit false

namespace PixelLayout.Splitter

section Children

variable (children : List Item)

theorem shown_transpose :
    shown (children.map .transpose) = (shown children).map .transpose := by
  rw [shown, alternate_map]
  exact filter_laidOut_transpose _

theorem isActiveHandle_transpose (index : Nat) :
    isActiveHandle (children.map .transpose) index = isActiveHandle children index := by
  have next : (children.map Item.transpose)[index + 1]?.any (·.laidOut) =
      children[index + 1]?.any (·.laidOut) := by
    rw [List.getElem?_map]
    cases children[index + 1]? <;> rfl
  have before : (alternate ((children.map Item.transpose).take index)).any (·.laidOut) =
      (alternate (children.take index)).any (·.laidOut) := by
    rw [← List.map_take, alternate_map, List.any_map]
    rfl
  rw [isActiveHandle, isActiveHandle, next, before]

theorem activeHandles_transpose :
    activeHandles (children.map .transpose) = activeHandles children := by
  rw [activeHandles, activeHandles, List.length_map]
  exact List.filter_congr fun index _ => isActiveHandle_transpose children index

end Children

@[simp] theorem limits_of_transpose (axis : Axis) (item : Item) :
    Limits.of axis.cross item.transpose = Limits.of axis item := by
  simp [Limits.of]

variable (s : Splitter)

def transpose : Splitter := { s with axis := s.axis.cross }

@[simp] theorem transpose_axis : s.transpose.axis = s.axis.cross := rfl

section Passes

variable (children : List Item) (bounds : Rect)

theorem paneSpace_transpose :
    s.transpose.paneSpace (children.map .transpose) bounds.transpose =
      s.paneSpace children bounds := by
  rw [paneSpace, activeHandles_transpose]
  simp [paneSpace, transpose]

theorem limits_transpose : s.transpose.limits (children.map .transpose) = s.limits children := by
  rw [limits, shown_transpose, List.map_map]
  exact List.map_congr_left fun c _ => limits_of_transpose s.axis c

theorem reset_transpose (space : Int) :
    s.transpose.reset (children.map .transpose) space = (s.reset children space).transpose := by
  have pane (whole : Nat) (c : Item) : resetPane s.transpose.axis space whole c.transpose =
      resetPane s.axis space whole c := by
    funext p
    simp [resetPane]
  have known (id : Nat) : (alternate (children.map Item.transpose)).any (·.id == id) =
      (alternate children).any (·.id == id) := by
    rw [alternate_map, any_id_transpose _ (· == id)]
  simp only [reset, shown_transpose, known, List.foldl_map, pane, Item.transpose_id, List.map_map]
  rfl

theorem settle_transpose (reset : Bool) :
    s.transpose.settle (children.map .transpose) bounds.transpose reset =
      ((s.settle children bounds reset).1.transpose, (s.settle children bounds reset).2) := by
  have ids : (shown (children.map .transpose)).map (·.id) = (shown children).map (·.id) := by
    rw [shown_transpose, map_id_transpose]
  have rebased : s.transpose.rebased (children.map .transpose) bounds.transpose reset =
      (s.rebased children bounds reset).transpose := by
    rw [Splitter.rebased, Splitter.rebased, ids, paneSpace_transpose, reset_transpose]
    exact (apply_ite transpose _ _ _).symm
  have excess : s.transpose.excess (children.map .transpose) bounds.transpose reset =
      s.excess children bounds reset := by
    rw [Splitter.excess, Splitter.excess, ids, paneSpace_transpose, rebased]
    rfl
  simp only [settle_eq, rebased, excess, limits_transpose]
  rfl

end Passes

section Places

variable (children : List Item) (bounds : Rect)

theorem placeFrom_transpose (position : Int) (items : List (Item × Nat)) :
    s.transpose.placeFrom (children.map .transpose) bounds.transpose position
        (items.map fun e => (e.1.transpose, e.2)) =
      (s.placeFrom children bounds position items).map (Option.map Rect.transpose) := by
  have extent (cross : Int) (index : Nat) (item : Item) :
      s.transpose.extent? (children.map .transpose) cross index item.transpose =
        s.extent? children cross index item := by
    simp only [extent?, isActiveHandle_transpose, Item.laidOut_transpose]
    rfl
  induction items generalizing position with
  | nil => rfl
  | cons e items ih =>
    rw [List.map_cons]
    simp only [placeFrom, extent, ih, transpose_axis, Rect.size_transpose, Size.along_transpose,
      Rect.start_transpose, Axis.cross_cross]
    split
    · rw [Rect.ofAxes_transpose]
      rfl
    · rfl

theorem place_transpose :
    s.transpose.place (children.map .transpose) bounds.transpose =
      (s.place children bounds).map (Option.map Rect.transpose) := by
  rw [place, place, List.zipIdx_map, Rect.start_transpose, transpose_axis, Axis.cross_cross]
  exact s.placeFrom_transpose children bounds _ _

theorem batch_transpose :
    s.transpose.batch (children.map .transpose) bounds.transpose =
      (s.batch children bounds).transpose := by
  rw [batch, place_transpose, List.zip_map, List.filterMap_map, batch, Batch.transpose,
    List.map_filterMap]
  refine congrArg (List.filterMap · _) (funext fun e => ?_)
  cases h : e.2 <;> simp [h]

theorem minSize_transpose :
    s.transpose.minSize (children.map .transpose) = (s.minSize children).transpose := by
  have minimums : (shown (children.map .transpose)).map (·.minimum) =
      ((shown children).map (·.minimum)).map Size.transpose := by
    rw [shown_transpose, List.map_map, List.map_map]
    rfl
  simp only [minSize, minimums, activeHandles_transpose, transpose_axis, Size.ofAxes_transpose,
    Size.across, Size.map_along_transpose]
  rfl

theorem drag?_transpose (handle : Nat) :
    s.transpose.drag? (children.map .transpose) bounds.transpose handle =
      s.drag? children bounds handle := by
  have rects (i : Nat) : (s.transpose.place (children.map .transpose) bounds.transpose).getD i none =
      ((s.place children bounds).getD i none).map Rect.transpose := by
    rw [place_transpose, List.getD_eq_getElem?_getD, List.getD_eq_getElem?_getD, List.getElem?_map]
    cases (s.place children bounds)[i]? <;> rfl
  have before : paneBefore? (s.transpose.place (children.map .transpose) bounds.transpose) handle =
      paneBefore? (s.place children bounds) handle := by
    simp only [paneBefore?, rects, Option.isSome_map]
  unfold drag?
  rw [isActiveHandle_transpose]
  split
  · simp only [before, rects, List.getElem?_map, Option.bind_eq_bind, Option.bind_map,
      Function.comp_def, Item.transpose_id, Rect.start_transpose, Rect.size_transpose,
      Size.along_transpose, transpose_axis, Axis.cross_cross, limits_of_transpose]
    rfl
  · rfl

end Places

end PixelLayout.Splitter
