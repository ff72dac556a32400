import PixelLayout.Proofs.History.Sound

/-!
# Remembered least sizes

The least size for a container of some size is computed when it is first asked for and from then
on remembered, until the memo is dropped. A container that cannot be looked at just then counts as
one with the least size zero, and that is remembered as well: it is the answer even when the
container can be looked at again. In every other case a remembered answer is the one that would be
computed afresh, as long as the children stay what they were.
-/

set_option autoImplicit false

namespace PixelLayout.Layout

def asked (l : Layout) (size : Size) : List Deed → List (Option View)
  | [] => []
  | .request _ :: ds | .mark _ _ :: ds => l.asked size ds
  | .attach :: _ | .detach :: _ | .start _ :: _ | .pass _ :: _ => []
  | .change attached view c :: ds =>
    if ((l.after ds).revised? attached view c).isSome then [] else l.asked size ds
  | .query view size' :: ds => if size' = size then view :: l.asked size ds else l.asked size ds

variable {l : Layout}

theorem freshMinSize_minSizeFor (view view' : Option View) (size size' : Size) :
    (l.minSizeFor view size).2.freshMinSize view' size' = l.freshMinSize view' size' := by
  simp only [freshMinSize_def, minSizeFor_mode, minSizeFor_settings]

/-- Asking adds the answer to the memo, unless it is there. -/
theorem lookup_minSizeFor (view : Option View) (size size' : Size) :
    (l.minSizeFor view size).2.memo.lookup size' =
      if size = size' then some ((l.memo.lookup size).getD (l.freshMinSize view size))
      else l.memo.lookup size' := by
  rw [minSizeFor_def]
  by_cases h : size = size'
  · subst h
    cases hm : l.memo.lookup size with
    | none => simp
    | some m => simp [hm]
  · have hne : (size' == size) = false := by simpa using Ne.symm h
    cases hm : l.memo.lookup size with
    | none => simp [h, hne, List.lookup_cons]
    | some m => simp [h]

/-- What is remembered for a size is what the first view since the memo was dropped gave. -/
theorem lookup_memo (forgotten : l.memo = []) (size : Size) (ds : List Deed) :
    (l.after ds).memo.lookup size =
      (l.asked size ds).getLast?.map fun view => (l.after ds).freshMinSize view size := by
  induction ds with
  | nil => simp [after, asked, forgotten]
  | cons d ds ih =>
    cases d with
    | request reset => exact ih
    | mark performing pending => exact ih
    | attach | detach | start | pass => rfl
    | change attached view c =>
      simp only [after, undergo, asked]
      cases (l.after ds).revised? attached view c with
      | none => exact ih
      | some l' => rfl
    | query view size' =>
      simp only [after, undergo, asked, lookup_minSizeFor, freshMinSize_minSizeFor]
      by_cases h : size' = size
      · subst h
        rw [if_pos rfl, if_pos rfl, ih, List.getLast?_cons]
        cases (l.asked size' ds).getLast? <;> rfl
      · rw [if_neg h, if_neg h]
        exact ih

/-- An answer is what the first view since the memo was dropped gives, at the time of the
question. -/
theorem minSizeFor_after (forgotten : l.memo = []) (view : Option View) (size : Size)
    (ds : List Deed) :
    ((l.after ds).minSizeFor view size).1 =
      (l.after ds).freshMinSize ((l.asked size ds).getLast?.getD view) size := by
  have h := lookup_memo forgotten size ds
  rw [minSizeFor_def]
  cases hm : (l.after ds).memo.lookup size with
  | none =>
    rw [hm] at h
    rw [Option.map_eq_none_iff.mp h.symm, Option.getD_none]
  | some m =>
    rw [hm] at h
    obtain ⟨first, hfirst, rfl⟩ := Option.map_eq_some_iff.mp h.symm
    rw [hfirst, Option.getD_some]

/-- With the same children all along, the answer is the one computed afresh, unless the first view
since the memo was dropped was of a container that could not be looked at. Then it is zero. -/
theorem minSizeFor_eq_fresh_iff (made : l.Made) (ds : List Deed) (v : View) (size : Size)
    (unchanged : ∀ v', some v' ∈ l.asked size ds → v'.children = v.children) :
    ((l.after ds).minSizeFor (some v) size).1 = (l.after ds).freshMinSize (some v) size ↔
      (l.asked size ds).getLast? ≠ some none ∨
        (l.after ds).freshMinSize (some v) size = .zero := by
  rw [minSizeFor_after made.new.forgotten]
  cases hfirst : (l.asked size ds).getLast? with
  | none => simp
  | some first =>
    cases first with
    | none => simp [freshMinSize_def, eq_comm]
    | some v' =>
      have hv := unchanged v' (List.mem_of_getLast? hfirst)
      simp [freshMinSize_def, hv]

def oneChild : View :=
  ⟨false, [{ Item.plain 1 with min := ⟨30, 20⟩, flags := .resizable }], ⟨0, 0, 100, 50⟩⟩

theorem row_asked_twice :
    ((row.after [.query (some oneChild) ⟨100, 50⟩, .attach]).minSizeFor (some oneChild)
      ⟨100, 50⟩).1 = ⟨48, 38⟩ := by
  have fresh := (minSizeFor_eq_fresh_iff row_made [.query (some oneChild) ⟨100, 50⟩, .attach]
    oneChild ⟨100, 50⟩ (by simp [asked])).mpr (.inl (by simp [asked]))
  exact fresh.trans (by decide)

/-- After a first question at a bad time, zero is the answer where 48 by 38 pixels are needed. -/
theorem row_asked_unseen :
    ((row.after [.query none ⟨100, 50⟩, .attach]).minSizeFor (some oneChild) ⟨100, 50⟩).1 ≠
      (row.after [.query none ⟨100, 50⟩, .attach]).freshMinSize (some oneChild) ⟨100, 50⟩ := by
  decide

end PixelLayout.Layout
