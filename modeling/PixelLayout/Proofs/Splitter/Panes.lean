import PixelLayout.Layout.Change
import PixelLayout.Proofs.Splitter.Balance

/-!
# The states of the panes

Which panes have a state, and that no size is negative. A pass that starts afresh leaves states for
panes of its children only, and any other pass leaves those that there were. Sizes come from the
limits of the panes, which are not negative; only a handle that is let go outside the span of its
two panes can make one of them negative.
-/

set_option autoImplicit false

namespace PixelLayout.Splitter

section Alternate

variable {α β : Type}

theorem alternate_map (f : α → β) : ∀ l : List α, alternate (l.map f) = (alternate l).map f
  | [] => rfl
  | [_] => rfl
  | a :: _ :: rest => congrArg (f a :: ·) (alternate_map f rest)

theorem mem_alternate_of_getElem? {a : α} :
    ∀ {l : List α} {i : Nat}, l[i]? = some a → i % 2 = 0 → a ∈ alternate l
  | [b], 0, h, _ => by
    cases h
    exact List.mem_cons_self
  | b :: _ :: rest, 0, h, _ => by
    cases h
    exact List.mem_cons_self
  | _ :: _ :: rest, i + 2, h, even =>
    List.mem_cons_of_mem _ (mem_alternate_of_getElem? (l := rest) (i := i) h (by omega))

theorem exists_of_mem_alternate {a : α} :
    ∀ {l : List α}, a ∈ alternate l → ∃ i, l[i]? = some a ∧ i % 2 = 0
  | [b], h => ⟨0, by simpa [alternate, eq_comm] using h, rfl⟩
  | b :: c :: rest, h => by
    rcases List.mem_cons.mp h with rfl | h
    · exact ⟨0, rfl, rfl⟩
    · obtain ⟨i, hi, even⟩ := exists_of_mem_alternate h
      exact ⟨i + 2, hi, by omega⟩

end Alternate

def rebased (s : Splitter) (children : List Item) (bounds : Rect) (reset : Bool) : Splitter :=
  if reset || (shown children).map (·.id) != s.lastShown then
    s.reset children (s.paneSpace children bounds)
  else s

def excess (s : Splitter) (children : List Item) (bounds : Rect) (reset : Bool) : Int :=
  s.paneSpace children bounds -
    total (((shown children).map (·.id)).map (sizeOf (s.rebased children bounds reset).panes))

section Settle

variable (s : Splitter) (children : List Item) (bounds : Rect) (reset : Bool)

theorem settle_panes : (s.settle children bounds reset).1.panes =
    (distribute ((s.rebased children bounds reset).limits children)
      (s.rebased children bounds reset).panes (s.excess children bounds reset)).1 := rfl

theorem rebased_handleWidth : (s.rebased children bounds reset).handleWidth = s.handleWidth := by
  unfold rebased
  split <;> rfl

theorem settle_handleWidth : (s.settle children bounds reset).1.handleWidth = s.handleWidth :=
  s.rebased_handleWidth children bounds reset

end Settle

section Contains

variable (s : Splitter) (children : List Item) (id : Nat)

theorem contains_reset (space : Int) :
    (s.reset children space).panes.contains id =
      ((shown children).any (·.id == id) ||
        ((alternate children).any (·.id == id) && s.panes.contains id)) := by
  simp only [reset, Table.contains_foldl_modify, Table.contains_keep]

theorem mem_of_contains_reset {space : Int}
    (h : (s.reset children space).panes.contains id = true) :
    id ∈ (alternate children).map (·.id) := by
  rw [contains_reset, Bool.or_eq_true, Bool.and_eq_true, List.any_eq_true, List.any_eq_true] at h
  rcases h with ⟨c, hc, hid⟩ | ⟨⟨c, hc, hid⟩, -⟩
  · exact List.mem_map.mpr ⟨c, (List.mem_filter.mp hc).1, beq_iff_eq.mp hid⟩
  · exact List.mem_map.mpr ⟨c, hc, beq_iff_eq.mp hid⟩

theorem contains_settle (bounds : Rect) (reset : Bool) :
    (s.settle children bounds reset).1.panes.contains id =
      (s.rebased children bounds reset).panes.contains id := by
  rw [settle_panes, contains_distribute]

theorem contains_restretch (item factor : Nat) :
    (s.restretch item factor).panes.contains id = (item == id || s.panes.contains id) := by
  simp only [restretch, Table.contains_map, Table.contains_modify]

theorem contains_pinAll (shares : List (Nat × Float)) :
    (s.pinAll shares).panes.contains id =
      (shares.any (·.1 == id) || s.panes.contains id) := by
  simp only [pinAll, Table.contains_foldl_modify]

theorem contains_drop (d : Drag) (position : Int) :
    (s.drop d position).panes.contains id =
      (d.after == id || (d.before == id || s.panes.contains id)) := by
  simp only [drop, Table.contains_map, Table.contains_modify]

end Contains

section Drags

variable {s : Splitter} {children : List Item} {bounds : Rect} {handle : Nat} {d : Drag}

/-- What the range of a handle is made from. -/
theorem drag_eq_some (h : s.drag? children bounds handle = some d) :
    isActiveHandle children handle = true ∧ ∃ i before after first second,
      paneBefore? (s.place children bounds) handle = some i ∧ children[i]? = some before ∧
      children[handle + 1]? = some after ∧ (s.place children bounds).getD i none = some first ∧
      (s.place children bounds).getD (handle + 1) none = some second ∧
      d = {
        before := before.id
        start := first.start s.axis
        after := after.id
        stop := second.start s.axis + second.size.along s.axis
        low := first.start s.axis + (Limits.of s.axis before).least
        high := second.start s.axis + second.size.along s.axis
          - (Limits.of s.axis after).least - s.handleWidth } := by
  unfold drag? at h
  split at h
  · next active =>
    obtain ⟨i, hi, h⟩ := Option.bind_eq_some_iff.mp h
    obtain ⟨before, hbefore, h⟩ := Option.bind_eq_some_iff.mp h
    obtain ⟨after, hafter, h⟩ := Option.bind_eq_some_iff.mp h
    obtain ⟨first, hfirst, h⟩ := Option.bind_eq_some_iff.mp h
    obtain ⟨second, hsecond, h⟩ := Option.bind_eq_some_iff.mp h
    exact ⟨active, i, before, after, first, second, hi, hbefore, hafter, hfirst, hsecond,
      (Option.some.inj h).symm⟩
  · cases h

/-- The panes around a handle are children at the places of panes. -/
theorem mem_of_drag (h : s.drag? children bounds handle = some d) :
    d.before ∈ (alternate children).map (·.id) ∧ d.after ∈ (alternate children).map (·.id) := by
  obtain ⟨active, i, before, after, _, _, hi, hbefore, hafter, -, -, rfl⟩ := drag_eq_some h
  have even : i % 2 = 0 := by
    have hp := List.find?_some hi
    simp only [Bool.and_eq_true, beq_iff_eq] at hp
    exact hp.1
  have odd : handle % 2 = 1 := by
    simp only [isActiveHandle, Bool.and_eq_true, beq_iff_eq] at active
    exact active.1.1
  exact ⟨List.mem_map.mpr ⟨before, mem_alternate_of_getElem? hbefore even, rfl⟩,
    List.mem_map.mpr ⟨after, mem_alternate_of_getElem? hafter (by omega), rfl⟩⟩

end Drags

section Sizes

def Panes.Nonneg (panes : Panes) : Prop := panes.All fun p => 0 ≤ p.size

theorem sizeOf_nonneg {panes : Panes} (h : panes.Nonneg) (id : Nat) : 0 ≤ sizeOf panes id := by
  unfold sizeOf
  cases hp : panes.get? id with
  | none => exact Int.le_refl 0
  | some p => exact h id p hp

theorem least_nonneg (axis : Axis) (item : Item) : 0 ≤ (Limits.of axis item).least :=
  Int.le_max_right _ _

theorem distribute_nonneg {limits : List Limits} {panes : Panes} (h : panes.Nonneg)
    (hl : ∀ l ∈ limits, 0 ≤ l.least) (amount : Int) :
    (distribute limits panes amount).1.Nonneg := by
  refine distribute_induction (fun growing panes l p hmem pliable h => ?_) amount h
  have hp := h l.id p pliable.state
  have room := pliable.room
  have hleast := hl l hmem
  refine h.insert l.id ?_
  cases growing with
  | true => exact Int.le_trans hp (Int.le_add_of_nonneg_right (by decide))
  | false =>
    simp only [hasRoom, Bool.false_eq_true, if_false, decide_eq_true_eq] at room
    simp only [Pane.nudge, Bool.false_eq_true, if_false]
    omega

variable (s : Splitter) (children : List Item) (bounds : Rect)

theorem reset_nonneg (h : s.panes.Nonneg) (space : Int) :
    (s.reset children space).panes.Nonneg := by
  simp only [Panes.Nonneg, reset]
  refine .foldl_modify (.keep h _) _ _ ?_ ?_
  · intro c _
    exact Int.le_trans (least_nonneg s.axis c) (Int.le_max_right _ _)
  · intro c _ p _
    exact Int.le_trans (least_nonneg s.axis c) (Int.le_max_right _ _)

theorem settle_nonneg (h : s.panes.Nonneg) (reset : Bool) :
    (s.settle children bounds reset).1.panes.Nonneg := by
  rw [settle_panes]
  refine distribute_nonneg ?_ (fun l hl => ?_) _
  · unfold rebased
    split
    · exact s.reset_nonneg children h _
    · exact h
  · obtain ⟨c, -, rfl⟩ := List.mem_map.mp hl
    exact least_nonneg _ c

theorem restretch_nonneg (h : s.panes.Nonneg) (item factor : Nat) :
    (s.restretch item factor).panes.Nonneg := by
  simp only [Panes.Nonneg, restretch]
  refine .map (.modify h item ?_ ?_) ?_
  · exact Int.le_refl 0
  · exact fun _ hp => hp
  · exact fun _ hp => hp

theorem pinAll_nonneg (h : s.panes.Nonneg) (shares : List (Nat × Float)) :
    (s.pinAll shares).panes.Nonneg := by
  simp only [Panes.Nonneg, pinAll]
  refine .foldl_modify h _ shares ?_ ?_
  · exact fun _ _ => Int.le_refl 0
  · exact fun _ _ _ hp => hp

/-- A handle that comes to rest between its two panes leaves room for both. -/
theorem drop_nonneg (h : s.panes.Nonneg) {d : Drag} {position : Int} (first : d.start ≤ position)
    (second : position + s.handleWidth ≤ d.stop) : (s.drop d position).panes.Nonneg := by
  have before : 0 ≤ position - d.start := by omega
  have after : 0 ≤ d.stop - position - s.handleWidth := by omega
  simp only [Panes.Nonneg, drop]
  refine .map (.modify (.modify h d.before ?_ ?_) d.after ?_ ?_) ?_
  · exact before
  · exact fun _ _ => before
  · exact after
  · exact fun _ _ => after
  · exact fun _ hp => hp

end Sizes

end PixelLayout.Splitter
