import PixelLayout.Proofs.Splitter.Panes

/-!
# What handing out space leaves over

Each pixel that is handed out changes the sizes of the shown panes together by one, as long as no
pane is shown twice. It goes on until all space is handed out or no pane can take the next pixel.
So a second pass over the same children has just the rest of the first one to hand out, finds no
pane for it either, and changes nothing.
-/

set_option autoImplicit false

namespace PixelLayout.Splitter

section Alternate

variable {α : Type}

theorem alternate_sublist : ∀ l : List α, (alternate l).Sublist l
  | [] => .slnil
  | [a] => .refl [a]
  | a :: b :: rest => ((alternate_sublist rest).cons b).cons_cons a

end Alternate

theorem shown_nodup {children : List Item} (distinct : (children.map (·.id)).Nodup) :
    ((shown children).map (·.id)).Nodup := by
  have sub : (shown children).Sublist children :=
    List.filter_sublist.trans (alternate_sublist children)
  exact distinct.sublist (sub.map (·.id))

def used (panes : Panes) (ids : List Nat) : Int := total (ids.map (sizeOf panes))

theorem sizeOf_of_get? {panes : Panes} {id : Nat} {p : Pane} (h : panes.get? id = some p) :
    sizeOf panes id = p.size := by
  rw [sizeOf, h]
  rfl

theorem sizeOf_insert (panes : Panes) (id id' : Nat) (p : Pane) :
    sizeOf (panes.insert id p) id' = if id = id' then p.size else sizeOf panes id' := by
  rw [sizeOf, Table.get?_insert]
  split <;> rfl

theorem used_insert_of_not_mem {ids : List Nat} {id : Nat} (h : id ∉ ids) (panes : Panes)
    (p : Pane) : used (panes.insert id p) ids = used panes ids := by
  refine congrArg total (List.map_congr_left fun id' hid' => ?_)
  have ne : id ≠ id' := fun e => h (e ▸ hid')
  rw [sizeOf_insert, if_neg ne]

theorem used_insert {ids : List Nat} (distinct : ids.Nodup) {id : Nat} (h : id ∈ ids)
    (panes : Panes) (p : Pane) :
    used (panes.insert id p) ids = used panes ids + (p.size - sizeOf panes id) := by
  induction ids with
  | nil => cases h
  | cons id' ids ih =>
    obtain ⟨fresh, distinct⟩ := List.nodup_cons.mp distinct
    simp only [used, List.map_cons, total_cons]
    by_cases hid : id = id'
    · subst hid
      have rest := used_insert_of_not_mem fresh panes p
      simp only [used] at rest
      rw [sizeOf_insert, if_pos rfl, rest]
      omega
    · have rest := ih distinct ((List.mem_cons.mp h).resolve_left hid)
      simp only [used] at rest
      rw [sizeOf_insert, if_neg hid, rest]
      omega

def pixel (growing : Bool) : Int := if growing then 1 else -1

section Pour

variable {growing : Bool} {limits : List Limits}

theorem used_of_nudge (distinct : (limits.map (·.id)).Nodup) {panes panes' : Panes}
    (h : nudge? growing limits panes = some panes') :
    used panes' (limits.map (·.id)) = used panes (limits.map (·.id)) + pixel growing := by
  obtain ⟨l, hl, p, pliable, rfl⟩ := pliable_of_nudge h
  have size : sizeOf panes l.id = p.size := sizeOf_of_get? pliable.state
  rw [used_insert distinct (List.mem_map_of_mem hl), size]
  simp only [Pane.nudge, pixel]
  omega

/-- What is left is what the sizes have not taken. -/
theorem used_pour (growing : Bool) (distinct : (limits.map (·.id)).Nodup) (n : Nat)
    (panes : Panes) :
    used (pour growing limits n panes).1 (limits.map (·.id)) +
        pixel growing * (pour growing limits n panes).2 =
      used panes (limits.map (·.id)) + pixel growing * n := by
  induction n generalizing panes with
  | zero => rfl
  | succ n ih =>
    unfold pour
    cases hn : nudge? growing limits panes with
    | none => rfl
    | some panes' =>
      have step := used_of_nudge distinct hn
      have rest := ih panes'
      have next : pixel growing * ((n + 1 : Nat) : Int) = pixel growing * n + pixel growing := by
        rw [Int.natCast_succ, Int.mul_add, Int.mul_one]
      show used (pour growing limits n panes').1 _ + pixel growing * (pour growing limits n panes').2
        = _
      omega

/-- Pixels are left only if no pane can take one. -/
theorem pour_rests (growing : Bool) (limits : List Limits) (n : Nat) (panes : Panes) :
    (pour growing limits n panes).2 = 0 ∨
      nudge? growing limits (pour growing limits n panes).1 = none := by
  induction n generalizing panes with
  | zero => exact .inl rfl
  | succ n ih =>
    unfold pour
    cases hn : nudge? growing limits panes with
    | none => exact .inr hn
    | some panes' => exact ih panes'

theorem pour_of_none {panes : Panes} (h : nudge? growing limits panes = none) (n : Nat) :
    pour growing limits n panes = (panes, n) := by
  cases n with
  | zero => rfl
  | succ n => rw [pour, h]

theorem pour_again (growing : Bool) (limits : List Limits) (n : Nat) (panes : Panes) :
    pour growing limits (pour growing limits n panes).2 (pour growing limits n panes).1 =
      pour growing limits n panes := by
  rcases pour_rests growing limits n panes with done | stuck
  · rw [done]
    exact Prod.ext rfl done.symm
  · exact pour_of_none stuck _

end Pour

section Distribute

variable {limits : List Limits}

theorem distribute_eq (limits : List Limits) (panes : Panes) (amount : Int) :
    distribute limits panes amount =
      ((pour (0 < amount) limits amount.natAbs panes).1,
        pixel (0 < amount) * (pour (0 < amount) limits amount.natAbs panes).2) := by
  refine Prod.ext rfl ?_
  show (if 0 < amount then _ else _) = _
  by_cases h : 0 < amount
  · simp [pixel, h]
  · simp [pixel, h]

theorem used_distribute (distinct : (limits.map (·.id)).Nodup) (panes : Panes) (amount : Int) :
    used (distribute limits panes amount).1 (limits.map (·.id)) +
        (distribute limits panes amount).2 =
      used panes (limits.map (·.id)) + amount := by
  have h := used_pour (0 < amount) distinct amount.natAbs panes
  rw [distribute_eq, h]
  by_cases growing : 0 < amount
  · simp only [pixel, growing, decide_true, if_true]
    omega
  · simp only [pixel, growing, decide_false, Bool.false_eq_true, if_false]
    omega

/-- Handing out the rest changes nothing. -/
theorem distribute_again (limits : List Limits) (panes : Panes) (amount : Int) :
    distribute limits (distribute limits panes amount).1 (distribute limits panes amount).2 =
      distribute limits panes amount := by
  have again := pour_again (0 < amount) limits amount.natAbs panes
  rw [distribute_eq limits panes amount]
  generalize pour (0 < amount) limits amount.natAbs panes = rest at again ⊢
  obtain ⟨panes', left⟩ := rest
  rw [distribute_eq]
  by_cases none : left = 0
  · subst none
    simp [pour]
  · by_cases growing : 0 < amount
    · have pos : 0 < left := Nat.pos_of_ne_zero none
      simp only [pixel, growing, decide_true, if_true] at again ⊢
      simp [pos, again]
    · simp only [pixel, growing, decide_false, Bool.false_eq_true, if_false] at again ⊢
      have neg : ¬ (0 : Int) < -1 * left := by omega
      have abs : (-1 * (left : Int)).natAbs = left := by omega
      simp only [neg, decide_false, Bool.false_eq_true, if_false, abs, again]

end Distribute

theorem limits_map_id (s : Splitter) (children : List Item) :
    (s.limits children).map (·.id) = (shown children).map (·.id) := by
  rw [limits, List.map_map]
  rfl

section Settle

variable (s : Splitter) {children : List Item} (bounds : Rect) (reset : Bool)

theorem settle_eq : s.settle children bounds reset =
    ({ s.rebased children bounds reset with
        panes := (distribute ((s.rebased children bounds reset).limits children)
          (s.rebased children bounds reset).panes (s.excess children bounds reset)).1 },
      (distribute ((s.rebased children bounds reset).limits children)
        (s.rebased children bounds reset).panes (s.excess children bounds reset)).2) := rfl

theorem rebased_lastShown :
    (s.rebased children bounds reset).lastShown = (shown children).map (·.id) := by
  unfold rebased
  split
  · rfl
  · next h =>
    rw [Bool.not_eq_true, Bool.or_eq_false_iff] at h
    exact (bne_eq_false_iff_eq.mp h.2).symm

theorem rebased_axis : (s.rebased children bounds reset).axis = s.axis := by
  unfold rebased
  split <;> rfl

/-- What a pass leaves over is what the sizes lack of the space. -/
theorem settle_left (distinct : ((shown children).map (·.id)).Nodup) :
    s.paneSpace children bounds -
        used (s.settle children bounds reset).1.panes ((shown children).map (·.id)) =
      (s.settle children bounds reset).2 := by
  let r := s.rebased children bounds reset
  have ids := r.limits_map_id children
  have h := used_distribute (ids ▸ distinct) r.panes (s.excess children bounds reset)
  rw [ids] at h
  have before : s.excess children bounds reset =
      s.paneSpace children bounds - used r.panes ((shown children).map (·.id)) := rfl
  show s.paneSpace children bounds -
      used (distribute (r.limits children) r.panes (s.excess children bounds reset)).1 _ =
    (distribute (r.limits children) r.panes (s.excess children bounds reset)).2
  omega

/-- A second pass over the same children changes nothing and leaves the same space over. -/
theorem settle_again (distinct : (children.map (·.id)).Nodup) :
    (s.settle children bounds reset).1.settle children bounds false =
      s.settle children bounds reset := by
  let r := s.rebased children bounds reset
  let first := s.settle children bounds reset
  have lastShown : first.1.lastShown = (shown children).map (·.id) :=
    s.rebased_lastShown bounds reset
  have kept : first.1.rebased children bounds false = first.1 := by
    rw [rebased, lastShown]
    simp
  have space : first.1.paneSpace children bounds = s.paneSpace children bounds := by
    show r.paneSpace children bounds = _
    rw [paneSpace, paneSpace, rebased_axis, rebased_handleWidth]
  have left : first.1.excess children bounds false = first.2 := by
    rw [excess, kept, space]
    exact s.settle_left bounds reset (shown_nodup distinct)
  have stays : distribute (first.1.limits children) first.1.panes first.2 =
      (first.1.panes, first.2) :=
    distribute_again (r.limits children) r.panes (s.excess children bounds reset)
  show first.1.settle children bounds false = first
  rw [settle_eq, kept, left, stays]

end Settle

end PixelLayout.Splitter
