import PixelLayout.Proofs.Splitter.Leftover

/-!
# The loop that hands out space

Round by round one pixel is given or taken, until nothing is left or no pane can move. Every round
brings the amount closer to zero by one, so there are no more rounds than pixels. What is left in
the end tells how the panes stand: they fill the space, or those that may move are all at their
greatest size, or all at their least.
-/

set_option autoImplicit false

namespace PixelLayout.Splitter

def round? (limits : List Limits) (x : Panes × Int) : Option (Panes × Int) :=
  if x.2 = 0 then none
  else (nudge? (0 < x.2) limits x.1).map fun panes => (panes, x.2 - pixel (0 < x.2))

inductive Rounds (limits : List Limits) : Nat → Panes × Int → Panes × Int → Prop where
  | stop {x : Panes × Int} (last : round? limits x = none) : Rounds limits 0 x x
  | next {n : Nat} {x y z : Panes × Int} (round : round? limits x = some y)
      (rest : Rounds limits n y z) : Rounds limits (n + 1) x z

section Loop

variable {limits : List Limits}

theorem Rounds.unique {n n' : Nat} {x y y' : Panes × Int} (h : Rounds limits n x y)
    (h' : Rounds limits n' x y') : n = n' ∧ y = y' := by
  induction h generalizing n' with
  | stop last =>
    cases h' with
    | stop => exact ⟨rfl, rfl⟩
    | next round => rw [last] at round; cases round
  | next round rest ih =>
    cases h' with
    | stop last => rw [last] at round; cases round
    | next round' rest' =>
      rw [round] at round'
      cases round'
      obtain ⟨rfl, rfl⟩ := ih rest'
      exact ⟨rfl, rfl⟩

theorem zero_lt_pixel_mul (growing : Bool) (n : Nat) :
    decide (0 < pixel growing * ((n + 1 : Nat) : Int)) = growing := by
  cases growing
  · simp only [pixel, Bool.false_eq_true, if_false, decide_eq_false_iff_not]
    omega
  · simp only [pixel, if_true, decide_eq_true_eq]
    omega

/-- A round with pixels left gives one of them to a pane, if some pane can take it. -/
theorem round?_succ (growing : Bool) (limits : List Limits) (n : Nat) (panes : Panes) :
    round? limits (panes, pixel growing * ((n + 1 : Nat) : Int)) =
      (nudge? growing limits panes).map fun panes' => (panes', pixel growing * n) := by
  have left : pixel growing * ((n + 1 : Nat) : Int) ≠ 0 := by
    cases growing <;> simp only [pixel, Bool.false_eq_true, if_false, if_true] <;> omega
  have less : pixel growing * ((n + 1 : Nat) : Int) - pixel growing = pixel growing * n := by
    rw [Int.natCast_succ, Int.mul_add, Int.mul_one]
    omega
  rw [round?, if_neg left]
  simp only [zero_lt_pixel_mul, less]

theorem rounds_pour (growing : Bool) (limits : List Limits) (n : Nat) (panes : Panes) :
    ∃ k ≤ n, Rounds limits k (panes, pixel growing * n)
      ((pour growing limits n panes).1, pixel growing * (pour growing limits n panes).2) := by
  induction n generalizing panes with
  | zero => exact ⟨0, Nat.le_refl 0, .stop (if_pos (Int.mul_zero _))⟩
  | succ n ih =>
    have round := round?_succ growing limits n panes
    unfold pour
    cases hn : nudge? growing limits panes with
    | none =>
      rw [hn] at round
      exact ⟨0, Nat.zero_le _, .stop round⟩
    | some panes' =>
      rw [hn] at round
      obtain ⟨k, hk, rest⟩ := ih panes'
      exact ⟨k + 1, Nat.succ_le_succ hk, .next round rest⟩

/-- The loop ends, after no more rounds than there are pixels, and in one way only. -/
theorem rounds_distribute (limits : List Limits) (panes : Panes) (amount : Int) :
    ∃ n ≤ amount.natAbs, ∀ k x,
      Rounds limits k (panes, amount) x ↔ k = n ∧ x = distribute limits panes amount := by
  have loop := rounds_pour (0 < amount) limits amount.natAbs panes
  have start : pixel (0 < amount) * (amount.natAbs : Int) = amount := by
    by_cases growing : 0 < amount
    · simp only [pixel, growing, decide_true, if_true]
      omega
    · simp only [pixel, growing, decide_false, Bool.false_eq_true, if_false]
      omega
  rw [start, ← distribute_eq] at loop
  obtain ⟨n, few, rounds⟩ := loop
  refine ⟨n, few, fun k x => ⟨fun other => other.unique rounds, ?_⟩⟩
  rintro ⟨rfl, rfl⟩
  exact rounds

/-- The loop ends with nothing left, or where no pane can move. -/
theorem distribute_rests (limits : List Limits) (panes : Panes) (amount : Int) :
    let rest := distribute limits panes amount
    rest.2 = 0 ∨ (0 < rest.2 ∧ nudge? true limits rest.1 = none) ∨
      (rest.2 < 0 ∧ nudge? false limits rest.1 = none) := by
  have rests := pour_rests (0 < amount) limits amount.natAbs panes
  rw [distribute_eq]
  generalize pour (0 < amount) limits amount.natAbs panes = rest at rests
  by_cases none : rest.2 = 0
  · exact .inl (by simp [none])
  · have stuck := rests.resolve_left none
    by_cases growing : 0 < amount
    · simp only [growing, decide_true, pixel, if_true] at stuck ⊢
      exact .inr (.inl ⟨by omega, stuck⟩)
    · simp only [growing, decide_false, pixel, Bool.false_eq_true, if_false] at stuck ⊢
      exact .inr (.inr ⟨by omega, stuck⟩)

end Loop

section Limits

variable {growing : Bool} {limits : List Limits} {panes : Panes}

theorem isSome_best (growing : Bool) (cs : List Candidate) (b : Candidate) :
    (cs.foldl (best growing) (some b)).isSome = true := by
  induction cs generalizing b with
  | nil => rfl
  | cons c cs ih =>
    simp only [List.foldl_cons, best]
    split
    · exact ih c
    · exact ih b

theorem choose_eq_none_iff {cs : List Candidate} : choose growing cs = none ↔ cs = [] := by
  cases cs with
  | nil => exact iff_of_true rfl rfl
  | cons c cs =>
    have some := isSome_best growing cs c
    constructor
    · intro h
      change cs.foldl (best growing) (Option.some c) = none at h
      rw [h] at some
      cases some
    · nofun

/-- No round follows exactly if no pane can move. -/
theorem nudge?_eq_none_iff :
    nudge? growing limits panes = none ↔ ∀ l ∈ limits, ∀ p, ¬ Pliable growing panes l p := by
  rw [nudge?, Option.map_eq_none_iff, choose_eq_none_iff, List.filterMap_eq_nil_iff]
  constructor
  · intro h l hl p pliable
    have := candidate?_eq_some_iff.mpr ⟨p, pliable, rfl⟩
    rw [h l hl] at this
    cases this
  · intro h l hl
    rw [Option.eq_none_iff_forall_ne_some]
    intro c hc
    obtain ⟨p, pliable, -⟩ := candidate?_eq_some_iff.mp hc
    exact h l hl p pliable

end Limits

section Balance

variable (s : Splitter)

def Full (item : Item) : Prop := ∃ p, s.panes.get? item.id = some p ∧
  (p.fixed = true ∨ p.keepsSize = true ∨
    0 < item.max.along s.axis ∧ item.max.along s.axis ≤ p.size)

def Spent (item : Item) : Prop := ∃ p, s.panes.get? item.id = some p ∧
  (p.fixed = true ∨ p.keepsSize = true ∨ p.size ≤ item.minimum.along s.axis)

def Balanced (children : List Item) (bounds : Rect) : Prop :=
  let taken := used s.panes ((shown children).map (·.id))
  taken = s.paneSpace children bounds ∨
    (taken < s.paneSpace children bounds ∧ ∀ c ∈ shown children, s.Full c) ∨
    (s.paneSpace children bounds < taken ∧ ∀ c ∈ shown children, s.Spent c)

variable {s}

/-- A pane that cannot move is not free or at its limit. -/
theorem rests_of_not_pliable {growing : Bool} {panes : Panes} {l : Limits} {p : Pane}
    (state : panes.get? l.id = some p) (h : ¬ Pliable growing panes l p) :
    p.fixed = true ∨ p.keepsSize = true ∨ hasRoom growing l p = false := by
  cases free : p.fixed with
  | true => exact .inl rfl
  | false =>
    cases movable : p.keepsSize with
    | true => exact .inr (.inl rfl)
    | false =>
      cases room : hasRoom growing l p with
      | true => exact absurd ⟨state, free, movable, room⟩ h
      | false => exact .inr (.inr rfl)

theorem full_of_not_pliable {item : Item} (held : s.panes.contains item.id = true)
    (h : ∀ p, ¬ Pliable true s.panes (Limits.of s.axis item) p) : s.Full item := by
  obtain ⟨p, state⟩ := Option.isSome_iff_exists.mp held
  have rests := rests_of_not_pliable (l := Limits.of s.axis item) state (h p)
  refine ⟨p, state, rests.imp_right (Or.imp_right fun full => ?_)⟩
  simp only [hasRoom, Limits.of, if_true] at full
  by_cases most : item.max.along s.axis > 0
  · simp only [most, if_true, Option.all_some, decide_eq_false_iff_not] at full
    omega
  · simp [most] at full

theorem spent_of_not_pliable {item : Item} (held : s.panes.contains item.id = true)
    (nonneg : 0 ≤ item.minimum.along s.axis)
    (h : ∀ p, ¬ Pliable false s.panes (Limits.of s.axis item) p) : s.Spent item := by
  obtain ⟨p, state⟩ := Option.isSome_iff_exists.mp held
  have rests := rests_of_not_pliable (l := Limits.of s.axis item) state (h p)
  refine ⟨p, state, rests.imp_right (Or.imp_right fun spent => ?_)⟩
  have least : ¬ max (item.minimum.along s.axis) 0 < p.size := of_decide_eq_false spent
  omega

theorem settle_axis (s : Splitter) (children : List Item) (bounds : Rect) (reset : Bool) :
    (s.settle children bounds reset).1.axis = s.axis := s.rebased_axis bounds reset

/-- After a pass the panes are balanced, if each of those shown has a state. -/
theorem settle_balanced (s : Splitter) {children : List Item} (bounds : Rect) (reset : Bool)
    (distinct : ((shown children).map (·.id)).Nodup)
    (held : ∀ c ∈ shown children, (s.settle children bounds reset).1.panes.contains c.id = true)
    (nonneg : ∀ c ∈ shown children, 0 ≤ c.minimum.along s.axis) :
    (s.settle children bounds reset).1.Balanced children bounds := by
  let s' := (s.settle children bounds reset).1
  have axis : s'.axis = s.axis := s.settle_axis children bounds reset
  have space : s'.paneSpace children bounds = s.paneSpace children bounds := by
    rw [paneSpace, paneSpace, axis, s.settle_handleWidth children bounds reset]
  have left : s.paneSpace children bounds - used s'.panes ((shown children).map (·.id)) =
      (s.settle children bounds reset).2 := s.settle_left bounds reset distinct
  have rests : (s.settle children bounds reset).2 = 0 ∨
      (0 < (s.settle children bounds reset).2 ∧
        nudge? true (s'.limits children) s'.panes = none) ∨
      ((s.settle children bounds reset).2 < 0 ∧
        nudge? false (s'.limits children) s'.panes = none) := distribute_rests _ _ _
  show s'.Balanced children bounds
  rw [Balanced, space]
  rcases rests with none | ⟨large, stuck⟩ | ⟨small, stuck⟩
  · left
    omega
  · right; left
    constructor
    · omega
    · intro c hc
      rw [nudge?_eq_none_iff] at stuck
      exact full_of_not_pliable (held c hc) (stuck _ (List.mem_map_of_mem hc))
  · right; right
    constructor
    · omega
    · intro c hc
      rw [nudge?_eq_none_iff] at stuck
      exact spent_of_not_pliable (held c hc) (axis ▸ nonneg c hc) (stuck _ (List.mem_map_of_mem hc))

end Balance

end PixelLayout.Splitter
