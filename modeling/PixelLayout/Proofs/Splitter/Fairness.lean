import PixelLayout.Proofs.Splitter.Reversal

/-!
# How evenly the panes share what is handed out

Amounts are handed out one after the other, with nothing else done to the panes. A pixel goes to the
pane that has grown least for its weight. So if all amounts have one sign, no pane is more than its
last pixel ahead of any pane that could still take one, where both are measured by their weights. And
if all weights are equal and every pane always can take the next pixel, then no two panes ever are
more than one pixel apart, whatever the signs are.
-/

set_option autoImplicit false

namespace PixelLayout.Splitter

section Runs

def handedOut (limits : List Limits) : Panes → List Int → Panes
  | panes, [] => panes
  | panes, amount :: amounts => handedOut limits (distribute limits panes amount).1 amounts

structure Mobile (limits : List Limits) (panes : Panes) (l : Limits) (p : Pane) : Prop where
  listed : l ∈ limits
  state : panes.get? l.id = some p
  free : p.fixed = false
  movable : p.keepsSize = false

def Level (limits : List Limits) (panes : Panes) : Prop :=
  ∀ l p, Mobile limits panes l p → p.growth = 0

def Inside (limits : List Limits) (panes : Panes) : Prop :=
  ∀ l p, Mobile limits panes l p → l.least < p.size ∧ ∀ most ∈ l.most, p.size < most

def Clear (limits : List Limits) : Panes → List Int → Prop
  | _, [] => True
  | panes, amount :: amounts =>
    Inside limits (distribute limits panes amount).1 ∧
      Clear limits (distribute limits panes amount).1 amounts

variable {growing : Bool} {limits : List Limits} {panes panes' : Panes}

/-- What every amount keeps holds after any number of them. -/
theorem handedOut_induction {P : Panes → Prop} {amounts : List Int}
    (step : ∀ amount ∈ amounts, ∀ panes, P panes → P (distribute limits panes amount).1)
    (h : P panes) : P (handedOut limits panes amounts) := by
  induction amounts generalizing panes with
  | nil => exact h
  | cons amount amounts ih =>
    rw [List.forall_mem_cons] at step
    exact ih step.2 (step.1 panes h)

theorem reset_level (s : Splitter) (children : List Item) (space : Int) :
    Level ((s.reset children space).limits children) (s.reset children space).panes := by
  intro l p mobile
  obtain ⟨c, hc, rfl⟩ := List.mem_map.mp mobile.listed
  obtain ⟨c', -, -, q, state⟩ := Table.exists_get?_foldl_modify
    (s.panes.keep fun id => (alternate children).any (·.id == id)) Item.id .fresh
    (resetPane s.axis space (totalWeight ((shown children).map fun c => stretchOf
      (s.panes.keep fun id => (alternate children).any (·.id == id)) c.id)))
    (List.mem_map_of_mem hc)
  have same := state.symm.trans mobile.state
  cases same
  rfl

theorem drop_level (s : Splitter) (d : Drag) (position : Int) (limits : List Limits) :
    Level limits (s.drop d position).panes := by
  intro l p mobile
  have state := mobile.state
  rw [drop, Table.get?_map] at state
  obtain ⟨q, -, rfl⟩ := Option.map_eq_some_iff.mp state
  rfl

/-- Passes over the same children in any bounds hand out an amount each. -/
theorem resized_handedOut {s : Splitter} {children : List Item}
    (lastShown : s.lastShown = (shown children).map (·.id)) (bs : List Rect) : ∃ amounts,
      amounts.length = bs.length ∧
        (s.resized children bs).panes = handedOut (s.limits children) s.panes amounts := by
  induction bs generalizing s with
  | nil => exact ⟨[], rfl, rfl⟩
  | cons bounds bs ih =>
    obtain ⟨amounts, length, rest⟩ := ih (s := (s.settle children bounds false).1)
      (s.rebased_lastShown bounds false)
    have limits : (s.settle children bounds false).1.limits children = s.limits children := by
      rw [Splitter.limits, Splitter.limits, settle_axis]
    have first : (s.settle children bounds false).1.panes =
        (distribute (s.limits children) s.panes (s.excess children bounds false)).1 := by
      rw [settle_panes, rebased_eq_self lastShown]
    refine ⟨s.excess children bounds false :: amounts, congrArg (· + 1) length, ?_⟩
    rw [handedOut, ← first, ← limits]
    exact rest

end Runs

section Steps

variable {growing : Bool} {limits : List Limits} {panes panes' : Panes}

theorem Mobile.pliable {l : Limits} {p : Pane} (mobile : Mobile limits panes l p)
    (room : hasRoom growing l p = true) : Pliable growing panes l p :=
  ⟨mobile.state, mobile.free, mobile.movable, room⟩

/-- What a pixel has changed: one pane is moved by it, and the others are what they were. -/
theorem Mobile.before {k l : Limits} {q p : Pane} (pliable : Pliable growing panes k q)
    (mobile : Mobile limits (panes.insert k.id (q.nudge growing)) l p) :
    (p = q.nudge growing ∧ Mobile limits panes l q) ∨ Mobile limits panes l p := by
  have state := mobile.state
  rw [Table.get?_insert] at state
  split at state
  · next same =>
    cases state
    exact .inl ⟨rfl, mobile.listed, same ▸ pliable.state, pliable.free, pliable.movable⟩
  · exact .inr ⟨mobile.listed, state, mobile.free, mobile.movable⟩

theorem Mobile.after {k l : Limits} {q p : Pane} (pliable : Pliable growing panes k q)
    (mobile : Mobile limits panes l p) :
    Mobile limits (panes.insert k.id (q.nudge growing)) l p ∨
      Mobile limits (panes.insert k.id (q.nudge growing)) l (p.nudge growing) := by
  by_cases same : k.id = l.id
  · obtain rfl := Option.some.inj ((same ▸ pliable.state).symm.trans mobile.state)
    refine .inr ⟨mobile.listed, ?_, mobile.free, mobile.movable⟩
    rw [Table.get?_insert, if_pos same]
  · refine .inl ⟨mobile.listed, ?_, mobile.free, mobile.movable⟩
    rw [Table.get?_insert, if_neg same, mobile.state]

theorem hasRoom_of_nudge {l : Limits} {p : Pane}
    (room : hasRoom growing l (p.nudge growing) = true) : hasRoom growing l p = true := by
  cases growing with
  | true =>
    simp only [hasRoom, Pane.nudge, if_true, Option.all_eq_true, decide_eq_true_eq] at room ⊢
    intro most hmost
    have := room most hmost
    omega
  | false =>
    simp only [hasRoom, Pane.nudge, Bool.false_eq_true, if_false, decide_eq_true_eq] at room ⊢
    omega

def Fair (growing : Bool) (limits : List Limits) (panes : Panes) : Prop :=
  ∀ l p l' p', Mobile limits panes l p → Mobile limits panes l' p' → hasRoom growing l' p' = true →
    (pixel growing * p.growth - 1) * (max p'.weight 1 : Nat) ≤
      pixel growing * p'.growth * (max p.weight 1 : Nat)

theorem Level.fair (level : Level limits panes) (growing : Bool) : Fair growing limits panes := by
  intro l p l' p' mobile mobile' _
  rw [level l p mobile, level l' p' mobile', Int.mul_zero, Int.zero_mul]
  omega

theorem Fair.nudge (fair : Fair growing limits panes)
    (h : nudge? growing limits panes = some panes') : Fair growing limits panes' := by
  obtain ⟨k, hk, q, pliable, rfl, least⟩ := least_of_nudge h
  have moved : pixel growing * (q.nudge growing).growth = pixel growing * q.growth + 1 :=
    pixel_mul_add growing q.growth
  have heavy (p : Pane) : 0 ≤ ((max p.weight 1 : Nat) : Int) := Int.natCast_nonneg _
  intro l p l' p' mobile mobile' room
  rcases mobile.before pliable with ⟨rfl, before⟩ | before <;>
    rcases mobile'.before pliable with ⟨rfl, before'⟩ | before'
  · rw [moved]
    exact Int.mul_le_mul_of_nonneg_right (by omega) (heavy q)
  · -- the pane that takes the pixel had moved least of those that could take it
    have behind := least l' before'.listed p' (before'.pliable room)
    rwa [moved, Int.add_sub_cancel]
  · have still := fair l p l' q before before' (hasRoom_of_nudge room)
    rw [moved]
    refine still.trans (Int.mul_le_mul_of_nonneg_right ?_ (heavy p))
    omega
  · exact fair l p l' p' before before' room

theorem Fair.distribute (fair : Fair growing limits panes) {amount : Int}
    (way : 0 ≤ pixel growing * amount) :
    Fair growing limits (Splitter.distribute limits panes amount).1 := by
  by_cases none : amount = 0
  · subst none
    exact fair
  · have growing' : decide (0 < amount) = growing := by
      cases growing with
      | true =>
        simp only [pixel, if_true] at way
        exact decide_eq_true (by omega)
      | false =>
        simp only [pixel, Bool.false_eq_true, if_false] at way
        exact decide_eq_false (by omega)
    rw [distribute_eq, growing']
    exact pour_keeps (fun _ _ hn h => Fair.nudge h hn) _ fair

end Steps

section Weights

variable {growing : Bool} {limits : List Limits} {panes panes' : Panes}

def Weighed (p : Nat → Prop) (limits : List Limits) (panes : Panes) : Prop :=
  ∀ l q, Mobile limits panes l q → p q.weight

theorem Weighed.nudge {p : Nat → Prop} (weighed : Weighed p limits panes)
    (h : nudge? growing limits panes = some panes') : Weighed p limits panes' := by
  obtain ⟨k, -, q, pliable, rfl⟩ := pliable_of_nudge h
  intro l q' mobile
  rcases mobile.before pliable with ⟨rfl, before⟩ | before
  · exact weighed l q before
  · exact weighed l q' before

theorem Weighed.distribute {p : Nat → Prop} (weighed : Weighed p limits panes) (amount : Int) :
    Weighed p limits (Splitter.distribute limits panes amount).1 :=
  pour_keeps (fun _ _ hn h => Weighed.nudge h hn) _ weighed

end Weights

section Close

variable {growing : Bool} {limits : List Limits} {panes panes' : Panes}

def Roomy (growing : Bool) (limits : List Limits) (panes : Panes) : Prop :=
  ∀ l p, Mobile limits panes l p → hasRoom growing l p = true

def Close (limits : List Limits) (panes : Panes) : Prop :=
  ∀ l p l' p', Mobile limits panes l p → Mobile limits panes l' p' → p.growth ≤ p'.growth + 1

theorem Inside.roomy (inside : Inside limits panes) (growing : Bool) :
    Roomy growing limits panes := by
  intro l p mobile
  obtain ⟨least, most⟩ := inside l p mobile
  cases growing with
  | true => simpa [hasRoom, Option.all_eq_true] using most
  | false => exact decide_eq_true least

theorem Roomy.of_nudge (h : nudge? growing limits panes = some panes')
    (roomy : Roomy growing limits panes') : Roomy growing limits panes := by
  obtain ⟨k, -, q, pliable, rfl⟩ := pliable_of_nudge h
  intro l p mobile
  rcases mobile.after pliable with same | moved
  · exact roomy l p same
  · exact hasRoom_of_nudge (roomy l _ moved)

/-- Panes that have room after some pixels had it before them. -/
theorem Roomy.of_pour (n : Nat) (roomy : Roomy growing limits (pour growing limits n panes).1) :
    Roomy growing limits panes := by
  induction n generalizing panes with
  | zero => exact roomy
  | succ n ih =>
    unfold pour at roomy
    cases hn : nudge? growing limits panes with
    | none =>
      rw [hn] at roomy
      exact roomy
    | some panes' =>
      rw [hn] at roomy
      exact (ih roomy).of_nudge hn

theorem Level.close (level : Level limits panes) : Close limits panes := by
  intro l p l' p' mobile mobile'
  rw [level l p mobile, level l' p' mobile']
  decide

theorem Close.nudge (close : Close limits panes) {weight : Nat}
    (equal : Weighed (· = weight) limits panes) (roomy : Roomy growing limits panes)
    (h : nudge? growing limits panes = some panes') : Close limits panes' := by
  obtain ⟨k, hk, q, pliable, rfl, least⟩ := least_of_nudge h
  have taker : Mobile limits panes k q := ⟨hk, pliable.state, pliable.free, pliable.movable⟩
  have behind : ∀ l p, Mobile limits panes l p →
      pixel growing * q.growth ≤ pixel growing * p.growth := by
    intro l p mobile
    have scaled := least l mobile.listed p (mobile.pliable (roomy l p mobile))
    rw [equal l p mobile, equal k q taker] at scaled
    exact Int.le_of_mul_le_mul_right scaled (by omega)
  have moved : (q.nudge growing).growth = q.growth + pixel growing := rfl
  intro l p l' p' mobile mobile'
  rcases mobile.before pliable with ⟨rfl, -⟩ | before <;>
    rcases mobile'.before pliable with ⟨rfl, -⟩ | before'
  · omega
  · have ahead := close k q l' p' taker before'
    have least := behind l' p' before'
    rw [moved]
    cases growing <;> simp only [pixel, Bool.false_eq_true, if_false, if_true] at least ⊢ <;> omega
  · have ahead := close l p k q before taker
    have least := behind l p before
    rw [moved]
    cases growing <;> simp only [pixel, Bool.false_eq_true, if_false, if_true] at least ⊢ <;> omega
  · exact close l p l' p' before before'

theorem Close.pour (close : Close limits panes) {weight : Nat}
    (equal : Weighed (· = weight) limits panes) (n : Nat)
    (roomy : Roomy growing limits (Splitter.pour growing limits n panes).1) :
    Close limits (Splitter.pour growing limits n panes).1 := by
  induction n generalizing panes with
  | zero => exact close
  | succ n ih =>
    have first := roomy.of_pour
    unfold Splitter.pour at roomy ⊢
    cases hn : nudge? growing limits panes with
    | none => exact close
    | some panes' =>
      rw [hn] at roomy
      exact ih (close.nudge equal first hn) (equal.nudge hn) roomy

theorem Close.handedOut (close : Close limits panes) {weight : Nat}
    (equal : Weighed (· = weight) limits panes) {amounts : List Int}
    (clear : Clear limits panes amounts) :
    Close limits (Splitter.handedOut limits panes amounts) := by
  induction amounts generalizing panes with
  | nil => exact close
  | cons amount amounts ih =>
    obtain ⟨inside, clear⟩ := clear
    have roomy := inside.roomy (0 < amount)
    exact ih (close.pour equal _ roomy) (equal.distribute amount) clear

end Close

/-- After amounts of one sign no pane is more than its last pixel ahead, by weight, of a pane that could
take the next one. -/
theorem Level.fair_handedOut {growing : Bool} {limits : List Limits} {panes : Panes}
    (level : Level limits panes) (heavy : Weighed (1 ≤ ·) limits panes) {amounts : List Int}
    (way : ∀ n ∈ amounts, 0 ≤ pixel growing * n) {l l' : Limits} {p p' : Pane}
    (mobile : Mobile limits (handedOut limits panes amounts) l p)
    (mobile' : Mobile limits (handedOut limits panes amounts) l' p')
    (room : hasRoom growing l' p' = true) :
    (pixel growing * p.growth - 1) * p'.weight ≤ pixel growing * p'.growth * p.weight := by
  have fair : Fair growing limits (handedOut limits panes amounts) :=
    handedOut_induction (fun n hn _ fair => fair.distribute (way n hn)) (level.fair growing)
  have heavy : Weighed (1 ≤ ·) limits (handedOut limits panes amounts) :=
    handedOut_induction (fun n _ _ heavy => heavy.distribute n) heavy
  have ahead := fair l p l' p' mobile mobile' room
  rwa [Nat.max_eq_left (heavy l p mobile), Nat.max_eq_left (heavy l' p' mobile')] at ahead

/-- A reset and a handle that is let go leave panes that have not grown, and passes over the same
children hand out one amount each. From panes that have not grown, amounts of one sign leave no pane
more than its last pixel ahead of a pane that could take the next, by weight. Amounts of any signs
leave panes of equal weights within one pixel of each other, if none of them is taken to a limit. -/
theorem fair_shares :
    (∀ (s : Splitter) children space,
      Level ((s.reset children space).limits children) (s.reset children space).panes) ∧
    (∀ (s : Splitter) d position limits, Level limits (s.drop d position).panes) ∧
    (∀ (s : Splitter) children, s.lastShown = (shown children).map (·.id) → ∀ bs, ∃ amounts,
      amounts.length = bs.length ∧
        (s.resized children bs).panes = handedOut (s.limits children) s.panes amounts) ∧
    ∀ limits panes, Level limits panes → (∀ l p, Mobile limits panes l p → 1 ≤ p.weight) →
      ∀ amounts,
      let panes' := handedOut limits panes amounts
      ((∀ n ∈ amounts, 0 ≤ n) →
        ∀ l p l' p', Mobile limits panes' l p → Mobile limits panes' l' p' →
          (∀ most ∈ l'.most, p'.size < most) →
            (p.growth - 1) * p'.weight ≤ p'.growth * p.weight) ∧
      ((∀ n ∈ amounts, n ≤ 0) →
        ∀ l p l' p', Mobile limits panes' l p → Mobile limits panes' l' p' →
          l'.least < p'.size → p'.growth * p.weight ≤ (p.growth + 1) * p'.weight) ∧
      (∀ weight, (∀ l p, Mobile limits panes l p → p.weight = weight) → Clear limits panes amounts →
        ∀ l p l' p', Mobile limits panes' l p → Mobile limits panes' l' p' →
          p.growth ≤ p'.growth + 1) := by
  refine ⟨reset_level, drop_level, fun s children => resized_handedOut, ?_⟩
  intro limits panes level heavy amounts
  refine ⟨?_, ?_, ?_⟩
  · intro up l p l' p' mobile mobile' room
    have way : ∀ n ∈ amounts, 0 ≤ pixel true * n := by simpa [pixel] using up
    have roomy : hasRoom true l' p' = true := by simpa [hasRoom, Option.all_eq_true] using room
    simpa [pixel] using level.fair_handedOut heavy way mobile mobile' roomy
  · intro down l p l' p' mobile mobile' room
    have way : ∀ n ∈ amounts, 0 ≤ pixel false * n := by simpa [pixel] using down
    have roomy : hasRoom false l' p' = true := by simpa [hasRoom] using room
    have ahead := level.fair_handedOut heavy way mobile mobile' roomy
    simp only [pixel, Bool.false_eq_true, if_false] at ahead
    have opposite : (-1 * p.growth - 1) * (p'.weight : Int) = -((p.growth + 1) * p'.weight) := by ring
    have opposite' : -1 * p'.growth * (p.weight : Int) = -(p'.growth * p.weight) := by ring
    omega
  · intro weight equal clear
    exact level.close.handedOut equal clear

def pair (size : Int) (weight : Nat) : Panes :=
  ⟨[(1, { Pane.fresh with size := 100 - size }), (3, { Pane.fresh with size, weight })]⟩

def pairLimits : List Limits := [⟨1, 0, none⟩, ⟨3, 50, some 90⟩]

theorem of_pair {P : Limits → Pane → Prop} {panes : Panes} {p p' : Pane}
    (first : panes.get? 1 = some p) (second : panes.get? 3 = some p')
    (h : P ⟨1, 0, none⟩ p ∧ P ⟨3, 50, some 90⟩ p') : ∀ l q, Mobile pairLimits panes l q → P l q := by
  intro l q mobile
  rcases List.mem_pair.mp mobile.listed with rfl | rfl
  · obtain rfl := Option.some.inj (first.symm.trans mobile.state)
    exact h.1
  · obtain rfl := Option.some.inj (second.symm.trans mobile.state)
    exact h.2

theorem pair_fair :
    ((handedOut pairLimits (pair 75 3) [5, 0, 8]).get? 1).map (·.growth) = some 4 ∧
    ((handedOut pairLimits (pair 75 3) [5, 0, 8]).get? 3).map (·.growth) = some 9 ∧
    ((4 : Int) - 1) * (3 : Nat) ≤ 9 * (1 : Nat) ∧
    ((handedOut pairLimits (pair 75 3) [-5, -8]).get? 1).map (·.growth) = some (-4) ∧
    ((handedOut pairLimits (pair 75 3) [-5, -8]).get? 3).map (·.growth) = some (-9) ∧
    (-9 : Int) * (1 : Nat) ≤ (-4 + 1) * (3 : Nat) ∧
    Clear pairLimits (pair 60 1) [5, -3, 7] ∧
    ((handedOut pairLimits (pair 60 1) [5, -3, 7]).get? 1).map (·.growth) = some 5 ∧
    ((handedOut pairLimits (pair 60 1) [5, -3, 7]).get? 3).map (·.growth) = some 4 ∧
    (5 : Int) ≤ 4 + 1 := by
  obtain ⟨-, -, -, fair⟩ := fair_shares
  have level (size : Int) (weight : Nat) : Level pairLimits (pair size weight) :=
    of_pair rfl rfl ⟨rfl, rfl⟩
  have uneven := fair pairLimits (pair 75 3) (level 75 3) (of_pair rfl rfl (by decide))
  have even := fair pairLimits (pair 60 1) (level 60 1) (of_pair rfl rfl (by decide))
  have clear : Clear pairLimits (pair 60 1) [5, -3, 7] :=
    ⟨of_pair rfl rfl (by decide), of_pair rfl rfl (by decide), of_pair rfl rfl (by decide), trivial⟩
  refine ⟨rfl, rfl, ?_, rfl, rfl, ?_, clear, rfl, rfl, ?_⟩
  · exact (uneven [5, 0, 8]).1 (by decide) ⟨1, 0, none⟩ _ ⟨3, 50, some 90⟩ _
      ⟨by decide, rfl, rfl, rfl⟩ ⟨by decide, rfl, rfl, rfl⟩ (by decide)
  · exact (uneven [-5, -8]).2.1 (by decide) ⟨1, 0, none⟩ _ ⟨3, 50, some 90⟩ _
      ⟨by decide, rfl, rfl, rfl⟩ ⟨by decide, rfl, rfl, rfl⟩ (by decide)
  · exact (even [5, -3, 7]).2.2 1 (of_pair rfl rfl (by decide)) clear ⟨1, 0, none⟩ _ ⟨3, 50, some 90⟩ _
      ⟨by decide, rfl, rfl, rfl⟩ ⟨by decide, rfl, rfl, rfl⟩

end PixelLayout.Splitter
