import PixelLayout.Proofs.Extent.Nonnegative
import PixelLayout.Proofs.Splitter.Rounds

/-!
# Resizing a splitter and back

A pixel goes to the pane that has grown least for its weight. So as long as some pane is smaller than
it was, the next pixel goes to such a pane, and there always is room in it; and if pixels are taken,
the same holds of the panes that are larger than they were. Hence no pane is ever larger than it was
while another one is smaller, and once the panes fill as much space as at first, each has its first
size again.
-/

set_option autoImplicit false

namespace PixelLayout.Splitter

section Choice

variable {growing : Bool} {a b c : Candidate}

theorem Candidate.precedes_iff : a.precedes growing b = true ↔
    pixel growing * a.growth * b.weight < pixel growing * b.growth * a.weight := by
  cases growing
  · simp only [precedes, pixel, Bool.false_eq_true, if_false, decide_eq_true_eq, Int.neg_mul,
      Int.one_mul]
    omega
  · simp only [precedes, pixel, if_true, decide_eq_true_eq, Int.one_mul]

theorem Candidate.not_precedes_iff : a.precedes growing b = false ↔
    pixel growing * b.growth * a.weight ≤ pixel growing * a.growth * b.weight := by
  rw [← Bool.not_eq_true, precedes_iff, Int.not_lt]

/-- What does not come after a first candidate comes before what comes after the first one. -/
theorem Candidate.precedes_of_not_precedes (weights : 0 < a.weight ∧ 0 < b.weight ∧ 0 < c.weight)
    (behind : a.precedes growing c = true) (not : a.precedes growing b = false) :
    b.precedes growing c = true := by
  rw [precedes_iff] at behind ⊢
  rw [not_precedes_iff] at not
  generalize pixel growing * a.growth = x at *
  generalize pixel growing * b.growth = y at *
  generalize pixel growing * c.growth = z at *
  have scaled : y * c.weight * a.weight < z * b.weight * a.weight :=
    calc y * c.weight * a.weight = y * a.weight * c.weight := Int.mul_right_comm ..
      _ ≤ x * b.weight * c.weight := Int.mul_le_mul_of_nonneg_right not (by omega)
      _ = x * c.weight * b.weight := Int.mul_right_comm ..
      _ < z * a.weight * b.weight := Int.mul_lt_mul_of_pos_right behind (by omega)
      _ = z * b.weight * a.weight := Int.mul_right_comm ..
  exact Int.lt_of_mul_lt_mul_right scaled (by omega)

theorem Candidate.precedes_asymm (h : a.precedes growing b = true) :
    b.precedes growing a = false := by
  rw [precedes_iff] at h
  rw [not_precedes_iff]
  omega

theorem not_precedes_of_best {cs : List Candidate} (weights : ∀ d ∈ cs, 0 < d.weight)
    (first : 0 < b.weight) (h : cs.foldl (best growing) (some b) = some c) :
    0 < c.weight ∧ b.precedes growing c = false ∧ ∀ d ∈ cs, d.precedes growing c = false := by
  induction cs generalizing b with
  | nil =>
    cases h
    exact ⟨first, Candidate.not_precedes_iff.mpr (Int.le_refl _), nofun⟩
  | cons a cs ih =>
    obtain ⟨second, rest⟩ := List.forall_mem_cons.mp weights
    rw [List.forall_mem_cons]
    simp only [List.foldl_cons, best] at h
    split at h
    · next before =>
      obtain ⟨chosen, no, none⟩ := ih rest second h
      refine ⟨chosen, ?_, no, none⟩
      exact Candidate.precedes_asymm
        (Candidate.precedes_of_not_precedes ⟨second, chosen, first⟩ before no)
    · next behind =>
      obtain ⟨chosen, no, none⟩ := ih rest first h
      refine ⟨chosen, no, ?_, none⟩
      cases least : a.precedes growing c with
      | false => rfl
      | true =>
        have := Candidate.precedes_of_not_precedes ⟨second, first, chosen⟩ least
          (Bool.not_eq_true _ ▸ behind)
        rw [no] at this
        cases this

/-- No candidate precedes the one that is chosen. -/
theorem not_precedes_of_choose {cs : List Candidate} (weights : ∀ d ∈ cs, 0 < d.weight)
    (h : choose growing cs = some c) : ∀ d ∈ cs, d.precedes growing c = false := by
  cases cs with
  | nil => nofun
  | cons b cs =>
    obtain ⟨first, rest⟩ := List.forall_mem_cons.mp weights
    exact List.forall_mem_cons.mpr (not_precedes_of_best rest first h).2

/-- Of the panes that can take the next pixel, none has moved less for its weight than the one that
takes it. -/
theorem least_of_nudge {limits : List Limits} {panes panes' : Panes}
    (h : nudge? growing limits panes = some panes') :
    ∃ l ∈ limits, ∃ p, Pliable growing panes l p ∧ panes' = panes.insert l.id (p.nudge growing) ∧
      ∀ l' ∈ limits, ∀ p', Pliable growing panes l' p' →
        pixel growing * p.growth * (max p'.weight 1 : Nat) ≤
          pixel growing * p'.growth * (max p.weight 1 : Nat) := by
  obtain ⟨c, chosen, rfl⟩ := Option.map_eq_some_iff.mp h
  obtain ⟨l, hl, hc⟩ := List.mem_filterMap.mp (mem_of_choose chosen)
  obtain ⟨p, pliable, rfl⟩ := candidate?_eq_some_iff.mp hc
  refine ⟨l, hl, p, pliable, by rw [Table.modify, pliable.state, Option.getD_some], ?_⟩
  intro l' hl' p' pliable'
  have weights : ∀ d ∈ limits.filterMap (candidate? growing panes), 0 < d.weight := by
    intro d hd
    obtain ⟨k, -, hk⟩ := List.mem_filterMap.mp hd
    obtain ⟨q, -, rfl⟩ := candidate?_eq_some_iff.mp hk
    exact Nat.lt_of_lt_of_le Nat.one_pos (Nat.le_max_right _ _)
  have hc' := candidate?_eq_some_iff.mpr ⟨p', pliable', rfl⟩
  have least := not_precedes_of_choose weights chosen _ (List.mem_filterMap.mpr ⟨l', hl', hc'⟩)
  exact Candidate.not_precedes_iff.mp least

/-- If some pane that can move has moved the other way, then the pane that moves next has, too. -/
theorem exists_of_nudge {limits : List Limits} {panes panes' : Panes}
    (h : nudge? growing limits panes = some panes') :
    ∃ l ∈ limits, ∃ p, Pliable growing panes l p ∧ panes' = panes.insert l.id (p.nudge growing) ∧
      ∀ l' ∈ limits, ∀ p', Pliable growing panes l' p' → pixel growing * p'.growth < 0 →
        pixel growing * p.growth < 0 := by
  obtain ⟨l, hl, p, pliable, rfl, least⟩ := least_of_nudge h
  refine ⟨l, hl, p, pliable, rfl, fun l' hl' p' pliable' back => ?_⟩
  have least := least l' hl' p' pliable'
  have less : pixel growing * p'.growth * (max p.weight 1 : Nat) < 0 :=
    Int.mul_neg_of_neg_of_pos back (by omega)
  apply Int.not_le.mp
  intro ahead
  have more : 0 ≤ pixel growing * p.growth * (max p'.weight 1 : Nat) :=
    Int.mul_nonneg ahead (by omega)
  omega

end Choice

section Growth

def growthOf (panes : Panes) (id : Nat) : Int := ((panes.get? id).map (·.growth)).getD 0

def grown (panes : Panes) (ids : List Nat) : Int := total (ids.map (growthOf panes))

theorem growthOf_of_get? {panes : Panes} {id : Nat} {p : Pane} (h : panes.get? id = some p) :
    growthOf panes id = p.growth := by
  rw [growthOf, h]
  rfl

theorem growthOf_insert (panes : Panes) (id id' : Nat) (p : Pane) :
    growthOf (panes.insert id p) id' = if id = id' then p.growth else growthOf panes id' := by
  rw [growthOf, Table.get?_insert]
  split <;> rfl

def Pane.moved (p : Pane) (n : Int) : Pane :=
  { p with size := p.size + n, growth := p.growth + n }

end Growth

section Sway

def Limits.Allows (l : Limits) (size : Int) : Prop := l.least ≤ size ∧ ∀ most ∈ l.most, size ≤ most

structure Still (limits : List Limits) (panes : Panes) : Prop where
  growth : ∀ l ∈ limits, growthOf panes l.id = 0
  within : ∀ l ∈ limits, ∀ p ∈ panes.get? l.id, p.fixed = false → p.keepsSize = false →
    l.Allows p.size

structure Swayed (ids : List Nat) (old panes : Panes) : Prop where
  others : ∀ id, id ∉ ids → panes.get? id = old.get? id
  moved : ∀ id ∈ ids, panes.get? id = (old.get? id).map (·.moved (growthOf panes id))
  bound : ∀ id ∈ ids, ∀ p, panes.get? id = some p → p.fixed = true ∨ p.keepsSize = true →
    p.growth = 0
  oneWay : (∀ id ∈ ids, 0 ≤ growthOf panes id) ∨ (∀ id ∈ ids, growthOf panes id ≤ 0)

theorem Pane.moved_zero (p : Pane) : p.moved 0 = p := by
  simp [moved]

theorem Pane.moved_moved (p : Pane) (m n : Int) : (p.moved m).moved n = p.moved (m + n) := by
  simp [moved, Int.add_assoc]

variable {growing : Bool} {limits : List Limits} {old panes panes' : Panes} {ids : List Nat}

theorem Still.swayed (still : Still limits old) : Swayed (limits.map (·.id)) old old := by
  constructor
  · exact fun _ _ => rfl
  · intro id hid
    obtain ⟨l, hl, rfl⟩ := List.mem_map.mp hid
    rw [still.growth l hl]
    cases old.get? l.id with
    | none => rfl
    | some p => exact congrArg some p.moved_zero.symm
  · intro id hid p state _
    obtain ⟨l, hl, rfl⟩ := List.mem_map.mp hid
    rw [← growthOf_of_get? state, still.growth l hl]
  · left
    intro id hid
    obtain ⟨l, hl, rfl⟩ := List.mem_map.mp hid
    exact Int.le_of_eq (still.growth l hl).symm

/-- A pane with a state is what it was, moved by what it has grown. -/
theorem Swayed.exists_moved (sway : Swayed ids old panes) {id : Nat} (known : id ∈ ids) {p : Pane}
    (state : panes.get? id = some p) : ∃ q, old.get? id = some q ∧ q.moved p.growth = p := by
  have moved := sway.moved id known
  rw [state, growthOf_of_get? state] at moved
  exact Option.map_eq_some_iff.mp moved.symm

/-- Only a pane that may move has moved. -/
theorem Swayed.free (sway : Swayed ids old panes) {id : Nat} (known : id ∈ ids) {p : Pane}
    (state : panes.get? id = some p) (stirred : p.growth ≠ 0) :
    p.fixed = false ∧ p.keepsSize = false := by
  constructor
  · cases fixed : p.fixed with
    | false => rfl
    | true => exact absurd (sway.bound id known p state (.inl fixed)) stirred
  · cases keeps : p.keepsSize with
    | false => rfl
    | true => exact absurd (sway.bound id known p state (.inr keeps)) stirred

/-- A pane within its limits that has moved one way has room to move back. -/
theorem hasRoom_of_moved {l : Limits} {p : Pane} (within : l.Allows p.size) {n : Int}
    (back : pixel growing * n < 0) : hasRoom growing l (p.moved n) = true := by
  obtain ⟨least, most⟩ := within
  have size : (p.moved n).size = p.size + n := rfl
  cases growing with
  | true =>
    simp only [pixel, if_true] at back
    simp only [hasRoom, if_true, Option.all_eq_true, decide_eq_true_eq, size]
    intro m hm
    have := most m hm
    omega
  | false =>
    simp only [pixel, Bool.false_eq_true, if_false] at back
    simp only [hasRoom, Bool.false_eq_true, if_false, decide_eq_true_eq, size]
    omega

/-- So it can take the next pixel. -/
theorem Swayed.pliable (still : Still limits old) (sway : Swayed (limits.map (·.id)) old panes)
    {l : Limits} (hl : l ∈ limits) (back : pixel growing * growthOf panes l.id < 0) :
    ∃ p, Pliable growing panes l p ∧ p.growth = growthOf panes l.id := by
  have known : l.id ∈ limits.map (·.id) := List.mem_map_of_mem hl
  cases state : panes.get? l.id with
  | none =>
    rw [growthOf, state] at back
    simp at back
  | some p =>
    have growth := growthOf_of_get? state
    rw [growth] at back
    have stirred : p.growth ≠ 0 := by
      intro zero
      simp [zero] at back
    obtain ⟨free, movable⟩ := sway.free known state stirred
    obtain ⟨q, before, hq⟩ := sway.exists_moved known state
    have within : l.Allows q.size :=
      still.within l hl q before (hq ▸ free : (q.moved p.growth).fixed = false)
        (hq ▸ movable : (q.moved p.growth).keepsSize = false)
    exact ⟨p, ⟨state, free, movable, hq ▸ hasRoom_of_moved within back⟩, growth.symm⟩

theorem pixel_mul_add (growing : Bool) (n : Int) :
    pixel growing * (n + pixel growing) = pixel growing * n + 1 := by
  cases growing <;> simp only [pixel, Bool.false_eq_true, if_false, if_true] <;> omega

/-- The two ways to move, told from the one in which the next pixel goes. -/
theorem oneWay_iff (growing : Bool) :
    ((∀ id ∈ ids, 0 ≤ growthOf panes id) ∨ (∀ id ∈ ids, growthOf panes id ≤ 0)) ↔
      (∀ id ∈ ids, 0 ≤ pixel growing * growthOf panes id) ∨
        (∀ id ∈ ids, pixel growing * growthOf panes id ≤ 0) := by
  cases growing with
  | true => simp [pixel]
  | false => simp [pixel, or_comm]

/-- The pane that takes the next pixel moves the way that all have moved, or back. -/
theorem Swayed.oneWay_nudge (still : Still limits old)
    (sway : Swayed (limits.map (·.id)) old panes) (h : nudge? growing limits panes = some panes') :
    (∀ id ∈ limits.map (·.id), 0 ≤ growthOf panes' id) ∨
      (∀ id ∈ limits.map (·.id), growthOf panes' id ≤ 0) := by
  obtain ⟨l, hl, p, pliable, rfl, least⟩ := exists_of_nudge h
  have growth := growthOf_of_get? pliable.state
  have pushed : (p.nudge growing).growth = p.growth + pixel growing := rfl
  have oneWay := (oneWay_iff growing).mp sway.oneWay
  rw [oneWay_iff growing]
  simp only [growthOf_insert, pushed]
  by_cases ahead : ∀ id ∈ limits.map (·.id), 0 ≤ pixel growing * growthOf panes id
  · left
    intro id known
    split
    · have := ahead l.id (List.mem_map_of_mem hl)
      rw [pixel_mul_add, ← growth]
      omega
    · exact ahead id known
  · -- some pane has moved the other way, so the one that takes the pixel has
    have behind := oneWay.resolve_left ahead
    right
    simp only [List.forall_mem_map, not_forall] at ahead
    obtain ⟨l', hl', back⟩ := ahead
    obtain ⟨p', pliable', growth'⟩ := sway.pliable still hl' (Int.not_le.mp back)
    have back' := least l' hl' p' pliable' (growth' ▸ Int.not_le.mp back)
    intro id known
    split
    · rw [pixel_mul_add]
      omega
    · exact behind id known

theorem Swayed.nudge (still : Still limits old) (sway : Swayed (limits.map (·.id)) old panes)
    (h : nudge? growing limits panes = some panes') :
    Swayed (limits.map (·.id)) old panes' := by
  have oneWay := sway.oneWay_nudge still h
  obtain ⟨l, hl, p, pliable, rfl⟩ := pliable_of_nudge h
  have hid : l.id ∈ limits.map (·.id) := List.mem_map_of_mem hl
  constructor
  · intro id fresh
    have ne : l.id ≠ id := fun e => fresh (e ▸ hid)
    rw [Table.get?_insert, if_neg ne, sway.others id fresh]
  · intro id known
    rw [Table.get?_insert, growthOf_insert]
    by_cases same : l.id = id
    · subst same
      obtain ⟨q, before, hq⟩ := sway.exists_moved hid pliable.state
      rw [if_pos rfl, if_pos rfl, before, Option.map_some]
      show some (p.moved (pixel growing)) = some (q.moved (p.growth + pixel growing))
      rw [← Pane.moved_moved, hq]
    · rw [if_neg same, if_neg same, sway.moved id known]
  · intro id known q state stuck
    rw [Table.get?_insert] at state
    by_cases same : l.id = id
    · rw [if_pos same] at state
      cases state
      rcases stuck with fixed | keeps
      · exact absurd (pliable.free.symm.trans fixed) nofun
      · exact absurd (pliable.movable.symm.trans keeps) nofun
    · rw [if_neg same] at state
      exact sway.bound id known q state stuck
  · exact oneWay

theorem Swayed.distribute (still : Still limits old)
    (sway : Swayed (limits.map (·.id)) old panes) (amount : Int) :
    Swayed (limits.map (·.id)) old (distribute limits panes amount).1 :=
  pour_keeps (fun _ _ hn h => Swayed.nudge still h hn) _ sway

/-- What the panes have grown together tells the way that each of them has moved. -/
theorem Swayed.signs (sway : Swayed ids old panes) :
    (0 ≤ grown panes ids → ∀ id ∈ ids, 0 ≤ growthOf panes id) ∧
      (grown panes ids ≤ 0 → ∀ id ∈ ids, growthOf panes id ≤ 0) := by
  rcases sway.oneWay with up | down
  · constructor
    · exact fun _ => up
    · intro none id hid
      have := le_total_of_mem (List.forall_mem_map.mpr up) (List.mem_map_of_mem hid)
      exact Int.le_trans this none
  · constructor
    · intro none id hid
      have := total_le_of_mem (List.forall_mem_map.mpr down) (List.mem_map_of_mem hid)
      exact Int.le_trans none this
    · exact fun _ => down

theorem Swayed.sizeOf_eq (sway : Swayed ids old panes) {id : Nat} (h : id ∈ ids) :
    sizeOf panes id = sizeOf old id + growthOf panes id := by
  have moved := sway.moved id h
  cases before : old.get? id with
  | none =>
    rw [before, Option.map_none] at moved
    simp [sizeOf, growthOf, moved, before]
  | some p =>
    rw [before] at moved
    rw [sizeOf, moved, sizeOf, before]
    rfl

/-- The panes take as much space as they did and what they have grown. -/
theorem Swayed.used_eq (sway : Swayed ids old panes) :
    used panes ids = used old ids + grown panes ids := by
  have sizes : ids.map (sizeOf panes) = ids.map fun id => sizeOf old id + growthOf panes id :=
    List.map_congr_left fun id h => sway.sizeOf_eq h
  rw [used, sizes, total_map_add]
  rfl

/-- If the panes together have not grown, none of them has moved at all. -/
theorem Swayed.get?_eq (sway : Swayed ids old panes) (none : grown panes ids = 0) (id : Nat) :
    panes.get? id = old.get? id := by
  by_cases known : id ∈ ids
  · have up := sway.signs.1 (Int.le_of_eq none.symm) id known
    have down := sway.signs.2 (Int.le_of_eq none) id known
    rw [sway.moved id known, Int.le_antisymm down up]
    cases old.get? id with
    | none => rfl
    | some p => exact congrArg some p.moved_zero
  · exact sway.others id known

/-- If the panes together have moved, one of them has, and it can move back. -/
theorem Swayed.moves_back (still : Still limits old)
    (sway : Swayed (limits.map (·.id)) old panes)
    (back : pixel growing * grown panes (limits.map (·.id)) < 0) :
    nudge? growing limits panes ≠ none := by
  rw [Ne, nudge?_eq_none_iff]
  intro stuck
  have ahead : ∀ l ∈ limits, 0 ≤ pixel growing * growthOf panes l.id := by
    intro l hl
    apply Int.not_lt.mp
    intro hback
    obtain ⟨p, pliable, -⟩ := sway.pliable still hl hback
    exact stuck l hl p pliable
  rw [grown, ← total_map_mul] at back
  have := total_nonneg (List.forall_mem_map.mpr
    (List.forall_mem_map.mpr (List.forall_mem_map.mpr ahead)))
  exact Int.not_lt.mpr this back

/-- The loop does not end before it has undone what the panes have grown together. -/
theorem Swayed.distribute_back (still : Still limits old)
    (sway : Swayed (limits.map (·.id)) old panes) {amount : Int}
    (back : grown (Splitter.distribute limits panes amount).1 (limits.map (·.id)) +
      (Splitter.distribute limits panes amount).2 = 0) (id : Nat) :
    (Splitter.distribute limits panes amount).1.get? id = old.get? id := by
  have after := sway.distribute still amount
  rcases distribute_rests limits panes amount with none | ⟨large, stuck⟩ | ⟨small, stuck⟩
  · exact after.get?_eq (by omega) id
  · refine absurd stuck (after.moves_back still ?_)
    simp only [pixel, if_true]
    omega
  · refine absurd stuck (after.moves_back still ?_)
    simp only [pixel, Bool.false_eq_true, if_false]
    omega

end Sway

section Passes

def resized (s : Splitter) (children : List Item) : List Rect → Splitter
  | [] => s
  | bounds :: rest => (s.settle children bounds false).1.resized children rest

structure AtRest (s : Splitter) (children : List Item) (bounds : Rect) : Prop where
  lastShown : s.lastShown = (shown children).map (·.id)
  still : Still (s.limits children) s.panes
  fills : used s.panes ((shown children).map (·.id)) = s.paneSpace children bounds

structure Sways (children : List Item) (s s' : Splitter) : Prop where
  axis : s'.axis = s.axis
  handleWidth : s'.handleWidth = s.handleWidth
  lastShown : s'.lastShown = (shown children).map (·.id)
  panes : Swayed ((shown children).map (·.id)) s.panes s'.panes

variable {s s' : Splitter} {children : List Item}

theorem AtRest.sways {bounds : Rect} (rest : s.AtRest children bounds) :
    Sways children s s :=
  ⟨rfl, rfl, rest.lastShown, limits_map_id s children ▸ rest.still.swayed⟩

/-- A pass that shows the same panes as the one before starts from their sizes. -/
theorem rebased_eq_self (h : s.lastShown = (shown children).map (·.id)) (bounds : Rect) :
    s.rebased children bounds false = s := by
  simp [rebased, h]

theorem Sways.limits_eq (sways : Sways children s s') : s'.limits children = s.limits children := by
  rw [Splitter.limits, Splitter.limits, sways.axis]

theorem Sways.settle (still : Still (s.limits children) s.panes) (sways : Sways children s s')
    (bounds : Rect) : Sways children s (s'.settle children bounds false).1 := by
  have kept := rebased_eq_self sways.lastShown bounds
  have limits := sways.limits_eq
  have ids := limits_map_id s children
  constructor
  · exact (s'.settle_axis children bounds false).trans sways.axis
  · exact (s'.settle_handleWidth children bounds false).trans sways.handleWidth
  · exact s'.rebased_lastShown bounds false
  · rw [settle_panes, kept, limits, ← ids]
    exact Swayed.distribute still (ids.symm ▸ sways.panes) _

theorem Sways.resized (still : Still (s.limits children) s.panes) (sways : Sways children s s')
    (bs : List Rect) : Sways children s (s'.resized children bs) := by
  induction bs generalizing s' with
  | nil => exact sways
  | cons bounds bs ih => exact ih (sways.settle still bounds)

/-- A pass in the space of the first splitter undoes all that the panes have moved. -/
theorem Sways.settle_back {bounds bounds' : Rect} (rest : s.AtRest children bounds)
    (distinct : ((shown children).map (·.id)).Nodup) (sways : Sways children s s')
    (same : s.paneSpace children bounds' = s.paneSpace children bounds) (id : Nat) :
    (s'.settle children bounds' false).1.panes.get? id = s.panes.get? id := by
  have after := sways.settle rest.still bounds'
  have kept := rebased_eq_self sways.lastShown bounds'
  have limits := sways.limits_eq
  have ids := limits_map_id s children
  have space : s'.paneSpace children bounds' = s.paneSpace children bounds' := by
    rw [paneSpace, paneSpace, sways.axis, sways.handleWidth]
  have left := s'.settle_left bounds' false distinct
  have taken := after.panes.used_eq
  have fills := rest.fills
  have back : grown (s'.settle children bounds' false).1.panes ((shown children).map (·.id)) +
      (s'.settle children bounds' false).2 = 0 := by
    omega
  rw [settle_eq, kept, limits, ← ids] at back
  rw [settle_panes, kept, limits]
  exact Swayed.distribute_back rest.still (ids.symm ▸ sways.panes) back id

theorem resized_append (s : Splitter) (children : List Item) (bs bs' : List Rect) :
    s.resized children (bs ++ bs') = (s.resized children bs).resized children bs' := by
  induction bs generalizing s with
  | nil => rfl
  | cons bounds bs ih => exact ih _

/-- Passes over the same children in any bounds never leave one pane larger than it was and another
one smaller. As soon as the space is what it was at first, each pane is as it was. -/
theorem resized_back {bounds : Rect} (rest : s.AtRest children bounds)
    (distinct : ((shown children).map (·.id)).Nodup) (bs : List Rect) :
    let ids := (shown children).map (·.id)
    let panes := (s.resized children bs).panes
    ((0 ≤ grown panes ids → ∀ id ∈ ids, 0 ≤ growthOf panes id) ∧
      (grown panes ids ≤ 0 → ∀ id ∈ ids, growthOf panes id ≤ 0)) ∧
    ∀ bounds', s.paneSpace children bounds' = s.paneSpace children bounds → ∀ id,
      (s.resized children (bs ++ [bounds'])).panes.get? id = s.panes.get? id := by
  have sways := rest.sways.resized rest.still bs
  constructor
  · exact sways.panes.signs
  · intro bounds' same id
    rw [resized_append]
    exact sways.settle_back rest distinct same id

def thirds : Splitter :=
  ⟨.horizontal, 4, ⟨[(1, { Pane.fresh with size := 30 }),
    (3, { Pane.fresh with size := 70, weight := 3 })]⟩, [1, 3]⟩

def limitedPanes : List Item :=
  [{ Item.plain 1 with flags := .resizable }, Item.plain 2,
    { Item.plain 3 with min := ⟨50, 0⟩, max := ⟨90, 0⟩, flags := .resizable }]

theorem thirds_back : thirds.AtRest limitedPanes ⟨0, 0, 104, 10⟩ ∧
    (thirds.resized limitedPanes [⟨0, 0, 10, 10⟩, ⟨0, 0, 300, 10⟩]).panes.get? 3 =
      some { Pane.fresh with size := 90, weight := 3, growth := 20 } ∧
    ∀ id, (thirds.resized limitedPanes [⟨0, 0, 10, 10⟩, ⟨0, 0, 300, 10⟩, ⟨5, 5, 104, 40⟩]).panes.get?
      id = thirds.panes.get? id := by
  have rest : thirds.AtRest limitedPanes ⟨0, 0, 104, 10⟩ := by
    refine ⟨rfl, ⟨by decide, ?_⟩, by decide⟩
    unfold Limits.Allows
    decide
  have back := (resized_back rest (by decide) [⟨0, 0, 10, 10⟩, ⟨0, 0, 300, 10⟩]).2
  exact ⟨rest, by decide, back ⟨5, 5, 104, 40⟩ rfl⟩

def halves : Splitter := ⟨.horizontal, 4, ⟨[(1, { Pane.fresh with size := 50 })]⟩, [1, 1]⟩

def doubled : List Item :=
  [{ Item.plain 1 with flags := .resizable }, Item.plain 2,
    { Item.plain 1 with flags := .resizable }]

/-- With an item shown twice each pixel counts for two, and what is handed out one way and back does
not add up. -/
theorem doubled_shifted :
    ((Layout.columns.after [.attach]).passed ⟨false, doubled, ⟨0, 0, 104, 30⟩⟩).mode =
      .splitter halves ∧
    halves.AtRest doubled ⟨0, 0, 104, 30⟩ ∧
    (halves.resized doubled [⟨0, 0, 106, 30⟩, ⟨0, 0, 104, 30⟩]).panes.get? 1 =
      some { Pane.fresh with size := 48, growth := -2 } := by
  refine ⟨rfl, ⟨rfl, ⟨by decide, ?_⟩, by decide⟩, by decide⟩
  unfold Limits.Allows
  decide

end Passes

end PixelLayout.Splitter
