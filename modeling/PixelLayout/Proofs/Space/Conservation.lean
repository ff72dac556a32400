import PixelLayout.Proofs.Space.Bounds

/-!
# When all of the space is handed out

The extents and gaps of a request with enough space add up to the space available exactly when
its excess is within what the queue absorbs. That bound is found from the last turn backwards: a
turn passes on at most `k` of an excess that neither exceeds `k` by more than the room of its
demand nor leaves more than `k` to the weight behind it. It can be less than the room of all
demands together, because a demand with much room per unit of weight that is served early leaves
more behind than those after it have room for. Where every tier serves its demands by ascending
room per unit of weight, the room of all demands is the bound.
-/

set_option autoImplicit false

namespace PixelLayout.Space

def Within (n : Int) (bound : Option Int) : Prop := ∀ m ∈ bound, n ≤ m

@[simp] theorem within_none (n : Int) : Within n none := by simp [Within]

@[simp] theorem within_some (n m : Int) : Within n (some m) ↔ n ≤ m := by simp [Within]

namespace Turn

def limit (t : Turn) (k : Int) : Option Int :=
  if t.weightLeft ≤ t.demand.weight then t.demand.room.map (k + ·)
  else
    let byWeight := k * t.weightLeft / (t.weightLeft - t.demand.weight)
    match t.demand.room with
    | none => some byWeight
    | some c => some (min byWeight (k + c))

variable {t : Turn} {e : Int}

theorem sub_share_le_iff (ht : t.Sound) (he : 0 ≤ e) (k : Int) :
    e - t.share e ≤ k ↔ e * (t.weightLeft - t.demand.weight) ≤ k * t.weightLeft := by
  have hpos : (0 : Int) < t.weightLeft := by have := ht.weightLeft_pos; omega
  have hdiv := Int.le_ediv_iff_mul_le (a := e - k) (b := e * t.demand.weight) hpos
  rw [share_eq_ediv he]
  constructor
  · intro h
    have := hdiv.mp (by omega)
    linarith
  · intro h
    have := hdiv.mpr (by linarith)
    omega

theorem sub_clip_le_iff (d : Demand) (n k : Int) :
    e - d.clip n ≤ k ↔ e - n ≤ k ∧ Within e (d.room.map (k + ·)) := by
  unfold Demand.clip
  cases d.room with
  | none => simp
  | some c =>
    simp only [Option.map_some, within_some]
    omega

theorem passed_le_iff (ht : t.Sound) (he : 0 ≤ e) {k : Int} (hk : 0 ≤ k) :
    t.passed e ≤ k ↔ Within e (t.limit k) := by
  rw [passed, growth, sub_clip_le_iff, limit]
  split_ifs with hlast
  · rw [share_of_last (le_antisymm hlast ht.weight_le), sub_self]
    exact and_iff_right hk
  · have hpos : (0 : Int) < t.weightLeft - t.demand.weight := by omega
    rw [sub_share_le_iff ht he, ← Int.le_ediv_iff_mul_le hpos]
    cases t.demand.room with
    | none => simp
    | some c => simp

theorem limit_nonneg (ht : t.Sound) {k : Int} (hk : 0 ≤ k) : ∀ l ∈ t.limit k, 0 ≤ l := by
  have hr := t.demand.room_nonneg ht.valid
  intro l hl
  unfold limit at hl
  split_ifs at hl with hlast
  · obtain ⟨c, hc, rfl⟩ := Option.map_eq_some_iff.mp hl
    exact add_nonneg hk (hr c hc)
  · have hw : 0 ≤ k * t.weightLeft / (t.weightLeft - t.demand.weight) :=
      Int.ediv_nonneg (mul_nonneg hk (Int.natCast_nonneg _)) (by omega)
    cases hroom : t.demand.room with
    | none =>
      simp only [hroom, Option.mem_def, Option.some.injEq] at hl
      exact hl ▸ hw
    | some c =>
      simp only [hroom, Option.mem_def, Option.some.injEq] at hl
      exact hl ▸ le_min hw (add_nonneg hk (hr c hroom))

theorem limit_eq_room {k : Int} (hnone : t.demand.room = none → t.weightLeft ≤ t.demand.weight)
    (hsome : ∀ c ∈ t.demand.room, c * (t.weightLeft - t.demand.weight) ≤ k * t.demand.weight) :
    t.limit k = t.demand.room.map (k + ·) := by
  unfold limit
  split_ifs with hlast
  · rfl
  · cases hroom : t.demand.room with
    | none => exact absurd (hnone hroom) hlast
    | some c =>
      have hpos : (0 : Int) < t.weightLeft - t.demand.weight := by omega
      have hc := hsome c hroom
      have hle : k + c ≤ k * t.weightLeft / (t.weightLeft - t.demand.weight) := by
        rw [Int.le_ediv_iff_mul_le hpos]
        linarith
      simp only [min_eq_right hle, Option.map_some]

end Turn

def absorbable : List Turn → Option Int
  -- None says that any excess is handed out to the last unit.
  | [] => some 0
  | t :: ts => (absorbable ts).bind t.limit

theorem absorbable_nonneg {ts : List Turn} (hts : ∀ t ∈ ts, t.Sound) :
    ∀ k ∈ absorbable ts, 0 ≤ k := by
  induction ts with
  | nil => simp [absorbable]
  | cons t ts ih =>
    intro k hk
    obtain ⟨l, hl, hk⟩ := Option.bind_eq_some_iff.mp hk
    exact Turn.limit_nonneg (hts t (by simp)) (ih (fun u hu => hts u (by simp [hu])) l hl) k hk

theorem leftover_eq_zero_iff {e : Int} {ts : List Turn} (hts : ∀ t ∈ ts, t.Sound) (he : 0 ≤ e) :
    leftover e ts = 0 ↔ Within e (absorbable ts) := by
  induction ts generalizing e with
  | nil =>
    simp only [leftover, absorbable, within_some]
    omega
  | cons t ts ih =>
    obtain ⟨ht, hts⟩ := List.forall_mem_cons.mp hts
    rw [leftover, ih hts (Turn.passed_nonneg ht he), absorbable]
    cases hk : absorbable ts with
    | none => simp
    | some k =>
      rw [within_some, Option.bind_some]
      exact Turn.passed_le_iff ht he (absorbable_nonneg hts k hk)

def roomOf : List Demand → Option Int
  | [] => some 0
  | d :: ds => (roomOf ds).bind fun k => d.room.map (k + ·)

theorem roomOf_nonneg {ds : List Demand} (hds : ∀ d ∈ ds, d.Valid) : ∀ k ∈ roomOf ds, 0 ≤ k := by
  induction ds with
  | nil => simp [roomOf]
  | cons d ds ih =>
    intro k hk
    obtain ⟨l, hl, hk⟩ := Option.bind_eq_some_iff.mp hk
    obtain ⟨c, hc, rfl⟩ := Option.map_eq_some_iff.mp hk
    exact add_nonneg (ih (fun c hc => hds c (by simp [hc])) l hl)
      (Demand.room_nonneg (hds d (by simp)) c hc)

theorem roomOf_eq_some {ds : List Demand} {k : Int} (h : roomOf ds = some k) :
    (∀ d ∈ ds, d.max ≠ none) ∧
      k = total (ds.filterMap (·.max)) - total (ds.map (·.min)) := by
  induction ds generalizing k with
  | nil => simp_all [roomOf]
  | cons d ds ih =>
    obtain ⟨l, hl, hk⟩ := Option.bind_eq_some_iff.mp h
    obtain ⟨c, hc, rfl⟩ := Option.map_eq_some_iff.mp hk
    obtain ⟨m, hm, rfl⟩ := Option.map_eq_some_iff.mp hc
    obtain ⟨hbounded, rfl⟩ := ih hl
    constructor
    · simpa [hm] using hbounded
    · simp only [List.filterMap_cons, List.map_cons, total_cons, hm]
      omega

def Tighter (a b : Demand × Nat) : Prop :=
  ∀ c ∈ b.1.room, ∃ c' ∈ a.1.room, c' * b.1.weight ≤ c * a.1.weight

/-- The room of demands that are each no tighter than one with room `c` and weight `w`, and of
any behind them, is at least in proportion to their weights. -/
theorem weight_mul_le_room {c : Int} {w : Nat} {ds : List (Demand × Nat)} {es : List Demand}
    {k : Int} (hds : ∀ d ∈ ds, ∀ c' ∈ d.1.room, c * d.1.weight ≤ c' * w)
    (hes : ∀ e ∈ es, e.Valid) (hk : roomOf (ds.map (·.1) ++ es) = some k) :
    c * totalWeight (ds.map (·.1.weight)) ≤ k * w := by
  induction ds generalizing k with
  | nil =>
    have := roomOf_nonneg hes k hk
    simpa using mul_nonneg this (Int.natCast_nonneg w)
  | cons d ds ih =>
    obtain ⟨l, hl, hk⟩ := Option.bind_eq_some_iff.mp hk
    obtain ⟨c', hc', rfl⟩ := Option.map_eq_some_iff.mp hk
    have hd := hds d (by simp) c' hc'
    have := ih (fun e he => hds e (by simp [he])) hl
    simp only [List.map_cons, totalWeight_cons]
    push_cast
    linarith

/-- Turns that are served by ascending room per unit of weight absorb as much as all their
demands have room for. -/
theorem absorbable_of_tighter {ds : List (Demand × Nat)} {us : List Turn}
    (hds : ds.Pairwise Tighter) (hus : ∀ u ∈ us, u.Sound)
    (h : absorbable us = roomOf (us.map (·.demand))) :
    absorbable (turns ds ++ us) = roomOf (ds.map (·.1) ++ us.map (·.demand)) := by
  induction ds with
  | nil => exact h
  | cons d ds ih =>
    obtain ⟨hd, hds⟩ := List.pairwise_cons.mp hds
    rw [turns, List.cons_append, absorbable, ih hds, List.map_cons, List.cons_append, roomOf]
    cases hk : roomOf (ds.map (·.1) ++ us.map (·.demand)) with
    | none => rfl
    | some k =>
      have hbounded := (roomOf_eq_some hk).1
      rw [Option.bind_some, Option.bind_some]
      apply Turn.limit_eq_room
      · intro hnone
        cases ds with
        | nil => simp
        | cons e ds =>
          -- an unbounded demand is no tighter than a bounded one behind it
          obtain ⟨m, hm⟩ := Option.ne_none_iff_exists'.mp (hbounded e.1 (by simp))
          obtain ⟨c, hc, -⟩ := hd e (by simp) (m - e.1.min) (by simp [Demand.room, hm])
          simp only [hnone] at hc
          cases hc
      · intro c hc
        have hbehind : ∀ e ∈ ds, ∀ c' ∈ e.1.room, c * e.1.weight ≤ c' * d.1.weight := by
          intro e he c' hc'
          obtain ⟨c'', hc'', hle⟩ := hd e he c' hc'
          rwa [Option.mem_unique hc hc'']
        have hvalid : ∀ e ∈ us.map (·.demand), e.Valid := by
          intro e he
          obtain ⟨u, hu, rfl⟩ := List.mem_map.mp he
          exact (hus u hu).valid
        have hrest := weight_mul_le_room hbehind hvalid hk
        push_cast
        simpa using hrest

namespace Request

variable {r : Request}

def CanAbsorb (r : Request) : Prop :=
  (∃ d ∈ r.demands, d.max = none) ∨
    r.available ≤ total (r.demands.filterMap (·.max)) + r.gaps

theorem within_room (h : r.CanAbsorb) :
    Within r.opening.excess (roomOf (r.queue.map (·.demand))) := by
  intro k hk
  obtain ⟨hbounded, rfl⟩ := roomOf_eq_some hk
  have hperm := r.queue_demands_perm
  rw [total_perm (hperm.filterMap _), total_perm (hperm.map _)]
  rcases h with ⟨d, hd, hnone⟩ | hle
  · exact absurd hnone (hbounded d (hperm.mem_iff.mpr hd))
  · simp only [opening, Account.excess, minimums]
    omega

theorem absorbable_tiers (hr : r.Valid) (ht : ∀ tier, (r.ranked tier).Pairwise Tighter)
    (tiers : List Tier) :
    absorbable (tiers.flatMap fun tier => turns (r.ranked tier)) =
      roomOf ((tiers.flatMap fun tier => turns (r.ranked tier)).map (·.demand)) := by
  induction tiers with
  | nil => rfl
  | cons tier tiers ih =>
    have hus : ∀ u ∈ tiers.flatMap fun tier => turns (r.ranked tier), u.Sound := by
      intro u hu
      obtain ⟨other, -, hu⟩ := List.mem_flatMap.mp hu
      exact ranked_sound hr other u hu
    have hdemands : (turns (r.ranked tier)).map (·.demand) = (r.ranked tier).map (·.1) := by
      have h := congrArg (List.map Prod.fst) (turns_served (r.ranked tier))
      rwa [List.map_map] at h
    rw [List.flatMap_cons, absorbable_of_tighter (ht tier) hus ih, List.map_append, hdemands]

/-- All of the space is handed out exactly when the excess is absorbable, and so it is whenever
the demands have room for it and each tier is served by ascending room per unit of weight. -/
theorem conserved_iff (r : Request) (hr : r.Valid) (hf : r.minimums + r.gaps ≤ r.available) :
    (total r.sizes + r.gaps = r.available ↔ Within r.opening.excess (absorbable r.queue)) ∧
    ((∀ tier, (r.ranked tier).Pairwise Tighter) → r.CanAbsorb →
      total r.sizes + r.gaps = r.available) := by
  have hf := feasible_iff_le.mpr hf
  have hiff : total r.sizes + r.gaps = r.available ↔
      Within r.opening.excess (absorbable r.queue) := by
    rw [← leftover_eq_zero_iff (queue_sound hr) (feasible_iff.mp hf), total_sizes hr hf]
    simp only [opening, Account.excess]
    omega
  refine ⟨hiff, fun ht hroom => hiff.mpr ?_⟩
  rw [queue, absorbable_tiers hr ht]
  exact within_room hroom

theorem equal_minimums_conserved :
    let r : Request := ⟨[⟨0, some 90, 1, .regular⟩, ⟨0, some 10, 1, .regular⟩], 100, 0⟩
    r.Valid ∧ r.minimums + r.gaps ≤ r.available ∧ (∀ tier, (r.ranked tier).Pairwise Tighter) ∧
    r.CanAbsorb ∧ absorbable r.queue = some 100 ∧ Within r.opening.excess (absorbable r.queue) ∧
    total r.sizes + r.gaps = r.available := by
  intro r
  have hr : r.Valid := by decide
  have hf : r.minimums + r.gaps ≤ r.available := by decide
  have ht : ∀ tier, (r.ranked tier).Pairwise Tighter := by
    have hgreedy : r.ranked .greedy = [] := by cbv
    have hspacer : r.ranked .greedySpacer = [] := by cbv
    have hregular : r.ranked .regular =
        [(⟨0, some 10, 1, .regular⟩, 1), (⟨0, some 90, 1, .regular⟩, 0)] := by cbv
    intro tier
    cases tier with
    | greedy => simp [hgreedy]
    | greedySpacer => simp [hspacer]
    | regular => simp [hregular, Tighter, Demand.room, Demand.weight]
  have hroom : r.CanAbsorb := .inr (by decide)
  obtain ⟨hiff, htighter⟩ := conserved_iff r hr hf
  have hall := htighter ht hroom
  exact ⟨hr, hf, ht, hroom, by cbv, hiff.mp hall, hall⟩

def roomiestFirst : Request where
  demands := [⟨20, some 90, 1, .regular⟩, ⟨0, some 10, 1, .regular⟩]
  available := 100
  spacing := 0

theorem roomiest_first_not_conserved :
    roomiestFirst.Valid ∧ 0 ≤ roomiestFirst.spacing ∧ roomiestFirst.demands ≠ [] ∧
    roomiestFirst.minimums + roomiestFirst.gaps ≤ roomiestFirst.available ∧
    roomiestFirst.CanAbsorb ∧ roomiestFirst.sizes = [60, 10] ∧
    total roomiestFirst.sizes + roomiestFirst.gaps ≠ roomiestFirst.available ∧
    roomiestFirst.slack = 30 := by
  have hs : roomiestFirst.sizes = [60, 10] := by cbv
  refine ⟨by decide, by decide, by decide, by decide, .inr (by decide), hs, ?_, by cbv⟩
  rw [hs]
  decide

end Request

end PixelLayout.Space
