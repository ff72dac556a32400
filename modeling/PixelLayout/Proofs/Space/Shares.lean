import Mathlib
import PixelLayout.Proofs.Space.Bounds

/-!
# Shares in proportion to weight

What a tier starts with is shared out among its demands by weight. Each part is cut off, and a
demand may have room for less than its part; both leave more to those behind it. So along the tier
the excess never falls behind the weight left, and every demand is offered at least the part that
its weight has of all that the tier started with. Where all are unbounded and weigh the same, the
excess stays between a number of units for each and one unit more.
-/

set_option autoImplicit false

namespace PixelLayout.Space

namespace Demand

theorem clip_of_unbounded {d : Demand} (h : d.max = none) (n : Int) : d.clip n = n := by
  simp only [clip, room, h, Option.map_none]

theorem min_add_clip {d : Demand} {m : Int} (h : m ∈ d.max) (n : Int) :
    d.min + d.clip n = Min.min m (d.min + n) := by
  have max : d.max = some m := h
  simp only [clip, room, max, Option.map_some]
  omega

end Demand

namespace Turn

variable {t : Turn} {e : Int}

theorem share_mul_le (ht : t.Sound) (he : 0 ≤ e) :
    t.share e * t.weightLeft ≤ e * t.demand.weight := by
  have left := ht.weightLeft_pos
  rw [share_eq_ediv he]
  exact Int.ediv_mul_le _ (by omega)

section Proportional

/-! Of a tier that starts with the excess `whole` and weighs `weight`, a turn finds at least the
part that the weight left has. -/

variable {whole : Int} {weight : Nat} (h : whole * t.weightLeft ≤ e * weight)

include h

theorem part_le_share (ht : t.Sound) (he : 0 ≤ e) (hw : 0 < weight) :
    whole * t.demand.weight / weight ≤ t.share e := by
  have left := ht.weightLeft_pos
  have cut : whole * t.demand.weight / weight * weight ≤ whole * t.demand.weight :=
    Int.ediv_mul_le _ (by omega)
  rw [share_eq_ediv he]
  apply Int.le_ediv_of_mul_le (by omega)
  apply le_of_mul_le_mul_right _ (show (0 : Int) < weight by omega)
  calc whole * t.demand.weight / weight * t.weightLeft * weight
      = whole * t.demand.weight / weight * weight * t.weightLeft := by ring
    _ ≤ whole * t.demand.weight * t.weightLeft :=
        mul_le_mul_of_nonneg_right cut (Int.natCast_nonneg _)
    _ = whole * t.weightLeft * t.demand.weight := by ring
    _ ≤ e * weight * t.demand.weight := mul_le_mul_of_nonneg_right h (Int.natCast_nonneg _)
    _ = e * t.demand.weight * weight := by ring

/-- What is passed on is still in proportion to the weight left behind the turn. -/
theorem passed_proportional (ht : t.Sound) (he : 0 ≤ e) :
    whole * (t.weightLeft - t.demand.weight) ≤ t.passed e * weight := by
  have left := ht.weightLeft_pos
  have behind : (0 : Int) ≤ t.weightLeft - t.demand.weight := by
    have := ht.weight_le
    omega
  have kept : e - t.share e ≤ t.passed e := by
    have : t.growth e ≤ t.share e := t.demand.clip_le _
    rw [passed]
    omega
  have rest : e * (t.weightLeft - t.demand.weight) ≤ t.passed e * t.weightLeft := by
    have := share_mul_le ht he
    have := mul_le_mul_of_nonneg_right kept (Int.natCast_nonneg t.weightLeft)
    linarith
  apply le_of_mul_le_mul_right _ (show (0 : Int) < t.weightLeft by omega)
  calc whole * (t.weightLeft - t.demand.weight) * t.weightLeft
      = whole * t.weightLeft * (t.weightLeft - t.demand.weight) := by ring
    _ ≤ e * weight * (t.weightLeft - t.demand.weight) := mul_le_mul_of_nonneg_right h behind
    _ = e * (t.weightLeft - t.demand.weight) * weight := by ring
    _ ≤ t.passed e * t.weightLeft * weight :=
        mul_le_mul_of_nonneg_right rest (Int.natCast_nonneg _)
    _ = t.passed e * weight * t.weightLeft := by ring

end Proportional

theorem share_of_equals {n : Nat} (he : 0 ≤ e) (h : t.weightLeft = n * t.demand.weight) :
    t.share e = e / n := by
  have := t.demand.weight_pos
  rw [share_eq_ediv he, h, Nat.cast_mul]
  exact Int.mul_ediv_mul_of_pos_left _ _ (by omega)

end Turn

def Level (unit e : Int) (n : Nat) : Prop := unit * n ≤ e ∧ e ≤ (unit + 1) * n

theorem Level.ediv (e : Int) {n : Nat} (hn : 0 < n) : Level (e / n) e n :=
  ⟨Int.ediv_mul_le e (by omega), (Int.lt_ediv_add_one_mul_self e (by omega)).le⟩

theorem Level.share {unit e : Int} {n : Nat} (h : Level unit e (n + 1)) :
    unit ≤ e / (n + 1 : Nat) ∧ e / (n + 1 : Nat) ≤ unit + 1 ∧
      Level unit (e - e / (n + 1 : Nat)) n := by
  obtain ⟨least, most⟩ := h
  have cut := Int.ediv_mul_le e (show ((n + 1 : Nat) : Int) ≠ 0 by omega)
  have next := Int.lt_ediv_add_one_mul_self e (show (0 : Int) < (n + 1 : Nat) by omega)
  have low : unit ≤ e / (n + 1 : Nat) := Int.le_ediv_of_mul_le (by omega) least
  have high : e / (n + 1 : Nat) ≤ unit + 1 := Int.ediv_le_of_le_mul (by omega) most
  refine ⟨low, high, ?_⟩
  generalize e / (n + 1 : Nat) = part at *
  unfold Level
  push_cast at *
  obtain rfl | rfl : part = unit ∨ part = unit + 1 := by omega
  · constructor <;> linarith
  · constructor <;> linarith

theorem totalWeight_of_equals {ds : List (Demand × Nat)} {weight : Nat}
    (h : ∀ d ∈ ds, d.1.weight = weight) :
    totalWeight (ds.map (·.1.weight)) = ds.length * weight := by
  induction ds with
  | nil => simp
  | cons d ds ih =>
    obtain ⟨hd, hds⟩ := List.forall_mem_cons.mp h
    rw [List.map_cons, totalWeight_cons, ih hds, hd, List.length_cons]
    ring

section Visits

variable (spacing : Int) {ds : List (Demand × Nat)} {a : Account}

/-- Every visit of a tier offers the demand the part that its weight has of the whole. -/
theorem part_le_share_of_visits {whole : Int} {weight : Nat} (hw : 0 < weight)
    (hts : ∀ t ∈ turns ds, t.Sound) (ha : 0 ≤ a.excess)
    (h : whole * totalWeight (ds.map (·.1.weight)) ≤ a.excess * weight) :
    ∀ v ∈ visits spacing a (turns ds),
      whole * v.demand.weight / weight ≤ v.turn.share v.account.excess := by
  induction ds generalizing a with
  | nil => simp [turns, visits]
  | cons d ds ih =>
    obtain ⟨ht, hts⟩ := List.forall_mem_cons.mp hts
    obtain ⟨hafter, hnonneg⟩ := after_head spacing ht ha
    intro v hv
    rcases List.mem_cons.mp hv with rfl | hv
    · exact Turn.part_le_share h ht ha hw
    · refine ih hts hnonneg ?_ v hv
      have rest := Turn.passed_proportional h ht ha
      rw [hafter]
      push_cast at rest
      simpa using rest

/-- Equal demands that are all unbounded grow by the same number of units, or by one more. -/
theorem growth_of_equals {weight : Nat} {unit : Int}
    (equal : ∀ d ∈ ds, d.1.max = none ∧ d.1.weight = weight) (hts : ∀ t ∈ turns ds, t.Sound)
    (ha : 0 ≤ a.excess) (level : Level unit a.excess ds.length) :
    ∀ v ∈ visits spacing a (turns ds),
      unit ≤ v.turn.growth v.account.excess ∧ v.turn.growth v.account.excess ≤ unit + 1 := by
  induction ds generalizing a with
  | nil => simp [turns, visits]
  | cons d ds ih =>
    obtain ⟨ht, hts⟩ := List.forall_mem_cons.mp hts
    obtain ⟨hd, hds⟩ := List.forall_mem_cons.mp equal
    obtain ⟨hafter, hnonneg⟩ := after_head spacing ht ha
    set t : Turn := ⟨d.1, d.2, d.1.weight + totalWeight (ds.map (·.1.weight))⟩
    have left : t.weightLeft = (ds.length + 1 : Nat) * t.demand.weight := by
      simp only [t, totalWeight_of_equals fun d hd => (hds d hd).2, hd.2]
      ring
    have growth : t.growth a.excess = a.excess / (ds.length + 1 : Nat) := by
      rw [Turn.growth, Turn.share_of_equals ha left, Demand.clip, Demand.room]
      simp only [t, hd.1, Option.map_none]
    obtain ⟨low, high, rest⟩ := level.share
    intro v hv
    rcases List.mem_cons.mp hv with rfl | hv
    · rw [growth]
      exact ⟨low, high⟩
    · refine ih hds hts hnonneg ?_ v hv
      rwa [hafter, Turn.passed, growth]

end Visits

theorem totalWeight_perm {ms ns : List Nat} (h : ms.Perm ns) : totalWeight ms = totalWeight ns := by
  induction h with
  | nil => rfl
  | cons m _ ih => simp [ih]
  | swap m n ns => simp only [totalWeight_cons]; omega
  | trans _ _ ih ih' => exact ih.trans ih'

theorem le_totalWeight_of_mem {n : Nat} {ns : List Nat} (h : n ∈ ns) : n ≤ totalWeight ns := by
  induction ns with
  | nil => cases h
  | cons m ns ih =>
    rw [totalWeight_cons]
    rcases List.mem_cons.mp h with rfl | h
    · omega
    · have := ih h
      omega

theorem tiers_pairwise : Tier.all.Pairwise fun a b => a.rank < b.rank := by decide

namespace Request

variable {r : Request}

/-- The excess that a tier starts with: the space less all gaps, less the extents that the tiers
ahead of it got, less its own minimums and those of the tiers behind it. -/
def tierExcess (r : Request) (tier : Tier) : Int :=
  r.available - r.gaps -
    total (List.zipWith (fun d n => if d.tier.rank < tier.rank then n else d.min) r.demands r.sizes)

def tierWeight (r : Request) (tier : Tier) : Nat :=
  totalWeight ((r.demands.filter (·.tier == tier)).map (·.weight))

theorem tier_of_mem_turns {t : Turn} {tier : Tier} (ht : t ∈ turns (r.ranked tier)) :
    t.demand.tier = tier :=
  (mem_ranked.mp (served_mem_of_mem_turns ht)).2

/-- The queue before and behind the turns of one tier. -/
theorem queue_around (r : Request) (tier : Tier) :
    ∃ ts us, r.queue = ts ++ turns (r.ranked tier) ++ us ∧
      (∀ t ∈ ts, t.demand.tier.rank < tier.rank) ∧ ∀ u ∈ us, tier.rank < u.demand.tier.rank := by
  have here : tier ∈ Tier.all := by cases tier <;> decide
  obtain ⟨ahead, behind, all⟩ := List.append_of_mem here
  have sorted := tiers_pairwise
  rw [all] at sorted
  obtain ⟨-, later, earlier⟩ := List.pairwise_append.mp sorted
  refine ⟨ahead.flatMap fun tier => turns (r.ranked tier),
    behind.flatMap fun tier => turns (r.ranked tier), by simp [queue, all], ?_, ?_⟩
  · intro t ht
    obtain ⟨other, hother, ht⟩ := List.mem_flatMap.mp ht
    rw [tier_of_mem_turns ht]
    exact earlier other hother tier List.mem_cons_self
  · intro u hu
    obtain ⟨other, hother, hu⟩ := List.mem_flatMap.mp hu
    rw [tier_of_mem_turns hu]
    exact List.rel_of_pairwise_cons later hother

def claimed (r : Request) (tier : Tier) (d : Demand × Nat) : Int :=
  if d.1.tier.rank < tier.rank then r.award d else d.1.min

theorem tierExcess_eq (r : Request) (tier : Tier) :
    r.tierExcess tier = r.available - r.gaps - total (r.queue.map (r.claimed tier ·.served)) := by
  have places := total_perm (r.queue_perm.map (r.claimed tier))
  rw [List.map_map] at places
  have placed : List.zipWith (fun d n => if d.tier.rank < tier.rank then n else d.min)
      (r.demands.zipIdx.map Prod.fst) (r.demands.zipIdx.map r.award) =
      r.demands.zipIdx.map (r.claimed tier) := by
    rw [List.zipWith_map, List.zipWith_self]
    rfl
  rw [List.zipIdx_map_fst, ← sizes_eq_map] at placed
  rw [tierExcess, placed, ← places]
  rfl

theorem total_claimed_ahead (hf : r.feasible = true) {tier : Tier} {ts : List Turn} {a : Account}
    (ahead : ∀ t ∈ ts, t.demand.tier.rank < tier.rank)
    (walked : ∀ v ∈ visits r.spacing a ts, v ∈ r.walk) :
    total (ts.map (r.claimed tier ·.served)) =
      total ((visits r.spacing a ts).map Visit.size) := by
  conv_lhs => rw [← visits_turns r.spacing a ts, List.map_map]
  refine congrArg total (List.map_congr_left fun v hv => ?_)
  have turn : v.turn ∈ ts := by
    rw [← visits_turns r.spacing a ts]
    exact List.mem_map_of_mem hv
  exact (if_pos (ahead _ turn)).trans (award_of_visit hf (walked v hv))

theorem total_claimed_behind {tier : Tier} {ts : List Turn}
    (behind : ∀ t ∈ ts, tier.rank ≤ t.demand.tier.rank) :
    total (ts.map (r.claimed tier ·.served)) = total (ts.map (·.demand.min)) := by
  exact congrArg total (List.map_congr_left fun t ht => if_neg (Nat.not_lt.mpr (behind t ht)))

/-- The part of the walk that serves a tier starts with the excess of the tier. -/
theorem exists_tier_walk (hr : r.Valid) (hf : r.feasible = true) (tier : Tier) :
    ∃ b : Account, b.excess = r.tierExcess tier ∧ 0 ≤ b.excess ∧
      ∀ v ∈ visits r.spacing b (turns (r.ranked tier)), v ∈ r.walk := by
  obtain ⟨ts, us, hq, ahead, behind⟩ := r.queue_around tier
  have sound := queue_sound hr
  rw [hq, List.forall_mem_append, List.forall_mem_append] at sound
  obtain ⟨⟨hts, hours⟩, -⟩ := sound
  have start := feasible_iff.mp hf
  obtain ⟨b, hb, hw⟩ := visits_append r.spacing hts start (turns (r.ranked tier) ++ us)
  have nonneg : 0 ≤ b.excess := hb ▸ leftover_nonneg hts start
  obtain ⟨c, -, hw'⟩ := visits_append r.spacing hours nonneg us
  have walk : r.walk = visits r.spacing r.opening ts ++
      (visits r.spacing b (turns (r.ranked tier)) ++ visits r.spacing c us) := by
    rw [Request.walk, hq, List.append_assoc, hw, hw']
  refine ⟨b, ?_, nonneg, fun v hv => by simp [walk, hv]⟩
  have rest : ∀ t ∈ turns (r.ranked tier) ++ us, tier.rank ≤ t.demand.tier.rank := by
    intro t ht
    rcases List.mem_append.mp ht with ht | ht
    · exact (congrArg Tier.rank (tier_of_mem_turns ht)).ge
    · exact (behind t ht).le
  have served := total_claimed_ahead hf ahead fun v hv => by
    rw [walk]
    exact List.mem_append_left _ hv
  have mins := total_perm (r.queue_demands_perm.map (·.min))
  rw [List.map_map, hq, List.append_assoc, List.map_append, total_append] at mins
  rw [tierExcess_eq, hq, List.append_assoc, List.map_append, total_append, served,
    total_claimed_behind rest, total_visits r.spacing hts start, hb]
  simp only [Function.comp_def, opening, Account.excess, minimums] at *
  omega

theorem totalWeight_ranked (r : Request) (tier : Tier) :
    totalWeight ((r.ranked tier).map (·.1.weight)) = r.tierWeight tier := by
  have members : ((r.ranked tier).map (·.1)).Perm (r.demands.filter (·.tier == tier)) := by
    conv_rhs => rw [← List.zipIdx_map_fst 0 r.demands, List.filter_map]
    exact (r.ranked_perm tier).map _
  have weights := totalWeight_perm (members.map (·.weight))
  rwa [List.map_map] at weights

theorem tierWeight_pos {d : Demand} (hd : d ∈ r.demands) {tier : Tier} (ht : d.tier = tier) :
    0 < r.tierWeight tier := by
  have member : d.weight ∈ (r.demands.filter (·.tier == tier)).map (·.weight) :=
    List.mem_map_of_mem (List.mem_filter.mpr ⟨hd, beq_iff_eq.mpr ht⟩)
  exact d.weight_pos.trans_le (le_totalWeight_of_mem member)

theorem mem_zip_sizes {e : Demand × Int} (he : e ∈ r.demands.zip r.sizes) :
    ∃ d ∈ r.demands.zipIdx, (d.1, r.award d) = e := by
  have placed : r.demands.zip r.sizes = r.demands.zipIdx.map fun d => (d.1, r.award d) := by
    conv_lhs => rw [← List.zipIdx_map_fst 0 r.demands, List.zipIdx_map_fst, sizes_eq_map]
    rw [← List.zip_map', List.zipIdx_map_fst]
  rw [placed] at he
  exact List.mem_map.mp he

/-- Each demand of a tier gets its minimum and what a visit along the tier adds to it. -/
theorem exists_growth (hr : r.Valid) (hf : r.feasible = true) {tier : Tier} {b : Account}
    (walked : ∀ v ∈ visits r.spacing b (turns (r.ranked tier)), v ∈ r.walk)
    {e : Demand × Int} (he : e ∈ r.demands.zip r.sizes) (ht : e.1.tier = tier) :
    ∃ v ∈ visits r.spacing b (turns (r.ranked tier)), v.demand = e.1 ∧
      e.2 = e.1.min + v.turn.growth v.account.excess := by
  obtain ⟨d, hd, rfl⟩ := mem_zip_sizes he
  have member := mem_ranked.mpr ⟨hd, ht⟩
  rw [← turns_served (r.ranked tier)] at member
  obtain ⟨t, hturn, rfl⟩ := List.mem_map.mp member
  obtain ⟨v, hv, rfl⟩ := mem_visits r.spacing b hturn
  obtain ⟨sound, nonneg, -⟩ := walk_excess hr hf v (walked v hv)
  exact ⟨v, hv, rfl, (award_of_visit hf (walked v hv)).trans (Visit.size_eq sound nonneg)⟩

/-- Every demand of a tier gets its minimum and, up to its maximum, the part that its weight has of
the excess that the tier starts with. If all demands of the tier are unbounded and weigh the same,
they grow by the same amount, or some by one more. -/
theorem shares_guaranteed (r : Request) (hr : r.Valid) (hf : r.minimums + r.gaps ≤ r.available)
    (tier : Tier) :
    0 ≤ r.tierExcess tier ∧
    (∀ e ∈ r.demands.zip r.sizes, e.1.tier = tier →
      let part := r.tierExcess tier * e.1.weight / r.tierWeight tier
      (e.1.max = none → e.1.min + part ≤ e.2) ∧ ∀ m ∈ e.1.max, min m (e.1.min + part) ≤ e.2) ∧
    ((∀ d ∈ r.demands, ∀ d' ∈ r.demands, d.tier = tier → d'.tier = tier →
        d.max = none ∧ d.weight = d'.weight) →
      ∀ e ∈ r.demands.zip r.sizes, ∀ e' ∈ r.demands.zip r.sizes, e.1.tier = tier →
        e'.1.tier = tier → |(e.2 - e.1.min) - (e'.2 - e'.1.min)| ≤ 1) := by
  have hf := feasible_iff_le.mpr hf
  obtain ⟨b, start, nonneg, walked⟩ := exists_tier_walk hr hf tier
  have sound := ranked_sound hr tier
  refine ⟨start ▸ nonneg, ?_, ?_⟩
  · intro e he ht part
    obtain ⟨v, hv, demand, size⟩ := exists_growth hr hf walked he ht
    have member : e.1 ∈ r.demands := (List.of_mem_zip he).1
    have offered := part_le_share_of_visits r.spacing (tierWeight_pos member ht) sound nonneg
      (by rw [totalWeight_ranked, start]) v hv
    rw [demand] at offered
    have taken : v.demand.clip part ≤ v.turn.growth v.account.excess := v.demand.clip_mono offered
    rw [demand] at taken
    constructor
    · intro unbounded
      rw [Demand.clip_of_unbounded unbounded] at taken
      omega
    · intro m hm
      rw [← Demand.min_add_clip hm]
      omega
  · intro equal e he e' he' ht ht'
    obtain ⟨v, hv, -, size⟩ := exists_growth hr hf walked he ht
    obtain ⟨v', hv', -, size'⟩ := exists_growth hr hf walked he' ht'
    have alike : ∀ d ∈ r.ranked tier, d.1.max = none ∧ d.1.weight = e.1.weight := by
      intro d hd
      obtain ⟨hd, htier⟩ := mem_ranked.mp hd
      exact equal d.1 (List.fst_mem_of_mem_zipIdx hd) e.1 (List.of_mem_zip he).1 htier ht
    have some : 0 < (r.ranked tier).length := by
      obtain ⟨d, hd, rfl⟩ := mem_zip_sizes he
      exact List.length_pos_of_mem (mem_ranked.mpr ⟨hd, ht⟩)
    have grows := growth_of_equals r.spacing alike sound nonneg (.ediv b.excess some)
    have := grows v hv
    have := grows v' hv'
    rw [abs_le]
    omega

def cappedAhead : Request where
  demands := [⟨5, some 12, 2, .greedy⟩, ⟨3, none, 1, .regular⟩, ⟨0, some 9, 3, .greedy⟩,
    ⟨4, none, 1, .regular⟩, ⟨0, none, 0, .regular⟩]
  available := 50
  spacing := 2

theorem capped_ahead_shares :
    let r := cappedAhead
    r.Valid ∧ r.minimums + r.gaps ≤ r.available ∧ r.sizes = [12, 8, 9, 8, 5] ∧
    r.tierExcess .greedy = 30 ∧ r.tierWeight .greedy = 5 ∧ min 12 (5 + 30 * 2 / 5 : Int) ≤ 12 ∧
    r.tierExcess .regular = 14 ∧ r.tierWeight .regular = 3 ∧ (4 + 14 * 1 / 3 : Int) ≤ 8 ∧
    |((8 - 3) - (8 - 4) : Int)| ≤ 1 := by
  intro r
  have hr : r.Valid := by decide
  have hf : r.minimums + r.gaps ≤ r.available := by decide
  have sizes : r.sizes = [12, 8, 9, 8, 5] := by cbv
  have placed : r.demands.zip r.sizes = [(⟨5, some 12, 2, .greedy⟩, 12), (⟨3, none, 1, .regular⟩, 8),
      (⟨0, some 9, 3, .greedy⟩, 9), (⟨4, none, 1, .regular⟩, 8), (⟨0, none, 0, .regular⟩, 5)] := by
    rw [sizes]
    rfl
  have greedy : r.tierExcess .greedy = 30 := by cbv
  have regular : r.tierExcess .regular = 14 := by cbv
  obtain ⟨-, capped, -⟩ := shares_guaranteed r hr hf .greedy
  obtain ⟨-, unbounded, alike⟩ := shares_guaranteed r hr hf .regular
  have first := (capped (⟨5, some 12, 2, .greedy⟩, 12) (by simp [placed]) rfl).2 12 rfl
  have fourth := (unbounded (⟨4, none, 1, .regular⟩, 8) (by simp [placed]) rfl).1 rfl
  have close := alike (by decide) (⟨3, none, 1, .regular⟩, 8) (by simp [placed])
    (⟨4, none, 1, .regular⟩, 8) (by simp [placed]) rfl rfl
  rw [greedy] at first
  rw [regular] at fourth
  exact ⟨hr, hf, sizes, greedy, by decide, first, regular, by decide, fourth, close⟩

end Request

end PixelLayout.Space
