import Mathlib.Data.List.Perm.Basic
import PixelLayout.Space.Allocation

/-!
# The order of service

Within its tier a demand is served after those with a larger minimum, among equal minimums
after those with a tighter maximum per unit of weight, and otherwise by its place in the line.
This order is strict and the ranked demands of a tier follow it, so every tier with a demand
has exactly one that is served last. The queue of a request serves each demand of the line once.
-/

set_option autoImplicit false

namespace PixelLayout.Space

namespace Demand

theorem before_iff (a b : Demand) : a.before b = true ↔
    b.min < a.min ∨ a.min = b.min ∧ a.maxPerWeight ≤ b.maxPerWeight := by
  simp [before]

theorem before_trans (a b c : Demand) (hab : a.before b = true) (hbc : b.before c = true) :
    a.before c = true := by
  rw [before_iff] at *
  omega

theorem before_total (a b : Demand) : (a.before b || b.before a) = true := by
  rw [Bool.or_eq_true, before_iff, before_iff]
  omega

theorem weight_pos (d : Demand) : 0 < d.weight := by
  unfold weight
  omega

end Demand

def Precedes (a b : Demand × Nat) : Prop :=
  b.1.min < a.1.min ∨ a.1.min = b.1.min ∧
    (a.1.maxPerWeight < b.1.maxPerWeight ∨ a.1.maxPerWeight = b.1.maxPerWeight ∧ a.2 < b.2)

theorem precedes_asymm {a b : Demand × Nat} (h : Precedes a b) : ¬ Precedes b a := by
  unfold Precedes at *
  omega

theorem precedes_of_before {a b : Demand × Nat} (h : a.1.before b.1 = true)
    (ht : b.1.before a.1 = true → a.2 < b.2) : Precedes a b := by
  rw [Demand.before_iff] at h ht
  unfold Precedes
  omega

/-- Entries that a comparison ties with one another keep their order in a merge sort. -/
theorem filter_mergeSort_of_ties {α : Type} {le : α → α → Bool}
    (htrans : ∀ a b c, le a b = true → le b c = true → le a c = true)
    (htotal : ∀ a b, (le a b || le b a) = true) (p : α → Bool)
    (hp : ∀ a b, p a = true → p b = true → le a b = true) (l : List α) :
    (l.mergeSort le).filter p = l.filter p := by
  have hties : (l.filter p).Pairwise fun a b => le a b = true :=
    List.pairwise_iff_forall_sublist.mpr fun {a b} hab =>
      hp a b (List.mem_filter.mp (hab.mem (by simp))).2 (List.mem_filter.mp (hab.mem (by simp))).2
  have hsub := (List.sublist_mergeSort htrans htotal hties List.filter_sublist).filter p
  rw [List.filter_filter] at hsub
  simp only [Bool.and_self] at hsub
  exact (hsub.eq_of_length ((List.mergeSort_perm l le).filter p).length_eq.symm).symm

theorem zipIdx_pairwise (ds : List Demand) : ds.zipIdx.Pairwise fun a b => a.2 < b.2 := by
  apply List.pairwise_map.mp
  rw [List.zipIdx_map_snd]
  exact List.pairwise_lt_range'

namespace Request

theorem ranked_perm (r : Request) (tier : Tier) :
    (r.ranked tier).Perm (r.demands.zipIdx.filter fun d => d.1.tier == tier) :=
  List.mergeSort_perm _ _

theorem mem_ranked {r : Request} {tier : Tier} {d : Demand × Nat} :
    d ∈ r.ranked tier ↔ d ∈ r.demands.zipIdx ∧ d.1.tier = tier := by
  rw [(r.ranked_perm tier).mem_iff, List.mem_filter, beq_iff_eq]

/-- The ranking of a tier is stable: demands that tie keep their order in the line. -/
theorem ranked_pairwise (r : Request) (tier : Tier) : (r.ranked tier).Pairwise Precedes := by
  have htrans := fun a b c : Demand × Nat => Demand.before_trans a.1 b.1 c.1
  have htotal := fun a b : Demand × Nat => Demand.before_total a.1 b.1
  rw [List.pairwise_iff_forall_sublist]
  intro a b hab
  have hle : a.1.before b.1 = true :=
    List.pairwise_iff_forall_sublist.mp (List.pairwise_mergeSort htrans htotal _) hab
  apply precedes_of_before hle
  intro hba
  let ties : Demand × Nat → Bool := fun d => a.1.before d.1 && d.1.before a.1
  have hties : ∀ c d, ties c = true → ties d = true → c.1.before d.1 = true := by
    intro c d hc hd
    simp only [ties, Bool.and_eq_true] at hc hd
    exact htrans c a d hc.2 hd.1
  have hself := fun d : Demand × Nat => (Bool.or_self (d.1.before d.1)).symm.trans (htotal d d)
  have hpair : [a, b].filter ties = [a, b] := by simp [ties, hle, hba, hself]
  have hkept := hab.filter ties
  rw [hpair, ranked, filter_mergeSort_of_ties htrans htotal ties hties] at hkept
  exact List.pairwise_iff_forall_sublist.mp (zipIdx_pairwise r.demands)
    ((hkept.trans List.filter_sublist).trans List.filter_sublist)

end Request

def Turn.served (t : Turn) : Demand × Nat := (t.demand, t.index)

theorem turns_served (ds : List (Demand × Nat)) : (turns ds).map Turn.served = ds := by
  induction ds with
  | nil => rfl
  | cons d ds ih => simp [turns, Turn.served, ih]

theorem served_mem_of_mem_turns {ds : List (Demand × Nat)} {t : Turn} (h : t ∈ turns ds) :
    t.served ∈ ds := by
  rw [← turns_served ds]
  exact List.mem_map_of_mem h

theorem weight_le_of_mem_turns {ds : List (Demand × Nat)} {t : Turn} (h : t ∈ turns ds) :
    t.demand.weight ≤ t.weightLeft := by
  induction ds with
  | nil => simp [turns] at h
  | cons d ds ih =>
    rcases List.mem_cons.mp h with rfl | h
    · simp
    · exact ih h

theorem turns_append_singleton (ds : List (Demand × Nat)) (d : Demand × Nat) :
    ∃ ts, turns (ds ++ [d]) = ts ++ [⟨d.1, d.2, d.1.weight⟩] := by
  induction ds with
  | nil => exact ⟨[], by simp [turns]⟩
  | cons c ds ih =>
    obtain ⟨ts, hts⟩ := ih
    exact ⟨_ :: ts, by rw [List.cons_append, turns, hts, List.cons_append]⟩

theorem tiers_perm (ds : List (Demand × Nat)) :
    (Tier.all.flatMap fun tier => ds.filter fun d => d.1.tier == tier).Perm ds := by
  induction ds with
  | nil => simp
  | cons d ds ih =>
    simp only [Tier.all, List.flatMap_cons, List.flatMap_nil, List.append_nil] at ih ⊢
    cases h : d.1.tier with
    | greedy => simpa [h] using ih
    | greedySpacer => simpa [h] using List.perm_middle.trans (ih.cons d)
    | regular =>
      rw [← List.append_assoc] at ih
      simpa [h, ← List.append_assoc] using List.perm_middle.trans (ih.cons d)

namespace Request

theorem queue_perm (r : Request) : (r.queue.map Turn.served).Perm r.demands.zipIdx := by
  rw [queue, List.map_flatMap]
  simp only [turns_served]
  exact (List.Perm.flatMap_left _ fun tier _ => r.ranked_perm tier).trans (tiers_perm _)

theorem queue_demands_perm (r : Request) : (r.queue.map (·.demand)).Perm r.demands := by
  have h := r.queue_perm.map Prod.fst
  rwa [List.map_map, List.zipIdx_map_fst] at h

def ServedLast (r : Request) (tier : Tier) (d : Demand × Nat) : Prop :=
  d ∈ r.demands.zipIdx ∧ d.1.tier = tier ∧
    ∀ c ∈ r.demands.zipIdx, c.1.tier = tier → c ≠ d → Precedes c d

theorem served_last_iff {r : Request} {tier : Tier} {d : Demand × Nat} :
    r.ServedLast tier d ↔ (r.ranked tier).getLast? = some d := by
  have hp := r.ranked_pairwise tier
  rw [List.getLast?_eq_some_iff]
  constructor
  · rintro ⟨hd, ht, hlast⟩
    obtain ⟨ds, es, hsplit⟩ := List.append_of_mem (mem_ranked.mpr ⟨hd, ht⟩)
    cases es with
    | nil => exact ⟨ds, hsplit⟩
    | cons c es =>
      -- `c` is ranked behind `d`, and so cannot precede it as the others do
      rw [hsplit] at hp
      have hdc : Precedes d c :=
        List.rel_of_pairwise_cons (List.pairwise_append.mp hp).2.1 (by simp)
      obtain ⟨hc, hct⟩ := mem_ranked.mp (show c ∈ r.ranked tier by simp [hsplit])
      have hne : c ≠ d := fun h => precedes_asymm hdc (h ▸ hdc)
      exact absurd (hlast c hc hct hne) (precedes_asymm hdc)
  · rintro ⟨ds, hds⟩
    obtain ⟨hd, ht⟩ := mem_ranked.mp (show d ∈ r.ranked tier by simp [hds])
    refine ⟨hd, ht, fun c hc hct hne => ?_⟩
    have hmem := mem_ranked.mpr ⟨hc, hct⟩
    rw [hds] at hmem hp
    have hin : c ∈ ds := by simpa [hne] using hmem
    exact (List.pairwise_append.mp hp).2.2 c hin d (by simp)

theorem exists_unique_served_last {r : Request} {tier : Tier}
    (h : ∃ d ∈ r.demands, d.tier = tier) : ∃! d, r.ServedLast tier d := by
  obtain ⟨d, hd, ht⟩ := h
  obtain ⟨i, hi⟩ := List.mem_iff_getElem?.mp hd
  have hmem : (d, i) ∈ r.ranked tier := mem_ranked.mpr ⟨List.mem_zipIdx_iff_getElem?.mpr hi, ht⟩
  have hlast := List.getLast?_eq_some_getLast (List.ne_nil_of_mem hmem)
  refine ⟨_, served_last_iff.mpr hlast, fun c hc => ?_⟩
  have hc := served_last_iff.mp hc
  rw [hlast] at hc
  exact (Option.some.inj hc).symm

end Request

def Tier.rank : Tier → Nat
  | greedy => 0
  | greedySpacer => 1
  | regular => 2

theorem tiers_split (tier : Tier) : ∃ ahead behind, Tier.all = ahead ++ tier :: behind ∧
    ∀ other : Tier, tier.rank < other.rank → other ∈ behind := by
  cases tier with
  | greedy => exact ⟨[], _, rfl, by rintro (_ | _ | _) <;> simp [Tier.rank]⟩
  | greedySpacer => exact ⟨[.greedy], _, rfl, by rintro (_ | _ | _) <;> simp [Tier.rank]⟩
  | regular => exact ⟨[.greedy, .greedySpacer], _, rfl, by rintro (_ | _ | _) <;> simp [Tier.rank]⟩

/-- The queue around the turns of one tier: those of the later tiers all come behind. -/
theorem Request.queue_split (r : Request) (tier : Tier) :
    ∃ ts us, r.queue = ts ++ turns (r.ranked tier) ++ us ∧
      ∀ d ∈ r.demands.zipIdx, tier.rank < d.1.tier.rank → ∃ u ∈ us, u.served = d := by
  obtain ⟨ahead, behind, hall, hbehind⟩ := tiers_split tier
  refine ⟨ahead.flatMap fun tier => turns (r.ranked tier),
    behind.flatMap fun tier => turns (r.ranked tier), by simp [queue, hall], fun d hd hlt => ?_⟩
  have hmem := mem_ranked.mpr ⟨hd, rfl⟩
  rw [← turns_served (r.ranked d.1.tier)] at hmem
  obtain ⟨u, hu, hud⟩ := List.mem_map.mp hmem
  exact ⟨u, List.mem_flatMap.mpr ⟨_, hbehind _ hlt, hu⟩, hud⟩

end PixelLayout.Space
