import PixelLayout.Proofs.Space.Bounds

/-!
# The tiers one after the other

The demand that a tier serves last divides by its own weight and so is offered the whole excess.
It takes all of it or grows to its maximum. In the first case nothing is left for the tiers
behind, and as no visit finds any excess again they keep their minimums.
-/

set_option autoImplicit false

namespace PixelLayout.Space

theorem Demand.clip_eq_or (d : Demand) (n : Int) :
    d.clip n = n ∨ ∃ m, d.max = some m ∧ d.min + d.clip n = m := by
  unfold clip room
  cases h : d.max with
  | none => exact .inl rfl
  | some m =>
    simp only [Option.map_some, Option.some.injEq, exists_eq_left']
    omega

theorem Visit.size_of_no_excess {v : Visit} (hv : v.turn.Sound) (he : v.account.excess = 0) :
    v.size = v.demand.min := by
  have hge := Turn.growth_nonneg hv he.ge
  have hle := Turn.passed_nonneg hv he.ge
  have hsize := Visit.size_eq hv he.ge
  unfold Turn.passed at hle
  omega

namespace Request

variable {r : Request}

/-- The visit to the demand that a tier serves last: its weight is all that is left of the tier,
and no more than it passes on is left for the later tiers or behind the queue. -/
theorem exists_last_visit (hr : r.Valid) (hf : r.feasible = true) {tier : Tier} {d : Demand × Nat}
    (hd : r.ServedLast tier d) :
    ∃ v ∈ r.walk, v.turn.served = d ∧ v.turn.weightLeft = v.demand.weight ∧
      leftover r.opening.excess r.queue ≤ v.turn.passed v.account.excess ∧
      ∀ c ∈ r.demands.zipIdx, tier.rank < c.1.tier.rank →
        ∃ u ∈ r.walk, u.turn.served = c ∧ u.account.excess ≤ v.turn.passed v.account.excess := by
  obtain ⟨ts, us, hq, hbehind⟩ := r.queue_split tier
  obtain ⟨ds, hds⟩ := List.getLast?_eq_some_iff.mp (served_last_iff.mp hd)
  obtain ⟨ps, hps⟩ := turns_append_singleton ds d
  let t : Turn := ⟨d.1, d.2, d.1.weight⟩
  have hqueue : r.queue = (ts ++ ps) ++ t :: us := by simp [hq, hds, hps, t]
  have hsound := queue_sound hr
  rw [hqueue] at hsound
  obtain ⟨hahead, ht, hus⟩ : (∀ u ∈ ts ++ ps, u.Sound) ∧ t.Sound ∧ ∀ u ∈ us, u.Sound := by
    rw [List.forall_mem_append, List.forall_mem_cons] at hsound
    exact hsound
  obtain ⟨b, hb, hw⟩ := visits_append r.spacing hahead (feasible_iff.mp hf) (t :: us)
  have hwalk : r.walk = visits r.spacing r.opening (ts ++ ps) ++
      ⟨b, t⟩ :: visits r.spacing ((⟨b, t⟩ : Visit).after r.spacing) us := by
    rw [walk, hqueue, hw, visits]
  have hnonneg : 0 ≤ b.excess := hb ▸ leftover_nonneg hahead (feasible_iff.mp hf)
  obtain ⟨hafter, hrest⟩ := after_head r.spacing ht hnonneg
  refine ⟨⟨b, t⟩, by simp [hwalk], rfl, rfl, ?_, fun c hc hlt => ?_⟩
  · rw [hqueue, leftover_append, ← hb, leftover]
    exact leftover_le hus (Turn.passed_nonneg ht hnonneg)
  · obtain ⟨u, hu, rfl⟩ := hbehind c hc hlt
    obtain ⟨v, hv, rfl⟩ := mem_visits r.spacing ((⟨b, t⟩ : Visit).after r.spacing) hu
    have hle := (visits_excess r.spacing hus hrest v hv).2.2
    rw [hafter] at hle
    exact ⟨v, by simp [hwalk, hv], rfl, hle⟩

/-- Either the demand that a tier serves last is at its maximum, or nothing is left over and the
tiers behind keep their minimums. -/
theorem served_last_at_max (r : Request) (hr : r.Valid)
    (hf : r.minimums + r.gaps ≤ r.available) (tier : Tier)
    (ht : ∃ d ∈ r.demands, d.tier = tier) :
    (∃! d, r.ServedLast tier d) ∧ ∀ d, r.ServedLast tier d →
      ((∃ m, d.1.max = some m ∧ r.sizes[d.2]? = some m) ∨
        r.slack = 0 ∧ ∀ c ∈ r.demands.zipIdx, tier.rank < c.1.tier.rank →
          r.sizes[c.2]? = some c.1.min) ∧
      (0 < r.slack → ∃ m, d.1.max = some m ∧ r.sizes[d.2]? = some m) := by
  have hf := feasible_iff_le.mpr hf
  refine ⟨exists_unique_served_last ht, fun d hd => ?_⟩
  obtain ⟨v, hv, rfl, hlast, hleft, hbehind⟩ := exists_last_visit hr hf hd
  obtain ⟨hsound, hnonneg, -⟩ := walk_excess hr hf v hv
  have hgrowth : v.turn.growth v.account.excess = v.demand.clip v.account.excess := by
    rw [Turn.growth, Turn.share_of_last hlast, Visit.demand]
  have hat := sizes_of_visit hf hv
  rw [Visit.size_eq hsound hnonneg, hgrowth] at hat
  rcases v.demand.clip_eq_or v.account.excess with hall | ⟨m, hm, hcap⟩
  · have hpassed : v.turn.passed v.account.excess = 0 := by
      rw [Turn.passed, hgrowth, hall, sub_self]
    rw [hpassed] at hleft hbehind
    have hslack : r.slack = 0 := by
      have hge := leftover_nonneg (queue_sound hr) (feasible_iff.mp hf)
      have hn : r.demands ≠ [] := List.ne_nil_of_mem (List.fst_mem_of_mem_zipIdx hd.1)
      rw [slack_eq hr hf hn, Pixel.saturate_eq_zero]
      omega
    refine ⟨.inr ⟨hslack, fun c hc hlt => ?_⟩, fun hpos => by omega⟩
    obtain ⟨u, hu, rfl, hle⟩ := hbehind c hc hlt
    obtain ⟨husound, hge, -⟩ := walk_excess hr hf u hu
    have hmin := sizes_of_visit hf hu
    rwa [Visit.size_of_no_excess husound (le_antisymm hle hge)] at hmin
  · rw [hcap] at hat
    exact ⟨.inl ⟨m, hm, hat⟩, fun _ => ⟨m, hm, hat⟩⟩

theorem three_tiers_spacer_at_max :
    threeTiers.Valid ∧ threeTiers.minimums + threeTiers.gaps ≤ threeTiers.available ∧
    (∃ d ∈ threeTiers.demands, d.tier = .greedySpacer) ∧ 0 < threeTiers.slack ∧
    ∃ m : Int, some 10 = some m ∧ threeTiers.sizes[1]? = some m := by
  have hr : threeTiers.Valid := by decide
  have hf : threeTiers.minimums + threeTiers.gaps ≤ threeTiers.available := by decide
  have ht : ∃ d ∈ threeTiers.demands, d.tier = .greedySpacer := by decide
  have hlast : threeTiers.ServedLast .greedySpacer (⟨0, some 10, 0, .greedySpacer⟩, 1) :=
    served_last_iff.mpr (by cbv)
  have hslack : threeTiers.slack = 12 := by cbv
  have hpos : 0 < threeTiers.slack := by omega
  exact ⟨hr, hf, ht, hpos, ((served_last_at_max threeTiers hr hf _ ht).2 _ hlast).2 hpos⟩

end Request

end PixelLayout.Space
