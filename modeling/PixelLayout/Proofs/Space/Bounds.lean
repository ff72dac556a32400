import Mathlib
import PixelLayout.Proofs.Space.Walk

/-!
# Bounds of the extents, and how they follow the space

Every extent lies between the minimum and the maximum of the demand at its place. If the space
is short of the minimums and gaps the extents are the minimums; else they fit into it, and the
slack is what is left over behind the last turn. With more space, or with less spacing, no extent
shrinks, and all of them together grow by no more than the space did.
-/

set_option autoImplicit false

namespace PixelLayout.Space

def Demand.Allows (d : Demand) (n : Int) : Prop := d.min ≤ n ∧ ∀ m ∈ d.max, n ≤ m

theorem Demand.allows_min {d : Demand} (hd : d.Valid) : d.Allows d.min :=
  ⟨le_rfl, hd.2⟩

theorem Demand.allows_fit {d : Demand} (hd : d.Valid) (n : Int) : d.Allows (d.fit n) := by
  have hm := hd.2
  unfold Allows fit
  cases h : d.max with
  | none =>
    simp only [Option.not_mem_none, IsEmpty.forall_iff, implies_true, and_true]
    split_ifs <;> omega
  | some m =>
    have := hm m h
    simp only [Option.mem_def, Option.some.injEq, forall_eq']
    split_ifs <;> omega

theorem Visit.allows_size {v : Visit} (hv : v.demand.Valid) : v.demand.Allows v.size := by
  unfold size
  split
  · exact Demand.allows_fit hv _
  · exact Demand.allows_min hv

namespace Request

variable {r r' : Request}

theorem forall₂_sizes {p : Demand → Int → Prop}
    (h : ∀ d ∈ r.demands.zipIdx, p d.1 (r.award d)) : List.Forall₂ p r.demands r.sizes := by
  have hl : List.Forall₂ p (r.demands.zipIdx.map Prod.fst) (r.demands.zipIdx.map r.award) := by
    rw [List.forall₂_map_left_iff, List.forall₂_map_right_iff, List.forall₂_same]
    exact h
  rwa [List.zipIdx_map_fst, ← sizes_eq_map] at hl

theorem allows_award (hr : r.Valid) {d : Demand × Nat} (hd : d ∈ r.demands.zipIdx) :
    d.1.Allows (r.award d) := by
  by_cases hf : r.feasible = true
  · obtain ⟨v, hv, rfl⟩ := exists_visit hd
    rw [award_of_visit hf hv]
    exact Visit.allows_size (hr _ (List.fst_mem_of_mem_zipIdx hd))
  · rw [award_of_infeasible hf]
    exact Demand.allows_min (hr _ (List.fst_mem_of_mem_zipIdx hd))

theorem sizes_length (r : Request) : r.sizes.length = r.demands.length := by
  rw [sizes_eq_map, List.length_map, List.length_zipIdx]

theorem slack_of_nil (h : r.demands = []) : r.slack = r.available := by
  simp [slack, Space.slack, sizes_eq_map, h]

theorem slack_eq (hr : r.Valid) (hf : r.feasible = true) (hn : r.demands ≠ []) :
    r.slack = Pixel.saturate (leftover r.opening.excess r.queue) := by
  have ht := total_sizes hr hf
  have hl := sizes_length r
  have hne : r.sizes ≠ [] := by
    rw [← List.length_pos_iff, hl, List.length_pos_iff]
    exact hn
  rw [slack, Space.slack, if_neg (by simpa using hne), ht, hl]
  congr 1
  simp only [gaps, opening, Account.excess]
  omega

theorem sizes_of_infeasible (hf : ¬ r.feasible = true) : r.sizes = r.demands.map (·.min) := by
  rw [sizes, if_neg hf]

theorem sizes_bounds (r : Request) (hr : r.Valid) :
    List.Forall₂ Demand.Allows r.demands r.sizes ∧
    (r.available < r.minimums + r.gaps → r.sizes = r.demands.map (·.min)) ∧
    (r.minimums + r.gaps ≤ r.available → total r.sizes + r.gaps ≤ r.available ∧
      (r.demands ≠ [] → 0 ≤ r.slack) ∧ (r.demands = [] → r.slack = r.available)) := by
  refine ⟨forall₂_sizes fun d hd => allows_award hr hd, fun hlt => ?_, fun hle => ?_⟩
  · apply sizes_of_infeasible
    rw [feasible_iff_le]
    omega
  · have hf := feasible_iff_le.mpr hle
    have hnonneg := leftover_nonneg (queue_sound hr) (feasible_iff.mp hf)
    have ht := total_sizes hr hf
    refine ⟨?_, fun hn => ?_, slack_of_nil⟩
    · simp only [opening, Account.excess] at *
      omega
    · rw [slack_eq hr hf hn]
      exact Pixel.saturate_nonneg.mpr hnonneg

def threeTiers : Request where
  demands := [⟨20, some 40, 1, .regular⟩, ⟨0, some 10, 0, .greedySpacer⟩, ⟨7, some 30, 3, .greedy⟩]
  available := 100
  spacing := 4

theorem three_tiers_bounds :
    threeTiers.Valid ∧ threeTiers.minimums + threeTiers.gaps ≤ threeTiers.available ∧
    threeTiers.sizes = [40, 10, 30] ∧
    List.Forall₂ Demand.Allows threeTiers.demands threeTiers.sizes ∧
    total threeTiers.sizes + threeTiers.gaps ≤ threeTiers.available ∧ 0 ≤ threeTiers.slack := by
  have hr : threeTiers.Valid := by decide
  have hf : threeTiers.minimums + threeTiers.gaps ≤ threeTiers.available := by decide
  obtain ⟨hallows, -, hfits⟩ := sizes_bounds threeTiers hr
  exact ⟨hr, hf, by cbv, hallows, (hfits hf).1, (hfits hf).2.1 (by decide)⟩

/-- Without demands the gaps count as one negative spacing, and the slack is the space itself. -/
theorem slack_negative_without_demands :
    let r : Request := ⟨[], -1, 5⟩
    r.Valid ∧ 0 ≤ r.spacing ∧ r.minimums + r.gaps ≤ r.available ∧ r.slack = -1 := by
  decide

end Request

/-- Of two walks along the same turns, the one that starts with the larger excess serves each
turn with at least as much. -/
theorem exists_visit_ge (spacing spacing' : Int) {a a' : Account} {ts : List Turn}
    (hts : ∀ t ∈ ts, t.Sound) (ha : 0 ≤ a.excess) (h : a.excess ≤ a'.excess) :
    ∀ v ∈ visits spacing a ts, ∃ v' ∈ visits spacing' a' ts,
      v'.turn = v.turn ∧ v.size ≤ v'.size := by
  induction ts generalizing a a' with
  | nil => simp [visits]
  | cons t ts ih =>
    obtain ⟨ht, hts⟩ := List.forall_mem_cons.mp hts
    have ha' := ha.trans h
    intro v hv
    rcases List.mem_cons.mp hv with rfl | hv
    · refine ⟨⟨a', t⟩, List.mem_cons_self, rfl, ?_⟩
      calc (⟨a, t⟩ : Visit).size = t.demand.min + t.growth a.excess := Visit.size_eq ht ha
        _ ≤ t.demand.min + t.growth a'.excess := by
          have := Turn.growth_mono ht ha h
          omega
        _ = (⟨a', t⟩ : Visit).size := (Visit.size_eq (v := ⟨a', t⟩) ht ha').symm
    · obtain ⟨hafter, hnonneg⟩ := after_head spacing ht ha
      obtain ⟨hafter', -⟩ := after_head spacing' ht ha'
      have hstep : ((⟨a, t⟩ : Visit).after spacing).excess ≤
          ((⟨a', t⟩ : Visit).after spacing').excess := by
        rw [hafter, hafter']
        exact Turn.passed_mono ht ha h
      obtain ⟨v', hv', hvv⟩ := ih hts hnonneg hstep v hv
      exact ⟨v', List.mem_cons_of_mem _ hv', hvv⟩

namespace Request

variable {r r' : Request}

theorem valid_congr (hd : r'.demands = r.demands) (hr : r.Valid) : r'.Valid := by
  unfold Valid
  rwa [hd]

theorem queue_congr (hd : r'.demands = r.demands) : r'.queue = r.queue := by
  unfold queue ranked
  rw [hd]

theorem award_mono (hr : r.Valid) (hd : r'.demands = r.demands)
    (he : r.opening.excess ≤ r'.opening.excess) {d : Demand × Nat}
    (hmem : d ∈ r.demands.zipIdx) : r.award d ≤ r'.award d := by
  by_cases hf : r.feasible = true
  · have hf' : r'.feasible = true := feasible_iff.mpr ((feasible_iff.mp hf).trans he)
    obtain ⟨v, hv, rfl⟩ := exists_visit hmem
    obtain ⟨v', hv', hturn, hle⟩ := exists_visit_ge r.spacing r'.spacing (queue_sound hr)
      (feasible_iff.mp hf) he v hv
    rw [← queue_congr hd] at hv'
    rw [award_of_visit hf hv, ← hturn, award_of_visit hf' hv']
    exact hle
  · rw [award_of_infeasible hf]
    exact (allows_award (valid_congr hd hr) (hd ▸ hmem)).1

theorem sizes_le_of_excess_le (hr : r.Valid) (r' : Request) (hd : r'.demands = r.demands)
    (he : r.opening.excess ≤ r'.opening.excess) : List.Forall₂ (· ≤ ·) r.sizes r'.sizes := by
  rw [sizes_eq_map, sizes_eq_map, hd, List.forall₂_map_left_iff, List.forall₂_map_right_iff,
    List.forall₂_same]
  exact fun d hmem => award_mono hr hd he hmem

theorem total_sizes_of_infeasible (hf : ¬ r.feasible = true) : total r.sizes = r.minimums := by
  rw [sizes_of_infeasible hf, minimums]

theorem total_sizes_le (hr : r.Valid) (r' : Request) (hd : r'.demands = r.demands)
    (he : r.opening.excess ≤ r'.opening.excess) :
    total r'.sizes ≤ total r.sizes + (r'.opening.excess - r.opening.excess) := by
  have hm : r'.minimums = r.minimums := by rw [minimums, minimums, hd]
  by_cases hf' : r'.feasible = true
  · have ht' := total_sizes (valid_congr hd hr) hf'
    rw [queue_congr hd] at ht'
    by_cases hf : r.feasible = true
    · have ht := total_sizes hr hf
      have hrest := leftover_mono (queue_sound hr) (feasible_iff.mp hf) he
      omega
    · have ht := total_sizes_of_infeasible hf
      have hnonneg := leftover_nonneg (queue_sound hr) (feasible_iff.mp hf')
      rw [feasible_iff] at hf
      omega
  · have hf : ¬ r.feasible = true := by
      rw [feasible_iff] at *
      omega
    rw [total_sizes_of_infeasible hf, total_sizes_of_infeasible hf']
    omega

/-- More space, or less spacing, shrinks no extent. -/
theorem sizes_monotone (r : Request) (hr : r.Valid) :
    (∀ a, r.available ≤ a →
      List.Forall₂ (· ≤ ·) r.sizes { r with available := a }.sizes ∧
      total { r with available := a }.sizes ≤ total r.sizes + (a - r.available)) ∧
    (∀ s, r.spacing ≤ s → List.Forall₂ (· ≤ ·) { r with spacing := s }.sizes r.sizes) := by
  constructor
  · intro a ha
    let wider : Request := { r with available := a }
    have he : wider.opening.excess - r.opening.excess = a - r.available := by
      simp only [wider, opening, Account.excess, minimums, gaps]
      omega
    refine ⟨sizes_le_of_excess_le hr wider rfl (by omega), ?_⟩
    rw [← he]
    exact total_sizes_le hr wider rfl (by omega)
  · intro s hs
    let spread : Request := { r with spacing := s }
    by_cases hn : r.demands = []
    · simp [sizes_eq_map, hn]
    · have hpos := List.length_pos_iff.mpr hn
      have hgaps : r.gaps ≤ spread.gaps := mul_le_mul_of_nonneg_right hs (by omega)
      have he : spread.opening.excess ≤ r.opening.excess := by
        simp only [spread, opening, Account.excess, minimums] at *
        omega
      exact sizes_le_of_excess_le (r := spread) hr r rfl he

theorem three_tiers_from_cramped :
    let cramped : Request := { threeTiers with available := 30 }
    cramped.Valid ∧ cramped.feasible = false ∧
    List.Forall₂ (· ≤ ·) cramped.sizes { cramped with available := 100 }.sizes ∧
    total { cramped with available := 100 }.sizes ≤ total cramped.sizes + (100 - 30) ∧
    List.Forall₂ (· ≤ ·) { cramped with spacing := 9 }.sizes cramped.sizes := by
  intro cramped
  have hr : cramped.Valid := show threeTiers.Valid by decide
  have hf : cramped.feasible = false :=
    show ({ threeTiers with available := 30 } : Request).feasible = false by decide
  obtain ⟨hwider, hspread⟩ := sizes_monotone cramped hr
  obtain ⟨hle, htotal⟩ := hwider 100 (show (30 : Int) ≤ 100 by decide)
  exact ⟨hr, hf, hle, htotal, hspread 9 (show (4 : Int) ≤ 9 by decide)⟩

end Request

end PixelLayout.Space
