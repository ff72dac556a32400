import Mathlib
import PixelLayout.Proofs.Space.Shares

/-!
# The size of the numbers on the way

With coordinates of 32 bits, stretches of 32 bits and fewer than `2 ^ 31` demands, all numbers
that sharing out works out fit into 64 bits with a sign. The sums of the minimums and of the gaps
stay just below the limit. The product of excess and weight does so because a walk is taken only
if the minimums and gaps fit into the space: then the excess is never more than the space, and the
account of each visit is what the demands still to be served need. For the same reason no extent
is larger than the space, unless it is the minimum of its demand.
-/

set_option autoImplicit false

namespace PixelLayout.Space

def Wide (n : Int) : Prop := -2 ^ 63 ≤ n ∧ n < 2 ^ 63

instance (n : Int) : Decidable (Wide n) :=
  inferInstanceAs (Decidable (-2 ^ 63 ≤ n ∧ n < 2 ^ 63))

def Visit.numbers (v : Visit) (spacing : Int) : List Int :=
  [v.account.space - v.account.minimums, v.account.excess, v.product, v.turn.weightLeft, v.share,
    v.demand.min + v.share, v.size, v.demand.weight, v.size + spacing, (v.after spacing).space,
    (v.after spacing).minimums, (v.after spacing).gaps, v.turn.weightLeft - v.demand.weight]

namespace Request

def numbers (r : Request) : List Int :=
  (r.demands.inits.map fun ds => total (ds.map (·.min))) ++
    [(r.demands.length : Int) - 1, r.gaps, r.minimums + r.gaps] ++
    if r.feasible then
      r.demands.map (·.maxPerWeight) ++
      (r.demands.inits.flatMap fun ds =>
        Tier.all.map fun tier => (({ r with demands := ds }.tierWeight tier : Nat) : Int)) ++
      r.walk.flatMap (·.numbers r.spacing)
    else []

structure Narrow (r : Request) : Prop where
  count : r.demands.length < 2 ^ 31
  minimum : ∀ d ∈ r.demands, d.min ≤ Pixel.greatest
  maximum : ∀ d ∈ r.demands, ∀ m ∈ d.max, m ≤ Pixel.greatest
  stretch : ∀ d ∈ r.demands, d.stretch < 2 ^ 32
  available : Pixel.least ≤ r.available ∧ r.available ≤ Pixel.greatest
  spacing : 0 ≤ r.spacing ∧ r.spacing ≤ Pixel.greatest

end Request

theorem total_le_mul {c : Int} {ns : List Int} (h : ∀ n ∈ ns, n ≤ c) :
    total ns ≤ c * ns.length := by
  induction ns with
  | nil => simp
  | cons n ns ih =>
    obtain ⟨first, rest⟩ := List.forall_mem_cons.mp h
    have := ih rest
    simp only [total_cons, List.length_cons]
    push_cast
    linarith

theorem totalWeight_le_mul {c : Nat} {ns : List Nat} (h : ∀ n ∈ ns, n ≤ c) :
    totalWeight ns ≤ c * ns.length := by
  induction ns with
  | nil => simp
  | cons n ns ih =>
    obtain ⟨first, rest⟩ := List.forall_mem_cons.mp h
    have := ih rest
    simp only [totalWeight_cons, List.length_cons]
    linarith

theorem weightLeft_le_of_mem_turns {ds : List (Demand × Nat)} {t : Turn} (h : t ∈ turns ds) :
    t.weightLeft ≤ totalWeight (ds.map (·.1.weight)) := by
  induction ds with
  | nil => simp [turns] at h
  | cons d ds ih =>
    rw [List.map_cons, totalWeight_cons]
    rcases List.mem_cons.mp h with rfl | h
    · exact le_rfl
    · exact (ih h).trans (Nat.le_add_left _ _)

structure Account.Covers (a : Account) (spacing : Int) (ts : List Turn) : Prop where
  minimums : a.minimums = total (ts.map (·.demand.min))
  gaps : a.gaps = spacing * (ts.length - 1)

theorem Account.Covers.after {a : Account} {spacing : Int} {t : Turn} {ts : List Turn}
    (h : a.Covers spacing (t :: ts)) : ((⟨a, t⟩ : Visit).after spacing).Covers spacing ts where
  minimums := by
    have := h.minimums
    simp only [Visit.after, Visit.demand, List.map_cons, total_cons] at *
    omega
  gaps := by
    have := h.gaps
    simp only [Visit.after, List.length_cons] at *
    push_cast at this
    linarith

/-- Fewer turns need no more. -/
theorem Account.Covers.mono {a b : Account} {spacing : Int} {ts us : List Turn}
    (ha : a.Covers spacing ts) (hb : b.Covers spacing us) (behind : us <:+ ts)
    (hts : ∀ t ∈ ts, t.Sound) (nonneg : 0 ≤ spacing) :
    b.minimums ≤ a.minimums ∧ b.gaps ≤ a.gaps := by
  obtain ⟨ahead, rfl⟩ := behind
  constructor
  · have first : 0 ≤ total (ahead.map (·.demand.min)) := by
      apply total_nonneg
      simp only [List.forall_mem_map]
      exact fun t ht => (hts t (List.mem_append_left us ht)).valid.1
    rw [ha.minimums, hb.minimums, List.map_append, total_append]
    omega
  · rw [ha.gaps, hb.gaps]
    apply mul_le_mul_of_nonneg_left _ nonneg
    rw [List.length_append]
    omega

/-- Every visit of a walk that starts with enough finds what it and the visits behind it need. -/
theorem visits_cover {a : Account} {spacing : Int} {ts : List Turn} (h : a.Covers spacing ts) :
    ∀ v ∈ visits spacing a ts,
      ∃ us, v.turn :: us <:+ ts ∧ v.account.Covers spacing (v.turn :: us) := by
  induction ts generalizing a with
  | nil => simp [visits]
  | cons t ts ih =>
    intro v hv
    rcases List.mem_cons.mp hv with rfl | hv
    · exact ⟨ts, List.suffix_rfl, h⟩
    · obtain ⟨us, behind, covers⟩ := ih h.after v hv
      exact ⟨us, behind.trans (List.suffix_cons t ts), covers⟩

theorem Visit.grown (v : Visit) (hv : v.turn.Sound) (he : 0 ≤ v.account.excess) :
    v.demand.min ≤ v.size ∧ v.size ≤ v.demand.min + v.account.excess := by
  have grows := Turn.growth_nonneg hv he
  have passes := Turn.passed_nonneg hv he
  have size := Visit.size_eq hv he
  rw [Turn.passed] at passes
  omega

/-- A visit that finds what is needed, within a space of 32 bits, works out wide numbers only. -/
theorem Visit.numbers_wide {v : Visit} {spacing : Int} {us : List Turn} (hv : v.turn.Sound)
    (hus : ∀ u ∈ us, u.Sound) (he : 0 ≤ v.account.excess)
    (covers : v.account.Covers spacing (v.turn :: us)) (weight : v.demand.weight < 2 ^ 32)
    (left : (v.turn.weightLeft : Int) < 2 ^ 63) (space : v.account.space ≤ Pixel.greatest)
    (spaced : 0 ≤ spacing ∧ spacing ≤ Pixel.greatest) : ∀ n ∈ v.numbers spacing, Wide n := by
  obtain ⟨least, most⟩ := v.grown hv he
  have min : 0 ≤ v.demand.min := hv.valid.1
  have minimums : v.account.minimums = v.demand.min + total (us.map (·.demand.min)) :=
    covers.minimums
  have behind : 0 ≤ total (us.map (·.demand.min)) := by
    apply total_nonneg
    simp only [List.forall_mem_map]
    exact fun u hu => (hus u hu).valid.1
  have gaps : v.account.gaps = spacing * us.length := by
    rw [covers.gaps, List.length_cons]
    push_cast
    ring
  have apart : 0 ≤ spacing * us.length := mul_nonneg spaced.1 (Int.natCast_nonneg _)
  have excess : v.account.excess = v.account.space - v.account.minimums - v.account.gaps := rfl
  have share : 0 ≤ v.share ∧ v.share ≤ v.account.excess :=
    ⟨Turn.share_nonneg he, Turn.share_le hv he⟩
  have product : 0 ≤ v.product ∧ v.product ≤ Pixel.greatest * (2 ^ 32 - 1) := by
    constructor
    · exact mul_nonneg he (Int.natCast_nonneg _)
    · exact mul_le_mul (by omega) (by omega) (Int.natCast_nonneg _) (by decide)
  have weights := hv.weight_le
  simp only [Pixel.greatest] at *
  simp only [numbers, List.forall_mem_cons, List.not_mem_nil, IsEmpty.forall_iff, implies_true,
    and_true, Wide, after, Visit.demand] at *
  omega

namespace Request

variable {r : Request}

theorem opening_covers (r : Request) : r.opening.Covers r.spacing r.queue where
  minimums := by
    have h := total_perm (r.queue_demands_perm.map (·.min))
    rw [List.map_map] at h
    exact h.symm
  gaps := by
    have h := r.queue_demands_perm.length_eq
    rw [List.length_map] at h
    rw [h]
    rfl

theorem weight_lt (hn : r.Narrow) {d : Demand} (hd : d ∈ r.demands) : d.weight < 2 ^ 32 := by
  have := hn.stretch d hd
  rw [Demand.weight]
  omega

section Sums

variable {ds : List Demand} (start : ds <+: r.demands)

include start

theorem length_lt_of_start (hn : r.Narrow) : (ds.length : Int) < 2 ^ 31 := by
  have := start.length_le
  have := hn.count
  omega

theorem minimums_bounds (hr : r.Valid) (hn : r.Narrow) :
    0 ≤ total (ds.map (·.min)) ∧ total (ds.map (·.min)) ≤ Pixel.greatest * ds.length := by
  constructor
  · apply total_nonneg
    simp only [List.forall_mem_map]
    exact fun d hd => (hr d (start.mem hd)).1
  · have each : ∀ n ∈ ds.map (·.min), n ≤ Pixel.greatest := by
      simp only [List.forall_mem_map]
      exact fun d hd => hn.minimum d (start.mem hd)
    have most := total_le_mul each
    rwa [List.length_map] at most

theorem tierWeight_lt (hn : r.Narrow) (tier : Tier) :
    (({ r with demands := ds }.tierWeight tier : Nat) : Int) < 2 ^ 63 := by
  have each : ∀ n ∈ (ds.filter (·.tier == tier)).map (·.weight), n ≤ 2 ^ 32 - 1 := by
    simp only [List.forall_mem_map]
    intro d hd
    have := weight_lt hn (start.mem (List.mem_of_mem_filter hd))
    omega
  have most := totalWeight_le_mul each
  have := length_lt_of_start start hn
  have := List.length_filter_le (·.tier == tier) ds
  rw [List.length_map] at most
  change ((totalWeight ((ds.filter (·.tier == tier)).map (·.weight)) : Nat) : Int) < 2 ^ 63
  omega

end Sums

theorem gaps_bounds (hn : r.Narrow) :
    -Pixel.greatest ≤ r.gaps ∧ r.gaps ≤ Pixel.greatest * (2 ^ 31 - 2) := by
  obtain ⟨nonneg, most⟩ := hn.spacing
  have count := hn.count
  rw [gaps]
  constructor
  · have := mul_nonneg nonneg (Int.natCast_nonneg r.demands.length)
    linarith
  · calc r.spacing * ((r.demands.length : Int) - 1)
        ≤ r.spacing * (2 ^ 31 - 2) := mul_le_mul_of_nonneg_left (by omega) nonneg
      _ ≤ Pixel.greatest * (2 ^ 31 - 2) := mul_le_mul_of_nonneg_right most (by decide)

theorem maxPerWeight_wide (hr : r.Valid) (hn : r.Narrow) {d : Demand} (hd : d ∈ r.demands) :
    Wide d.maxPerWeight := by
  have bounds : 0 ≤ d.max.getD Pixel.greatest ∧ d.max.getD Pixel.greatest ≤ Pixel.greatest := by
    cases h : d.max with
    | none => decide
    | some m => exact ⟨(hr d hd).1.trans ((hr d hd).2 m h), hn.maximum d hd m h⟩
  have quotient := Int.ediv_le_self (b := (d.weight : Int)) bounds.1
  have nonneg := Int.ediv_nonneg bounds.1 (Int.natCast_nonneg d.weight)
  rw [Demand.maxPerWeight, Int.tdiv_eq_ediv_of_nonneg bounds.1]
  simp only [Wide, Pixel.greatest] at *
  omega

theorem weightLeft_lt (hn : r.Narrow) {t : Turn} (ht : t ∈ r.queue) :
    (t.weightLeft : Int) < 2 ^ 63 := by
  obtain ⟨tier, -, ht⟩ := List.mem_flatMap.mp ht
  have left := weightLeft_le_of_mem_turns ht
  have whole := tierWeight_lt List.prefix_rfl hn tier
  rw [totalWeight_ranked] at left
  exact lt_of_le_of_lt (Int.ofNat_le.mpr left) whole

theorem walk_numbers_wide (hr : r.Valid) (hn : r.Narrow) (hf : r.feasible = true) :
    ∀ v ∈ r.walk, ∀ n ∈ v.numbers r.spacing, Wide n := by
  intro v hv
  obtain ⟨sound, nonneg, most⟩ := walk_excess hr hf v hv
  obtain ⟨us, behind, covers⟩ := visits_cover r.opening_covers v hv
  have turn : v.turn ∈ r.queue := behind.mem List.mem_cons_self
  have demand : v.demand ∈ r.demands := r.queue_demands_perm.mem_iff.mp (List.mem_map_of_mem turn)
  have space : v.account.space ≤ Pixel.greatest := by
    have := r.opening_covers.mono covers behind (queue_sound hr) hn.spacing.1
    have := hn.available
    simp only [opening, Account.excess] at *
    omega
  exact Visit.numbers_wide sound
    (fun u hu => queue_sound hr u (behind.mem (List.mem_cons_of_mem _ hu))) nonneg covers
    (weight_lt hn demand) (weightLeft_lt hn turn) space hn.spacing

theorem numbers_wide (hr : r.Valid) (hn : r.Narrow) : ∀ n ∈ r.numbers, Wide n := by
  have whole := minimums_bounds List.prefix_rfl hr hn
  have gaps := gaps_bounds hn
  have count := hn.count
  simp only [numbers, List.forall_mem_append, List.forall_mem_map, List.mem_inits]
  refine ⟨⟨fun ds start => ?_, ?_⟩, ?_⟩
  · have := minimums_bounds start hr hn
    have := length_lt_of_start start hn
    simp only [Wide, Pixel.greatest] at *
    omega
  · simp only [List.forall_mem_cons, List.not_mem_nil, IsEmpty.forall_iff, implies_true, and_true,
      minimums, Wide, Pixel.greatest] at *
    omega
  · split
    · rename_i hf
      simp only [List.forall_mem_append, List.forall_mem_map, List.forall_mem_flatMap,
        List.mem_inits]
      refine ⟨⟨fun d hd => maxPerWeight_wide hr hn hd, fun ds start tier _ => ?_⟩,
        walk_numbers_wide hr hn hf⟩
      have := tierWeight_lt start hn tier
      simp only [Wide]
      omega
    · simp

/-- No extent exceeds the space or, where the space is short, the minimum of its demand. -/
theorem award_within (hr : r.Valid) (spaced : 0 ≤ r.spacing) {d : Demand × Nat}
    (hd : d ∈ r.demands.zipIdx) : 0 ≤ r.award d ∧ r.award d ≤ max d.1.min r.available := by
  have demand : d.1 ∈ r.demands := List.fst_mem_of_mem_zipIdx hd
  refine ⟨(hr d.1 demand).1.trans (allows_award hr hd).1, ?_⟩
  by_cases hf : r.feasible = true
  · obtain ⟨v, hv, rfl⟩ := exists_visit hd
    obtain ⟨sound, nonneg, start⟩ := walk_excess hr hf v hv
    have most := (v.grown sound nonneg).2
    have own : v.demand.min ≤ r.minimums := by
      apply le_total_of_mem _ (List.mem_map_of_mem demand)
      simp only [List.forall_mem_map]
      exact fun c hc => (hr c hc).1
    have apart : 0 ≤ r.gaps := by
      have := List.length_pos_of_mem demand
      exact mul_nonneg spaced (by omega)
    rw [award_of_visit hf hv]
    simp only [opening, Account.excess] at *
    omega
  · rw [award_of_infeasible hf]
    exact le_max_left _ _

/-- For a request of 32 bits all numbers on the way fit into 64, each division is by one or more,
and no extent exceeds the larger of its minimum and the space, so that each is one of 32 bits. -/
theorem arithmetic_in_range (r : Request) (hr : r.Valid) (hn : r.Narrow) :
    (∀ n ∈ r.numbers, Wide n) ∧ (∀ v ∈ r.walk, 1 ≤ v.turn.weightLeft) ∧
    List.Forall₂ (fun d n => 0 ≤ n ∧ n ≤ max d.min r.available) r.demands r.sizes ∧
    ∀ n ∈ r.sizes, (Int32.ofInt n).toInt = n := by
  have spaced := hn.spacing.1
  refine ⟨numbers_wide hr hn, fun v hv => ?_,
    forall₂_sizes fun d hd => award_within hr spaced hd, fun n hmem => ?_⟩
  · obtain ⟨us, behind, -⟩ := visits_cover r.opening_covers v hv
    exact (queue_sound hr v.turn (behind.mem List.mem_cons_self)).weightLeft_pos
  · rw [sizes_eq_map] at hmem
    obtain ⟨d, hd, rfl⟩ := List.mem_map.mp hmem
    have within := award_within hr spaced hd
    have minimum := hn.minimum d.1 (List.fst_mem_of_mem_zipIdx hd)
    have available := hn.available.2
    simp only [Pixel.greatest] at *
    apply Int32.toInt_ofInt_of_le <;> omega

def brink : Request where
  demands := [⟨0, some 0, 7, .greedy⟩, ⟨0, none, 4294967295, .regular⟩]
  available := 2147483647
  spacing := 0

theorem brink_in_range :
    brink.Valid ∧ brink.Narrow ∧ brink.sizes = [0, 2147483647] ∧
    9223372030412324865 ∈ brink.numbers ∧ Wide 9223372030412324865 ∧
    (Int32.ofInt 2147483647).toInt = 2147483647 := by
  have valid : brink.Valid := by decide
  have narrow : brink.Narrow :=
    ⟨by decide, by decide, by decide, by decide, by decide, by decide⟩
  have sizes : brink.sizes = [0, 2147483647] := by cbv
  have found : brink.numbers.contains 9223372030412324865 = true := by cbv
  have product := List.contains_iff_mem.mp found
  obtain ⟨wide, -, -, cast⟩ := arithmetic_in_range brink valid narrow
  exact ⟨valid, narrow, sizes, product, wide _ product, cast _ (by simp [sizes])⟩

end Request

end PixelLayout.Space
