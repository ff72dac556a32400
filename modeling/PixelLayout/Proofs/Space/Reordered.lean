import Mathlib
import PixelLayout.Proofs.Space.Walk

/-!
# Requests that list their demands in another order

The order of service does not look at places except among demands that tie: of one tier, with one
minimum and one maximum per unit of weight. So a request that lists the same demands in another
order, with those that tie in the old one, has the same queue but for the places, and each turn
finds the same excess. Of the space and the spacing a walk sees the excess only.
-/

set_option autoImplicit false

namespace PixelLayout.Space

def pick {α : Type} (places : List Nat) (entries : List α) : List α :=
  places.filterMap (entries[·]?)

theorem pick_map {α β : Type} (places : List Nat) (entries : List α) (f : α → β) :
    (pick places entries).map f = pick places (entries.map f) := by
  simp only [pick, List.map_filterMap, List.getElem?_map]

section Pick

variable {α : Type} {places : List Nat} {entries : List α}
  (perm : places.Perm (List.range entries.length))

include perm

theorem pick_perm : (pick places entries).Perm entries := by
  have whole : (List.range entries.length).filterMap (entries[·]?) = entries := by
    apply List.map_injective_iff.mpr (Option.some_injective α)
    rw [List.map_filterMap_some_eq_filter_map_isSome, List.filter_eq_self.mpr]
    · exact List.ext_getElem (by simp) fun i _ _ => by simp
    · simp
  exact (perm.filterMap _).trans (List.Perm.of_eq whole)

theorem pick_getElem? (k : Nat) : (pick places entries)[k]? = places[k]?.bind (entries[·]?) := by
  have inside : ∀ i ∈ places, i < entries.length := fun i hi => by simpa using perm.mem_iff.mp hi
  clear perm
  induction places generalizing k with
  | nil => rfl
  | cons i places ih =>
    obtain ⟨first, rest⟩ := List.forall_mem_cons.mp inside
    have here : pick (i :: places) entries = entries[i] :: pick places entries :=
      List.filterMap_cons_some (List.getElem?_eq_getElem first)
    rw [here]
    cases k with
    | zero => simp [first]
    | succ k => exact ih k rest

end Pick

def Demand.Ties (a b : Demand) : Prop :=
  a.tier = b.tier ∧ a.min = b.min ∧ a.maxPerWeight = b.maxPerWeight

instance (a b : Demand) : Decidable (a.Ties b) :=
  inferInstanceAs (Decidable (a.tier = b.tier ∧ a.min = b.min ∧ a.maxPerWeight = b.maxPerWeight))

def carry (place : Nat → Nat) (d : Demand × Nat) : Demand × Nat := (d.1, place d.2)

def Turn.carry (place : Nat → Nat) (t : Turn) : Turn := { t with index := place t.index }

theorem turns_carry (place : Nat → Nat) (ds : List (Demand × Nat)) :
    turns (ds.map (carry place)) = (turns ds).map (Turn.carry place) := by
  induction ds with
  | nil => rfl
  | cons d ds ih =>
    rw [List.map_cons, turns, turns, List.map_cons, ih, List.map_map]
    rfl

theorem Visit.size_congr {v v' : Visit} {place : Nat → Nat} (turn : v.turn = v'.turn.carry place)
    (excess : v.account.excess = v'.account.excess) : v.size = v'.size := by
  have demand : v.demand = v'.demand := by
    rw [Visit.demand, turn]
    rfl
  have left : v.turn.weightLeft = v'.turn.weightLeft := by
    rw [turn]
    rfl
  rw [size, size, share, share, product, product, demand, left, excess]

theorem Visit.excess_left (v : Visit) (spacing : Int) :
    (v.after spacing).excess = v.account.excess - (v.size - v.demand.min) := by
  simp only [after, Account.excess]
  omega

/-- Walks along the same demands that start with the same excess serve them alike, whatever their
places, the spacing and the rest of the account. -/
theorem visits_carry (place : Nat → Nat) (spacing spacing' : Int) (ts : List Turn) {a a' : Account}
    (start : a.excess = a'.excess) : ∀ v' ∈ visits spacing' a' ts,
      ∃ v ∈ visits spacing a (ts.map (Turn.carry place)),
        v.turn = v'.turn.carry place ∧ v.size = v'.size := by
  induction ts generalizing a a' with
  | nil => simp [visits]
  | cons t ts ih =>
    have size : (⟨a, t.carry place⟩ : Visit).size = (⟨a', t⟩ : Visit).size :=
      Visit.size_congr rfl start
    have after : ((⟨a, t.carry place⟩ : Visit).after spacing).excess =
        ((⟨a', t⟩ : Visit).after spacing').excess := by
      rw [Visit.excess_left, Visit.excess_left, size]
      exact congrArg (· - _) start
    intro v' hv'
    rcases List.mem_cons.mp hv' with rfl | hv'
    · exact ⟨⟨a, t.carry place⟩, List.mem_cons_self, rfl, size⟩
    · obtain ⟨v, hv, same⟩ := ih after v' hv'
      exact ⟨v, List.mem_cons_of_mem _ hv, same⟩

namespace Request

variable {r r' : Request}

/-- Two requests with the same excess that rank the same demands, up to their places, in each tier
give each demand the same extent. -/
theorem award_carry {place : Nat → Nat} (excess : r'.opening.excess = r.opening.excess)
    (ranked : ∀ tier, (r'.ranked tier).map (carry place) = r.ranked tier) {d : Demand × Nat}
    (hd : d ∈ r'.demands.zipIdx) : r'.award d = r.award (carry place d) := by
  have feasible : r'.feasible = true ↔ r.feasible = true := by
    rw [feasible_iff, feasible_iff, excess]
  have queue : r.queue = r'.queue.map (Turn.carry place) := by
    simp only [Request.queue, List.map_flatMap, ← turns_carry, ranked]
  by_cases hf : r.feasible = true
  · obtain ⟨v', hv', rfl⟩ := exists_visit hd
    obtain ⟨v, hv, turn, size⟩ :=
      visits_carry place r.spacing r'.spacing r'.queue excess.symm v' hv'
    rw [← queue] at hv
    have served : carry place v'.turn.served = v.turn.served := by
      rw [turn]
      rfl
    rw [award_of_visit (feasible.mpr hf) hv', served, award_of_visit hf hv, size]
  · rw [award_of_infeasible (mt feasible.mp hf), award_of_infeasible hf]
    rfl

def reordered (r : Request) (places : List Nat) : Request :=
  { r with demands := pick places r.demands }

/-- The places are those of all demands, each once, and demands that tie keep their order. -/
structure Reorders (r : Request) (places : List Nat) : Prop where
  perm : places.Perm (List.range r.demands.length)
  stable : places.Pairwise fun i j =>
    ∀ a ∈ r.demands[i]?, ∀ b ∈ r.demands[j]?, a.Ties b → i < j

def placeOf (places : List Nat) (k : Nat) : Nat := places.getD k 0

section Reordered

variable {places : List Nat} (h : r.Reorders places)

include h

theorem reordered_zipIdx :
    (r.reordered places).demands.zipIdx.map (carry (placeOf places)) =
      pick places r.demands.zipIdx := by
  have perm' : places.Perm (List.range r.demands.zipIdx.length) := by simpa using h.perm
  apply List.ext_getElem?
  intro k
  rw [pick_getElem? perm', List.getElem?_map, List.getElem?_zipIdx, reordered,
    pick_getElem? h.perm]
  cases hk : places[k]? with
  | none => rfl
  | some i => simp [carry, placeOf, hk, List.getElem?_zipIdx, Function.comp_def]

theorem precedes_reordered {tier : Tier} {a b : Demand × Nat}
    (ha : a ∈ (r.reordered places).ranked tier) (hb : b ∈ (r.reordered places).ranked tier)
    (hab : Precedes a b) : Precedes (carry (placeOf places) a) (carry (placeOf places) b) := by
  rcases hab with larger | ⟨min, tighter | ⟨per, before⟩⟩
  · exact .inl larger
  · exact .inr ⟨min, .inl tighter⟩
  · obtain ⟨hamem, hat⟩ := mem_ranked.mp ha
    obtain ⟨hbmem, hbt⟩ := mem_ranked.mp hb
    have hamem := List.mem_zipIdx_iff_getElem?.mp hamem
    have hbmem := List.mem_zipIdx_iff_getElem?.mp hbmem
    rw [reordered, pick_getElem? h.perm] at hamem hbmem
    obtain ⟨i, hi, hda⟩ := Option.bind_eq_some_iff.mp hamem
    obtain ⟨j, hj, hdb⟩ := Option.bind_eq_some_iff.mp hbmem
    obtain ⟨hil, rfl⟩ := List.getElem?_eq_some_iff.mp hi
    obtain ⟨hjl, rfl⟩ := List.getElem?_eq_some_iff.mp hj
    have ties : a.1.Ties b.1 := ⟨hat.trans hbt.symm, min, per⟩
    have order := List.pairwise_iff_getElem.mp h.stable a.2 b.2 hil hjl before _ hda _ hdb ties
    refine .inr ⟨min, .inr ⟨per, ?_⟩⟩
    simpa [carry, placeOf, hil, hjl] using order

theorem ranked_reordered (tier : Tier) :
    ((r.reordered places).ranked tier).map (carry (placeOf places)) = r.ranked tier := by
  have perm' : places.Perm (List.range r.demands.zipIdx.length) := by simpa using h.perm
  have members : (((r.reordered places).ranked tier).map (carry (placeOf places))).Perm
      (r.ranked tier) := by
    have kept := ((r.reordered places).ranked_perm tier).map (carry (placeOf places))
    have same := (pick_perm perm').filter fun d => d.1.tier == tier
    rw [← reordered_zipIdx h, List.filter_map] at same
    exact kept.trans (same.trans (r.ranked_perm tier).symm)
  refine members.eq_of_pairwise (fun a b _ _ hab hba => absurd hba (precedes_asymm hab)) ?_
    (r.ranked_pairwise tier)
  exact List.pairwise_map.mpr
    (((r.reordered places).ranked_pairwise tier).imp_of_mem (precedes_reordered h))

end Reordered

/-- The extents go with their demands when these are listed in another order that keeps the order of
those that tie, and they depend on the space and the spacing only through the space less the
gaps. -/
theorem sizes_reordered (r : Request) :
    (∀ places, r.Reorders places → (r.reordered places).sizes = pick places r.sizes) ∧
    ∀ r' : Request, r'.demands = r.demands → r'.available - r'.gaps = r.available - r.gaps →
      r'.sizes = r.sizes := by
  constructor
  · intro places h
    have minimums : (r.reordered places).minimums = r.minimums :=
      total_perm ((pick_perm h.perm).map _)
    have count : (r.reordered places).demands.length = r.demands.length :=
      (pick_perm h.perm).length_eq
    have excess : (r.reordered places).opening.excess = r.opening.excess := by
      simp only [opening, Account.excess, minimums, gaps, count]
      rfl
    calc (r.reordered places).sizes
        = (r.reordered places).demands.zipIdx.map (r.award ∘ carry (placeOf places)) := by
          rw [sizes_eq_map]
          exact List.map_congr_left fun d hd => award_carry excess (ranked_reordered h) hd
      _ = (pick places r.demands.zipIdx).map r.award := by
          rw [← reordered_zipIdx h, List.map_map]
      _ = pick places r.sizes := by rw [pick_map, ← sizes_eq_map]
  · intro r' demands space
    have excess : r'.opening.excess = r.opening.excess := by
      simp only [opening, Account.excess, minimums, demands] at *
      omega
    have ranked : ∀ tier, (r'.ranked tier).map (carry id) = r.ranked tier := by
      intro tier
      rw [Request.ranked, Request.ranked, demands]
      exact List.map_id _
    rw [sizes_eq_map, sizes_eq_map, ← demands]
    exact List.map_congr_left fun d hd => award_carry excess ranked hd

def tiedPair : Request where
  demands := [⟨0, none, 1, .regular⟩, ⟨20, some 70, 3, .regular⟩, ⟨0, none, 1, .regular⟩,
    ⟨4, some 9, 0, .greedy⟩]
  available := 106
  spacing := 2

theorem tied_pair_reordered :
    tiedPair.Reorders [3, 0, 1, 2] ∧ tiedPair.sizes = [14, 62, 15, 9] ∧
    (tiedPair.reordered [3, 0, 1, 2]).sizes = [9, 14, 62, 15] ∧
    { tiedPair with available := 112, spacing := 4 }.sizes = [14, 62, 15, 9] := by
  have reorders : tiedPair.Reorders [3, 0, 1, 2] := ⟨by decide, by decide⟩
  have sizes : tiedPair.sizes = [14, 62, 15, 9] := by cbv
  obtain ⟨reordered, spaced⟩ := sizes_reordered tiedPair
  have moved := reordered [3, 0, 1, 2] reorders
  have wider := spaced { tiedPair with available := 112, spacing := 4 } rfl (by decide)
  rw [sizes] at moved wider
  exact ⟨reorders, sizes, moved, wider⟩

/-- Demands that tie are not interchangeable: what is cut off goes to the last of them. -/
example :
    let r : Request := ⟨[⟨0, none, 1, .regular⟩, ⟨0, none, 1, .regular⟩], 5, 0⟩
    (r.reordered [1, 0]).sizes = [2, 3] ∧ pick [1, 0] r.sizes = [3, 2] := by
  constructor <;> cbv

end Request

end PixelLayout.Space
