import Mathlib.Algebra.Order.Ring.Int
import Mathlib.Data.List.Forall2
import Mathlib.Data.List.Nodup
import Mathlib.Tactic.Linarith
import PixelLayout.Proofs.Space.Service

/-!
# The excess on a walk

What a visit adds to the minimum of its demand depends on the excess that it finds and on
nothing else of the account. This growth is never negative and never more than the excess; it
and the excess left behind it both rise with the excess found. Hence no walk that starts with
enough space runs short, and the extents it hands out add up to all that was available less
what is left over behind the last turn.
-/

set_option autoImplicit false

namespace PixelLayout.Space

namespace Demand

def room (d : Demand) : Option Int := d.max.map (· - d.min)

def clip (d : Demand) (n : Int) : Int :=
  match d.room with
  | none => n
  | some c => Min.min n c

theorem room_nonneg {d : Demand} (hd : d.Valid) : ∀ c ∈ d.room, 0 ≤ c := by
  intro c hc
  obtain ⟨m, hm, rfl⟩ := Option.map_eq_some_iff.mp hc
  have := hd.2 m hm
  omega

theorem clip_le (d : Demand) (n : Int) : d.clip n ≤ n := by
  unfold clip
  split <;> omega

theorem clip_nonneg {d : Demand} {n : Int} (hd : d.Valid) (hn : 0 ≤ n) : 0 ≤ d.clip n := by
  have hr := d.room_nonneg hd
  unfold clip
  split
  · exact hn
  · next c hc => exact le_min hn (hr c hc)

theorem clip_mono (d : Demand) {n n' : Int} (h : n ≤ n') : d.clip n ≤ d.clip n' := by
  unfold clip
  split <;> omega

theorem sub_clip_mono (d : Demand) {n n' : Int} (h : n ≤ n') : n - d.clip n ≤ n' - d.clip n' := by
  unfold clip
  split <;> omega

theorem fit_eq {d : Demand} {n : Int} (hd : d.Valid) (hn : 0 ≤ n) :
    (if d.canGrow then d.fit (d.min + n) else d.min) = d.min + d.clip n := by
  have hm := hd.2
  cases h : d.max with
  | none =>
    simp only [canGrow, fit, clip, room, h, Option.map_none, if_true]
    omega
  | some m =>
    have := hm m h
    simp only [canGrow, fit, clip, room, h, Option.map_some, decide_eq_true_eq]
    split_ifs <;> omega

end Demand

structure Turn.Sound (t : Turn) : Prop where
  valid : t.demand.Valid
  weight_le : t.demand.weight ≤ t.weightLeft

namespace Turn

def share (t : Turn) (excess : Int) : Int := (excess * t.demand.weight).tdiv t.weightLeft

def growth (t : Turn) (excess : Int) : Int := t.demand.clip (t.share excess)

def passed (t : Turn) (excess : Int) : Int := excess - t.growth excess

variable {t : Turn} {e e' : Int}

theorem Sound.weightLeft_pos (ht : t.Sound) : 0 < t.weightLeft :=
  t.demand.weight_pos.trans_le ht.weight_le

theorem share_eq_ediv (he : 0 ≤ e) : t.share e = e * t.demand.weight / t.weightLeft :=
  Int.tdiv_eq_ediv_of_nonneg (mul_nonneg he (Int.natCast_nonneg _))

theorem share_nonneg (he : 0 ≤ e) : 0 ≤ t.share e := by
  rw [share_eq_ediv he]
  exact Int.ediv_nonneg (mul_nonneg he (Int.natCast_nonneg _)) (Int.natCast_nonneg _)

theorem share_mono (ht : t.Sound) (he : 0 ≤ e) (h : e ≤ e') : t.share e ≤ t.share e' := by
  rw [share_eq_ediv he, share_eq_ediv (he.trans h)]
  exact Int.ediv_le_ediv (by have := ht.weightLeft_pos; omega)
    (mul_le_mul_of_nonneg_right h (Int.natCast_nonneg _))

theorem sub_share_mono (ht : t.Sound) (he : 0 ≤ e) (h : e ≤ e') :
    e - t.share e ≤ e' - t.share e' := by
  have hpos : (0 : Int) < t.weightLeft := by have := ht.weightLeft_pos; omega
  have hw : (t.demand.weight : Int) ≤ t.weightLeft := by have := ht.weight_le; omega
  have hmul : e' * t.demand.weight ≤ e * t.demand.weight + (e' - e) * t.weightLeft := by
    have := mul_le_mul_of_nonneg_left hw (by omega : 0 ≤ e' - e)
    linarith
  have hdiv := Int.ediv_le_ediv hpos hmul
  rw [Int.add_mul_ediv_right _ _ (by omega)] at hdiv
  rw [share_eq_ediv he, share_eq_ediv (he.trans h)]
  omega

theorem share_zero : t.share 0 = 0 := by simp [share]

theorem share_le (ht : t.Sound) (he : 0 ≤ e) : t.share e ≤ e := by
  have := sub_share_mono ht le_rfl he
  rw [share_zero] at this
  omega

theorem share_of_last (h : t.weightLeft = t.demand.weight) : t.share e = e := by
  have := t.demand.weight_pos
  rw [share, h, Int.mul_tdiv_cancel _ (by omega)]

theorem growth_nonneg (ht : t.Sound) (he : 0 ≤ e) : 0 ≤ t.growth e :=
  Demand.clip_nonneg ht.valid (share_nonneg he)

theorem growth_mono (ht : t.Sound) (he : 0 ≤ e) (h : e ≤ e') : t.growth e ≤ t.growth e' :=
  t.demand.clip_mono (share_mono ht he h)

theorem passed_nonneg (ht : t.Sound) (he : 0 ≤ e) : 0 ≤ t.passed e :=
  sub_nonneg.mpr ((t.demand.clip_le _).trans (share_le ht he))

theorem passed_le (ht : t.Sound) (he : 0 ≤ e) : t.passed e ≤ e :=
  sub_le_self e (growth_nonneg ht he)

theorem passed_mono (ht : t.Sound) (he : 0 ≤ e) (h : e ≤ e') : t.passed e ≤ t.passed e' := by
  have hs := sub_share_mono ht he h
  have hc := t.demand.sub_clip_mono (share_mono ht he h)
  simp only [passed, growth]
  omega

end Turn

def leftover : Int → List Turn → Int
  | excess, [] => excess
  | excess, t :: ts => leftover (t.passed excess) ts

theorem leftover_append (e : Int) (ts us : List Turn) :
    leftover e (ts ++ us) = leftover (leftover e ts) us := by
  induction ts generalizing e with
  | nil => rfl
  | cons t ts ih => exact ih _

theorem leftover_nonneg {e : Int} {ts : List Turn} (hts : ∀ t ∈ ts, t.Sound) (he : 0 ≤ e) :
    0 ≤ leftover e ts := by
  induction ts generalizing e with
  | nil => exact he
  | cons t ts ih =>
    obtain ⟨ht, hts⟩ := List.forall_mem_cons.mp hts
    exact ih hts (Turn.passed_nonneg ht he)

theorem leftover_le {e : Int} {ts : List Turn} (hts : ∀ t ∈ ts, t.Sound) (he : 0 ≤ e) :
    leftover e ts ≤ e := by
  induction ts generalizing e with
  | nil => exact le_rfl
  | cons t ts ih =>
    obtain ⟨ht, hts⟩ := List.forall_mem_cons.mp hts
    exact (ih hts (Turn.passed_nonneg ht he)).trans (Turn.passed_le ht he)

theorem leftover_mono {e e' : Int} {ts : List Turn} (hts : ∀ t ∈ ts, t.Sound) (he : 0 ≤ e)
    (h : e ≤ e') : leftover e ts ≤ leftover e' ts := by
  induction ts generalizing e e' with
  | nil => exact h
  | cons t ts ih =>
    obtain ⟨ht, hts⟩ := List.forall_mem_cons.mp hts
    exact ih hts (Turn.passed_nonneg ht he) (Turn.passed_mono ht he h)

namespace Visit

theorem size_eq {v : Visit} (hv : v.turn.Sound) (he : 0 ≤ v.account.excess) :
    v.size = v.demand.min + v.turn.growth v.account.excess :=
  Demand.fit_eq hv.valid (Turn.share_nonneg he)

theorem after_excess {v : Visit} (hv : v.turn.Sound) (he : 0 ≤ v.account.excess) (spacing : Int) :
    (v.after spacing).excess = v.turn.passed v.account.excess := by
  have hs := size_eq hv he
  simp only [after, Turn.passed, Account.excess] at *
  omega

end Visit

theorem visits_turns (spacing : Int) (a : Account) (ts : List Turn) :
    (visits spacing a ts).map Visit.turn = ts := by
  induction ts generalizing a with
  | nil => rfl
  | cons t ts ih => simp [visits, ih]

theorem mem_visits (spacing : Int) (a : Account) {ts : List Turn} {t : Turn} (ht : t ∈ ts) :
    ∃ v ∈ visits spacing a ts, v.turn = t := by
  rw [← visits_turns spacing a ts] at ht
  exact List.mem_map.mp ht

section Visits

variable (spacing : Int) {a : Account} {t : Turn} {ts : List Turn}

/-- The step of every induction on a walk: the rest of the walk starts with what the first turn
has passed on, and that is enough. -/
theorem after_head (ht : t.Sound) (ha : 0 ≤ a.excess) :
    ((⟨a, t⟩ : Visit).after spacing).excess = t.passed a.excess ∧
      0 ≤ ((⟨a, t⟩ : Visit).after spacing).excess := by
  have h : ((⟨a, t⟩ : Visit).after spacing).excess = t.passed a.excess :=
    Visit.after_excess ht ha spacing
  exact ⟨h, h ▸ Turn.passed_nonneg ht ha⟩

/-- No visit of a walk that starts with enough space finds too little. -/
theorem visits_excess (hts : ∀ t ∈ ts, t.Sound) (ha : 0 ≤ a.excess) :
    ∀ v ∈ visits spacing a ts,
      v.turn.Sound ∧ 0 ≤ v.account.excess ∧ v.account.excess ≤ a.excess := by
  induction ts generalizing a with
  | nil => simp [visits]
  | cons t ts ih =>
    obtain ⟨ht, hts⟩ := List.forall_mem_cons.mp hts
    obtain ⟨hafter, hnonneg⟩ := after_head spacing ht ha
    intro v hv
    rcases List.mem_cons.mp hv with rfl | hv
    · exact ⟨ht, ha, le_rfl⟩
    · obtain ⟨hv, hge, hle⟩ := ih hts hnonneg v hv
      exact ⟨hv, hge, (hafter ▸ hle).trans (Turn.passed_le ht ha)⟩

theorem visits_append (hts : ∀ t ∈ ts, t.Sound) (ha : 0 ≤ a.excess) (us : List Turn) :
    ∃ b : Account, b.excess = leftover a.excess ts ∧
      visits spacing a (ts ++ us) = visits spacing a ts ++ visits spacing b us := by
  induction ts generalizing a with
  | nil => exact ⟨a, rfl, rfl⟩
  | cons t ts ih =>
    obtain ⟨ht, hts⟩ := List.forall_mem_cons.mp hts
    obtain ⟨hafter, hnonneg⟩ := after_head spacing ht ha
    obtain ⟨b, hb, hvs⟩ := ih hts hnonneg
    exact ⟨b, by rw [hb, hafter, leftover], by rw [List.cons_append, visits, visits, hvs]; rfl⟩

theorem total_visits (hts : ∀ t ∈ ts, t.Sound) (ha : 0 ≤ a.excess) :
    total ((visits spacing a ts).map Visit.size) =
      total (ts.map (·.demand.min)) + a.excess - leftover a.excess ts := by
  induction ts generalizing a with
  | nil => simp [visits, leftover]
  | cons t ts ih =>
    obtain ⟨ht, hts⟩ := List.forall_mem_cons.mp hts
    obtain ⟨hafter, hnonneg⟩ := after_head spacing ht ha
    have hsize : (⟨a, t⟩ : Visit).size = t.demand.min + t.growth a.excess :=
      Visit.size_eq ht ha
    have hrest := ih hts hnonneg
    rw [hafter] at hrest
    simp only [visits, List.map_cons, total_cons, leftover, hsize, hrest, Turn.passed]
    omega

end Visits

def Request.Valid (r : Request) : Prop := ∀ d ∈ r.demands, d.Valid

instance (r : Request) : Decidable r.Valid :=
  inferInstanceAs (Decidable (∀ d ∈ r.demands, d.Valid))

namespace Request

variable {r : Request}

theorem feasible_iff_le : r.feasible = true ↔ r.minimums + r.gaps ≤ r.available :=
  decide_eq_true_iff

theorem feasible_iff : r.feasible = true ↔ 0 ≤ r.opening.excess := by
  rw [feasible_iff_le]
  simp only [opening, Account.excess]
  omega

theorem ranked_sound (hr : r.Valid) (tier : Tier) : ∀ t ∈ turns (r.ranked tier), t.Sound := by
  intro t ht
  have hmem := (mem_ranked.mp (served_mem_of_mem_turns ht)).1
  exact ⟨hr _ (List.fst_mem_of_mem_zipIdx hmem), weight_le_of_mem_turns ht⟩

theorem queue_sound (hr : r.Valid) : ∀ t ∈ r.queue, t.Sound := by
  intro t ht
  obtain ⟨tier, -, htier⟩ := List.mem_flatMap.mp ht
  exact ranked_sound hr tier t htier

theorem walk_excess (hr : r.Valid) (hf : r.feasible = true) : ∀ v ∈ r.walk,
    v.turn.Sound ∧ 0 ≤ v.account.excess ∧ v.account.excess ≤ r.opening.excess :=
  visits_excess r.spacing (queue_sound hr) (feasible_iff.mp hf)

def award (r : Request) (d : Demand × Nat) : Int :=
  if r.feasible then
    match r.walk.find? (·.turn.index == d.2) with
    | some v => v.size
    | none => d.1.min
  else d.1.min

theorem sizes_eq_map (r : Request) : r.sizes = r.demands.zipIdx.map r.award := by
  unfold sizes award
  split
  · exact List.mapIdx_eq_zipIdx_map
  · exact (congrArg _ (List.zipIdx_map_fst 0 _).symm).trans List.map_map

theorem sizes_getElem? {d : Demand × Nat} (h : d ∈ r.demands.zipIdx) :
    r.sizes[d.2]? = some (r.award d) := by
  rw [sizes_eq_map, List.getElem?_map]
  simp [List.mem_zipIdx_iff_getElem?.mp h]

theorem award_of_infeasible (hf : ¬ r.feasible = true) (d : Demand × Nat) :
    r.award d = d.1.min := by
  rw [award, if_neg hf]

theorem walk_served (r : Request) : (r.walk.map (·.turn.served)).Perm r.demands.zipIdx := by
  have h : r.walk.map (·.turn.served) = r.queue.map Turn.served := by
    rw [← visits_turns r.spacing r.opening r.queue, List.map_map]
    rfl
  exact h ▸ r.queue_perm

theorem exists_visit {d : Demand × Nat} (h : d ∈ r.demands.zipIdx) :
    ∃ v ∈ r.walk, v.turn.served = d :=
  List.mem_map.mp (r.walk_served.mem_iff.mpr h)

theorem award_of_visit (hf : r.feasible = true) {v : Visit} (hv : v ∈ r.walk) :
    r.award v.turn.served = v.size := by
  have hnodup : (r.walk.map (·.turn.index)).Nodup := by
    have h := (r.walk_served.map Prod.snd).nodup_iff
    rw [List.zipIdx_map_snd, List.map_map] at h
    exact h.mpr List.nodup_range'
  have hfound : (r.walk.find? (·.turn.index == v.turn.index)).isSome = true :=
    List.find?_isSome.mpr ⟨v, hv, by simp⟩
  obtain ⟨u, hu⟩ := Option.isSome_iff_exists.mp hfound
  have huv : u = v := List.inj_on_of_nodup_map hnodup (List.mem_of_find?_eq_some hu) hv
    (by simpa using List.find?_some hu)
  rw [award, if_pos hf]
  simp only [Turn.served, hu, huv]

theorem sizes_of_visit (hf : r.feasible = true) {v : Visit} (hv : v ∈ r.walk) :
    r.sizes[v.turn.index]? = some v.size := by
  have h := sizes_getElem? (r.walk_served.mem_iff.mp (List.mem_map_of_mem hv))
  rwa [award_of_visit hf hv] at h

theorem sizes_perm (hf : r.feasible = true) : r.sizes.Perm (r.walk.map Visit.size) := by
  have h := (r.walk_served.map r.award).symm
  rw [← sizes_eq_map, List.map_map] at h
  exact h.trans (List.Perm.of_eq (List.map_congr_left fun v hv => award_of_visit hf hv))

/-- The extents add up to the minimums and as much of the excess as is not left over. -/
theorem total_sizes (hr : r.Valid) (hf : r.feasible = true) :
    total r.sizes = r.minimums + r.opening.excess - leftover r.opening.excess r.queue := by
  have hmin : total (r.queue.map (·.demand.min)) = r.minimums := by
    have h := total_perm (r.queue_demands_perm.map (·.min))
    rwa [List.map_map] at h
  rw [total_perm (sizes_perm hf), walk, total_visits _ (queue_sound hr) (feasible_iff.mp hf), hmin]

end Request

end PixelLayout.Space
