import PixelLayout.Proofs.Flow.Wrap
import PixelLayout.Proofs.Line.Positions

/-!
# What the tracks provide for

After the first round a track has the largest need of the items that it holds alone. The second
round raises the tracks of an item over several of them by exactly what they lack: the portions add
up to it, since the last one is all that is left. No later item takes anything back. So in the end
the minimums of the tracks of every item, with the spacing between them, are at least its need.
Tracks that no item covers keep the minimum zero.
-/

set_option autoImplicit false

namespace PixelLayout

theorem total_zipWith_add {ms ns : List Int} (h : ms.length = ns.length) :
    total (List.zipWith (· + ·) ms ns) = total ms + total ns := by
  induction ms generalizing ns with
  | nil => simp [List.eq_nil_of_length_eq_zero h.symm]
  | cons m ms ih =>
    cases ns with
    | nil => cases h
    | cons n ns =>
      have rest := ih (Nat.succ.inj h)
      simp only [List.zipWith_cons_cons, total_cons, rest]
      omega

theorem le_zipWith_add {ms ns : List Int} (h : ms.length = ns.length) (nonneg : ∀ n ∈ ns, 0 ≤ n) :
    List.Forall₂ (· ≤ ·) ms (List.zipWith (· + ·) ms ns) := by
  induction ms generalizing ns with
  | nil => simp
  | cons m ms ih =>
    cases ns with
    | nil => cases h
    | cons n ns =>
      obtain ⟨hn, hns⟩ := List.forall_mem_cons.mp nonneg
      exact .cons (Int.le_add_of_nonneg_right hn) (ih (Nat.succ.inj h) hns)

theorem total_take_succ (ns : List Int) (i : Nat) :
    total (ns.take (i + 1)) = total (ns.take i) + ns.getD i 0 := by
  rw [List.take_add_one, total_append, List.getD_eq_getElem?_getD]
  cases ns[i]? <;> simp

theorem forall₂_le_trans {ms ns ks : List Int} (h : List.Forall₂ (· ≤ ·) ms ns)
    (h' : List.Forall₂ (· ≤ ·) ns ks) : List.Forall₂ (· ≤ ·) ms ks := by
  induction h generalizing ks with
  | nil => exact h'
  | cons le _ ih =>
    cases h' with
    | cons le' rest => exact .cons (le.trans le') (ih rest)

/-- What holds after one of the steps of a fold, and is kept by the others, holds at its end. -/
theorem foldl_reaches {α β : Type} {f : β → α → β} {I P : β → Prop} {as : List α}
    (inv : ∀ a ∈ as, ∀ b, I b → I (f b a)) (keeps : ∀ a ∈ as, ∀ b, I b → P b → P (f b a)) {a : α}
    (ha : a ∈ as) (reaches : ∀ b, I b → P (f b a)) {b : β} (hb : I b) : P (as.foldl f b) := by
  induction as generalizing b with
  | nil => cases ha
  | cons a' as ih =>
    obtain ⟨inv', invs⟩ := List.forall_mem_cons.mp inv
    have keeps' := (List.forall_mem_cons.mp keeps).2
    rw [List.foldl_cons]
    rcases List.mem_cons.mp ha with rfl | ha
    · exact (List.foldlRecOn as f (motive := fun b => I b ∧ P b) ⟨inv' b hb, reaches b hb⟩
        fun b h a ha => ⟨invs a ha b h.1, keeps' a ha b h.1 h.2⟩).2
    · exact ih invs keeps' ha (inv' b hb)

theorem Span.Within.single_or_several {α : Type} {s : Span} {l : List α} (h : s.Within l) :
    s.count = 1 ∨ 2 ≤ s.count := by
  have some := h.1
  omega

namespace Grid

section Slice

variable (s : Span) (ns : List Int)

theorem slice_getElem? {α : Type} (l : List α) (j : Nat) :
    (slice s l)[j]? = if j < s.count then l[s.start + j]? else none := by
  rw [slice, List.getElem?_take, List.getElem?_drop]

theorem slice_map {α β : Type} (f : α → β) (l : List α) :
    slice s (l.map f) = (slice s l).map f := by
  simp only [slice, List.map_take, List.map_drop]

theorem slice_length {α : Type} {l : List α} (h : s.start + s.count ≤ l.length) :
    (slice s l).length = s.count := by
  simp only [slice, List.length_take, List.length_drop]
  omega

theorem total_slice :
    total (slice s ns) = total (ns.take (s.start + s.count)) - total (ns.take s.start) := by
  rw [List.take_add, total_append, slice]
  omega

theorem slice_range {n : Nat} (h : s.start + s.count ≤ n) :
    slice s (List.range n) = List.range' s.start s.count := by
  apply List.ext_getElem?
  intro j
  rw [slice_getElem?]
  by_cases hj : j < s.count
  · rw [if_pos hj, List.getElem?_range (by omega), List.getElem?_range' hj, Nat.one_mul]
  · rw [if_neg hj, List.getElem?_eq_none (by simpa using hj)]

theorem forall₂_slice {ms : List Int} (h : List.Forall₂ (· ≤ ·) ms ns) :
    List.Forall₂ (· ≤ ·) (slice s ms) (slice s ns) :=
  List.forall₂_take _ (List.forall₂_drop _ h)

end Slice

theorem total_portions {ws : List Nat} (positive : ∀ w ∈ ws, 0 < w) (some : ws ≠ [])
    (amount : Int) : total (portions amount ws) = amount := by
  induction ws generalizing amount with
  | nil => exact absurd rfl some
  | cons w ws ih =>
    obtain ⟨hw, hws⟩ := List.forall_mem_cons.mp positive
    cases ws with
    | nil =>
      have whole : (amount * w).tdiv (w : Nat) = amount := Int.mul_tdiv_cancel _ (by omega)
      simpa [portions] using whole
    | cons w' ws =>
      rw [portions, total_cons, ih hws (by simp)]
      omega

section Raise

variable {s : Span} {amounts : List Int} {tracks : List Track} {k : Nat}

theorem raise_mins (s : Span) (amounts : List Int) (tracks : List Track) :
    (raise s amounts tracks).map (·.min) =
      (tracks.map (·.min)).take s.start
        ++ List.zipWith (· + ·) (slice s (tracks.map (·.min))) amounts
        ++ (tracks.map (·.min)).drop (s.start + s.count) := by
  simp only [raise, slice_map, List.map_append, List.map_take, List.map_drop, List.map_zipWith,
    List.zipWith_map_left]

variable (h : s.start + s.count ≤ tracks.length) (hlen : amounts.length = s.count)

include h

theorem total_take_raise_of_le (hk : k ≤ s.start) :
    total (((raise s amounts tracks).map (·.min)).take k) =
      total ((tracks.map (·.min)).take k) := by
  rw [raise_mins, List.append_assoc, List.take_append_of_le_length, List.take_take,
    Nat.min_eq_left hk]
  simp only [List.length_take, List.length_map]
  omega

include hlen

theorem total_take_raise_of_ge (hk : s.start + s.count ≤ k) :
    total (((raise s amounts tracks).map (·.min)).take k) =
      total ((tracks.map (·.min)).take k) + total amounts := by
  obtain ⟨j, rfl⟩ := Nat.exists_eq_add_of_le hk
  have first : ((tracks.map (·.min)).take s.start ++
      List.zipWith (· + ·) (slice s (tracks.map (·.min))) amounts).length = s.start + s.count := by
    simp only [List.length_append, List.length_take, List.length_map, List.length_zipWith, hlen,
      slice_length s (l := tracks.map (·.min)) (by simpa using h)]
    omega
  have inner : (slice s (tracks.map (·.min))).length = amounts.length :=
    (slice_length s (by simpa using h)).trans hlen.symm
  rw [raise_mins, ← first, List.take_length_add_append, first, List.take_add, total_append,
    total_append, total_append, total_zipWith_add inner, total_slice]
  omega

theorem raise_le (ha : ∀ a ∈ amounts, 0 ≤ a) :
    List.Forall₂ (· ≤ ·) (tracks.map (·.min)) ((raise s amounts tracks).map (·.min)) := by
  have inner : (slice s (tracks.map (·.min))).length = amounts.length :=
    (slice_length s (by simpa using h)).trans hlen.symm
  have refl (ns : List Int) : List.Forall₂ (· ≤ ·) ns ns := List.forall₂_same.mpr fun _ _ => le_rfl
  rw [raise_mins]
  conv_lhs => rw [← slices_append s (tracks.map (·.min))]
  exact List.rel_append (List.rel_append (refl _) (le_zipWith_add inner ha)) (refl _)

end Raise

namespace Ruler

variable (r : Ruler)

def spanned (s : Span) (sizes : List Int) : Int :=
  total (slice s sizes) + r.spacing * (s.count - 1)

def Suffices (sizes : List Int) (p : Placement) : Prop :=
  r.need p ≤ r.spanned (p.range.along r.axis) sizes

theorem spanned_le {s : Span} {sizes sizes' : List Int} (h : List.Forall₂ (· ≤ ·) sizes sizes') :
    r.spanned s sizes ≤ r.spanned s sizes' :=
  Int.add_le_add_right (total_le_of_forall₂ (forall₂_slice s _ h)) _

theorem deficit_eq (tracks : List Track) (p : Placement) : r.deficit tracks p =
    r.need p - r.spanned (p.range.along r.axis) (tracks.map (·.min)) := by
  simp only [deficit, spanned, slice_map]

theorem weights_length (s : Span) : (r.weights s).length = s.count := by
  rw [weights, List.length_map, List.length_range]

theorem weights_pos (s : Span) : ∀ w ∈ r.weights s, 0 < w := by
  intro w hw
  obtain ⟨i, -, rfl⟩ := List.mem_map.mp hw
  exact Nat.lt_of_lt_of_le Nat.one_pos (Nat.le_max_right _ _)

section Widen

variable {r} {tracks : List Track} {p : Placement} {k : Nat}

/-- An item over one track raises nothing, and neither does one that lacks nothing. Any other raises
its tracks by portions of what it lacks. -/
theorem widen_cases (tracks : List Track) {p : Placement}
    (some : 1 ≤ (p.range.along r.axis).count) :
    ((p.range.along r.axis).count = 1 ∨ r.deficit tracks p ≤ 0) ∧ r.widen tracks p = tracks ∨
    2 ≤ (p.range.along r.axis).count ∧ ∃ amounts : List Int,
      amounts.length = (p.range.along r.axis).count ∧ (∀ a ∈ amounts, 0 ≤ a) ∧
      total amounts = max 0 (r.deficit tracks p) ∧
      r.widen tracks p = raise (p.range.along r.axis) amounts tracks := by
  by_cases idle : (p.range.along r.axis).count < 2 ∨ r.deficit tracks p ≤ 0
  · have guard : (decide ((p.range.along r.axis).count < 2) ||
        decide (r.deficit tracks p ≤ 0)) = true := by simpa using idle
    exact .inl ⟨by omega, if_pos guard⟩
  · have guard : ¬ (decide ((p.range.along r.axis).count < 2) ||
        decide (r.deficit tracks p ≤ 0)) = true := by simpa using idle
    have lacks : 0 < r.deficit tracks p := by omega
    have several : r.weights (p.range.along r.axis) ≠ [] := by
      rw [← List.length_pos_iff, weights_length]
      exact some
    refine .inr ⟨by omega, portions (r.deficit tracks p) (r.weights (p.range.along r.axis)),
      ?_, portions_nonneg lacks.le _, ?_, if_neg guard⟩
    · rw [portions_length, weights_length]
    · rw [total_portions (r.weights_pos _) several, max_eq_right lacks.le]

theorem widen_single (one : (p.range.along r.axis).count = 1) : r.widen tracks p = tracks := by
  rcases r.widen_cases tracks one.ge with ⟨-, same⟩ | ⟨several, -⟩
  · exact same
  · omega

variable (within : (p.range.along r.axis).Within tracks)

include within

theorem widen_le : List.Forall₂ (· ≤ ·) (tracks.map (·.min)) ((r.widen tracks p).map (·.min)) := by
  rcases r.widen_cases tracks within.1 with ⟨-, same⟩ | ⟨-, amounts, length, nonneg, -, raised⟩
  · rw [same]
    exact List.forall₂_same.mpr fun _ _ => le_rfl
  · rw [raised]
    exact raise_le within.2 length nonneg

/-- No track before those of the item is raised. -/
theorem total_take_widen_of_le (hk : k ≤ (p.range.along r.axis).start) :
    total (((r.widen tracks p).map (·.min)).take k) = total ((tracks.map (·.min)).take k) := by
  rcases r.widen_cases tracks within.1 with ⟨-, same⟩ | ⟨-, amounts, -, -, -, raised⟩
  · rw [same]
  · rw [raised, total_take_raise_of_le within.2 hk]

/-- Up to a track behind those of the item, what it lacks is added. -/
theorem total_take_widen_of_ge (several : 2 ≤ (p.range.along r.axis).count)
    (hk : (p.range.along r.axis).start + (p.range.along r.axis).count ≤ k) :
    total (((r.widen tracks p).map (·.min)).take k) =
      total ((tracks.map (·.min)).take k) + max 0 (r.deficit tracks p) := by
  rcases r.widen_cases tracks within.1 with ⟨none, same⟩ | ⟨-, amounts, length, -, sum, raised⟩
  · have nothing : max 0 (r.deficit tracks p) = 0 := by omega
    rw [same, nothing, add_zero]
  · rw [raised, total_take_raise_of_ge within.2 length hk, sum]

/-- An item over several tracks has them raised to its need exactly, or they suffice already. -/
theorem spanned_widen (several : 2 ≤ (p.range.along r.axis).count) :
    r.spanned (p.range.along r.axis) ((r.widen tracks p).map (·.min)) =
      max (r.spanned (p.range.along r.axis) (tracks.map (·.min))) (r.need p) := by
  have start := total_take_widen_of_le within le_rfl
  have final := total_take_widen_of_ge within several le_rfl
  rw [deficit_eq] at final
  simp only [spanned, total_slice] at *
  omega

theorem widen_min_of_free {i : Nat} (free : (p.range.along r.axis).covers i = false) :
    ((r.widen tracks p).map (·.min)).getD i 0 = (tracks.map (·.min)).getD i 0 := by
  have outside : ¬ ((p.range.along r.axis).start ≤ i ∧
      i < (p.range.along r.axis).start + (p.range.along r.axis).count) := by
    simp [← Span.covers_iff, free]
  have raised := total_take_succ ((r.widen tracks p).map (·.min)) i
  have before := total_take_succ (tracks.map (·.min)) i
  by_cases ahead : i < (p.range.along r.axis).start
  · rw [total_take_widen_of_le within (show i + 1 ≤ _ from ahead),
      total_take_widen_of_le within ahead.le] at raised
    omega
  · rcases within.single_or_several with one | several
    · rw [widen_single one]
    · rw [total_take_widen_of_ge within several (by omega),
        total_take_widen_of_ge within several (by omega)] at raised
      omega

end Widen

def largest (ps : List Placement) (s : Span) : Int :=
  ((ps.filter fun p => p.range.along r.axis = s).map r.need).foldl max 0

theorem le_largest {ps : List Placement} {p : Placement} (hp : p ∈ ps) :
    r.need p ≤ r.largest ps (p.range.along r.axis) := by
  apply (foldl_max_le_iff.mp le_rfl).2
  exact List.mem_map_of_mem (List.mem_filter.mpr ⟨hp, decide_eq_true rfl⟩)

theorem largest_le_iff {ps : List Placement} {s : Span} {n : Int} : r.largest ps s ≤ n ↔
    0 ≤ n ∧ ∀ p ∈ ps, p.range.along r.axis = s → r.need p ≤ n := by
  simp only [largest, foldl_max_le_iff, List.forall_mem_map, List.mem_filter, decide_eq_true_eq,
    and_imp]

theorem alone_iff (p : Placement) (i : Nat) : p.range.along r.axis = ⟨i, 1⟩ ↔
    (p.range.along r.axis).covers i = true ∧ (p.range.along r.axis).count = 1 := by
  rw [Span.covers_iff]
  generalize p.range.along r.axis = s
  obtain ⟨start, count⟩ := s
  simp only [Span.mk.injEq]
  omega

theorem occupy_min (tracks : List Track) (p : Placement) (i : Nat) :
    (r.occupy tracks p)[i]?.map (·.min) = tracks[i]?.map fun t =>
      if p.range.along r.axis = ⟨i, 1⟩ then max t.min (max (r.need p) 0) else t.min := by
  have cover (t : Track) (m : Option Int) : (t.cover m).min = t.min := by cases m <;> rfl
  rw [occupy, List.getElem?_mapIdx, Option.map_map]
  congr 1
  funext t
  simp only [Function.comp, alone_iff]
  by_cases covers : (p.range.along r.axis).covers i = true
  · by_cases one : (p.range.along r.axis).count = 1
    · simp [covers, one, Track.hold, cover]
    · simp [covers, one, cover]
  · simp [covers]

theorem foldl_occupy_min (ps : List Placement) {tracks : List Track}
    (nonneg : ∀ t ∈ tracks, 0 ≤ t.min) (i : Nat) :
    (ps.foldl r.occupy tracks)[i]?.map (·.min) = tracks[i]?.map fun t =>
      ((ps.filter fun p => p.range.along r.axis = ⟨i, 1⟩).map r.need).foldl max t.min := by
  induction ps generalizing tracks with
  | nil => simp
  | cons p ps ih =>
    have step := r.occupy_min tracks p i
    rw [List.foldl_cons, ih (r.occupy_laid ⟨rfl, nonneg⟩ p).2]
    cases ht : tracks[i]? with
    | none =>
      rw [ht, Option.map_none, Option.map_eq_none_iff] at step
      rw [step]
      rfl
    | some t =>
      rw [ht, Option.map_some, Option.map_eq_some_iff] at step
      obtain ⟨t', ht', held⟩ := step
      have least := nonneg t (List.mem_of_getElem? ht)
      rw [ht', Option.map_some, Option.map_some, held]
      by_cases alone : p.range.along r.axis = ⟨i, 1⟩
      · rw [if_pos alone, show max t.min (max (r.need p) 0) = max t.min (r.need p) by omega]
        simp [alone]
      · rw [if_neg alone]
        simp [alone]

def firstRound (ps : List Placement) : List Track :=
  ps.foldl r.occupy (List.replicate r.stretch.length .idle)

theorem firstRound_laid (ps : List Placement) : Laid r.stretch.length (r.firstRound ps) :=
  List.foldlRecOn ps _ (idle_laid _) fun _ h p _ => r.occupy_laid h p

theorem firstRound_mins (ps : List Placement) : (r.firstRound ps).map (·.min) =
    (List.range r.stretch.length).map fun i => r.largest ps ⟨i, 1⟩ := by
  apply List.ext_getElem?
  intro i
  rw [List.getElem?_map, firstRound, r.foldl_occupy_min ps (idle_laid _).2, List.getElem?_map]
  by_cases hi : i < r.stretch.length
  · rw [List.getElem?_replicate_of_lt hi, List.getElem?_range hi]
    rfl
  · simp [hi]

def Fits (ps : List Placement) : Prop :=
  ∀ p ∈ ps, (p.range.along r.axis).Within r.stretch

section Tracks

variable {r} {ps : List Placement} (fits : r.Fits ps)

include fits

theorem Fits.within {tracks : List Track} (laid : Laid r.stretch.length tracks) {p : Placement}
    (hp : p ∈ ps) : (p.range.along r.axis).Within tracks :=
  ⟨(fits p hp).1, laid.1 ▸ (fits p hp).2⟩

/-- What holds after the first round, and is kept when an item raises its tracks, holds of the
tracks. -/
theorem tracks_induction {P : List Track → Prop} (start : P (r.firstRound ps))
    (step : ∀ tracks, Laid r.stretch.length tracks → ∀ p ∈ ps,
      (p.range.along r.axis).Within tracks → P tracks → P (r.widen tracks p)) :
    P (r.tracks ps) :=
  (List.foldlRecOn ps r.widen (motive := fun tracks => Laid r.stretch.length tracks ∧ P tracks)
    ⟨r.firstRound_laid ps, start⟩ fun tracks h p hp =>
      ⟨r.widen_laid h.1 p, step tracks h.1 p hp (fits.within h.1 hp) h.2⟩).2

theorem firstRound_le : List.Forall₂ (· ≤ ·) ((r.firstRound ps).map (·.min))
    ((r.tracks ps).map (·.min)) := by
  refine tracks_induction fits
    (P := fun tracks => List.Forall₂ (· ≤ ·) ((r.firstRound ps).map (·.min)) (tracks.map (·.min)))
    (List.forall₂_same.mpr fun _ _ => le_rfl) fun tracks _ p _ within h => ?_
  exact forall₂_le_trans h (widen_le within)

theorem firstRound_suffices {p : Placement} (hp : p ∈ ps)
    (one : (p.range.along r.axis).count = 1) :
    r.Suffices ((r.firstRound ps).map (·.min)) p := by
  have inside := (fits p hp).2
  have least := r.le_largest hp
  rw [(r.alone_iff p (p.range.along r.axis).start).mpr
    ⟨Span.covers_iff.mpr (by omega), one⟩] at least
  rw [Suffices, spanned, firstRound_mins, slice_map, slice_range _ inside, one]
  simpa using least

/-- The tracks have at least what the items need, whichever tracks they share. -/
theorem tracks_suffice {p : Placement} (hp : p ∈ ps) :
    r.Suffices ((r.tracks ps).map (·.min)) p := by
  rcases (fits p hp).single_or_several with one | several
  · exact (firstRound_suffices fits hp one).trans (r.spanned_le (firstRound_le fits))
  · refine foldl_reaches (I := Laid r.stretch.length)
      (P := fun tracks => r.Suffices (tracks.map (·.min)) p)
      (fun q _ tracks laid => r.widen_laid laid q)
      (fun q hq tracks laid h => le_trans h (r.spanned_le (widen_le (fits.within laid hq)))) hp
      (fun tracks laid => ?_) (r.firstRound_laid ps)
    rw [Suffices, spanned_widen (fits.within laid hp) several]
    exact le_max_right _ _

/-- Tracks that no item covers keep their minimum. -/
theorem min_of_free {i : Nat} (free : ∀ p ∈ ps, (p.range.along r.axis).covers i = false) :
    ((r.tracks ps).map (·.min)).getD i 0 = 0 := by
  refine tracks_induction fits (P := fun tracks => (tracks.map (·.min)).getD i 0 = 0) ?_
    fun tracks _ p hp within h => (widen_min_of_free within (free p hp)).trans h
  have none : r.largest ps ⟨i, 1⟩ = 0 := by
    refine le_antisymm (r.largest_le_iff.mpr ⟨le_rfl, fun p hp alone => ?_⟩)
      (r.largest_le_iff.mp le_rfl).1
    have covers := ((r.alone_iff p i).mp alone).1
    simp [free p hp] at covers
  rw [firstRound_mins, List.getD_eq_getElem?_getD, List.getElem?_map]
  by_cases hi : i < r.stretch.length
  · simp [hi, none]
  · simp [hi]

end Tracks

end Ruler

end Grid

end PixelLayout
