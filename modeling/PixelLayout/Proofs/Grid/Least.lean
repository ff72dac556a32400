import Mathlib.Order.Bounds.Basic
import PixelLayout.Proofs.Grid.Served

/-!
# The least extent of tracks

Items over several tracks are nested if no two of them share just some of their tracks. Then the
minimums of the tracks take no more than any other sizes that give every item what it needs. Once
the items over several tracks have been served, the tracks of one of them have together what the
neediest item over them needs, or what the items over just one of them need. Any other sizes have
as much there, and the rest of the tracks has what it needs for the items over one track. Where
items share just some of their tracks, what the first one has added may serve the second one as well
or not, so that the order of the items decides.
-/

set_option autoImplicit false

namespace PixelLayout

def Span.Apart (s s' : Span) : Prop := s.start + s.count ≤ s'.start ∨ s'.start + s'.count ≤ s.start

namespace Grid

theorem total_slice_le {ms ns : List Int} (h : List.Forall₂ (· ≤ ·) ms ns) {a b : Nat}
    (hab : a ≤ b) :
    total (ns.take a) - total (ms.take a) ≤ total (ns.take b) - total (ms.take b) := by
  obtain ⟨n, rfl⟩ := Nat.exists_eq_add_of_le hab
  have inner := total_le_of_forall₂ (forall₂_slice ⟨a, n⟩ _ h)
  simp only [total_slice] at inner
  omega

/-- What there is outside a span does not count if it is nothing. -/
theorem total_slice_of_zero {s : Span} {ns : List Int}
    (outside : ∀ i, s.covers i = false → ns.getD i 0 = 0) : total (slice s ns) = total ns := by
  have zero (i : Nat) (free : ¬ (s.start ≤ i ∧ i < s.start + s.count)) :
      total (ns.take (i + 1)) = total (ns.take i) := by
    rw [← Span.covers_iff, Bool.not_eq_true] at free
    rw [total_take_succ, outside i free, add_zero]
  have before : ∀ k ≤ s.start, total (ns.take k) = 0 := by
    intro k hk
    induction k with
    | zero => rfl
    | succ k ih => rw [zero k (by omega), ih (by omega)]
  have behind : ∀ k, total (ns.take (s.start + s.count + k)) =
      total (ns.take (s.start + s.count)) := by
    intro k
    induction k with
    | zero => rfl
    | succ k ih => rw [← Nat.add_assoc, zero _ (by omega), ih]
  have whole := behind ns.length
  rw [List.take_of_length_le (by omega)] at whole
  rw [total_slice, before _ le_rfl, ← whole, sub_zero]

theorem countP_covers (s : Span) (n : Nat) :
    (List.range n).countP s.covers = min n (s.start + s.count) - min n s.start := by
  induction n with
  | zero => simp
  | succ n ih =>
    rw [List.range_succ, List.countP_append, ih]
    by_cases covers : s.covers n = true
    · have inside := Span.covers_iff.mp covers
      rw [List.countP_cons_of_pos covers, List.countP_nil]
      omega
    · rw [List.countP_cons_of_neg covers, List.countP_nil]
      rw [Span.covers_iff] at covers
      omega

theorem total_filter_occupied {tracks : List Track}
    (idle : ∀ t ∈ tracks, t.occupied = false → t.min = 0) :
    total ((tracks.filter (·.occupied)).map (·.min)) = total (tracks.map (·.min)) := by
  induction tracks with
  | nil => rfl
  | cons t ts ih =>
    obtain ⟨idle, idles⟩ := List.forall_mem_cons.mp idle
    cases used : t.occupied with
    | true =>
      rw [List.filter_cons_of_pos used, List.map_cons, List.map_cons, total_cons, total_cons,
        ih idles]
    | false =>
      rw [List.filter_cons_of_neg (by simp [used]), List.map_cons, total_cons, ih idles, idle used,
        zero_add]

namespace Ruler

/-- Of the items over several tracks, any two are over the same ones or have none in common. -/
def Nested (r : Ruler) (ps : List Placement) : Prop :=
  ∀ p ∈ ps, ∀ q ∈ ps, 2 ≤ (p.range.along r.axis).count → 2 ≤ (q.range.along r.axis).count →
    p.range.along r.axis = q.range.along r.axis ∨
      (p.range.along r.axis).Apart (q.range.along r.axis)

instance (r : Ruler) (ps : List Placement) : Decidable (r.Fits ps) :=
  inferInstanceAs (Decidable (∀ p ∈ ps, _ ∧ _))

instance (r : Ruler) (ps : List Placement) : Decidable (r.Nested ps) :=
  inferInstanceAs (Decidable (∀ p ∈ ps, ∀ q ∈ ps, _ → _ → _ ∨ _ ∨ _))

def inUse (r : Ruler) (ps : List Placement) (i : Nat) : Bool :=
  ps.any fun p => (p.range.along r.axis).covers i

def usedSizes (r : Ruler) (ps : List Placement) (sizes : List Int) : List Int :=
  sizes.mapIdx fun i n => if r.inUse ps i then n else 0

def extent (r : Ruler) (ps : List Placement) (sizes : List Int) : Int :=
  total (r.usedSizes ps sizes) +
    r.spacing * max ((List.range r.stretch.length).countP (r.inUse ps) - 1 : Int) 0

structure Enough (r : Ruler) (ps : List Placement) (sizes : List Int) : Prop where
  length : sizes.length = r.stretch.length
  nonneg : ∀ n ∈ sizes, 0 ≤ n
  serves : ∀ p ∈ ps, r.Suffices sizes p

def Uncut (r : Ruler) (ps : List Placement) (k : Nat) : Prop :=
  ∀ p ∈ ps, 2 ≤ (p.range.along r.axis).count → k ≤ (p.range.along r.axis).start ∨
    (p.range.along r.axis).start + (p.range.along r.axis).count ≤ k

def Below (r : Ruler) (ps : List Placement) (sizes : List Int) (tracks : List Track) : Prop :=
  ∀ a b, a ≤ b → r.Uncut ps a → r.Uncut ps b →
    total (sizes.take a) - total ((tracks.map (·.min)).take a) ≤
      total (sizes.take b) - total ((tracks.map (·.min)).take b)

variable {r : Ruler} {ps : List Placement} {sizes : List Int}

section Extent

theorem usedSizes_getD (i : Nat) : (r.usedSizes ps sizes).getD i 0 =
    if r.inUse ps i then sizes.getD i 0 else 0 := by
  rw [usedSizes, List.getD_eq_getElem?_getD, List.getElem?_mapIdx, List.getD_eq_getElem?_getD]
  cases sizes[i]? <;> simp

theorem inUse_of_covers {p : Placement} (hp : p ∈ ps) {i : Nat}
    (covers : (p.range.along r.axis).covers i = true) : r.inUse ps i = true :=
  List.any_eq_true.mpr ⟨p, hp, covers⟩

theorem slice_usedSizes {p : Placement} (hp : p ∈ ps) :
    slice (p.range.along r.axis) (r.usedSizes ps sizes) = slice (p.range.along r.axis) sizes := by
  apply List.ext_getElem?
  intro j
  rw [slice_getElem?, slice_getElem?]
  by_cases hj : j < (p.range.along r.axis).count
  · have used : r.inUse ps ((p.range.along r.axis).start + j) = true :=
      inUse_of_covers hp (Span.covers_iff.mpr (by omega))
    simp [hj, usedSizes, used]
  · simp [hj]

/-- The tracks in use are all that matters. -/
theorem Enough.used (enough : r.Enough ps sizes) : r.Enough ps (r.usedSizes ps sizes) where
  length := by rw [usedSizes, List.length_mapIdx, enough.length]
  nonneg := by
    intro n hn
    obtain ⟨i, hi, rfl⟩ := List.mem_mapIdx.mp hn
    split
    · exact enough.nonneg _ (List.getElem_mem hi)
    · exact le_rfl
  serves p hp := by
    have served := enough.serves p hp
    rwa [Suffices, spanned, slice_usedSizes hp]

theorem usedSizes_of_idle (idle : ∀ i, r.inUse ps i = false → sizes.getD i 0 = 0) :
    r.usedSizes ps sizes = sizes := by
  apply List.ext_getElem?
  intro i
  rw [usedSizes, List.getElem?_mapIdx]
  cases hi : sizes[i]? with
  | none => rfl
  | some n =>
    cases used : r.inUse ps i with
    | true => rfl
    | false =>
      have zero := idle i used
      simp_all

end Extent

section Below

theorem uncut_ends (nested : r.Nested ps) {p : Placement} (hp : p ∈ ps)
    (several : 2 ≤ (p.range.along r.axis).count) :
    r.Uncut ps (p.range.along r.axis).start ∧
      r.Uncut ps ((p.range.along r.axis).start + (p.range.along r.axis).count) := by
  have each : ∀ q ∈ ps, 2 ≤ (q.range.along r.axis).count →
      ((p.range.along r.axis).start ≤ (q.range.along r.axis).start ∨
        (q.range.along r.axis).start + (q.range.along r.axis).count ≤
          (p.range.along r.axis).start) ∧
      ((p.range.along r.axis).start + (p.range.along r.axis).count ≤
          (q.range.along r.axis).start ∨
        (q.range.along r.axis).start + (q.range.along r.axis).count ≤
          (p.range.along r.axis).start + (p.range.along r.axis).count) := by
    intro q hq more
    rcases nested p hp q hq several more with same | apart
    · rw [same]
      omega
    · unfold Span.Apart at apart
      omega
  exact ⟨fun q hq more => (each q hq more).1, fun q hq more => (each q hq more).2⟩

section Enough

variable (enough : r.Enough ps sizes)

include enough

theorem Enough.firstRound_le : List.Forall₂ (· ≤ ·) ((r.firstRound ps).map (·.min)) sizes := by
  rw [firstRound_mins, List.forall₂_iff_get]
  refine ⟨by rw [List.length_map, List.length_range, enough.length], fun i hi hi' => ?_⟩
  simp only [List.get_eq_getElem, List.getElem_map, List.getElem_range]
  refine r.largest_le_iff.mpr ⟨enough.nonneg _ (List.getElem_mem hi'), fun p hp alone => ?_⟩
  have served := enough.serves p hp
  have here := total_take_succ sizes i
  rw [Suffices, spanned, alone, total_slice] at served
  rw [List.getD_eq_getElem _ _ hi'] at here
  dsimp only at served
  omega

/-- What an item adds to its tracks is needed, for before they had no more than the sizes. -/
theorem Below.widen (nested : r.Nested ps) {tracks : List Track} {p : Placement} (hp : p ∈ ps)
    (within : (p.range.along r.axis).Within tracks) (below : r.Below ps sizes tracks) :
    r.Below ps sizes (r.widen tracks p) := by
  rcases within.single_or_several with one | several
  · rwa [widen_single one]
  obtain ⟨start, final⟩ := uncut_ends nested hp several
  have need := enough.serves p hp
  have inner := below _ _ (Nat.le_add_right _ _) start final
  have gap := r.deficit_eq tracks p
  simp only [Suffices, spanned, total_slice] at need gap
  intro a b hab ha hb
  rcases ha p hp several with before | behind
  · rcases hb p hp several with before' | behind'
    · rw [total_take_widen_of_le within before, total_take_widen_of_le within before']
      exact below a b hab ha hb
    · rw [total_take_widen_of_le within before, total_take_widen_of_ge within several behind']
      have first := below a _ before ha start
      have last := below _ b behind' final hb
      omega
  · rw [total_take_widen_of_ge within several behind,
      total_take_widen_of_ge within several (behind.trans hab)]
    have rest := below a b hab ha hb
    omega

theorem total_mins_le (fits : r.Fits ps) (nested : r.Nested ps) :
    total ((r.tracks ps).map (·.min)) ≤ total sizes := by
  have below : r.Below ps sizes (r.tracks ps) :=
    tracks_induction fits (fun _ _ hab _ _ => total_slice_le enough.firstRound_le hab)
      fun _ _ _ hp within below => below.widen enough nested hp within
  have all := below 0 r.stretch.length (Nat.zero_le _) (fun _ _ _ => .inl (Nat.zero_le _))
    fun p hp _ => .inr (fits p hp).2
  have length : ((r.tracks ps).map (·.min)).length = r.stretch.length := by
    rw [List.length_map, tracks_length]
  have tracks := List.take_length (l := (r.tracks ps).map (·.min))
  have whole := List.take_length (l := sizes)
  rw [length] at tracks
  rw [enough.length] at whole
  simp only [tracks, whole, List.take_zero, total_nil] at all
  omega

end Enough

end Below

section MinExtent

/-- With an item over all tracks in use they take what its tracks give together. -/
theorem extent_of_all (fits : r.Fits ps) {p : Placement} (hp : p ∈ ps)
    (all : ∀ i, r.inUse ps i = true → (p.range.along r.axis).covers i = true) (sizes : List Int) :
    r.extent ps sizes = r.spanned (p.range.along r.axis) sizes := by
  obtain ⟨count, inside⟩ := fits p hp
  have same : r.inUse ps = (p.range.along r.axis).covers := by
    funext i
    rw [Bool.eq_iff_iff]
    exact ⟨all i, fun covers => inUse_of_covers hp covers⟩
  have outside : ∀ i, (p.range.along r.axis).covers i = false →
      (r.usedSizes ps sizes).getD i 0 = 0 := by
    intro i free
    rw [usedSizes_getD, same, free]
    rfl
  rw [extent, ← total_slice_of_zero outside, slice_usedSizes hp, same, countP_covers, spanned]
  congr 2
  omega

/-- It shares tracks with every other item, so one over several tracks is over the same ones. -/
theorem along_eq_of_all (nested : r.Nested ps) {p q : Placement} (hp : p ∈ ps)
    (all : ∀ i, r.inUse ps i = true → (p.range.along r.axis).covers i = true) (hq : q ∈ ps)
    (several : 2 ≤ (q.range.along r.axis).count) :
    p.range.along r.axis = q.range.along r.axis := by
  have first := Span.covers_iff.mp
    (all _ (inUse_of_covers hq (Span.covers_iff.mpr ⟨le_rfl, by omega⟩)))
  have second := Span.covers_iff.mp (all ((q.range.along r.axis).start + 1)
    (inUse_of_covers hq (Span.covers_iff.mpr ⟨by omega, by omega⟩)))
  refine (nested p hp q hq (by omega) several).resolve_right fun apart => ?_
  unfold Span.Apart at apart
  omega

variable (fits : r.Fits ps)

include fits

theorem tracks_enough : r.Enough ps ((r.tracks ps).map (·.min)) where
  length := by rw [List.length_map, tracks_length]
  nonneg := by simpa using (r.tracks_laid ps).2
  serves _ hp := tracks_suffice fits hp

theorem usedSizes_tracks :
    r.usedSizes ps ((r.tracks ps).map (·.min)) = (r.tracks ps).map (·.min) :=
  usedSizes_of_idle fun _ idle => min_of_free fits (by simpa [inUse] using idle)

theorem minExtent_tracks :
    minExtent (r.tracks ps) r.spacing = r.extent ps ((r.tracks ps).map (·.min)) := by
  have used : (r.tracks ps).map (·.occupied) =
      (List.range r.stretch.length).map (r.inUse ps) := by
    refine List.ext_getElem (by simp [tracks_length]) fun i hi _ => ?_
    rw [List.length_map] at hi
    simpa [inUse] using r.tracks_occupied ps hi
  have count : ((r.tracks ps).filter (·.occupied)).length =
      (List.range r.stretch.length).countP (r.inUse ps) := by
    have counted := congrArg (List.countP id) used
    rwa [List.countP_map, List.countP_map, Function.id_comp, Function.id_comp,
      List.countP_eq_length_filter] at counted
  rw [minExtent, extent, usedSizes_tracks fits, total_filter_occupied (min_of_idle fits), count]

/-- The items over all tracks in use raise them just to the largest of their needs. -/
theorem spanned_tracks (nested : r.Nested ps) (spacing : 0 ≤ r.spacing) {p : Placement}
    (hp : p ∈ ps) (all : ∀ i, r.inUse ps i = true → (p.range.along r.axis).covers i = true) :
    r.spanned (p.range.along r.axis) ((r.tracks ps).map (·.min)) =
      max (r.largest ps (p.range.along r.axis))
        (r.spanned (p.range.along r.axis) ((r.firstRound ps).map (·.min))) := by
  apply le_antisymm
  · refine tracks_induction fits (P := fun tracks =>
      r.spanned (p.range.along r.axis) (tracks.map (·.min)) ≤
        max (r.largest ps (p.range.along r.axis))
          (r.spanned (p.range.along r.axis) ((r.firstRound ps).map (·.min))))
      (le_max_right _ _) fun tracks _ q hq within below => ?_
    rcases within.single_or_several with one | several
    · rwa [widen_single one]
    have same := along_eq_of_all nested hp all hq several
    have need : r.need q ≤ r.largest ps (p.range.along r.axis) := same ▸ r.le_largest hq
    rw [same, spanned_widen within several, ← same]
    exact max_le below (need.trans (le_max_left _ _))
  · refine max_le (r.largest_le_iff.mpr ⟨?_, fun q hq same => ?_⟩)
      (r.spanned_le (firstRound_le fits))
    · have count := (fits p hp).1
      refine Int.add_nonneg (total_nonneg fun n hn => ?_) (Int.mul_nonneg spacing (by omega))
      exact (tracks_enough fits).nonneg n (List.mem_of_mem_drop (List.mem_of_mem_take hn))
    · have served := tracks_suffice fits hq
      rwa [Suffices, same] at served

/-- The tracks take as little as any sizes that give every item what it needs. If some item covers
all tracks in use, that is the largest need of such items, or what the items over one track need. -/
theorem minExtent_least (nested : r.Nested ps) :
    IsLeast {n | ∃ sizes, r.Enough ps sizes ∧ r.extent ps sizes = n}
      (minExtent (r.tracks ps) r.spacing) ∧
    (0 ≤ r.spacing → ∀ p ∈ ps,
      (∀ i, r.inUse ps i = true → (p.range.along r.axis).covers i = true) →
      minExtent (r.tracks ps) r.spacing = max (r.largest ps (p.range.along r.axis))
        (total ((List.range' (p.range.along r.axis).start (p.range.along r.axis).count).map
            fun i => r.largest ps ⟨i, 1⟩) +
          r.spacing * ((p.range.along r.axis).count - 1))) := by
  rw [minExtent_tracks fits]
  refine ⟨⟨⟨_, tracks_enough fits, rfl⟩, ?_⟩, fun spacing p hp all => ?_⟩
  · rintro n ⟨sizes, enough, rfl⟩
    have least := total_mins_le enough.used fits nested
    rw [extent, extent, usedSizes_tracks fits]
    omega
  · rw [extent_of_all fits hp all, spanned_tracks fits nested spacing hp all, firstRound_mins,
      spanned, slice_map, slice_range _ (fits p hp).2]

end MinExtent

def byWidth : Ruler := ⟨.horizontal, 6, [1, 3, 1, 2, 1], fun p => p.item.minimum.width⟩

def overColumns (id first count : Nat) (width : Int) : Placement :=
  ⟨{ Item.plain id with min := ⟨width, 0⟩ }, ⟨0, first, 1, count⟩⟩

def pairs : List Placement :=
  [overColumns 1 0 2 50, overColumns 2 1 1 10, overColumns 3 0 2 31, overColumns 4 3 2 47]

def header : List Placement :=
  [overColumns 1 1 3 90, overColumns 2 1 1 20, overColumns 3 2 1 30, overColumns 4 3 1 17,
    overColumns 5 1 3 55]

theorem pairs_and_header_least :
    IsLeast {n | ∃ sizes, byWidth.Enough pairs sizes ∧ byWidth.extent pairs sizes = n} 103 ∧
    minExtent (byWidth.tracks header) 6 = max 90 (20 + 30 + 17 + 6 * 2) := by
  have pairs_fit : byWidth.Fits pairs := by decide
  have header_fit : byWidth.Fits header := by decide
  have all : ∀ i, byWidth.inUse header i = true →
      ((overColumns 1 1 3 90).range.along .horizontal).covers i = true := by
    intro i used
    obtain ⟨p, hp, covers⟩ := List.any_eq_true.mp used
    have inside : ∀ p ∈ header, 1 ≤ (p.range.along .horizontal).start ∧
        (p.range.along .horizontal).start + (p.range.along .horizontal).count ≤ 4 := by decide
    have here := Span.covers_iff.mp covers
    have within := inside p hp
    exact Span.covers_iff.mpr ⟨within.1.trans here.1, here.2.trans_le within.2⟩
  exact ⟨(minExtent_least pairs_fit (by decide)).1,
    (minExtent_least header_fit (by decide)).2 (by decide) _ (List.mem_cons_self ..) all⟩

/-- Where items share some of their tracks, other sizes may take less: here the middle column alone
could serve both. -/
example : minExtent (byWidth.tracks [overColumns 1 0 2 46, overColumns 2 1 2 46]) 6 = 62 := by
  decide

end Ruler

end Grid

end PixelLayout
