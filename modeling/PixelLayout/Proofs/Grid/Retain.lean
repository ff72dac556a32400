import Mathlib.Data.Nat.Count
import PixelLayout.Proofs.Grid.Served

/-!
# Leaving tracks out

If no item covers a track, then it can be left out, with the tracks behind it renumbered. Everything
that is made from the tracks is then the same list without the entries of those left out: they have no
demand, no size and no spacing, and the tracks of an item are neither parted nor counted differently.
The same tracks may be left out at each step, so that the two runs are compared list by list.
-/

set_option autoImplicit false

namespace PixelLayout

section Retain

variable {α β : Type} {keep : Nat → Bool}

def retain {α : Type} : (Nat → Bool) → List α → List α
  | _, [] => []
  | keep, a :: l =>
    let rest := retain (fun i => keep (i + 1)) l
    if keep 0 then a :: rest else rest

def rank (keep : Nat → Bool) (i : Nat) : Nat := Nat.count (keep · = true) i

theorem rank_succ (i : Nat) : rank keep (i + 1) = rank keep i + if keep i then 1 else 0 :=
  Nat.count_succ _ i

theorem rank_cons (i : Nat) :
    rank keep (i + 1) = rank (fun j => keep (j + 1)) i + if keep 0 then 1 else 0 :=
  Nat.count_succ' _ i

theorem rank_lt_iff {i : Nat} (hi : keep i = true) (j : Nat) :
    rank keep i < rank keep j ↔ i < j := by
  constructor
  · intro h
    by_contra le
    exact absurd (Nat.count_monotone _ (Nat.le_of_not_lt le)) (Nat.not_le.mpr h)
  · exact Nat.count_strict_mono hi

theorem rank_le_iff {i : Nat} (hi : keep i = true) (j : Nat) :
    rank keep j ≤ rank keep i ↔ j ≤ i := by
  rw [← Nat.not_lt, rank_lt_iff hi, Nat.not_lt]

theorem retain_getElem? (l : List α) {i : Nat} (hi : keep i = true) :
    (retain keep l)[rank keep i]? = l[i]? := by
  induction l generalizing keep i with
  | nil => rfl
  | cons a l ih =>
    cases i with
    | zero =>
      rw [retain, if_pos hi]
      rfl
    | succ i =>
      have rest : (retain (fun j => keep (j + 1)) l)[rank (fun j => keep (j + 1)) i]? = l[i]? :=
        ih hi
      rw [retain, rank_cons, List.getElem?_cons_succ, ← rest]
      by_cases first : keep 0 = true
      · rw [if_pos first, if_pos first, List.getElem?_cons_succ]
      · rw [if_neg first, if_neg first, Nat.add_zero]

theorem retain_getD (l : List α) {i : Nat} (hi : keep i = true) (a : α) :
    (retain keep l).getD (rank keep i) a = l.getD i a := by
  rw [List.getD_eq_getElem?_getD, List.getD_eq_getElem?_getD, retain_getElem? l hi]

theorem retain_of_all (h : ∀ i, keep i = true) (l : List α) : retain keep l = l := by
  induction l generalizing keep with
  | nil => rfl
  | cons a l ih => rw [retain, if_pos (h 0), ih fun i => h (i + 1)]

theorem retain_mapIdx {f f' : Nat → α → β} (h : ∀ i, keep i = true → f' (rank keep i) = f i)
    (l : List α) : (retain keep l).mapIdx f' = retain keep (l.mapIdx f) := by
  induction l generalizing keep f f' with
  | nil => rfl
  | cons a l ih =>
    rw [List.mapIdx_cons, retain, retain]
    by_cases first : keep 0 = true
    · have head : f' 0 = f 0 := h 0 first
      rw [if_pos first, if_pos first, List.mapIdx_cons, head, ih]
      intro i hi
      rw [← h (i + 1) hi, rank_cons, if_pos first]
    · rw [if_neg first, if_neg first, ih]
      intro i hi
      rw [← h (i + 1) hi, rank_cons, if_neg first, Nat.add_zero]

theorem retain_length (l : List α) : (retain keep l).length = rank keep l.length := by
  induction l generalizing keep with
  | nil => rfl
  | cons a l ih =>
    rw [retain, List.length_cons, rank_cons, ← ih]
    split <;> rfl

theorem retain_map (f : α → β) (l : List α) : (retain keep l).map f = retain keep (l.map f) := by
  induction l generalizing keep with
  | nil => rfl
  | cons a l ih =>
    rw [List.map_cons, retain, retain, ← ih]
    split <;> rfl

theorem retain_zip (l : List α) (l' : List β) :
    (retain keep l).zip (retain keep l') = retain keep (l.zip l') := by
  induction l generalizing keep l' with
  | nil => rfl
  | cons a l ih =>
    cases l' with
    | nil => simp [retain]
    | cons b l' =>
      rw [List.zip_cons_cons, retain, retain, retain, ← ih]
      split <;> rfl

def LeavesOut {α : Type} (keep : Nat → Bool) (idle : α → Prop) (l : List α) : Prop :=
  ∀ i a, l[i]? = some a → keep i = false → idle a

theorem LeavesOut.of_cons {idle : α → Prop} {a : α} {l : List α} (h : LeavesOut keep idle (a :: l)) :
    (¬ keep 0 = true → idle a) ∧ LeavesOut (fun i => keep (i + 1)) idle l :=
  ⟨fun first => h 0 a rfl (Bool.eq_false_of_not_eq_true first), fun i => h (i + 1)⟩

/-- What a filter drops may be left out before it. -/
theorem filterMap_retain {f : α → Option β} {l : List α} (h : LeavesOut keep (f · = none) l) :
    (retain keep l).filterMap f = l.filterMap f := by
  induction l generalizing keep with
  | nil => rfl
  | cons a l ih =>
    obtain ⟨idle, rest⟩ := h.of_cons
    rw [retain]
    by_cases first : keep 0 = true
    · rw [if_pos first, List.filterMap_cons, ih rest, List.filterMap_cons]
    · rw [if_neg first, List.filterMap_cons_none (idle first), ih rest]

end Retain

namespace Span

variable {keep : Nat → Bool} {s : Span}

def ranked (s : Span) (keep : Nat → Bool) : Span := ⟨rank keep s.start, s.count⟩

def Kept (s : Span) (keep : Nat → Bool) : Prop := ∀ i, s.covers i = true → keep i = true

namespace Kept

variable (h : s.Kept keep)

include h

theorem rank_add {n : Nat} (hn : n ≤ s.count) :
    rank keep (s.start + n) = rank keep s.start + n := by
  induction n with
  | zero => rfl
  | succ n ih =>
    have last : keep (s.start + n) = true := h _ (covers_iff.mpr (by omega))
    rw [← Nat.add_assoc, rank_succ, if_pos last, ih (by omega), Nat.add_assoc]

theorem ranked_covers {i : Nat} (hi : keep i = true) :
    (s.ranked keep).covers (rank keep i) = s.covers i := by
  rw [Bool.eq_iff_iff, covers_iff, covers_iff]
  show rank keep s.start ≤ rank keep i ∧ rank keep i < rank keep s.start + s.count ↔ _
  rw [← h.rank_add le_rfl, rank_le_iff hi, rank_lt_iff hi]

theorem ranked_last (some : 1 ≤ s.count) : (s.ranked keep).last = rank keep s.last := by
  have inside := h.rank_add (n := s.count - 1) (by omega)
  rw [last, last, Nat.add_sub_assoc some, inside, ← Nat.add_sub_assoc some]
  rfl

theorem inside_retain {α : Type} {l : List α} (inside : s.start + s.count ≤ l.length) :
    (s.ranked keep).start + (s.ranked keep).count ≤ (retain keep l).length := by
  rw [retain_length]
  show rank keep s.start + s.count ≤ _
  rw [← h.rank_add le_rfl]
  exact Nat.count_monotone _ inside

end Kept

end Span

namespace Grid

variable {keep : Nat → Bool}

theorem slice_retain {α : Type} {s : Span} (h : s.Kept keep) (l : List α) :
    slice (s.ranked keep) (retain keep l) = slice s l := by
  apply List.ext_getElem?
  intro j
  rw [slice_getElem?, slice_getElem?]
  show (if j < s.count then (retain keep l)[rank keep s.start + j]? else none) = _
  by_cases inside : j < s.count
  · have kept : keep (s.start + j) = true := h _ (Span.covers_iff.mpr (by omega))
    rw [if_pos inside, if_pos inside, ← h.rank_add inside.le, retain_getElem? l kept]
  · rw [if_neg inside, if_neg inside]

/-- Raising the tracks of a span, seen track by track. -/
theorem raise_eq_mapIdx {s : Span} {amounts : List Int} {tracks : List Track}
    (h : s.start + s.count ≤ tracks.length) (hlen : amounts.length = s.count) :
    raise s amounts tracks = tracks.mapIdx fun i t =>
      if s.covers i then { t with min := t.min + amounts.getD (i - s.start) 0 } else t := by
  apply List.ext_getElem?
  intro i
  have front : (tracks.take s.start).length = s.start := List.length_take_of_le (by omega)
  have middle : (slice s tracks).length = s.count := slice_length s h
  rw [raise, List.append_assoc, List.getElem?_append, List.getElem?_append, List.length_zipWith,
    front, middle, hlen, Nat.min_self, List.getElem?_mapIdx]
  by_cases ahead : i < s.start
  · have free : s.covers i = false := by simp [Span.covers, Nat.not_le.mpr ahead]
    simp [ahead, free]
  obtain ⟨j, rfl⟩ := Nat.exists_eq_add_of_le (Nat.le_of_not_lt ahead)
  rw [if_neg ahead, Nat.add_sub_cancel_left]
  by_cases inside : j < s.count
  · have covers : s.covers (s.start + j) = true := Span.covers_iff.mpr (by omega)
    have amount : j < amounts.length := hlen ▸ inside
    rw [if_pos inside, List.getElem?_zipWith, slice_getElem?, if_pos inside]
    cases tracks[s.start + j]? with
    | none => rfl
    | some t => simp [covers, amount]
  · have free : s.covers (s.start + j) = false := by simp [Span.covers, inside]
    rw [if_neg inside, List.getElem?_drop, Nat.add_assoc, Nat.add_sub_of_le (Nat.le_of_not_lt inside)]
    simp [free]

theorem raise_retain {s : Span} (kept : s.Kept keep) {amounts : List Int} {tracks : List Track}
    (h : s.start + s.count ≤ tracks.length) (hlen : amounts.length = s.count) :
    raise (s.ranked keep) amounts (retain keep tracks) = retain keep (raise s amounts tracks) := by
  rw [raise_eq_mapIdx (kept.inside_retain h) hlen, raise_eq_mapIdx h hlen]
  apply retain_mapIdx
  intro i hi
  funext t
  rw [kept.ranked_covers hi]
  by_cases covers : s.covers i = true
  · obtain ⟨low, high⟩ := Span.covers_iff.mp covers
    obtain ⟨j, rfl⟩ := Nat.exists_eq_add_of_le low
    have place : rank keep (s.start + j) - (s.ranked keep).start = j := by
      rw [kept.rank_add (by omega)]
      exact Nat.add_sub_cancel_left ..
    rw [if_pos covers, if_pos covers, place, Nat.add_sub_cancel_left]
  · rw [if_neg covers, if_neg covers]

theorem scatter_retain {tracks : List Track}
    (idle : LeavesOut keep (·.occupied = false) tracks) (sizes : List Int) :
    scatter (retain keep tracks) sizes = retain keep (scatter tracks sizes) := by
  induction tracks generalizing keep sizes with
  | nil => rfl
  | cons t ts ih =>
    obtain ⟨unused, rest⟩ := idle.of_cons
    rw [retain]
    by_cases first : keep 0 = true
    · rw [if_pos first]
      by_cases used : t.occupied = true
      · cases sizes with
        | nil => simp [scatter, used, retain, first, ih rest]
        | cons n ns => simp [scatter, used, retain, first, ih rest]
      · simp [scatter, used, retain, first, ih rest]
    · simp [scatter, unused first, retain, first, ih rest]

theorem trackStarts_retain (spacing position : Int) {es : List (Track × Int)}
    (idle : LeavesOut keep (·.1.occupied = false) es) :
    trackStarts spacing position (retain keep es) =
      retain keep (trackStarts spacing position es) := by
  induction es generalizing keep position with
  | nil => rfl
  | cons e es ih =>
    obtain ⟨unused, rest⟩ := idle.of_cons
    rw [retain, trackStarts, retain]
    by_cases first : keep 0 = true
    · rw [if_pos first, if_pos first, trackStarts, ih _ rest]
    · rw [if_neg first, if_neg first, ih _ rest, unused first]
      rfl

theorem demands_retain {tracks : List Track} (idle : LeavesOut keep (·.occupied = false) tracks)
    (stretch : List Nat) :
    demands (retain keep tracks) (retain keep stretch) = demands tracks stretch := by
  let demand (stretch : List Nat) (i : Nat) (t : Track) : Option Space.Demand :=
    if t.occupied then some ⟨t.min, t.max, stretchAt stretch i, t.tier⟩ else none
  have each (tracks : List Track) (stretch : List Nat) :
      demands tracks stretch = (tracks.mapIdx (demand stretch)).filterMap id := by
    rw [List.mapIdx_eq_zipIdx_map, List.filterMap_map]
    rfl
  rw [each, each, retain_mapIdx (f := demand stretch), filterMap_retain]
  · intro i d hd left
    rw [List.getElem?_mapIdx, Option.map_eq_some_iff] at hd
    obtain ⟨t, ht, rfl⟩ := hd
    exact if_neg (by simp [idle i t ht left])
  · intro i hi
    funext t
    simp only [demand, stretchAt, retain_getD stretch hi]

theorem minExtent_retain {tracks : List Track} (idle : LeavesOut keep (·.occupied = false) tracks)
    (spacing : Int) : minExtent (retain keep tracks) spacing = minExtent tracks spacing := by
  have used : (retain keep tracks).filter (·.occupied) = tracks.filter (·.occupied) := by
    rw [← List.filterMap_eq_filter, filterMap_retain]
    intro i t ht left
    simp [idle i t ht left]
  rw [minExtent, used]
  rfl

end Grid

section Ranked

variable (keep : Axis → Nat → Bool)

def Range.ranked (r : Range) : Range where
  row := rank (keep .vertical) r.row.toNat
  column := rank (keep .horizontal) r.column.toNat
  rowSpan := r.rowSpan
  columnSpan := r.columnSpan

theorem Range.along_ranked (r : Range) (axis : Axis) :
    (r.ranked keep).along axis = (r.along axis).ranked (keep axis) := by
  cases axis <;> rfl

def Grid.Placement.ranked (p : Placement) : Placement := ⟨p.item, p.range.ranked keep⟩

end Ranked

namespace Grid

structure Ruler.Spares (r r' : Ruler) (keep : Axis → Nat → Bool) (ps : List Placement) : Prop where
  axis : r'.axis = r.axis
  spacing : r'.spacing = r.spacing
  stretch : r'.stretch = retain (keep r.axis) r.stretch
  fits : r.Fits ps
  kept : ∀ p ∈ ps, (p.range.along r.axis).Kept (keep r.axis)
  need : ∀ p ∈ ps, r'.need (p.ranked keep) = r.need p

namespace Ruler.Spares

variable {r r' : Ruler} {keep : Axis → Nat → Bool} {ps : List Placement} (h : r.Spares r' keep ps)

include h

theorem along (p : Placement) : (p.ranked keep).range.along r'.axis =
    (p.range.along r.axis).ranked (keep r.axis) := by
  rw [Placement.ranked, Range.along_ranked, h.axis]

theorem occupy {p : Placement} (hp : p ∈ ps) (tracks : List Track) :
    r'.occupy (retain (keep r.axis) tracks) (p.ranked keep) =
      retain (keep r.axis) (r.occupy tracks p) := by
  unfold Ruler.occupy
  apply retain_mapIdx
  intro i hi
  funext t
  rw [h.along, (h.kept p hp).ranked_covers hi, h.need p hp, h.axis]
  rfl

theorem weights {p : Placement} (hp : p ∈ ps) :
    r'.weights ((p.range.along r.axis).ranked (keep r.axis)) =
      r.weights (p.range.along r.axis) := by
  have kept := h.kept p hp
  apply List.map_congr_left
  intro j hj
  have inside : j < (p.range.along r.axis).count := List.mem_range.mp hj
  have here : keep r.axis ((p.range.along r.axis).start + j) = true :=
    kept _ (Span.covers_iff.mpr (by omega))
  show stretchAt r'.stretch (rank (keep r.axis) (p.range.along r.axis).start + j) = _
  rw [← kept.rank_add inside.le, stretchAt, stretchAt, h.stretch, retain_getD _ here]

theorem widen {p : Placement} (hp : p ∈ ps) {tracks : List Track}
    (laid : tracks.length = r.stretch.length) :
    r'.widen (retain (keep r.axis) tracks) (p.ranked keep) =
      retain (keep r.axis) (r.widen tracks p) := by
  have kept := h.kept p hp
  have deficit : r'.deficit (retain (keep r.axis) tracks) (p.ranked keep) = r.deficit tracks p := by
    rw [Ruler.deficit, h.along, slice_retain kept, h.need p hp, h.spacing]
    rfl
  unfold Ruler.widen
  dsimp only
  rw [h.along, deficit, h.weights hp]
  show (if (decide ((p.range.along r.axis).count < 2) || _) = true then _ else _) = _
  split
  · rfl
  · apply raise_retain kept (laid ▸ (h.fits p hp).2)
    rw [portions_length, weights_length]

theorem firstRound :
    r'.firstRound (ps.map (.ranked keep)) = retain (keep r.axis) (r.firstRound ps) := by
  unfold Ruler.firstRound
  rw [List.foldl_map]
  apply List.foldl_rel (r := fun ts' ts => ts' = retain (keep r.axis) ts)
  · rw [h.stretch, ← List.map_const', ← List.map_const', retain_map]
  · rintro p hp _ ts rfl
    exact h.occupy hp ts

theorem tracks : r'.tracks (ps.map (.ranked keep)) = retain (keep r.axis) (r.tracks ps) := by
  have rounds : (ps.map (.ranked keep)).foldl r'.widen (r'.firstRound (ps.map (.ranked keep))) =
        retain (keep r.axis) (ps.foldl r.widen (r.firstRound ps)) ∧
      Laid r.stretch.length (ps.foldl r.widen (r.firstRound ps)) := by
    rw [List.foldl_map]
    -- the two runs stay in step: each item finds the same tracks but for those left out
    apply List.foldl_rel
      (r := fun ts' ts => ts' = retain (keep r.axis) ts ∧ Laid r.stretch.length ts)
    · exact ⟨h.firstRound, r.firstRound_laid ps⟩
    · rintro p hp _ ts ⟨rfl, laid⟩
      exact ⟨h.widen hp laid.1, r.widen_laid laid p⟩
  exact rounds.1

theorem idle : LeavesOut (keep r.axis) (·.occupied = false) (r.tracks ps) := by
  intro i t ht left
  rw [used_of_covered ht, List.any_eq_false]
  intro p hp covers
  simp [h.kept p hp i covers] at left

theorem minExtent : minExtent (r'.tracks (ps.map (.ranked keep))) r'.spacing =
    Grid.minExtent (r.tracks ps) r.spacing := by
  rw [h.tracks, minExtent_retain h.idle, h.spacing]

variable (available origin : Int)

theorem sizes : r'.sizes (ps.map (.ranked keep)) available =
    retain (keep r.axis) (r.sizes ps available) := by
  rw [Ruler.sizes, trackSizes_def, request, h.tracks, h.stretch, h.spacing, demands_retain h.idle,
    scatter_retain h.idle]
  rfl

theorem starts : r'.starts (ps.map (.ranked keep)) available origin =
    retain (keep r.axis) (r.starts ps available origin) := by
  rw [Ruler.starts, h.sizes, h.tracks, h.spacing, retain_zip, trackStarts_retain]
  · rfl
  · intro i e he left
    exact h.idle i e.1 (List.getElem?_zip_eq_some.mp he).1 left

variable {p : Placement} (hp : p ∈ ps)

include hp

/-- The tracks of an item are where they were. -/
theorem placed (alignment : Alignment) :
    r'.placed (ps.map (.ranked keep)) available origin alignment (p.ranked keep) =
      r.placed ps available origin alignment p := by
  have kept := h.kept p hp
  have within := h.fits p hp
  have first : keep r.axis (p.range.along r.axis).start = true :=
    kept _ (Span.covers_iff.mpr ⟨le_rfl, Nat.lt_add_of_pos_right within.1⟩)
  have last : keep r.axis (p.range.along r.axis).last = true := kept _ (covers_last within)
  have start (l : List Int) : (retain (keep r.axis) l).getD
      ((p.range.along r.axis).ranked (keep r.axis)).start 0 =
        l.getD (p.range.along r.axis).start 0 := retain_getD l first 0
  unfold Ruler.placed place
  dsimp only
  rw [← Span.last, ← Span.last, h.along, kept.ranked_last within.1, h.sizes, h.starts, h.axis,
    start, retain_getD _ last, retain_getD _ last]
  rfl

theorem spanExtent : spanExtent (r'.tracks (ps.map (.ranked keep)))
      (r'.sizes (ps.map (.ranked keep)) available) ((p.range.along r.axis).ranked (keep r.axis))
      r'.spacing =
    Grid.spanExtent (r.tracks ps) (r.sizes ps available) (p.range.along r.axis) r.spacing := by
  have kept := h.kept p hp
  rw [h.tracks, h.sizes, h.spacing, Grid.spanExtent, slice_retain kept, slice_retain kept]
  rfl

end Ruler.Spares

end Grid

end PixelLayout
