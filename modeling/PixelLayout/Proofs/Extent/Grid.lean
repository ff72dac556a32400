import PixelLayout.Grid.Arrange
import PixelLayout.Proofs.Extent.Line
import PixelLayout.Proofs.Grid.Matrix

/-!
# Extents in a grid

There is one track for each stretch factor. Its minimum is not negative, since it starts at zero and
is only raised; so no size of a track is negative, and tracks start one behind the other. An item
has its place between the start of its first track and the end of its last one, both of which are
tracks of the grid.
-/

set_option autoImplicit false

namespace PixelLayout

theorem Range.count_pos {r : Range} (h : r.check = .ok ()) (axis : Axis) :
    1 ≤ (r.along axis).count := by
  unfold check at h
  split at h
  · cases h
  split at h
  · cases h
  · next hspan =>
    simp only [Bool.or_eq_true, decide_eq_true_eq, not_or, Int.not_lt] at hspan
    cases axis <;> simp only [along, Axis.pick_horizontal, Axis.pick_vertical] <;> omega

theorem Range.Inside.along {r : Range} {rows columns : Nat} (h : r.Inside rows columns)
    (axis : Axis) : (r.along axis).start + (r.along axis).count ≤ axis.pick columns rows := by
  cases axis
  · exact h.2
  · exact h.1

namespace Grid

theorem portions_length (amount : Int) (ws : List Nat) :
    (portions amount ws).length = ws.length := by
  induction ws generalizing amount with
  | nil => rfl
  | cons w ws ih => simp [portions, ih]

theorem portions_nonneg {amount : Int} (h : 0 ≤ amount) (ws : List Nat) :
    ∀ a ∈ portions amount ws, 0 ≤ a := by
  induction ws generalizing amount with
  | nil => simp [portions]
  | cons w ws ih =>
    have hprod : 0 ≤ amount * w := Int.mul_nonneg h (Int.natCast_nonneg w)
    have hpart : 0 ≤ (amount * w).tdiv (w + totalWeight ws : Nat) :=
      Int.tdiv_nonneg hprod (Int.natCast_nonneg _)
    have hle : (amount * w).tdiv (w + totalWeight ws : Nat) ≤ amount := by
      rw [Int.tdiv_eq_ediv_of_nonneg hprod]
      rcases Nat.eq_zero_or_pos (w + totalWeight ws) with hz | hpos
      · rw [hz]
        simpa using h
      · refine Int.ediv_le_of_le_mul (by exact_mod_cast hpos) ?_
        exact Int.mul_le_mul_of_nonneg_left (by push_cast; omega) h
    exact List.forall_mem_cons.mpr ⟨hpart, ih (Int.sub_nonneg.mpr hle)⟩

def Laid (n : Nat) (tracks : List Track) : Prop :=
  tracks.length = n ∧ ∀ t ∈ tracks, 0 ≤ t.min

theorem raise_laid {n : Nat} {tracks : List Track} (h : Laid n tracks) (s : Span)
    {amounts : List Int} (hlen : amounts.length = s.count) (ha : ∀ a ∈ amounts, 0 ≤ a) :
    Laid n (raise s amounts tracks) := by
  refine ⟨?_, fun t ht => ?_⟩
  · have := h.1
    simp only [raise, slice, List.length_append, List.length_take, List.length_zipWith,
      List.length_drop, hlen]
    omega
  · simp only [raise, List.mem_append] at ht
    rcases ht with (ht | ht) | ht
    · exact h.2 t (List.mem_of_mem_take ht)
    · rw [← List.map_uncurry_zip_eq_zipWith] at ht
      obtain ⟨e, he, rfl⟩ := List.mem_map.mp ht
      obtain ⟨htrack, hamount⟩ := List.of_mem_zip he
      have hmin := h.2 e.1 (List.mem_of_mem_drop (List.mem_of_mem_take htrack))
      exact Int.add_nonneg hmin (ha e.2 hamount)
    · exact h.2 t (List.mem_of_mem_drop ht)

namespace Ruler

variable (r : Ruler) {n : Nat} {tracks : List Track}

theorem occupy_laid (h : Laid n tracks) (p : Placement) : Laid n (r.occupy tracks p) := by
  refine ⟨List.length_mapIdx.trans h.1, fun t ht => ?_⟩
  obtain ⟨i, hi, rfl⟩ := List.mem_mapIdx.mp ht
  have hmin := h.2 _ (List.getElem_mem hi)
  have hcover (m : Option Int) : (tracks[i].cover m).min = tracks[i].min := by cases m <;> rfl
  split
  · dsimp only
    split
    · simp only [Track.hold, hcover]
      omega
    · rwa [hcover]
  · exact hmin

theorem widen_laid (h : Laid n tracks) (p : Placement) : Laid n (r.widen tracks p) := by
  simp only [widen, Bool.or_eq_true, decide_eq_true_eq]
  split
  · exact h
  · next hneed =>
    refine raise_laid h _ ?_ (portions_nonneg (by omega) _)
    rw [portions_length, weights, List.length_map, List.length_range]

theorem idle_laid (n : Nat) : Laid n (List.replicate n .idle) := by
  refine ⟨List.length_replicate, fun t ht => ?_⟩
  rw [List.eq_of_mem_replicate ht]
  exact le_rfl

/-- One track for each stretch factor, none with a negative minimum. -/
theorem tracks_laid (ps : List Placement) : Laid r.stretch.length (r.tracks ps) :=
  List.foldlRecOn ps _
    (List.foldlRecOn ps _ (idle_laid _) fun _ h p _ => r.occupy_laid h p)
    fun _ h p _ => r.widen_laid h p

end Ruler

section Sizes

variable {n : Nat} {tracks : List Track}

theorem request_valid (h : Laid n tracks) (stretch : List Nat) (available spacing : Int) :
    (request tracks stretch available spacing).Valid := by
  intro d hd
  obtain ⟨⟨t, i⟩, ht, hd⟩ := List.mem_filterMap.mp hd
  have hmin := h.2 t (List.fst_mem_of_mem_zipIdx ht)
  dsimp only at hd
  split at hd
  · cases hd
    refine ⟨hmin, fun m hm => ?_⟩
    simp only [Track.max] at hm
    split at hm
    · cases hm
    · cases hm
      exact le_max_right _ _
  · cases hd

theorem scatter_length (tracks : List Track) (sizes : List Int) :
    (scatter tracks sizes).length = tracks.length := by
  induction tracks generalizing sizes with
  | nil => rfl
  | cons t ts ih =>
    unfold scatter
    split
    · cases sizes <;> simp [ih]
    · simp [ih]

theorem scatter_nonneg (tracks : List Track) {sizes : List Int} (h : ∀ n ∈ sizes, 0 ≤ n) :
    ∀ n ∈ scatter tracks sizes, 0 ≤ n := by
  induction tracks generalizing sizes with
  | nil => simp [scatter]
  | cons t ts ih =>
    unfold scatter
    split
    · cases sizes with
      | nil => exact List.forall_mem_cons.mpr ⟨le_rfl, ih h⟩
      | cons s rest =>
        obtain ⟨hs, hrest⟩ := List.forall_mem_cons.mp h
        exact List.forall_mem_cons.mpr ⟨hs, ih hrest⟩
    · exact List.forall_mem_cons.mpr ⟨le_rfl, ih h⟩

theorem trackSizes_nonneg (h : Laid n tracks) (stretch : List Nat) (available spacing : Int) :
    ∀ n ∈ trackSizes tracks stretch available spacing, 0 ≤ n :=
  scatter_nonneg _ (Space.Request.sizes_nonneg (request_valid h stretch available spacing))

end Sizes

section Starts

variable {spacing : Int} (hs : 0 ≤ spacing)

theorem trackStarts_length (spacing position : Int) (es : List (Track × Int)) :
    (trackStarts spacing position es).length = es.length := by
  induction es generalizing position with
  | nil => rfl
  | cons e es ih => simp [trackStarts, ih]

include hs

theorem le_of_mem_trackStarts {position : Int} {es : List (Track × Int)}
    (h : ∀ e ∈ es, 0 ≤ e.2) : ∀ x ∈ trackStarts spacing position es, position ≤ x := by
  induction es generalizing position with
  | nil => simp [trackStarts]
  | cons e es ih =>
    obtain ⟨he, hes⟩ := List.forall_mem_cons.mp h
    refine List.forall_mem_cons.mpr ⟨le_rfl, fun x hx => le_trans ?_ (ih hes x hx)⟩
    split <;> omega

/-- No track starts before one ahead of it. -/
theorem trackStarts_pairwise {position : Int} {es : List (Track × Int)}
    (h : ∀ e ∈ es, 0 ≤ e.2) : (trackStarts spacing position es).Pairwise (· ≤ ·) := by
  induction es generalizing position with
  | nil => exact List.Pairwise.nil
  | cons e es ih =>
    obtain ⟨he, hes⟩ := List.forall_mem_cons.mp h
    refine List.pairwise_cons.mpr ⟨fun x hx => ?_, ih hes⟩
    exact le_of_mem_trackStarts hs h x (List.mem_cons_of_mem _ hx)

end Starts

theorem getD_nonneg {ns : List Int} (h : ∀ n ∈ ns, 0 ≤ n) (i : Nat) : 0 ≤ ns.getD i 0 := by
  rw [List.getD_eq_getElem?_getD]
  cases hi : ns[i]? with
  | none => exact le_rfl
  | some n => exact h n (List.mem_of_getElem? hi)

theorem getD_mono {ns : List Int} (h : ns.Pairwise (· ≤ ·)) {i j : Nat} (hij : i ≤ j)
    (hj : j < ns.length) : ns.getD i 0 ≤ ns.getD j 0 := by
  rw [List.getD_eq_getElem _ _ (hij.trans_lt hj), List.getD_eq_getElem _ _ hj]
  rcases hij.eq_or_lt with rfl | hlt
  · exact le_rfl
  · exact List.pairwise_iff_getElem.mp h i j _ hj hlt

/-- An item whose tracks are all in the grid has room in them. -/
theorem place_nonneg {n : Nat} {tracks : List Track} (laid : Laid n tracks) (stretch : List Nat)
    {spacing : Int} (hs : 0 ≤ spacing) (available origin : Int) {p : Placement} {axis : Axis}
    (alignment : Alignment) (count : 1 ≤ (p.range.along axis).count)
    (inside : (p.range.along axis).start + (p.range.along axis).count ≤ n)
    (hmin : 0 ≤ p.item.minimum.along axis) :
    let sizes := trackSizes tracks stretch available spacing
    0 ≤ (place p axis (trackStarts spacing origin (tracks.zip sizes)) sizes alignment).2 := by
  intro sizes
  have hsizes : ∀ n ∈ sizes, 0 ≤ n := trackSizes_nonneg laid stretch available spacing
  have sorted : (trackStarts spacing origin (tracks.zip sizes)).Pairwise (· ≤ ·) :=
    trackStarts_pairwise hs fun e he => hsizes e.2 (List.of_mem_zip he).2
  have length : (trackStarts spacing origin (tracks.zip sizes)).length = n := by
    have each : sizes.length = tracks.length := scatter_length _ _
    rw [trackStarts_length, List.length_zip, each, Nat.min_self, laid.1]
  set last := (p.range.along axis).start + (p.range.along axis).count - 1 with hlast
  have ordered := getD_mono sorted (i := (p.range.along axis).start) (j := last)
    (by omega) (by omega)
  have final := getD_nonneg hsizes last
  unfold place
  dsimp only
  rw [← hlast]
  split
  · dsimp only
    omega
  · refine le_min (hmin.trans (le_max_right _ _)) ?_
    omega

theorem mem_placements {g : Grid} {children : List Item} {p : Placement}
    (h : p ∈ g.placements children) :
    p.item ∈ children ∧ g.ranges.get? p.item.id = some p.range := by
  obtain ⟨item, hitem, hp⟩ := List.mem_filterMap.mp h
  obtain ⟨range, hrange, rfl⟩ := Option.map_eq_some_iff.mp hp
  exact ⟨(List.mem_filter.mp hitem).1, hrange⟩

theorem arrange_nonneg {g : Grid} (wf : g.WellFormed) {settings : Settings}
    (hs : 0 ≤ settings.spacing) {children : List Item} (hc : ∀ c ∈ children, c.Nonneg)
    (bounds : Rect) : Batch.Nonneg (g.arrange settings children bounds) := by
  intro e he
  obtain ⟨p, hp, rfl⟩ := List.mem_map.mp he
  obtain ⟨hchild, hrange⟩ := mem_placements hp
  have valid := wf.valid _ _ hrange
  have inside := wf.inside _ _ hrange
  have least := (hc p.item hchild).minimum
  exact ⟨place_nonneg ((g.columnRuler settings).tracks_laid _) _ hs _ _ _
      (Range.count_pos valid .horizontal) (inside.along .horizontal) (least .horizontal),
    place_nonneg ((g.rowRuler settings _ _).tracks_laid _) _ hs _ _ _
      (Range.count_pos valid .vertical) (inside.along .vertical) (least .vertical)⟩

end Grid

end PixelLayout
