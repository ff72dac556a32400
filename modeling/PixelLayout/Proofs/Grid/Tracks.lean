import PixelLayout.Proofs.Extent.Grid
import PixelLayout.Proofs.Space.Bounds

/-!
# Tracks in use

A track is in use exactly if some item covers it. Behind each track in use there is its size and the
spacing before the next track starts. If the space has room for what the tracks need together, then
the last one in use ends within the space. An item stays between the start of its first track and the
end of its last one.
-/

set_option autoImplicit false

namespace PixelLayout

namespace Span

def last (s : Span) : Nat := s.start + s.count - 1

def Within {α : Type} (s : Span) (l : List α) : Prop := 1 ≤ s.count ∧ s.start + s.count ≤ l.length

theorem covers_iff {s : Span} {i : Nat} :
    s.covers i = true ↔ s.start ≤ i ∧ i < s.start + s.count := by
  simp only [covers, Bool.and_eq_true, decide_eq_true_eq]

end Span

namespace Space.Request

theorem total_sizes_le_available {r : Request} (hr : r.Valid)
    (fits : r.minimums + r.gaps ≤ r.available) : total r.sizes + r.gaps ≤ r.available := by
  have feasible : r.feasible = true := decide_eq_true fits
  have sum := total_sizes hr feasible
  have rest := leftover_nonneg (queue_sound hr) (feasible_iff.mp feasible)
  simp only [opening, Account.excess] at sum rest
  omega

end Space.Request

namespace Grid

theorem Track.cover_occupied (t : Track) (m : Option Int) : (t.cover m).occupied = true := by
  cases m <;> rfl

section Occupied

theorem slices_append {α : Type} (s : Span) (l : List α) :
    l.take s.start ++ slice s l ++ l.drop (s.start + s.count) = l := by
  rw [slice, List.append_assoc, ← List.drop_drop, List.take_append_drop, List.take_append_drop]

theorem raise_occupied (s : Span) {amounts : List Int} (hlen : amounts.length = s.count)
    (tracks : List Track) :
    (raise s amounts tracks).map (·.occupied) = tracks.map (·.occupied) := by
  have inner : (List.zipWith (fun (t : Track) a => { t with min := t.min + a })
      (slice s tracks) amounts).map (·.occupied) = (slice s tracks).map (·.occupied) := by
    have le : (slice s tracks).length ≤ amounts.length := by
      rw [hlen]
      exact List.length_take_le _ _
    rw [List.map_zipWith, ← List.map_uncurry_zip_eq_zipWith]
    conv_rhs => rw [← List.map_fst_zip le, List.map_map]
    rfl
  rw [raise, List.map_append, List.map_append, inner, ← List.map_append, ← List.map_append,
    slices_append]

namespace Ruler

variable (r : Ruler)

theorem occupy_occupied (tracks : List Track) (p : Placement) (i : Nat) :
    (r.occupy tracks p)[i]?.map (·.occupied) =
      tracks[i]?.map fun t => t.occupied || (p.range.along r.axis).covers i := by
  rw [occupy, List.getElem?_mapIdx, Option.map_map]
  congr 1
  funext t
  simp only [Function.comp]
  split
  · next covers =>
    rw [covers, Bool.or_true]
    split <;> simp [Track.hold, Track.cover_occupied]
  · next free => simp [free]

theorem foldl_occupy_occupied (ps : List Placement) (tracks : List Track) (i : Nat) :
    (ps.foldl r.occupy tracks)[i]?.map (·.occupied) =
      tracks[i]?.map fun t => t.occupied || ps.any fun p => (p.range.along r.axis).covers i := by
  induction ps generalizing tracks with
  | nil => simp
  | cons p ps ih =>
    have step := r.occupy_occupied tracks p i
    rw [List.foldl_cons, ih]
    cases ht : tracks[i]? with
    | none =>
      rw [ht, Option.map_none, Option.map_eq_none_iff] at step
      rw [step]
      rfl
    | some t =>
      rw [ht, Option.map_some, Option.map_eq_some_iff] at step
      obtain ⟨t', ht', same⟩ := step
      rw [ht', Option.map_some, Option.map_some, same, List.any_cons, Bool.or_assoc]

theorem widen_occupied (tracks : List Track) (p : Placement) :
    (r.widen tracks p).map (·.occupied) = tracks.map (·.occupied) := by
  simp only [widen]
  split
  · rfl
  · refine raise_occupied _ ?_ tracks
    rw [portions_length, weights, List.length_map, List.length_range]

theorem foldl_widen_occupied (ps : List Placement) (tracks : List Track) :
    (ps.foldl r.widen tracks).map (·.occupied) = tracks.map (·.occupied) := by
  induction ps generalizing tracks with
  | nil => rfl
  | cons p ps ih => rw [List.foldl_cons, ih, r.widen_occupied]

/-- A track is in use exactly if the range of an item covers it. -/
theorem tracks_occupied (ps : List Placement) {i : Nat} (hi : i < (r.tracks ps).length) :
    (r.tracks ps)[i].occupied = ps.any fun p => (p.range.along r.axis).covers i := by
  -- the second round only raises minimums, so the first one decides
  have widened := congrArg (·[i]?) (r.foldl_widen_occupied ps
    (ps.foldl r.occupy (List.replicate r.stretch.length .idle)))
  have laid := (r.tracks_laid ps).1
  simp only [List.getElem?_map] at widened
  rw [foldl_occupy_occupied, List.getElem?_replicate, if_pos (laid ▸ hi)] at widened
  change (r.tracks ps)[i]?.map _ = _ at widened
  rw [List.getElem?_eq_getElem hi] at widened
  simpa [Track.idle] using widened

end Ruler

end Occupied

def taken (spacing : Int) : List (Track × Int) → Int
  | [] => 0
  | (t, size) :: rest => (if t.occupied then size + spacing else 0) + taken spacing rest

theorem taken_eq (spacing : Int) (es : List (Track × Int)) :
    taken spacing es = total ((es.filter (·.1.occupied)).map (·.2)) +
      spacing * (es.filter (·.1.occupied)).length := by
  induction es with
  | nil => simp [taken]
  | cons e es ih =>
    by_cases used : e.1.occupied = true
    · rw [taken, if_pos used, ih, List.filter_cons, if_pos used]
      simp only [List.map_cons, total_cons, List.length_cons]
      push_cast
      ring
    · rw [taken, if_neg used, ih, List.filter_cons, if_neg used, zero_add]

section Starts

variable {spacing : Int} (hs : 0 ≤ spacing)

include hs

theorem taken_nonneg {es : List (Track × Int)} (h : ∀ e ∈ es, 0 ≤ e.2) : 0 ≤ taken spacing es := by
  induction es with
  | nil => exact le_rfl
  | cons e es ih =>
    obtain ⟨he, hes⟩ := List.forall_mem_cons.mp h
    have rest := ih hes
    rw [taken]
    split <;> omega

/-- A track in use ends at least the spacing before any track behind it starts. -/
theorem trackStarts_apart {position : Int} {es : List (Track × Int)} (h : ∀ e ∈ es, 0 ≤ e.2)
    {i j : Nat} (hij : i < j) (hj : j < es.length) {e : Track × Int} (he : es[i]? = some e)
    (used : e.1.occupied = true) :
    (trackStarts spacing position es).getD i 0 + e.2 + spacing ≤
      (trackStarts spacing position es).getD j 0 := by
  induction es generalizing position i j with
  | nil => cases hj
  | cons first es ih =>
    obtain ⟨-, hes⟩ := List.forall_mem_cons.mp h
    obtain ⟨k, rfl⟩ := Nat.exists_eq_succ_of_ne_zero (Nat.ne_zero_of_lt hij)
    have hk : k < es.length := Nat.lt_of_succ_lt_succ hj
    rw [trackStarts, List.getD_cons_succ]
    cases i with
    | zero =>
      -- no track behind this one starts before its size and the spacing are passed
      cases he
      have hk' : k < (trackStarts spacing (position + (e.2 + spacing)) es).length := by
        rwa [trackStarts_length]
      rw [if_pos used, List.getD_cons_zero, List.getD_eq_getElem _ _ hk', add_assoc]
      exact le_of_mem_trackStarts hs hes _ (List.getElem_mem hk')
    | succ i => exact ih hes (Nat.lt_of_succ_lt_succ hij) hk he

/-- All tracks in use end within what they take. -/
theorem trackStarts_end_le {position : Int} {es : List (Track × Int)} (h : ∀ e ∈ es, 0 ≤ e.2)
    {i : Nat} {e : Track × Int} (he : es[i]? = some e) (used : e.1.occupied = true) :
    (trackStarts spacing position es).getD i 0 + e.2 + spacing ≤ position + taken spacing es := by
  induction es generalizing position i with
  | nil => cases he
  | cons first es ih =>
    obtain ⟨-, hes⟩ := List.forall_mem_cons.mp h
    have rest := taken_nonneg hs hes
    rw [trackStarts, taken]
    cases i with
    | zero =>
      cases he
      simp only [if_pos used, List.getD_cons_zero]
      omega
    | succ i =>
      rw [List.getD_cons_succ]
      refine (ih hes he).trans ?_
      split <;> omega

end Starts

section Sizes

theorem filter_zip_scatter (tracks : List Track) {sizes : List Int}
    (h : sizes.length = (tracks.filter (·.occupied)).length) :
    ((tracks.zip (scatter tracks sizes)).filter (·.1.occupied)).map (·.2) = sizes := by
  induction tracks generalizing sizes with
  | nil => exact (List.eq_nil_of_length_eq_zero h).symm
  | cons t ts ih =>
    by_cases used : t.occupied = true
    · cases sizes with
      | nil => simp [used] at h
      | cons n ns =>
        have rest : ns.length = (ts.filter (·.occupied)).length := by simpa [used] using h
        simp [scatter, used, ih rest]
    · have rest : sizes.length = (ts.filter (·.occupied)).length := by simpa [used] using h
      simp [scatter, used, ih rest]

theorem demands_map_min (tracks : List Track) (stretch : List Nat) :
    (demands tracks stretch).map (·.min) = (tracks.filter (·.occupied)).map (·.min) := by
  let demand (e : Track × Nat) : Option Space.Demand :=
    if e.1.occupied then some ⟨e.1.min, e.1.max, stretchAt stretch e.2, e.1.tier⟩ else none
  have mins (k : Nat) : ((tracks.zipIdx k).filterMap demand).map (·.min) =
      (tracks.filter (·.occupied)).map (·.min) := by
    induction tracks generalizing k with
    | nil => rfl
    | cons t ts ih =>
      have rest := ih (k + 1)
      by_cases used : t.occupied = true
      · simp [demand, used, rest]
      · simp [demand, used, rest]
  exact mins 0

theorem demands_length (tracks : List Track) (stretch : List Nat) :
    (demands tracks stretch).length = (tracks.filter (·.occupied)).length := by
  simpa using congrArg List.length (demands_map_min tracks stretch)

variable (tracks : List Track) (stretch : List Nat) (available spacing : Int)

theorem minExtent_eq (used : ∃ t ∈ tracks, t.occupied = true) :
    let r := request tracks stretch available spacing
    minExtent tracks spacing = r.minimums + r.gaps := by
  intro r
  have some : 1 ≤ (tracks.filter (·.occupied)).length := by
    obtain ⟨t, ht, hused⟩ := used
    exact List.length_pos_of_mem (List.mem_filter.mpr ⟨ht, hused⟩)
  have last : max ((tracks.filter (·.occupied)).length - 1 : Int) 0 =
      (tracks.filter (·.occupied)).length - 1 := by omega
  simp only [minExtent, r, request, Space.Request.minimums, Space.Request.gaps, demands_map_min,
    demands_length, last]

theorem taken_trackSizes :
    let r := request tracks stretch available spacing
    taken spacing (tracks.zip (trackSizes tracks stretch available spacing)) =
      total r.sizes + r.gaps + spacing := by
  intro r
  have count : r.sizes.length = (tracks.filter (·.occupied)).length :=
    (Space.Request.sizes_length r).trans (demands_length tracks stretch)
  have handed := filter_zip_scatter tracks count
  have used := congrArg List.length handed
  rw [List.length_map, Space.Request.sizes_length] at used
  rw [taken_eq, trackSizes_def, handed, used]
  simp only [Space.Request.gaps, r, request]
  ring

variable {tracks available spacing}

/-- If what the tracks need together fits, then so does what they take, but for the spacing behind
the last one in use. -/
theorem taken_le {n : Nat} (laid : Laid n tracks) (hs : 0 ≤ spacing)
    (fits : minExtent tracks spacing ≤ available) (used : ∃ t ∈ tracks, t.occupied = true) :
    taken spacing (tracks.zip (trackSizes tracks stretch available spacing)) ≤
      available + spacing := by
  have valid := request_valid laid stretch available spacing
  have need := minExtent_eq tracks stretch available spacing used
  rw [taken_trackSizes]
  set r := request tracks stretch available spacing
  have nonneg : 0 ≤ minExtent tracks spacing := by
    refine add_nonneg (total_nonneg fun m hm => ?_) (mul_nonneg hs (le_max_right _ _))
    obtain ⟨t, ht, rfl⟩ := List.mem_map.mp hm
    exact laid.2 t (List.mem_filter.mp ht).1
  have space : r.available = available := max_eq_left (nonneg.trans fits)
  have within := Space.Request.total_sizes_le_available valid (by omega)
  omega

end Sizes

/-- No item is placed outside its tracks. -/
theorem place_within (p : Placement) (axis : Axis) (starts sizes : List Int)
    (alignment : Alignment) :
    starts.getD (p.range.along axis).start 0 ≤ (place p axis starts sizes alignment).1 ∧
    (place p axis starts sizes alignment).1 + (place p axis starts sizes alignment).2 ≤
      starts.getD (p.range.along axis).last 0 + sizes.getD (p.range.along axis).last 0 := by
  set last := (p.range.along axis).last
  set start := starts.getD (p.range.along axis).start 0
  set room := starts.getD last 0 + sizes.getD last 0 - start with hroom
  by_cases grows : p.item.flags.canGrow axis = true
  · have fills : place p axis starts sizes alignment = (start, room) := if_pos grows
    rw [fills]
    dsimp only
    omega
  · set extent := min (max (p.item.preferred.along axis) (p.item.minimum.along axis)) room
    have keeps : place p axis starts sizes alignment =
        (start + (alignment.along axis).offset room extent, extent) := if_neg grows
    have fits : extent ≤ room := min_le_right _ _
    have inside := (alignment.along axis).offset_bounds fits
    rw [keeps]
    dsimp only
    omega

namespace Ruler

variable (r : Ruler) (ps : List Placement) (available origin : Int)

def sizes : List Int := trackSizes (r.tracks ps) r.stretch available r.spacing

def starts : List Int :=
  trackStarts r.spacing origin ((r.tracks ps).zip (r.sizes ps available))

def placed (alignment : Alignment) (p : Placement) : Int × Int :=
  place p r.axis (r.starts ps available origin) (r.sizes ps available) alignment

theorem tracks_length : (r.tracks ps).length = r.stretch.length := (r.tracks_laid ps).1

theorem sizes_length : (r.sizes ps available).length = r.stretch.length :=
  (scatter_length _ _).trans (r.tracks_length ps)

theorem starts_length : (r.starts ps available origin).length = r.stretch.length := by
  rw [starts, trackStarts_length, List.length_zip, tracks_length, sizes_length, Nat.min_self]

theorem sizes_nonneg : ∀ e ∈ (r.tracks ps).zip (r.sizes ps available), 0 ≤ e.2 :=
  fun e he => trackSizes_nonneg (r.tracks_laid ps) _ _ _ e.2 (List.of_mem_zip he).2

section Covered

variable {r ps} {p : Placement} (hp : p ∈ ps) {i : Nat}
  (covers : (p.range.along r.axis).covers i = true)

include hp covers

theorem exists_used (hi : i < r.stretch.length) :
    ∃ t n, ((r.tracks ps).zip (r.sizes ps available))[i]? = some (t, n) ∧ t.occupied = true ∧
      (r.sizes ps available).getD i 0 = n := by
  have ht : i < (r.tracks ps).length := (r.tracks_length ps).symm ▸ hi
  have hn : i < (r.sizes ps available).length := (r.sizes_length ps available).symm ▸ hi
  refine ⟨(r.tracks ps)[i], (r.sizes ps available)[i], ?_, ?_, List.getD_eq_getElem _ _ hn⟩
  · rw [List.getElem?_eq_getElem (by simp [ht, hn]), List.getElem_zip]
  · rw [r.tracks_occupied ps ht, List.any_eq_true]
    exact ⟨p, hp, covers⟩

theorem covered_before (spacing : 0 ≤ r.spacing) {j : Nat} (hij : i < j)
    (hj : j < r.stretch.length) :
    (r.starts ps available origin).getD i 0 + (r.sizes ps available).getD i 0 + r.spacing ≤
      (r.starts ps available origin).getD j 0 := by
  obtain ⟨t, n, he, used, size⟩ := exists_used available hp covers (hij.trans hj)
  rw [size]
  refine trackStarts_apart spacing (r.sizes_nonneg ps available) hij ?_ he used
  rwa [List.length_zip, tracks_length, sizes_length, Nat.min_self]

theorem covered_end_le (spacing : 0 ≤ r.spacing) (hi : i < r.stretch.length)
    (fits : minExtent (r.tracks ps) r.spacing ≤ available) :
    (r.starts ps available origin).getD i 0 + (r.sizes ps available).getD i 0 ≤
      origin + available := by
  obtain ⟨t, n, he, used, size⟩ := exists_used available hp covers hi
  have final : (r.starts ps available origin).getD i 0 + n + r.spacing ≤
      origin + taken r.spacing ((r.tracks ps).zip (r.sizes ps available)) :=
    trackStarts_end_le spacing (r.sizes_nonneg ps available) he used
  have all : taken r.spacing ((r.tracks ps).zip (r.sizes ps available)) ≤
      available + r.spacing :=
    taken_le r.stretch (r.tracks_laid ps) spacing fits
      ⟨t, (List.of_mem_zip (List.mem_of_getElem? he)).1, used⟩
  omega

end Covered

section Placed

variable {r ps} {p : Placement} (hp : p ∈ ps) (within : (p.range.along r.axis).Within r.stretch)
  (spacing : 0 ≤ r.spacing) (alignment : Alignment)

include within

theorem last_lt : (p.range.along r.axis).last < r.stretch.length := by
  obtain ⟨count, inside⟩ := within
  rw [Span.last]
  omega

theorem covers_last : (p.range.along r.axis).covers (p.range.along r.axis).last = true := by
  have count := within.1
  rw [Span.covers_iff, Span.last]
  omega

include spacing

theorem origin_le_placed : origin ≤ (r.placed ps available origin alignment p).1 := by
  obtain ⟨count, last⟩ := within
  have length := r.starts_length ps available origin
  have inside : (r.starts ps available origin).getD (p.range.along r.axis).start 0 ≤
      (r.placed ps available origin alignment p).1 := (place_within _ _ _ _ _).1
  refine le_trans ?_ inside
  rw [List.getD_eq_getElem _ _ (by omega)]
  exact le_of_mem_trackStarts spacing (r.sizes_nonneg ps available) _ (List.getElem_mem _)

include hp

/-- An item ends at least the spacing before one whose tracks are all behind its own. -/
theorem placed_before {p' : Placement} (within' : (p'.range.along r.axis).Within r.stretch)
    (behind : (p.range.along r.axis).start + (p.range.along r.axis).count ≤
      (p'.range.along r.axis).start) (alignment' : Alignment) :
    (r.placed ps available origin alignment p).1 + (r.placed ps available origin alignment p).2
        + r.spacing ≤ (r.placed ps available origin alignment' p').1 := by
  obtain ⟨count', inside'⟩ := within'
  have count := within.1
  have tracks := covered_before available origin hp (covers_last within) spacing
    (show (p.range.along r.axis).last < (p'.range.along r.axis).start by rw [Span.last]; omega)
    (by omega)
  have ends : (r.placed ps available origin alignment p).1 +
      (r.placed ps available origin alignment p).2 ≤ _ := (place_within _ _ _ _ _).2
  have starts : _ ≤ (r.placed ps available origin alignment' p').1 := (place_within _ _ _ _ _).1
  omega

theorem placed_end_le (fits : minExtent (r.tracks ps) r.spacing ≤ available) :
    (r.placed ps available origin alignment p).1 + (r.placed ps available origin alignment p).2 ≤
      origin + available := by
  have track := covered_end_le available origin hp (covers_last within) spacing (last_lt within)
    fits
  have ends : (r.placed ps available origin alignment p).1 +
      (r.placed ps available origin alignment p).2 ≤ _ := (place_within _ _ _ _ _).2
  exact ends.trans track

end Placed

end Ruler

section Rulers

variable (g : Grid) (settings : Settings) (ps : List Placement)

def ruler (width : Int) (axis : Axis) : Ruler :=
  let columns := g.columnRuler settings
  axis.pick columns
    (g.rowRuler settings (columns.tracks ps) (columns.sizes ps (width - settings.margins.horizontal)))

theorem ruler_axis (width : Int) (axis : Axis) : (g.ruler settings ps width axis).axis = axis := by
  cases axis <;> rfl

theorem ruler_spacing (width : Int) (axis : Axis) :
    (g.ruler settings ps width axis).spacing = settings.spacing := by
  cases axis <;> rfl

theorem ruler_stretch_length (width : Int) (axis : Axis) :
    (g.ruler settings ps width axis).stretch.length = axis.pick g.columnCount g.rowCount := by
  cases axis <;> rfl

variable (bounds : Rect)

def space (axis : Axis) : Int := bounds.size.along axis - settings.margins.sum axis

def origin (axis : Axis) : Int := bounds.start axis + settings.margins.near axis

def placedOn (p : Placement) (axis : Axis) : Int × Int :=
  (g.ruler settings ps bounds.width axis).placed ps (space settings bounds axis)
    (origin settings bounds axis) (p.item.alignment.orElse settings.alignment) p

def rect (p : Placement) : Rect :=
  let h := g.placedOn settings ps bounds p .horizontal
  let v := g.placedOn settings ps bounds p .vertical
  ⟨h.1, v.1, h.2, v.2⟩

theorem rect_start (p : Placement) (axis : Axis) :
    (g.rect settings ps bounds p).start axis = (g.placedOn settings ps bounds p axis).1 := by
  cases axis <;> rfl

theorem rect_along (p : Placement) (axis : Axis) :
    (g.rect settings ps bounds p).size.along axis = (g.placedOn settings ps bounds p axis).2 := by
  cases axis <;> rfl

theorem arrange_eq (children : List Item) : g.arrange settings children bounds =
    (g.placements children).map fun p =>
      (p.item.id, g.rect settings (g.placements children) bounds p) := rfl

theorem minSize_along (children : List Item) (size : Size) (axis : Axis) :
    (g.minSize settings children size).along axis = settings.margins.sum axis +
      minExtent ((g.ruler settings (g.placements children) size.width axis).tracks
        (g.placements children)) settings.spacing := by
  cases axis <;> rfl

end Rulers

end Grid

end PixelLayout
