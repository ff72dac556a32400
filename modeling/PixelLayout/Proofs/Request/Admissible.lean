import PixelLayout.Proofs.History.Children
import PixelLayout.Proofs.Request.Runs

/-!
# Requests that the allocator accepts

The allocator expects spacing that is not negative, factors of at least one, and minimums that are
neither negative nor above their maximums. The spacing and the factors are checked whenever they are
set, and a line and a grid make the bounds of each demand fit themselves, whatever the children ask
for. So an allocator that refuses all other requests never ends a run of a layout.
-/

set_option autoImplicit false

namespace PixelLayout

namespace Space.Request

structure Admissible (r : Request) : Prop where
  spacing : 0 ≤ r.spacing
  demands : ∀ d ∈ r.demands, 1 ≤ d.stretch ∧ d.Valid

instance (r : Request) : Decidable r.Admissible :=
  decidable_of_iff (0 ≤ r.spacing ∧ ∀ d ∈ r.demands, 1 ≤ d.stretch ∧ d.Valid)
    ⟨fun h => ⟨h.1, h.2⟩, fun h => ⟨h.1, h.2⟩⟩

def checked (r : Request) : Except Request (List Int) :=
  if r.Admissible then .ok r.sizes else .error r

theorem checked_of_admissible {r : Request} (h : r.Admissible) : r.checked = .ok r.sizes :=
  if_pos h

end Space.Request

section Stretch

theorem Stretches.one_le_factor {s : Stretches} (h : s.All (1 ≤ ·)) (item : Nat) :
    1 ≤ s.factor item := by
  unfold factor
  cases hf : s.get? item with
  | none => exact Nat.le_refl 1
  | some f => exact h item f hf

theorem Stretches.all_set {s : Stretches} (h : s.All (1 ≤ ·)) (item : Nat) {factor : Nat}
    (valid : 1 ≤ factor) : (s.set item factor).All (1 ≤ ·) := by
  unfold set
  split
  · exact Table.All.keep h _
  · exact Table.All.insert h item valid

def Mode.Weighted : Mode → Prop
  | box b => b.stretch.All (1 ≤ ·)
  | flow f => f.stretch.All (1 ≤ ·)
  | grid _ | splitter _ => True

theorem Mode.Fresh.weighted {m : Mode} (h : m.Fresh) : m.Weighted := by
  cases h with
  | box | flow => exact Table.All.empty _
  | grid | splitter => trivial

theorem Box.weighted_refresh {b : Box} (h : b.stretch.All (1 ≤ ·)) (children : List Item)
    (reset : Bool) : (b.refresh children reset).stretch.All (1 ≤ ·) := by
  cases reset
  · exact h
  · exact Table.All.keep h _

theorem Flow.weighted_refresh {f : Flow} (h : f.stretch.All (1 ≤ ·)) (children : List Item)
    (reset : Bool) : (f.refresh children reset).stretch.All (1 ≤ ·) := by
  cases reset
  · exact h
  · exact Table.All.keep h _

theorem Mode.Weighted.arrange {m : Mode} (h : m.Weighted) (settings : Settings)
    (children : List Item) (bounds : Rect) (reset : Bool) :
    (m.arrange settings children bounds reset).mode.Weighted := by
  cases m with
  | box b => exact Box.weighted_refresh h children reset
  | flow f => exact Flow.weighted_refresh h children reset
  | grid | splitter => trivial

namespace Layout

variable {l l' : Layout} {view : Option View} {c : Change}

theorem weighted_revised (h : l.mode.Weighted) (revised : Revised l view c l') :
    l'.mode.Weighted := by
  cases revised with
  | margins | spacing | alignment => exact h
  | boxAxis hm =>
    rw [hm] at h
    exact h
  | boxStretch hm look child valid | flowStretch hm look child valid =>
    rw [hm] at h
    exact Stretches.all_set h _ valid
  | splitterAxis | splitterStretch | range | rowStretch | columnStretch | handleWidth | fixed
  | fractions | release => trivial

theorem weighted_undergo (h : l.mode.Weighted) (d : Deed) : (l.undergo d).mode.Weighted := by
  cases d with
  | attach | detach | request | start | mark => exact h
  | query view size =>
    rw [undergo, minSizeFor_mode]
    exact h
  | pass v => exact h.arrange _ _ _ _
  | change attached view c =>
    simp only [undergo]
    cases hr : l.revised? attached view c with
    | none => exact h
    | some l' =>
      have weighted := weighted_revised h (revised_of_revised? hr)
      exact weighted

theorem weighted_after (made : l.Made) (ds : List Deed) : (l.after ds).mode.Weighted :=
  after_induction (P := fun l => l.mode.Weighted) (fun _ d h => weighted_undergo h d)
    made.new.mode.weighted ds

end Layout

end Stretch

section Requests

theorem Line.request_admissible {l : Line} (spacing : 0 ≤ l.settings.spacing)
    (weighted : l.stretch.All (1 ≤ ·)) (items : List Item) : (l.request items).Admissible := by
  refine ⟨spacing, fun d hd => ⟨?_, l.request_valid items d hd⟩⟩
  obtain ⟨item, -, rfl⟩ := List.mem_map.mp hd
  exact Stretches.one_le_factor weighted item.id

theorem Grid.request_admissible {n : Nat} {tracks : List Track} (laid : Laid n tracks)
    {spacing : Int} (nonneg : 0 ≤ spacing) (stretch : List Nat) (available : Int) :
    (request tracks stretch available spacing).Admissible := by
  refine ⟨nonneg, fun d hd => ⟨?_, request_valid laid stretch available spacing d hd⟩⟩
  obtain ⟨⟨t, i⟩, -, hd⟩ := List.mem_filterMap.mp hd
  dsimp only at hd
  split at hd
  · cases hd
    exact Nat.le_max_right _ _
  · cases hd

end Requests

variable {m : Type → Type} [Monad m] [LawfulMonad m] {ask : Allocator m}

namespace Mode

variable {mode : Mode} {settings : Settings}

theorem arrangeBy_eq (served : ∀ r : Space.Request, r.Admissible → ask.Serves r)
    (spacing : 0 ≤ settings.spacing) (weighted : mode.Weighted) (children : List Item)
    (bounds : Rect) (reset : Bool) :
    mode.arrangeBy ask settings children bounds reset =
      pure (mode.arrange settings children bounds reset) := by
  cases mode with
  | box b =>
    have weighted := Box.weighted_refresh weighted children reset
    have request := Line.request_admissible (l := (b.refresh children reset).line settings bounds)
      spacing weighted
    rw [arrangeBy, Box.arrangeBy, Line.arrangeBy_eq (served _ (request _)), pure_bind]
    rfl
  | grid g =>
    have served : Grid.Served ask settings.spacing := fun _ _ stretch available laid =>
      served _ (Grid.request_admissible laid spacing stretch available)
    rw [arrangeBy, Grid.arrangeBy_eq served, pure_bind]
    rfl
  | flow f =>
    have weighted := Flow.weighted_refresh weighted children reset
    have served : (f.refresh children reset).Served ask settings := fun l items same factors =>
      served _ (l.request_admissible (same ▸ spacing) (factors ▸ weighted) items)
    rw [arrangeBy, Flow.arrangeBy_eq served, pure_bind]
    rfl
  | splitter s => rfl

theorem minSizeBy_eq (served : ∀ r : Space.Request, r.Admissible → ask.Serves r)
    (spacing : 0 ≤ settings.spacing) (weighted : mode.Weighted) (children : List Item)
    (size : Size) :
    mode.minSizeBy ask settings children size = pure (mode.minSize settings children size) := by
  cases mode with
  | box b =>
    have request := Line.request_admissible (l := b.line settings (.ofSize size)) spacing weighted
    exact Line.minSizeBy_eq (served _ (request _))
  | grid g =>
    exact Grid.minSizeBy_eq (fun _ _ stretch available laid =>
      served _ (Grid.request_admissible laid spacing stretch available)) children size
  | flow f =>
    exact Flow.minSizeBy_eq (fun l items same factors =>
      served _ (l.request_admissible (same ▸ spacing) (factors ▸ weighted) items)) children size
  | splitter s => rfl

end Mode

namespace Layout

variable {l : Layout}

/-- At all times a run with any allocator that serves what it accepts gives what the layout gives. -/
theorem arrangementBy_eq (made : l.Made) (ds : List Deed)
    (served : ∀ r : Space.Request, r.Admissible → ask.Serves r) (v : View) :
    (l.after ds).arrangementBy ask v = pure ((l.after ds).arrangement v) :=
  Mode.arrangeBy_eq served (made.sound ds).settings.2 (weighted_after made ds) _ _ _

theorem minSizeForBy_eq (made : l.Made) (ds : List Deed)
    (served : ∀ r : Space.Request, r.Admissible → ask.Serves r) (view : Option View) (size : Size) :
    (l.after ds).minSizeForBy ask view size = pure ((l.after ds).minSizeFor view size) := by
  have fresh : (l.after ds).freshMinSizeBy ask view size =
      pure ((l.after ds).freshMinSize view size) := by
    cases view with
    | none => rfl
    | some v =>
      exact Mode.minSizeBy_eq served (made.sound ds).settings.2 (weighted_after made ds) _ _
  rw [minSizeForBy, minSizeFor_def]
  cases (l.after ds).memo.lookup size with
  | some least => rfl
  | none => rw [fresh, pure_bind]

/-- So the checks of the allocator never fail, neither in a pass nor for a least size. -/
theorem requests_admissible (made : l.Made) (ds : List Deed) :
    (∀ v, (l.after ds).arrangementBy Space.Request.checked v =
      .ok ((l.after ds).arrangement v)) ∧
    ∀ view size, (l.after ds).minSizeForBy Space.Request.checked view size =
      .ok ((l.after ds).minSizeFor view size) := by
  have served : ∀ r : Space.Request, r.Admissible →
      Allocator.Serves Space.Request.checked r := fun r h => Space.Request.checked_of_admissible h
  exact ⟨arrangementBy_eq made ds served, minSizeForBy_eq made ds served⟩

def unruly : View where
  suspended := false
  children := [{ Item.plain 1 with min := ⟨-5, -5⟩, max := ⟨0, 8⟩, flags := .resizable },
    { Item.plain 2 with min := ⟨0, 30⟩, max := ⟨10, 10⟩, flags := .resizable },
    { Item.plain 3 with max := ⟨0, 20⟩, flags := .resizable, heightForWidth := some fun _ => 50 }]
  bounds := ⟨0, 0, 100, 200⟩

theorem unruly_admissible :
    let column := row.after [.change true (some unruly) (.stretch 2 0),
      .change true (some unruly) (.spacing (-3)), .change true (some unruly) (.axis .vertical),
      .attach]
    column.arrangementBy Space.Request.checked unruly = .ok (column.arrangement unruly) ∧
      column.minSizeForBy Space.Request.checked (some unruly) ⟨0, 0⟩ =
        .ok (column.minSizeFor (some unruly) ⟨0, 0⟩) ∧
      (column.arrangement unruly).batch =
        [(1, ⟨9, 34, 82, 8⟩), (2, ⟨9, 73, 82, 10⟩), (3, ⟨9, 114, 82, 50⟩)] := by
  intro column
  have admissible := requests_admissible row_made [.change true (some unruly) (.stretch 2 0),
    .change true (some unruly) (.spacing (-3)), .change true (some unruly) (.axis .vertical),
    .attach]
  exact ⟨admissible.1 unruly, admissible.2 (some unruly) ⟨0, 0⟩, by cbv⟩

end Layout

end PixelLayout
