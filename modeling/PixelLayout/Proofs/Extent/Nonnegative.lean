import PixelLayout.Offscreen.Session
import PixelLayout.Proofs.Extent.Grid
import PixelLayout.Proofs.Extent.Splitter
import PixelLayout.Proofs.History.Sound

/-!
# Rectangles that are not inside out

If no child asks for a negative extent and the bounds are not negative, then no rectangle of a pass
is, however small the bounds are. There are two exceptions. A box whose margins are wider than its
bounds across its axis gives what is left, which is negative, to the children that grow across. And
a handle that is let go while the minimums of its two panes do not fit into their span can come to
rest outside of this span, which leaves one of the panes with a negative size.
-/

set_option autoImplicit false

namespace PixelLayout

structure View.Nonneg (v : View) : Prop where
  bounds : v.bounds.Nonneg
  children : ∀ c ∈ v.children, c.Nonneg

def Change.Rests (c : Change) (l : Layout) (view : Option View) : Prop :=
  ∀ handle position s v d, c = .release handle position → l.mode = .splitter s → view = some v →
    s.drag? v.children v.bounds handle = some d → d.Rests s.handleWidth position

theorem Box.fitsAcross_refresh (b : Box) (settings : Settings) (children : List Item)
    (bounds : Rect) (reset : Bool) :
    (b.refresh children reset).FitsAcross settings children bounds ↔
      b.FitsAcross settings children bounds := by
  cases reset <;> exact Iff.rfl

namespace Layout

def Rested (l : Layout) : List Deed → Prop
  | [] => True
  | .change _ view c :: ds => c.Rests (l.after ds) view ∧ l.Rested ds
  | .attach :: ds | .detach :: ds | .request _ :: ds | .start _ :: ds | .mark _ _ :: ds
  | .pass _ :: ds | .query _ _ :: ds => l.Rested ds

def SizesNonneg (l : Layout) : Prop := ∀ s, l.mode = .splitter s → s.panes.Nonneg

variable {l l' : Layout} {view : Option View} {c : Change}

theorem SizesNonneg.revised (h : l.SizesNonneg) (revised : Revised l view c l')
    (rests : c.Rests l view) : l'.SizesNonneg := by
  intro s' hs'
  cases revised with
  | margins | spacing | alignment => exact h s' hs'
  | boxAxis | boxStretch | flowStretch | range | rowStretch | columnStretch => cases hs'
  | splitterAxis hm | handleWidth hm =>
    cases hs'
    have sizes := h _ hm
    exact sizes
  | splitterStretch hm =>
    cases hs'
    exact Splitter.restretch_nonneg _ (h _ hm) _ _
  | fixed hm =>
    cases hs'
    exact (h _ hm).modify _ le_rfl fun _ hp => hp
  | fractions hm =>
    cases hs'
    exact Splitter.pinAll_nonneg _ (h _ hm) _
  | release hm look drag position =>
    cases hs'
    obtain ⟨first, second⟩ := rests _ position _ _ _ rfl hm look drag
    exact Splitter.drop_nonneg _ (h _ hm) first second

theorem sizesNonneg_after (made : l.Made) (ds : List Deed) (rested : l.Rested ds) :
    (l.after ds).SizesNonneg := by
  induction ds with
  | nil =>
    intro s hs
    have fresh := made.new.mode
    rw [after] at hs
    rw [hs] at fresh
    cases fresh
    exact Table.All.empty _
  | cons d ds ih =>
    cases d with
    | attach | detach | request | start | mark => exact ih rested
    | query view size =>
      intro s hs
      simp only [after, undergo, minSizeFor_mode] at hs
      exact ih rested s hs
    | pass v =>
      intro s' hs'
      change ((l.after ds).mode.arrange _ _ _ _).mode = .splitter s' at hs'
      cases hm : (l.after ds).mode with
      | box | grid | flow =>
        rw [hm] at hs'
        cases hs'
      | splitter s =>
        rw [hm] at hs'
        cases hs'
        exact s.settle_nonneg _ _ (ih rested s hm) _
    | change attached view c =>
      simp only [after, undergo]
      cases hr : (l.after ds).revised? attached view c with
      | none => exact ih rested.2
      | some l' =>
        have sizes := (ih rested.2).revised (revised_of_revised? hr) rested.1
        exact sizes

def FitsAcross (l : Layout) (v : View) : Prop :=
  ∀ b, l.mode = .box b → b.FitsAcross l.settings v.children v.bounds

def ShowsNonneg (l : Layout) (v : View) : Prop :=
  ∀ s, (l.passed v).mode = .splitter s →
    ∀ c ∈ Splitter.shown v.children, 0 ≤ Splitter.sizeOf s.panes c.id

theorem showsNonneg_after (made : l.Made) (ds : List Deed) (rested : l.Rested ds) (v : View) :
    (l.after ds).ShowsNonneg v := fun s hs c _ =>
  Splitter.sizeOf_nonneg (sizesNonneg_after made (.pass v :: ds) rested s hs) c.id

/-- No rectangle of a pass is negative, if and only if across a box the margins fit into the bounds,
should a child grow there, and in a splitter no size is negative. No size is, as long as handles
were only let go between their panes. -/
theorem batch_nonneg_iff (made : l.Made) (ds : List Deed) (v : View) (hv : v.Nonneg) :
    (Batch.Nonneg ((l.after ds).arrangement v).batch ↔
      (l.after ds).FitsAcross v ∧ (l.after ds).ShowsNonneg v) ∧
    (l.Rested ds → (l.after ds).ShowsNonneg v) := by
  refine ⟨?_, fun rested => showsNonneg_after made ds rested v⟩
  have sound := made.sound ds
  have mode := sound.mode
  unfold arrangement FitsAcross ShowsNonneg
  change _ ↔ _ ∧ ∀ s, ((l.after ds).mode.arrange _ _ _ _).mode = .splitter s → _
  cases hm : (l.after ds).mode with
  | box b =>
    have fits := (b.refresh v.children ((l.after ds).startsAfresh v.children)).arrange_nonneg_iff
      (l.after ds).settings hv.children v.bounds
    rw [Box.fitsAcross_refresh] at fits
    simpa [Mode.arrange_def] using fits
  | grid g =>
    rw [hm] at mode
    have wf := mode.arrange (l.after ds).settings v.children v.bounds
      ((l.after ds).startsAfresh v.children)
    refine iff_of_true (Grid.arrange_nonneg wf sound.settings.2 hv.children _) ⟨?_, ?_⟩
    · rintro _ ⟨⟩
    · rintro _ ⟨⟩
  | flow f =>
    refine iff_of_true (Flow.arrange_nonneg _ _ hv.children _) ⟨?_, ?_⟩
    · rintro _ ⟨⟩
    · rintro _ ⟨⟩
  | splitter s =>
    rw [hm] at mode
    have handle : 0 ≤ (s.settle v.children v.bounds
        ((l.after ds).startsAfresh v.children)).1.handleWidth := by
      rw [Splitter.settle_handleWidth]
      exact mode
    have panes := Splitter.nonneg_batch_iff v.children handle hv.bounds
    simpa [Mode.arrange_def] using panes

def twoPanes : View where
  suspended := false
  children := [{ Item.plain 1 with flags := .resizable }, Item.plain 2,
    { Item.plain 3 with flags := .resizable }]
  bounds := ⟨0, 0, 104, 10⟩

def columns : Layout := ⟨.zero, .idle, [], [], .splitter (.ofAxis .horizontal 4)⟩

theorem columns_made : columns.Made := .splitter (show splitter .horizontal none = .ok columns from rfl)

theorem columns_batch_nonneg :
    Batch.Nonneg ((columns.after [.change true (some twoPanes) (.release 1 20), .pass twoPanes,
      .attach]).arrangement twoPanes).batch := by
  have made : columns.Made :=
    .splitter (show splitter .horizontal none = .ok columns from rfl)
  have rested : columns.Rested [.change true (some twoPanes) (.release 1 20), .pass twoPanes,
      .attach] := by
    refine ⟨?_, trivial⟩
    rintro _ _ s v d ⟨⟩ hs ⟨⟩ hd
    obtain rfl := Mode.splitter.inj hs
    exact Splitter.Drag.rests_of_room hd (by cases hd; decide) _
  have nonneg : twoPanes.Nonneg := by
    refine ⟨⟨by decide, by decide⟩, fun c hc => ?_⟩
    simp only [twoPanes, List.mem_cons, List.not_mem_nil, or_false] at hc
    rcases hc with rfl | rfl | rfl <;> exact ⟨le_rfl, le_rfl, nofun⟩
  have h := batch_nonneg_iff made [.change true (some twoPanes) (.release 1 20), .pass twoPanes,
    .attach] twoPanes nonneg
  exact h.1.mpr ⟨nofun, h.2 rested⟩

open Offscreen in
/-- A row ten pixels high has margins of nine above and below a child that grows. Of two panes the
second one needs more than both have, when the handle between them is let go. -/
theorem batches_inside_out :
    ((World.fresh [⟨.fresh ⟨0, 0, 100, 10⟩ [{ Item.plain 1 with flags := .ofBits 12 }], none⟩]
        [box .horizontal none]).run
      ([.call .attach, .call (.update false), .act (.batchGet 1)].map (⟨0, 0, .free, ·⟩))).map
        (·.answer) =
      [.done, .done, .response (.rect (some ⟨9, 9, 82, -8⟩))] ∧
    ((World.fresh [⟨.fresh ⟨0, 0, 104, 10⟩ twoPanes.children, none⟩]
        [splitter .horizontal none]).run
      ([.call .attach, .call (.update false), .act (.setMin 3 ⟨200, 0⟩),
        .call (.change (.release 1 60)), .act (.batchGet 1)].map (⟨0, 0, .free, ·⟩))).map
        (·.answer) =
      [.done, .done, .response (.found true), .position (some (-100)),
        .response (.rect (some ⟨0, 0, -100, 10⟩))] :=
  ⟨by cbv, rfl⟩

end Layout

end PixelLayout
