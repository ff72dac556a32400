import PixelLayout.Proofs.History.Children
import PixelLayout.Proofs.Splitter.Limits

/-!
# Panes within their limits

A pass that clears brings every pane within its current limits. Any other pass moves none out of
them, and besides passes only handles that are let go change sizes. So as long as the limits that
passes meet do not tighten, each pane keeps at least its minimum; and it keeps to its maximum, too,
unless it was dragged beyond.
-/

set_option autoImplicit false

namespace PixelLayout

open Splitter

def View.Unambiguous (v : View) : Prop := ∀ c ∈ v.children, ∀ c' ∈ v.children, c.id = c'.id → c = c'

theorem View.unambiguous_of_nodup {v : View} (distinct : v.ids.Nodup) : v.Unambiguous :=
  fun _ hc _ hc' same => List.inj_on_of_nodup_map distinct hc hc' same

def Splitter.Limits.Eases (k k' : Limits) : Prop :=
  k'.least ≤ k.least ∧ ∀ most' ∈ k'.most, ∃ most ∈ k.most, most ≤ most'

theorem Splitter.Limits.Eases.refl (k : Limits) : k.Eases k :=
  ⟨Int.le_refl _, fun most hmost => ⟨most, hmost, Int.le_refl most⟩⟩

namespace Change

def Heeds (c : Change) (l : Layout) (view : Option View) (known : List Limits) : Prop :=
  ∀ handle position s v d, c = .release handle position → l.mode = .splitter s → view = some v →
    s.drag? v.children v.bounds handle = some d →
    ∀ p ∈ shown v.children, p.id = d.before ∨ p.id = d.after → Limits.of s.axis p ∈ known

def Spares (c : Change) (l : Layout) (view : Option View) (id : Nat) : Prop :=
  ∀ handle position s v d, c = .release handle position → l.mode = .splitter s → view = some v →
    s.drag? v.children v.bounds handle = some d → id = d.before ∨ id = d.after →
    ∀ p ∈ shown v.children, p.id = id → ∀ most ∈ (Limits.of s.axis p).most,
      sizeOf (s.drop d (d.clamp position)).panes id ≤ most

end Change

namespace Layout

def paneLimits (l : Layout) (v : View) : List Limits :=
  match l.mode with
  | .splitter s => s.limits v.children
  | _ => []

def paneSize (l : Layout) (id : Nat) : Int :=
  match l.mode with
  | .splitter s => sizeOf s.panes id
  | _ => 0

def lastLimits (l : Layout) : List Deed → List Limits
  | [] => []
  | .pass v :: ds => (l.after ds).paneLimits v
  | .attach :: ds | .detach :: ds | .request _ :: ds | .start _ :: ds | .mark _ _ :: ds
  | .change _ _ _ :: ds | .query _ _ :: ds => l.lastLimits ds

/-- Since the last pass that cleared, no pass has met tighter limits than the pass before, and
handles were let go only between panes with the limits that the last pass met. -/
def Eased (l : Layout) : List Deed → Prop
  | [] => True
  | .pass v :: ds => (l.after ds).clears v = true ∨
      (∀ k' ∈ (l.after ds).paneLimits v, ∃ k ∈ l.lastLimits ds, k.id = k'.id ∧ k.Eases k') ∧
        l.Eased ds
  | .change _ view c :: ds => c.Heeds (l.after ds) view (l.lastLimits ds) ∧ l.Eased ds
  | .attach :: ds | .detach :: ds | .request _ :: ds | .start _ :: ds | .mark _ _ :: ds
  | .query _ _ :: ds => l.Eased ds

def Undragged (l : Layout) (id : Nat) : List Deed → Prop
  | [] => True
  | .pass v :: ds => (l.after ds).clears v = true ∨ l.Undragged id ds
  | .change _ view c :: ds => c.Spares (l.after ds) view id ∧ l.Undragged id ds
  | .attach :: ds | .detach :: ds | .request _ :: ds | .start _ :: ds | .mark _ _ :: ds
  | .query _ _ :: ds => l.Undragged id ds

variable {l l' : Layout} {view : Option View} {v : View} {c : Change} {id : Nat} {ds : List Deed}

section Step

theorem single_shown (unambiguous : v.Unambiguous) :
    ∀ c ∈ shown v.children, ∀ c' ∈ shown v.children, c.id = c'.id → c = c' := by
  have child : ∀ c ∈ shown v.children, c ∈ v.children := fun c hc =>
    (alternate_sublist _).subset (List.mem_filter.mp hc).1
  exact fun c hc c' hc' => unambiguous c (child c hc) c' (child c' hc')

theorem paneLimits_single (l : Layout) (unambiguous : v.Unambiguous) :
    ∀ k ∈ l.paneLimits v, ∀ k' ∈ l.paneLimits v, k.id = k'.id → k = k' := by
  unfold paneLimits
  split
  · exact limits_single _ (single_shown unambiguous)
  · nofun

theorem paneSize_passed (l : Layout) (v : View) {s : Splitter} (mode : l.mode = .splitter s)
    (id : Nat) : (l.undergo (.pass v)).paneSize id =
      sizeOf (s.settle v.children v.bounds (l.startsAfresh v.children)).1.panes id := by
  unfold paneSize
  have passed : (l.undergo (.pass v)).mode =
      .splitter (s.settle v.children v.bounds (l.startsAfresh v.children)).1 := by
    show (l.mode.arrange _ _ _ _).mode = _
    rw [mode]
    rfl
  rw [passed]

theorem rebased_of_clears {s : Splitter} (mode : l.mode = .splitter s)
    (cleared : l.clears v = true) :
    s.rebased v.children v.bounds (l.startsAfresh v.children) =
      s.reset v.children (s.paneSpace v.children v.bounds) := by
  rw [clears, mode] at cleared
  exact if_pos cleared

theorem rebased_of_not_clears {s : Splitter} (mode : l.mode = .splitter s)
    (kept : l.clears v = false) :
    s.rebased v.children v.bounds (l.startsAfresh v.children) = s := by
  rw [clears, mode] at kept
  exact if_neg (Bool.eq_false_iff.mp kept)

theorem allows_of_clears (unambiguous : v.Unambiguous) (cleared : l.clears v = true) :
    ∀ k ∈ l.paneLimits v, k.Allows ((l.undergo (.pass v)).paneSize k.id) := by
  intro k hk
  unfold paneLimits at hk
  split at hk
  · next s hm =>
    rw [paneSize_passed l v hm, settle_panes, rebased_limits, rebased_of_clears hm cleared]
    have single := single_shown unambiguous
    exact distribute_allows (limits_single s single) hk (reset_allows s single _ k hk) _
  · cases hk

theorem narrows_of_not_clears (unambiguous : v.Unambiguous) (kept : l.clears v = false) :
    ∀ k ∈ l.paneLimits v,
      min k.least (l.paneSize k.id) ≤ (l.undergo (.pass v)).paneSize k.id ∧
        ∀ most ∈ k.most, (l.undergo (.pass v)).paneSize k.id ≤ max most (l.paneSize k.id) := by
  intro k hk
  unfold paneLimits at hk
  split at hk
  · next s hm =>
    have size : l.paneSize k.id = sizeOf s.panes k.id := by
      rw [paneSize, hm]
    rw [paneSize_passed l v hm, settle_panes, rebased_limits, rebased_of_not_clears hm kept, size]
    exact distribute_narrows (limits_single s (single_shown unambiguous)) hk _ _
  · cases hk

/-- Of the changes only a handle that is let go changes the size of a pane, and only of the two
around it. -/
theorem paneSize_revised (revised : Revised l view c l') (id : Nat) :
    l'.paneSize id = l.paneSize id ∨
      ∃ handle position s v d, c = .release handle position ∧ l.mode = .splitter s ∧
        view = some v ∧ s.drag? v.children v.bounds handle = some d ∧
        (id = d.before ∨ id = d.after) ∧
        l'.paneSize id = sizeOf (s.drop d (d.clamp position)).panes id := by
  unfold paneSize
  cases revised with
  | margins | spacing | alignment => exact .inl rfl
  | boxAxis hm | boxStretch hm | flowStretch hm | range hm | rowStretch hm | columnStretch hm
  | splitterAxis hm | handleWidth hm =>
    rw [hm]
    exact .inl rfl
  | splitterStretch hm =>
    rw [hm]
    exact .inl (sizeOf_restretch ..)
  | fixed hm =>
    rw [hm]
    exact .inl (sizeOf_modify _ _ _ fun _ => rfl)
  | fractions hm =>
    rw [hm]
    exact .inl (sizeOf_pinAll ..)
  | @release s hm v look handle d drag position =>
    rw [hm]
    by_cases touched : id = d.before ∨ id = d.after
    · exact .inr ⟨handle, position, s, v, d, rfl, rfl, look, drag, touched, rfl⟩
    · rw [not_or] at touched
      left
      show sizeOf (s.drop d (d.clamp position)).panes id = sizeOf s.panes id
      rw [sizeOf_drop, if_neg (Ne.symm touched.2), if_neg (Ne.symm touched.1)]

end Step

section Runs

/-- The last pass met the limits of some view. -/
theorem exists_lastLimits (ds : List Deed) :
    l.lastLimits ds = [] ∨
      ∃ v ds', Deed.pass v ∈ ds ∧ l.lastLimits ds = (l.after ds').paneLimits v := by
  induction ds with
  | nil => exact .inl rfl
  | cons d ds ih =>
    cases d with
    | pass v => exact .inr ⟨v, ds, List.mem_cons_self, rfl⟩
    | attach | detach | request | start | mark | change | query =>
      refine ih.imp_right ?_
      rintro ⟨v, ds', member, met⟩
      exact ⟨v, ds', List.mem_cons_of_mem _ member, met⟩

theorem lastLimits_single (unambiguous : ∀ v, Deed.pass v ∈ ds → v.Unambiguous) :
    ∀ k ∈ l.lastLimits ds, ∀ k' ∈ l.lastLimits ds, k.id = k'.id → k = k' := by
  rcases exists_lastLimits (l := l) ds with none | ⟨v, ds', member, met⟩
  · rw [none]
    nofun
  · rw [met]
    exact paneLimits_single _ (unambiguous v member)

def Holds (l : Layout) (ds : List Deed) (k : Limits) : Prop :=
  k.least ≤ (l.after ds).paneSize k.id ∧
    (l.Undragged k.id ds → ∀ most ∈ k.most, (l.after ds).paneSize k.id ≤ most)

theorem Holds.pass {k k' : Limits} (held : l.Holds ds k) (same : k.id = k'.id)
    (eases : k.Eases k') (unambiguous : v.Unambiguous) (kept : (l.after ds).clears v = false)
    (hk' : k' ∈ (l.after ds).paneLimits v) : l.Holds (.pass v :: ds) k' := by
  obtain ⟨low, high⟩ := narrows_of_not_clears unambiguous kept k' hk'
  rw [Holds, same] at held
  refine ⟨?_, fun undragged most' hmost' => ?_⟩
  · have enough := Int.le_trans eases.1 held.1
    rwa [Int.min_eq_left enough] at low
  · have undragged : l.Undragged k'.id ds :=
      undragged.resolve_left (Bool.eq_false_iff.mp kept)
    obtain ⟨most, hmost, wider⟩ := eases.2 most' hmost'
    have few := Int.le_trans (held.2 undragged most hmost) wider
    exact Int.max_eq_left few ▸ high most' hmost'

theorem Holds.change {attached : Bool} (unambiguous : ∀ v, Deed.pass v ∈ ds → v.Unambiguous)
    (heeds : c.Heeds (l.after ds) view (l.lastLimits ds))
    (held : ∀ k ∈ l.lastLimits ds, l.Holds ds k) :
    ∀ k ∈ l.lastLimits ds, l.Holds (.change attached view c :: ds) k := by
  intro k hk
  unfold Holds
  simp only [after, undergo]
  cases hr : (l.after ds).revised? attached view c with
  | none => exact ⟨(held k hk).1, fun undragged => (held k hk).2 undragged.2⟩
  | some l' =>
    show k.least ≤ l'.paneSize k.id ∧
      (_ → ∀ most ∈ k.most, l'.paneSize k.id ≤ most)
    rcases paneSize_revised (revised_of_revised? hr) k.id with same | released
    · rw [same]
      exact ⟨(held k hk).1, fun undragged => (held k hk).2 undragged.2⟩
    · obtain ⟨handle, position, s, v, d, rfl, hm, rfl, drag, touched, size⟩ := released
      have met := heeds handle position s v d rfl hm rfl drag
      have single := lastLimits_single (l := l) unambiguous
      have least : ∀ k ∈ l.lastLimits ds, k.least ≤ sizeOf s.panes k.id := by
        intro k hk
        have room := (held k hk).1
        rwa [paneSize, hm] at room
      rw [size]
      refine ⟨least_le_drop single drag met least position k hk, fun undragged => ?_⟩
      obtain ⟨p, hp, same⟩ : ∃ p ∈ shown v.children, p.id = k.id := by
        obtain ⟨before, hbefore, after, hafter, hb, ha, -⟩ := span_of_drag drag
        rcases touched with first | second
        · exact ⟨before, hbefore, hb.symm.trans first.symm⟩
        · exact ⟨after, hafter, ha.symm.trans second.symm⟩
      have limits := single _ (met p hp (same ▸ touched)) k hk same
      have spared := undragged.1 handle position s v d rfl hm rfl drag touched p hp same
      rwa [limits] at spared

/-- What the last pass met holds as long as the limits have not tightened. -/
theorem holds_of_eased (unambiguous : ∀ v, Deed.pass v ∈ ds → v.Unambiguous)
    (eased : l.Eased ds) : ∀ k ∈ l.lastLimits ds, l.Holds ds k := by
  induction ds with
  | nil => nofun
  | cons d ds ih =>
    have earlier : ∀ v, Deed.pass v ∈ ds → v.Unambiguous := fun v hv =>
      unambiguous v (List.mem_cons_of_mem _ hv)
    cases d with
    | attach | detach | request | start | mark => exact ih earlier eased
    | query view size =>
      intro k hk
      have same : (l.after (.query view size :: ds)).paneSize k.id =
          (l.after ds).paneSize k.id := by
        simp only [after, undergo, paneSize, minSizeFor_mode]
      have held := ih earlier eased k hk
      rw [Holds, ← same] at held
      exact held
    | change attached view c => exact Holds.change earlier eased.1 (ih earlier eased.2)
    | pass v =>
      have unambiguous := unambiguous v List.mem_cons_self
      intro k' hk'
      cases cleared : (l.after ds).clears v with
      | true =>
        have within := allows_of_clears unambiguous cleared k' hk'
        exact ⟨within.1, fun _ => within.2⟩
      | false =>
        obtain ⟨eases, eased⟩ := eased.resolve_left (Bool.eq_false_iff.mp cleared)
        obtain ⟨k, hk, same, wider⟩ := eases k' hk'
        exact (ih earlier eased k hk).pass same wider unambiguous cleared hk'

/-- A pass that clears leaves each pane within its limits, and any other pass moves none out of
them. If the limits have not tightened since the last pass that cleared, each pane has at least its
minimum after a pass, and is within its limits unless it was dragged beyond its maximum. -/
theorem panes_within_limits (l : Layout) (ds : List Deed) (v : View)
    (unambiguous : ∀ v', Deed.pass v' ∈ Deed.pass v :: ds → v'.Unambiguous) :
    let before := l.after ds
    let after := l.after (.pass v :: ds)
    (before.clears v = true → ∀ k ∈ before.paneLimits v, k.Allows (after.paneSize k.id)) ∧
    (before.clears v = false → ∀ k ∈ before.paneLimits v,
      min k.least (before.paneSize k.id) ≤ after.paneSize k.id ∧
        ∀ most ∈ k.most, after.paneSize k.id ≤ max most (before.paneSize k.id)) ∧
    (l.Eased (.pass v :: ds) → ∀ k ∈ before.paneLimits v, k.least ≤ after.paneSize k.id ∧
      (l.Undragged k.id (.pass v :: ds) → k.Allows (after.paneSize k.id))) := by
  intro before after
  have current := unambiguous v List.mem_cons_self
  refine ⟨allows_of_clears current, narrows_of_not_clears current, fun eased k hk => ?_⟩
  obtain ⟨least, most⟩ := holds_of_eased unambiguous eased k hk
  exact ⟨least, fun undragged => ⟨least, most undragged⟩⟩

end Runs

section Panes

def bounded (width : Int) : View where
  suspended := false
  children := [{ Item.plain 1 with min := ⟨20, 0⟩, flags := .resizable }, Item.plain 2,
    { Item.plain 3 with min := ⟨10, 0⟩, max := ⟨70, 0⟩, flags := .resizable }]
  bounds := ⟨0, 0, width, 30⟩

theorem bounded_within :
    let ds : List Deed :=
      [.change true (some (bounded 104)) (.release 1 90), .pass (bounded 104), .attach]
    columns.Eased (.pass (bounded 204) :: ds) ∧
      ∀ k ∈ ([⟨1, 20, none⟩, ⟨3, 10, some 70⟩] : List Limits),
        k.Allows ((columns.after (.pass (bounded 204) :: ds)).paneSize k.id) := by
  intro ds
  have eased : columns.Eased (.pass (bounded 204) :: ds) := by
    refine .inr ⟨fun k hk => ⟨k, hk, rfl, .refl k⟩, ?_, .inl rfl⟩
    rintro _ _ s v d ⟨⟩ hs ⟨⟩ hd p hp -
    obtain rfl := Mode.splitter.inj hs
    exact List.mem_map_of_mem hp
  have undragged : ∀ id, columns.Undragged id (.pass (bounded 204) :: ds) := by
    refine fun id => .inr ⟨?_, .inl rfl⟩
    rintro _ _ s v d ⟨⟩ hs ⟨⟩ hd - p hp rfl
    obtain rfl := Mode.splitter.inj hs
    cases hd
    revert p
    decide
  have unambiguous : ∀ v, Deed.pass v ∈ Deed.pass (bounded 204) :: ds → v.Unambiguous := by
    intro v hv
    simp only [ds, List.mem_cons, Deed.pass.injEq, reduceCtorEq, List.not_mem_nil, or_false,
      false_or] at hv
    rcases hv with rfl | rfl <;> exact View.unambiguous_of_nodup (by decide)
  have within := (panes_within_limits columns ds (bounded 204) unambiguous).2.2 eased
  exact ⟨eased, fun k hk => (within k hk).2 (undragged k.id)⟩

open Offscreen in
/-- A handle is dragged until the first pane is larger than its maximum. In the second session the
minimum of the first pane is raised after a pass, and the next pass leaves the pane too small. -/
theorem panes_out_of_limits :
    ((World.fresh [⟨.fresh ⟨0, 0, 104, 30⟩ [{ Item.plain 1 with max := ⟨60, 0⟩, flags := .resizable },
        Item.plain 2, { Item.plain 3 with flags := .resizable }], none⟩]
        [splitter .horizontal none]).run
      ([.call .attach, .call (.update false), .call (.change (.release 1 90)),
        .act (.batchGet 1)].map (⟨0, 0, .free, ·⟩))).map (·.answer) =
      [.done, .done, .position (some 90), .response (.rect (some ⟨0, 0, 90, 30⟩))] ∧
    ((World.fresh [⟨.fresh ⟨0, 0, 104, 30⟩ twoPanes.children, none⟩]
        [splitter .horizontal none]).run
      ([.call .attach, .call (.update false), .act (.setMin 1 ⟨70, 0⟩), .call (.update false),
        .act (.batchGet 1)].map (⟨0, 0, .free, ·⟩))).map (·.answer) =
      [.done, .done, .response (.found true), .done,
        .response (.rect (some ⟨0, 0, 50, 30⟩))] :=
  ⟨rfl, rfl⟩

end Panes

end Layout

end PixelLayout
