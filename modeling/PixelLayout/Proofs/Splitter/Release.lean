import PixelLayout.Proofs.Extent.Nonnegative
import PixelLayout.Proofs.History.Children
import PixelLayout.Proofs.History.Suspension
import PixelLayout.Proofs.Splitter.Drag

/-!
# Letting a handle go

A handle that is let go comes to rest where its range allows it, and the pass that follows finds the
panes filling the space: it starts from the sizes that the drag left and has nothing to hand out.
This needs that the last pass went over the same children in the same bounds, and that no fresh
start has been asked for since; then the batch handed over moves one boundary, and letting the
handle go at the same place once more moves nothing.
-/

set_option autoImplicit false

namespace PixelLayout

open Splitter

namespace Change

def displaces : Change → Bool
  | release _ _ | handleWidth _ => true
  | margins _ | spacing _ | alignment _ | axis _ | stretch _ _ | range _ _ | rowStretch _ _
  | columnStretch _ _ | fixed _ _ | fractions _ => false

end Change

namespace Layout

def LastPass (v : View) : List Deed → Prop
  | [] => False
  | .pass v' :: _ => v'.children = v.children ∧ v'.bounds = v.bounds
  | .attach :: ds | .detach :: ds | .request _ :: ds | .start _ :: ds | .mark _ _ :: ds
  | .change _ _ _ :: ds | .query _ _ :: ds => LastPass v ds

def Undisturbed : List Deed → Prop
  | [] | .pass _ :: _ => True
  | .change _ _ c :: ds => c.displaces = false ∧ Undisturbed ds
  | .attach :: ds | .detach :: ds | .request _ :: ds | .start _ :: ds | .mark _ _ :: ds
  | .query _ _ :: ds => Undisturbed ds

def lastBatch (l : Layout) : List Deed → Batch
  | [] => []
  | .pass v :: ds => ((l.after ds).arrangement v).batch
  | .attach :: ds | .detach :: ds | .request _ :: ds | .start _ :: ds | .mark _ _ :: ds
  | .change _ _ _ :: ds | .query _ _ :: ds => l.lastBatch ds

section History

variable {l : Layout} {v : View} {ds : List Deed} {s : Splitter}

structure Remembers (l : Layout) (v : View) : Prop where
  seen : l.seen = v.ids
  lastShown : ∀ s, l.mode = .splitter s → s.lastShown = (shown v.children).map (·.id)

theorem Remembers.revised {l' : Layout} {view : Option View} {c : Change} (h : l.Remembers v)
    (revised : Revised l view c l') : l'.Remembers v := by
  refine ⟨(seen_of_revised revised).trans h.seen, fun s mode => ?_⟩
  cases revised with
  | margins | spacing | alignment => exact h.lastShown s mode
  | boxAxis | boxStretch | flowStretch | range | rowStretch | columnStretch => cases mode
  | splitterAxis hm | splitterStretch hm | handleWidth hm | fixed hm | fractions hm | release hm =>
    have held := h.lastShown _ hm
    cases mode
    exact held

theorem LastPass.remembers (last : LastPass v ds) : (l.after ds).Remembers v := by
  induction ds with
  | nil => exact last.elim
  | cons d ds ih =>
    cases d with
    | attach | detach | request | start | mark => exact ⟨(ih last).seen, (ih last).lastShown⟩
    | query view size =>
      simp only [after, undergo]
      exact ⟨(minSizeFor_seen ..).trans (ih last).seen, fun s mode =>
        (ih last).lastShown s ((minSizeFor_mode ..).symm.trans mode)⟩
    | pass v' =>
      obtain ⟨children, -⟩ := last
      have ids : v'.ids = v.ids := congrArg (List.map Item.id) children
      refine ⟨ids, fun s' passed => ?_⟩
      rw [← children]
      change ((l.after ds).arrangement v').mode = .splitter s' at passed
      cases mode : (l.after ds).mode with
      | splitter s =>
        rw [(arrangement_of_splitter mode v').1] at passed
        cases passed
        exact s.rebased_lastShown v'.bounds _
      | box | grid | flow =>
        rw [arrangement, mode] at passed
        cases passed
    | change attached view c =>
      simp only [after, undergo]
      cases made : (l.after ds).revised? attached view c with
      | none => exact ih last
      | some l' =>
        have revised := (ih last).revised (revised_of_revised? made)
        exact ⟨revised.seen, revised.lastShown⟩

/-- A change that leaves the handles alone and asks for no fresh start leaves the batch as it is. -/
theorem batch_of_revised {l' : Layout} {view : Option View} {c : Change} {s' : Splitter}
    (revised : Revised l view c l') (kept : c.displaces = false)
    (settled : l'.flags.resetNeeded = false) (mode : l'.mode = .splitter s') :
    l.flags.resetNeeded = false ∧ ∃ s, l.mode = .splitter s ∧
      s'.batch v.children v.bounds = s.batch v.children v.bounds := by
  cases revised with
  | margins | spacing | alignment => exact ⟨settled, s', mode, rfl⟩
  | boxAxis | boxStretch | flowStretch | range | rowStretch | columnStretch => cases mode
  | splitterAxis | splitterStretch | fractions => cases settled
  | handleWidth | release => cases kept
  | @fixed s hm =>
    cases mode
    exact ⟨settled, s, hm, batch_congr rfl rfl fun id => sizeOf_modify s.panes _ id fun _ => rfl⟩

/-- What the last pass arranged is what the sizes still give. -/
theorem lastBatch_eq (last : LastPass v ds) (undisturbed : Undisturbed ds)
    (settled : (l.after ds).flags.resetNeeded = false) (mode : (l.after ds).mode = .splitter s) :
    l.lastBatch ds = s.batch v.children v.bounds := by
  induction ds generalizing s with
  | nil => exact last.elim
  | cons d ds ih =>
    cases d with
    | attach =>
      -- with a container the layout asks for a fresh start
      cases settled
    | detach | mark => exact ih last undisturbed settled mode
    | request reset | start reset =>
      exact ih last undisturbed (Bool.or_eq_false_iff.mp settled).1 mode
    | query view size =>
      simp only [after, undergo] at settled mode
      rw [minSizeFor_mode] at mode
      refine ih last undisturbed ?_ mode
      rw [minSizeFor_def] at settled
      split at settled <;> exact settled
    | pass v' =>
      obtain ⟨children, bounds⟩ := last
      change ((l.after ds).arrangement v').mode = .splitter s at mode
      show ((l.after ds).arrangement v').batch = _
      cases before : (l.after ds).mode with
      | splitter t =>
        rw [(arrangement_of_splitter before v').1] at mode
        cases mode
        rw [(arrangement_of_splitter before v').2, children, bounds]
      | box | grid | flow =>
        rw [arrangement, before] at mode
        cases mode
    | change attached view c =>
      simp only [after, undergo] at settled mode
      cases made : (l.after ds).revised? attached view c with
      | none =>
        rw [made] at settled mode
        exact ih last undisturbed.2 settled mode
      | some l' =>
        rw [made] at settled mode
        obtain ⟨settled, t, before, same⟩ :=
          batch_of_revised (v := v) (revised_of_revised? made) undisturbed.1 settled mode
        exact (ih last undisturbed.2 settled before).trans same.symm

end History

variable {σ : Type} {host : Host σ} {l : Layout} {v : View} {P : σ → Prop} {state : σ}
  {s : Splitter}

structure Ready (l : Layout) (v : View) (s : Splitter) : Prop where
  mode : l.mode = .splitter s
  resumes : l.startsAfresh v.children = false
  filled : s.Filled v.children v.bounds

/-- A handle comes to rest at a position: this is reported, one pass follows, and it hands over what
the splitter gives. -/
structure Lands (host : Host σ) (v : View) (state : σ) (handle : Nat) (position : Int)
    (s : Splitter) (o : Outcome σ) : Prop where
  ok : o.result = .ok ()
  mode : o.layout.mode = .splitter s
  events : o.events =
    [.handleReleased handle position, .pass "splitter" 0 false v.bounds.size]
  committed : ∃ flags, o.state = (host.commit state flags (s.batch v.children v.bounds)).state

section Release

variable (calm : host.Calm v P) (awake : v.suspended = false) (running : P state)

include calm awake running

theorem update_ready (ready : l.Ready v s) :
    let o := l.update (some host) false state
    o.result = .ok () ∧ o.layout.Ready v s ∧ o.events = [.pass "splitter" 0 false v.bounds.size] ∧
      ∃ flags, o.state = (host.commit state flags (s.batch v.children v.bounds)).state := by
  let start := (l.begun false).setPerforming true
  have mode : start.mode = .splitter s := ready.mode
  have resumes : start.startsAfresh v.children = false :=
    (l.begun_startsAfresh v.children).trans ready.resumes
  have arranged : start.arrangement v = ⟨.splitter s, s.batch v.children v.bounds, []⟩ := by
    rw [arrangement, resumes, mode, Mode.arrange_def]
    simp only [ready.filled.settle]
    rfl
  rw [update_once calm awake running]
  refine ⟨rfl, ⟨congrArg Arrangement.mode arranged, ?_, ready.filled⟩, ?_, ?_⟩
  · show (false || v.ids != v.ids) = false
    simp
  · show start.reports 0 v = _
    rw [reports, arranged, resumes, mode]
    rfl
  · refine ⟨(start.passed v).flags, ?_⟩
    show (host.commit state _ (start.arrangement v).batch).state = _
    rw [arranged]

omit awake in
/-- A handle that is let go within its range leaves the sizes to an update. -/
theorem apply_release (mode : l.mode = .splitter s) {handle : Nat} {d : Drag}
    (drag : s.drag? v.children v.bounds handle = some d) (position : Int) :
    l.apply (some host) (.release handle position) state =
      (update (some host) false
        ({ l with mode := .splitter (s.drop d (d.clamp position)) } : Layout).forget state).after
        [.handleReleased handle (d.clamp position)] := by
  refine apply_made host state ?_
  rw [calm.look state running]
  simp only [revise, Change.steps, Setter.outcome_releaseHandle, Layout.drag?, mode, drag]
  rfl

omit awake in
/-- A handle that takes no space cannot be let go. -/
theorem apply_release_refused (mode : l.mode = .splitter s) {handle : Nat}
    (inactive : isActiveHandle v.children handle = false) (position : Int) :
    l.apply (some host) (.release handle position) state =
      ⟨.error (.parameter (.invalidHandle handle)), l, state, []⟩ := by
  refine apply_refused (some host) state ?_
  show l.revise true (host.look state) _ = _
  rw [calm.look state running]
  simp only [revise, Change.steps, Setter.outcome_releaseHandle, Layout.drag?, mode, Splitter.drag?,
    inactive]
  rfl

/-- Letting a handle go moves it as far as its range allows, and leaves the splitter ready. -/
theorem Ready.release (ready : l.Ready v s) (distinct : ((shown v.children).map (·.id)).Nodup)
    {handle index : Nat} {d : Drag} {before after : Item}
    (grip : s.Grip v.children v.bounds handle d index before after) (position : Int) :
    let o := l.apply (some host) (.release handle position) state
    Lands host v state handle (d.clamp position) (s.drop d (d.clamp position)) o ∧
      o.layout.Ready v (s.drop d (d.clamp position)) ∧ P o.state := by
  have dropped : ({ l with mode := .splitter (s.drop d (d.clamp position)) } : Layout).forget.Ready v
      (s.drop d (d.clamp position)) :=
    ⟨rfl, ready.resumes, grip.filled_drop distinct position ready.filled⟩
  obtain ⟨ok, rests, events, flags, committed⟩ := update_ready calm awake running dropped
  rw [apply_release calm running ready.mode grip.drag?_eq]
  refine ⟨⟨ok, rests.mode, congrArg ([_] ++ ·) events, flags, committed⟩, rests, ?_⟩
  show P (update (some host) false _ state).state
  rw [committed]
  exact calm.stays _ _ _ running

/-- Letting a handle go is refused exactly if it takes no space. Otherwise it comes to rest where it
is let go, or where its range ends. If no fresh start was asked for since the last pass, and no pane
is shown twice, this moves one boundary and nothing else, and letting the handle go there once more
hands over the same batch. It is moved in what the last pass arranged, unless a handle was let go or
the width of the handles was set since. All this is for a last pass over the children and the bounds
that there still are, with panes that fill the space and are not below their minimums. -/
theorem release_moves_boundary (ds : List Deed) (mode : (l.after ds).mode = .splitter s)
    (last : LastPass v ds)
    (fills : used s.panes ((shown v.children).map (·.id)) = s.paneSpace v.children v.bounds)
    (least : ∀ c ∈ shown v.children, (Limits.of s.axis c).least ≤ sizeOf s.panes c.id)
    (handle : Nat) (position : Int) :
    let splitter := l.after ds
    let active := isActiveHandle v.children handle
    let o := splitter.apply (some host) (.release handle position) state
    (o.result = .error (.parameter (.invalidHandle handle)) ↔ active = false) ∧
    (active = false → o.layout = splitter ∧ o.state = state ∧ o.events = []) ∧
    (active = true → ∃ d index before after p,
      s.Grip v.children v.bounds handle d index before after ∧ d.low ≤ d.high ∧
      splitter.clampHandle (some v) handle position = some p ∧
      (d.low ≤ position → position ≤ d.high → p = position) ∧
      (position < d.low → p = d.low) ∧ (d.high < position → p = d.high) ∧
      o.result = .ok () ∧ o.events.head? = some (.handleReleased handle p) ∧
      (splitter.flags.resetNeeded = false → ((shown v.children).map (·.id)).Nodup →
        ∃ s', Lands host v state handle p s' o ∧
          s.Moved s' v.children v.bounds handle index before after p ∧
          s'.panes.All (·.growth = 0) ∧
          ∃ s'', Lands host v o.state handle p s''
              (o.layout.apply (some host) (.release handle p) o.state) ∧
            s''.batch v.children v.bounds = s'.batch v.children v.bounds)) ∧
    (splitter.flags.resetNeeded = false → Undisturbed ds →
      l.lastBatch ds = s.batch v.children v.bounds) := by
  intro splitter active o
  have still (settled : splitter.flags.resetNeeded = false) (undisturbed : Undisturbed ds) :=
    lastBatch_eq last undisturbed settled mode
  cases takes : active with
  | false =>
    have refused : o = _ := apply_release_refused calm running mode takes position
    rw [refused]
    exact ⟨by simp, fun _ => ⟨rfl, rfl, rfl⟩, nofun, still⟩
  | true =>
    obtain ⟨d, drag⟩ := s.exists_drag v.bounds takes
    obtain ⟨index, before, after, grip⟩ := exists_grip drag
    let p := d.clamp position
    have ordered := grip.low_le_high least
    have made : o = (update _ _ _ _).after _ := apply_release calm running mode drag position
    have ok : o.result = .ok () := by
      rw [made, update_once calm awake running]
      rfl
    have clamped : splitter.clampHandle (some v) handle position = some p := by
      show (drag? splitter (some v) handle).map _ = _
      simp only [Layout.drag?, show splitter.mode = .splitter s from mode, drag]
      rfl
    refine ⟨by simp [ok], nofun, fun _ => ⟨d, index, before, after, p, grip, ordered, clamped,
      Drag.clamp_of_within, Drag.clamp_of_lt, Drag.clamp_of_gt ordered, ok, ?_,
      fun settled distinct => ?_⟩, still⟩
    · rw [made]
      rfl
    · have remembers := last.remembers (l := l)
      have resumes : splitter.startsAfresh v.children = false := by
        rw [startsAfresh, settled, remembers.seen]
        show (false || v.ids != v.ids) = false
        simp
      have filled : s.Filled v.children v.bounds := ⟨remembers.lastShown s mode, fills, least⟩
      have ready : splitter.Ready v s := ⟨mode, resumes, filled⟩
      obtain ⟨lands, next, running'⟩ := ready.release calm awake running distinct grip position
      obtain ⟨low, high⟩ := Drag.clamp_within ordered position
      -- the drag is between the same panes in the same range as before
      have again := (next.release calm awake running' distinct (grip.drop distinct p) p).1
      rw [Drag.clamp_of_within low high] at again
      exact ⟨_, lands, grip.moved distinct filled position, growth_drop s d p, _, again,
        batch_congr rfl rfl (sizeOf_drop_again s d p)⟩

end Release

section Runs

open Offscreen

def crowd : View where
  suspended := false
  children := [{ Item.plain 1 with min := ⟨20, 0⟩, flags := .resizable }, Item.plain 2,
    { Item.plain 3 with visible := false }, Item.plain 4, { Item.plain 5 with flags := .resizable },
    Item.plain 6, { Item.plain 7 with flags := .resizable }]
  bounds := ⟨5, 7, 128, 20⟩

/-- The handle before the third pane is let go further left. -/
theorem crowd_released :
    let splitter := columns.after [.pass crowd, .attach]
    let host := World.host 0 0 .free
    let world : World := ⟨[some ⟨.fresh crowd.bounds crowd.children, none⟩], []⟩
    let o := splitter.apply (some host) (.release 3 30) world
    columns.lastBatch [.pass crowd, .attach] =
      [(1, ⟨5, 7, 40, 20⟩), (2, ⟨45, 7, 0, 0⟩), (4, ⟨45, 7, 4, 20⟩), (5, ⟨49, 7, 40, 20⟩),
        (6, ⟨89, 7, 4, 20⟩), (7, ⟨93, 7, 40, 20⟩)] ∧
    splitter.clampHandle (some crowd) 3 30 = some 30 ∧
    ∃ s', Lands host crowd world 3 30 s' o ∧ s'.panes.All (·.growth = 0) ∧
      s'.batch crowd.children crowd.bounds =
        [(1, ⟨5, 7, 25, 20⟩), (2, ⟨30, 7, 0, 0⟩), (4, ⟨30, 7, 4, 20⟩), (5, ⟨34, 7, 55, 20⟩),
          (6, ⟨89, 7, 4, 20⟩), (7, ⟨93, 7, 40, 20⟩)] ∧
      ∃ s'', Lands host crowd o.state 3 30 s''
          (o.layout.apply (some host) (.release 3 30) o.state) ∧
        s''.batch crowd.children crowd.bounds = s'.batch crowd.children crowd.bounds := by
  intro splitter host world o
  let pane : Pane := { Pane.fresh with size := 40 }
  let s : Splitter := ⟨.horizontal, 4, ⟨[(1, pane), (5, pane), (7, pane)]⟩, [1, 5, 7]⟩
  have calm : world.Calm 0 crowd := ⟨_, rfl, rfl, rfl, rfl⟩
  have mode : splitter.mode = .splitter s := rfl
  obtain ⟨-, -, moves, last⟩ := release_moves_boundary (World.calm_host 0 0 crowd) rfl calm
    [.pass crowd, .attach] mode ⟨rfl, rfl⟩ (by decide) (by decide) 3 30
  obtain ⟨d, index, before, after, p, -, -, clamped, -, -, -, -, -, rest⟩ := moves rfl
  obtain ⟨s', lands, -, grown, again⟩ := rest rfl (by decide)
  have rests : splitter.clampHandle (some crowd) 3 30 = some 30 := by decide
  obtain rfl : p = 30 := Option.some.inj (clamped.symm.trans rests)
  have dropped : o.layout.mode = .splitter (s.drop ⟨1, 5, 5, 89, 25, 85⟩ 30) := rfl
  obtain rfl := Mode.splitter.inj (lands.mode.symm.trans dropped)
  exact ⟨(last rfl trivial).trans (by decide), rests, _, lands, grown, by decide, again⟩

def answers (children : List Item) (width : Int) (tasks : List Task) : List Answer :=
  ((World.fresh [⟨.fresh ⟨0, 0, width, 30⟩ children, none⟩] [splitter .horizontal none]).run
    (tasks.map (⟨0, 0, .free, ·⟩))).map (·.answer)

def threePanes : List Item :=
  [{ Item.plain 1 with flags := .resizable }, Item.plain 2,
    { Item.plain 3 with flags := .resizable }, Item.plain 4,
    { Item.plain 5 with flags := .resizable }]

/-- The handle does not stay where it is let go if both panes around it are the same item, or if a
fresh start has been asked for. If a negative minimum lets the second of three panes be smaller than
nothing, the handle behind it cannot leave both its panes their minimums. What a handle did while
the container was suspended shows when another one is let go. -/
theorem release_astray :
    answers doubled 104 [.call .attach, .call (.change (.fixed 1 true)), .act (.batchGet 2),
        .call (.change (.release 1 60)), .act (.batchGet 2)] =
      [.done, .done, .response (.rect (some ⟨50, 0, 4, 30⟩)), .position (some 60),
        .response (.rect (some ⟨40, 0, 4, 30⟩))] ∧
    answers [{ Item.plain 1 with min := ⟨20, 0⟩ }, Item.plain 2,
          { Item.plain 3 with min := ⟨30, 0⟩ }] 54
        [.call .attach, .call (.update false), .act (.setMin 1 .zero), .call (.update false),
          .act (.batchGet 1), .act (.batchGet 3), .call (.requestUpdate true),
          .call (.change (.release 1 5)), .act (.batchGet 2)] =
      [.done, .done, .response (.found true), .done, .response (.rect (some ⟨0, 0, 20, 30⟩)),
        .response (.rect (some ⟨24, 0, 30, 30⟩)), .done, .position (some 5),
        .response (.rect (some ⟨0, 0, 4, 30⟩))] ∧
    answers threePanes 98 [.call .attach, .call (.update false), .act (.setMin 1 ⟨100, 0⟩),
        .call (.change (.release 1 50)), .act (.setMin 1 .zero), .act (.setMin 3 ⟨-50, 0⟩),
        .call (.update false), .act (.batchGet 3), .call (.change (.release 3 80)),
        .act (.batchGet 5)] =
      [.done, .done, .response (.found true), .position (some 100), .response (.found true),
        .response (.found true), .done, .response (.rect (some ⟨104, 0, -40, 30⟩)),
        .position (some 104), .response (.rect (some ⟨108, 0, -10, 30⟩))] ∧
    answers threePanes 98 [.call .attach, .call (.update false), .act (.batchGet 1), .act .suspend,
        .call (.change (.release 1 40)), .act .resume, .call (.change (.release 3 70)),
        .act (.batchGet 1)] =
      [.done, .done, .response (.rect (some ⟨0, 0, 30, 30⟩)), .done, .position (some 40), .done,
        .position (some 70), .response (.rect (some ⟨0, 0, 40, 30⟩))] :=
  ⟨rfl, rfl, rfl, rfl⟩

end Runs

end Layout

end PixelLayout
