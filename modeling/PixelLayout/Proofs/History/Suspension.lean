import Mathlib
import PixelLayout.Offscreen.World
import PixelLayout.Proofs.History.Rest

/-!
# Changes while a container is suspended

A change that is made is followed by a pass. Over a suspended container there is none, and what is
left of former children stays until the container is resumed. Boxes, grids and flows do not show it:
the changes answer alike, and the pass at the end makes the same layout and hands over the same
batch.
-/

set_option autoImplicit false

namespace PixelLayout

namespace Layout

structure Regular (l : Layout) : Prop where
  sound : l.Sound
  plain : l.mode.Plain

section Regular

variable {l l' : Layout}

theorem plain_of_revised {view : Option View} {c : Change} (plain : l.mode.Plain)
    (revised : Revised l view c l') : l'.mode.Plain := by
  cases revised with
  | margins | spacing | alignment => exact plain
  | boxAxis | boxStretch | flowStretch | range | rowStretch | columnStretch => trivial
  | splitterAxis mode | splitterStretch mode | handleWidth mode | fixed mode | fractions mode
  | release mode =>
    rw [mode] at plain
    exact plain.elim

theorem Regular.undergo (h : l.Regular) (d : Deed) : (l.undergo d).Regular := by
  refine ⟨h.sound.undergo d, ?_⟩
  cases d with
  | attach | detach | request | start | mark => exact h.plain
  | query view size =>
    show (l.minSizeFor view size).2.mode.Plain
    rw [minSizeFor_mode]
    exact h.plain
  | pass v =>
    show (l.mode.arrange _ _ _ _).mode.Plain
    rw [h.plain.arrange_mode]
    exact h.plain.refreshed _ _
  | change attached view c =>
    cases made : l.revised? attached view c with
    | none =>
      simp only [Layout.undergo, made]
      exact h.plain
    | some l' =>
      have plain := plain_of_revised h.plain (revised_of_revised? made)
      simp only [Layout.undergo, made]
      exact plain

theorem Regular.after (h : l.Regular) (ds : List Deed) : (l.after ds).Regular :=
  after_induction (fun _ d h => h.undergo d) h ds

theorem Regular.apply {σ : Type} (h : l.Regular) (host : Option (Host σ)) (c : Change) (s : σ) :
    (l.apply host c s).layout.Regular := by
  obtain ⟨ds, layout⟩ := exists_apply host c l s
  rw [layout]
  exact h.after ds

end Regular

end Layout

structure Host.Calm {σ : Type} (host : Host σ) (v : View) (P : σ → Prop) : Prop where
  look : ∀ s, P s → host.look s = some v
  applied : ∀ s flags batch, P s → (host.commit s flags batch).reply = .applied
  quiet : ∀ s flags batch, P s → (host.commit s flags batch).requests = []
  stays : ∀ s flags batch, P s → P (host.commit s flags batch).state

namespace Offscreen

structure Container.Calm (c : Container) (v : View) : Prop where
  view : (⟨c, none⟩ : Mount).view = v
  unfailing : c.failAfter = none
  quiet : c.relayout = none

def World.Calm (w : World) (j : Nat) (v : View) : Prop :=
  ∃ c, w.mount? j = some ⟨c, none⟩ ∧ c.Calm v

theorem Container.Calm.commit {c : Container} {v : View} (calm : c.Calm v) (batch : Batch) :
    (c.commit batch).answer = .ok () ∧ (c.commit batch).asks = [] ∧
      (c.commit batch).container.Calm v := by
  have commit : c.commit batch =
      ⟨.ok (), { c.store batch with
        lastBatch := batch, commits := c.commits + 1, relayout := none }, []⟩ := by
    rw [Container.commit, calm.unfailing, calm.quiet]
    rfl
  rw [commit]
  exact ⟨rfl, rfl, calm.view, calm.unfailing, rfl⟩

theorem World.Calm.commit {i j : Nat} {v : View} {w : World} (calm : w.Calm j v)
    (flags : PassFlags) (batch : Batch) :
    let done := w.commit i j .free flags batch
    done.reply = .applied ∧ done.requests = [] ∧ done.state.Calm j v := by
  obtain ⟨c, mounted, calm⟩ := calm
  obtain ⟨answer, asks, calm⟩ := calm.commit batch
  have commit : w.commit i j .free flags batch =
      ⟨.applied, [], w.setMount j (some ⟨(c.commit batch).container, none⟩)⟩ := by
    simp only [World.commit, mounted, Mount.commit, answer, asks, Option.map_none]
    rfl
  rw [commit]
  refine ⟨rfl, rfl, _, ?_, calm⟩
  have held : w.mounts[j]? = some (some ⟨c, none⟩) := Option.join_eq_some_iff.mp mounted
  have lt : j < w.mounts.length := (List.getElem?_eq_some_iff.mp held).1
  simp [mount?, setMount, lt]

theorem World.calm_host (i j : Nat) (v : View) :
    (host i j .free).Calm v (fun w => w.Calm j v) where
  look w calm := by
    obtain ⟨c, mounted, calm⟩ := calm
    show (w.mount? j).map (·.view) = some v
    rw [mounted]
    exact congrArg some calm.view
  applied w flags batch calm := (calm.commit flags batch).1
  quiet w flags batch calm := (calm.commit flags batch).2.1
  stays w flags batch calm := (calm.commit flags batch).2.2

end Offscreen

namespace Layout

variable {σ : Type} {host : Host σ} {l l' : Layout} {v v' : View} {P : σ → Prop} {s asleep : σ}

def handed (l : Layout) (host : Host σ) (s : σ) : List Batch :=
  (l.update (some host.recorded) false (s, [])).state.2.map (·.batch)

section Updates

theorem begun_startsAfresh (l : Layout) (children : List Item) :
    (l.begun false).startsAfresh children = l.startsAfresh children := by
  rw [startsAfresh, startsAfresh]
  exact congrArg (· || _) (Bool.or_false _)

theorem passes_settled (host : Host σ) (left number : Nat) (look : host.look s = some v)
    (opened : v.suspended = false) (applied : (l.handover host s v).commit.reply = .applied)
    (quiet : (l.handover host s v).commit.requests = []) :
    passes host (left + 1) number l s =
      ⟨.ok (), l.passed v, (l.handover host s v).commit.state, l.reports number v⟩ := by
  rw [passes_open host left number l look opened, applied]
  simp only [quiet, if_true, answered, List.foldl_nil]

/-- An update over a calm container is one pass. -/
theorem update_once (calm : host.Calm v P) (awake : v.suspended = false) (running : P s)
    (l : Layout) :
    let start := (l.begun false).setPerforming true
    l.update (some host) false s = ⟨.ok (), (start.passed v).setPerforming false,
      (start.handover host s v).commit.state, start.reports 0 v⟩ := by
  intro start
  have applied : (start.handover host s v).commit.reply = .applied := calm.applied _ _ _ running
  have quiet : (start.handover host s v).commit.requests = [] := calm.quiet _ _ _ running
  rw [update_some, maxPasses, passes_settled host _ _ (calm.look s running) awake applied quiet]

/-- An update over a calm container brings the layout to rest. -/
theorem update_calm (calm : host.Calm v P) (awake : v.suspended = false) (running : P s)
    (plain : l.mode.Plain) :
    let o := l.update (some host) false s
    o.result = .ok () ∧ o.layout = l.rested v ∧ P o.state ∧
      l.handed host s = [((l.rested v).mode.arrange (l.rested v).settings v.children v.bounds
        false).batch] := by
  let start := (l.begun false).setPerforming true
  have afresh : start.startsAfresh v.children = l.startsAfresh v.children :=
    l.begun_startsAfresh v.children
  have refreshed : (start.arrangement v).mode = (l.rested v).mode := by
    rw [arrangement, afresh]
    exact plain.arrange_mode _ _ _ _
  have rest : (start.passed v).setPerforming false = l.rested v := by
    show (⟨l.settings, .idle, [], v.ids, (start.arrangement v).mode⟩ : Layout) = _
    rw [refreshed]
    rfl
  have batch : (start.arrangement v).batch =
      ((l.rested v).mode.arrange (l.rested v).settings v.children v.bounds false).batch := by
    rw [arrangement, afresh]
    exact congrArg Arrangement.batch (plain.arrange _ _ _ _)
  have applied : (start.handover host s v).commit.reply = .applied := calm.applied _ _ _ running
  have quiet : (start.handover host s v).commit.requests = [] := calm.quiet _ _ _ running
  have recorded : (l.update (some host.recorded) false (s, [])).state.2 =
      [start.handover host s v] := by
    rw [update_some, maxPasses,
      passes_settled host.recorded _ _ (s := (s, [])) (calm.look s running) awake applied quiet]
    rfl
  rw [update_once calm awake running]
  refine ⟨rfl, rest, calm.stays _ _ _ running, ?_⟩
  rw [handed, recorded, ← batch]
  rfl

theorem update_asleep (look : host.look asleep = some v') (suspended : v'.suspended = true) :
    let o := l.update (some host) false asleep
    o.result = .ok () ∧ o.state = asleep ∧ o.layout.rested v = l.rested v := by
  have update := passes_suspended host 7 0 ((l.begun false).setPerforming true) look suspended
  rw [update_some, maxPasses, update]
  exact ⟨rfl, rfl, rested_congr rfl rfl (Bool.or_false _) rfl⟩

end Updates

section Changes

def answerOf : Except ParameterError (Option Layout) → Except LayoutError Unit
  | .error e => .error (.parameter e)
  | .ok _ => .ok ()

def layoutOf (l : Layout) : Except ParameterError (Option Layout) → Layout
  | .ok (some l') => l'
  | _ => l

theorem apply_settled (look : host.look s = some v') {Q : σ → Prop} (found : Q s) (c : Change)
    (update : ∀ l', Revised l (some v') c l' →
      let o := l'.forget.update (some host) false s
      o.result = .ok () ∧ o.layout.rested v = l'.rested v ∧ Q o.state) :
    let o := l.apply (some host) c s
    o.result = answerOf (l.settled v (some v') c) ∧
      o.layout.rested v = (l.rested v).layoutOf (l.settled v (some v') c) ∧ Q o.state := by
  have seen : (some host).bind (·.look s) = some v' := look
  cases revise : l.revise true (some v') c with
  | error e =>
    rw [apply_refused (some host) s (seen ▸ revise), settled, revise]
    exact ⟨rfl, rfl, found⟩
  | ok revision =>
    cases revision with
    | none =>
      rw [apply_idle (some host) s (seen ▸ revise), settled, revise]
      exact ⟨rfl, rfl, found⟩
    | some made =>
      obtain ⟨result, layout, state⟩ := update made.1 (revised_of_revise revise)
      rw [apply_made host s (look ▸ revise), settled, revise]
      exact ⟨result, layout, state⟩

theorem apply_calm (calm : host.Calm v P) (awake : v.suspended = false) (running : P s)
    (regular : l.Regular) (c : Change) :
    let o := l.apply (some host) c s
    o.result = answerOf (l.settled v (some v) c) ∧
      o.layout.rested v = (l.rested v).layoutOf (l.settled v (some v) c) ∧ P o.state := by
  refine apply_settled (calm.look s running) running c fun l' revised => ?_
  have plain : l'.mode.Plain := plain_of_revised regular.plain revised
  obtain ⟨result, layout, state, -⟩ := update_calm (l := l'.forget) calm awake running plain
  refine ⟨result, ?_, state⟩
  show (l'.forget.update (some host) false s).layout.rested v = l'.rested v
  rw [layout, rested_again]
  exact rested_congr rfl rfl rfl rfl

theorem apply_asleep (look : host.look asleep = some v') (suspended : v'.suspended = true)
    (c : Change) :
    let o := l.apply (some host) c asleep
    o.result = answerOf (l.settled v (some v') c) ∧
      o.layout.rested v = (l.rested v).layoutOf (l.settled v (some v') c) ∧
      o.state = asleep := by
  refine apply_settled look (Q := (· = asleep)) rfl c fun l' revised => ?_
  obtain ⟨result, state, layout⟩ := update_asleep (l := l'.forget) (v := v) look suspended
  exact ⟨result, layout.trans (rested_congr rfl rfl rfl rfl), state⟩

end Changes

structure Twins (v : View) (l l' : Layout) : Prop where
  regular : l.Regular
  regular' : l'.Regular
  rested : l.rested v = l'.rested v

section Twins

theorem Twins.settled (twins : Twins v l l') (children : v'.children = v.children) (c : Change) :
    l.settled v (some v) c = l'.settled v (some v') c := by
  have view : l'.settled v (some v') c = l'.settled v (some v) c := by
    rw [Layout.settled, Layout.settled, revise_view twins.regular'.plain children]
  rw [view, ← settled_rested twins.regular.plain twins.regular.sound.mode,
    ← settled_rested twins.regular'.plain twins.regular'.sound.mode, twins.rested]

theorem Twins.apply (twins : Twins v l l') (calm : host.Calm v P) (awake : v.suspended = false)
    (running : P s) (look : host.look asleep = some v') (suspended : v'.suspended = true)
    (children : v'.children = v.children) (c : Change) :
    let o := l.apply (some host) c s
    let o' := l'.apply (some host) c asleep
    o.result = o'.result ∧ P o.state ∧ o'.state = asleep ∧ Twins v o.layout o'.layout := by
  intro o o'
  have same := twins.settled children c
  obtain ⟨result, layout, state⟩ := apply_calm calm awake running twins.regular c
  obtain ⟨result', layout', state'⟩ := apply_asleep (l := l') (v := v) look suspended c
  have regular : o.layout.Regular := twins.regular.apply (some host) c s
  have regular' : o'.layout.Regular := twins.regular'.apply (some host) c asleep
  refine ⟨?_, state, state', regular, regular', ?_⟩
  · rw [result, result', same]
  · rw [layout, layout', same, twins.rested]

end Twins

structure Series (σ : Type) where
  results : List (Except LayoutError Unit)
  layout : Layout
  state : σ

def applyAll (host : Option (Host σ)) : List Change → Layout → σ → Series σ
  | [], l, s => ⟨[], l, s⟩
  | c :: cs, l, s =>
    let o := l.apply host c s
    let rest := applyAll host cs o.layout o.state
    { rest with results := o.result :: rest.results }

/-- A run of changes, made over a calm container and over a suspended one. -/
theorem Twins.applyAll (twins : Twins v l l') (calm : host.Calm v P) (awake : v.suspended = false)
    (running : P s) (look : host.look asleep = some v') (suspended : v'.suspended = true)
    (children : v'.children = v.children) (cs : List Change) :
    let live := l.applyAll (some host) cs s
    let held := l'.applyAll (some host) cs asleep
    live.results = held.results ∧ P live.state ∧ held.state = asleep ∧
      Twins v live.layout held.layout := by
  -- the suspended container stays in its state, so only that of the calm one varies
  induction cs generalizing l l' s with
  | nil => exact ⟨rfl, running, rfl, twins⟩
  | cons c cs ih =>
    obtain ⟨result, state, state', next⟩ :=
      twins.apply calm awake running look suspended children c
    obtain ⟨results, rest⟩ := ih next state
    simp only [Layout.applyAll, state', result, results]
    exact ⟨trivial, rest⟩

/-- A run of changes over a container that is suspended meanwhile answers like the run over the
open container, and once the container is resumed, the next update makes the same layout and hands
over the same batch. -/
theorem suspension_transparent {l : Layout} (made : l.Made) (ds : List Deed)
    (plain : (l.after ds).mode.Plain) (calm : host.Calm v P) (awake : v.suspended = false)
    (s asleep resumed : σ) (running : P s)
    (look : host.look asleep = some { v with suspended := true }) (resume : P resumed)
    (cs : List Change) :
    let live := (l.after ds).applyAll (some host) cs s
    let held := (l.after ds).applyAll (some host) cs asleep
    live.results = held.results ∧ held.state = asleep ∧
      let o := live.layout.update (some host) false live.state
      let o' := held.layout.update (some host) false resumed
      o.result = .ok () ∧ o'.result = .ok () ∧ o.layout = o'.layout ∧
        ∃ batch, live.layout.handed host live.state = [batch] ∧
          held.layout.handed host resumed = [batch] := by
  intro live held
  have regular : (l.after ds).Regular := ⟨made.sound ds, plain⟩
  have start : Twins v (l.after ds) (l.after ds) := ⟨regular, regular, rfl⟩
  obtain ⟨results, state, state', twins⟩ := start.applyAll calm awake running look rfl rfl cs
  obtain ⟨result, layout, -, batch⟩ := update_calm calm awake state twins.regular.plain
  obtain ⟨result', layout', -, batch'⟩ := update_calm calm awake resume twins.regular'.plain
  refine ⟨results, state', result, result', ?_, _, batch, ?_⟩
  · rw [layout, layout', twins.rested]
  · rw [batch', ← twins.rested]

section Cells

open Offscreen

def twoCells : View where
  suspended := false
  children := [{ Item.plain 1 with flags := .resizable }, { Item.plain 2 with flags := .resizable }]
  bounds := ⟨0, 0, 100, 10⟩

def cellWorld (suspended : Bool) : World :=
  ⟨[some ⟨{ Container.fresh twoCells.bounds twoCells.children with suspended }, none⟩], []⟩

def freshGrid : Layout := ⟨.zero, .idle, [], [], .grid .fresh⟩

/-- The first cell is taken from an item that has left the container before, a spacing is refused,
and the second column is to be three times as wide as the first one. -/
theorem cells_transparent :
    let host := World.host 0 0 .free
    let l := freshGrid.after
      [.change true (some { twoCells with children := [Item.plain 9] }) (.range 9 (.cell 0 0)), .attach]
    let cs := [.range 1 (.cell 0 0), .spacing (-1), .range 2 (.cell 0 1), .columnStretch 1 3]
    let live := l.applyAll (some host) cs (cellWorld false)
    let held := l.applyAll (some host) cs (cellWorld true)
    (live.results = held.results ∧
      held.results = [.ok (), .error (.parameter (.negativeSpacing (-1))), .ok (), .ok ()]) ∧
    ∃ batch, live.layout.handed host live.state = [batch] ∧
      held.layout.handed host (cellWorld false) = [batch] ∧
      batch = [(1, ⟨0, 0, 25, 10⟩), (2, ⟨25, 0, 75, 10⟩)] := by
  intro host l cs live held
  have made : freshGrid.Made := .grid (show grid none = .ok freshGrid from rfl)
  have opened : (cellWorld false).Calm 0 twoCells := ⟨_, rfl, rfl, rfl, rfl⟩
  obtain ⟨results, -, -, -, -, batch, first, second⟩ :=
    suspension_transparent made _ (show l.mode.Plain from trivial) (World.calm_host 0 0 twoCells)
      rfl (cellWorld false) (cellWorld true) (cellWorld false) opened rfl opened cs
  have batches : held.layout.handed host (cellWorld false) =
      [[(1, ⟨0, 0, 25, 10⟩), (2, ⟨25, 0, 75, 10⟩)]] := by
    cbv
  exact ⟨⟨results, by cbv⟩, batch, first, second, (List.cons.inj (second.symm.trans batches)).1⟩

end Cells

end Layout

end PixelLayout
