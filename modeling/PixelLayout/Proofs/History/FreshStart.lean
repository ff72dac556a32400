import PixelLayout.Proofs.History.Children
import PixelLayout.Proofs.History.Retry
import PixelLayout.Proofs.Update.Protocol

/-!
# When a pass starts afresh

Layouts are operated on in any order, over containers that do as they like: they are attached and
detached, further passes are asked for at any time and in the middle of a commit, updates find no
container, one in use or a suspended one, run several passes, fail or are deferred. All the same,
children are arranged afresh exactly if, since they were arranged before, a fresh start was asked
for, or if they are others than then. So no request is lost, and none is made up.

To say so, every call to arrange is written down with all that it is given: a recording arranger
keeps the calls, as a recording host keeps what it is handed, which are the answers to these calls.
The moments of a layout, the latest first, are the calls and the requests for further passes between
them.
-/

set_option autoImplicit false

namespace PixelLayout

inductive Moment where
  | requested (reset : Bool)
  | arranged (reset : Bool) (ids : List Nat)
  deriving DecidableEq, Repr

namespace Moment

def resetAsked : List Moment → Bool
  | [] => false
  | .requested reset :: ms => reset || resetAsked ms
  | .arranged _ _ :: _ => false

def lastIds : List Moment → List Nat
  | [] => []
  | .requested _ :: ms => lastIds ms
  | .arranged _ ids :: _ => ids

def isArranged : Moment → Bool
  | requested _ => false
  | arranged _ _ => true

def Faithful : List Moment → Prop
  | [] => True
  | .requested _ :: ms => Faithful ms
  | .arranged reset ids :: ms =>
    (reset = true ↔ resetAsked ms = true ∨ ids ≠ lastIds ms) ∧ Faithful ms

theorem Faithful.of_append {later earlier : List Moment} (h : Faithful (later ++ earlier)) :
    Faithful earlier := by
  induction later with
  | nil => exact h
  | cons m later ih =>
    cases m with
    | requested reset => exact ih h
    | arranged reset ids => exact ih h.2

end Moment

structure Arranger.Call where
  mode : Mode
  settings : Settings
  children : List Item
  bounds : Rect
  reset : Bool

namespace Arranger

def Call.answer (c : Call) : Arrangement := c.mode.arrange c.settings c.children c.bounds c.reset

def Call.moment (c : Call) : Moment := .arranged c.reset (c.children.map (·.id))

def recorded : Arranger (StateM (List Call)) := fun mode settings children bounds reset => do
  let call : Call := ⟨mode, settings, children, bounds, reset⟩
  modify (· ++ [call])
  return call.answer

end Arranger

def Event.reset? : Event → Option Bool
  | pass _ _ reset _ => some reset
  | _ => none

def Change.resets : Mode → Change → Bool
  | .splitter _, .axis _ | .splitter _, .stretch _ _ | .splitter _, .fractions _ => true
  | _, _ => false

inductive Operation (σ : Type) where
  | attach
  | detach
  | request (reset : Bool)
  | update (host : Option (Host σ)) (reset : Bool) (s : σ)
  | change (host : Option (Host σ)) (c : Change) (s : σ)
  | query (view : Option View) (size : Size)

variable {σ : Type}

-- Each call is followed by the handover of its answer and by what that was asked for meanwhile.
def noted : List (Handover σ) → List Arranger.Call → List Moment → List Moment
  | h :: log, c :: calls, ms =>
    noted log calls (h.commit.requests.reverse.map .requested ++ c.moment :: ms)
  | _, _, ms => ms

namespace Operation

def run (l : Layout) : Operation σ → Layout
  | attach => l.attach
  | detach => l.detach
  | request reset => l.request reset
  | update host reset s => (l.update host reset s).layout
  | change host c s => (l.apply host c s).layout
  | query view size => (l.minSizeFor view size).2

def events (l : Layout) : Operation σ → List Event
  | update host reset s => (l.update host reset s).events
  | change host c s => (l.apply host c s).events
  | attach | detach | request _ | query _ _ => []

def calls (l : Layout) : Operation σ → List Arranger.Call
  | update host reset s => ((l.updateBy .recorded host reset s).run []).2
  | change host c s => ((l.applyBy .recorded host c s).run []).2
  | attach | detach | request _ | query _ _ => []

def handovers (l : Layout) : Operation σ → List (Handover σ)
  | update host reset s => (l.update (host.map Host.recorded) reset (s, [])).state.2
  | change host c s => (l.apply (host.map Host.recorded) c (s, [])).state.2
  | attach | detach | request _ | query _ _ => []

def changeResets (l : Layout) (host : Option (Host σ)) (c : Change) (s : σ) : Bool :=
  (l.revised? host.isSome (host.bind (·.look s)) c).isSome && c.resets l.mode

def asks (l : Layout) : Operation σ → List Bool
  | attach => [true]
  | request reset | update _ reset _ => [reset]
  | change host c s => [changeResets l host c s]
  | detach | query _ _ => []

def note (l : Layout) (op : Operation σ) (ms : List Moment) : List Moment :=
  noted (op.handovers l) (op.calls l) ((op.asks l).map .requested ++ ms)

end Operation

namespace Layout

-- A run lists its operations with the latest first.

def through (l : Layout) : List (Operation σ) → Layout
  | [] => l
  | op :: ops => op.run (l.through ops)

def moments (l : Layout) : List (Operation σ) → List Moment
  | [] => []
  | op :: ops => op.note (l.through ops) (l.moments ops)

def calls (l : Layout) : List (Operation σ) → List Arranger.Call
  | [] => []
  | op :: ops => (op.calls (l.through ops)).reverse ++ l.calls ops

def reported (l : Layout) : List (Operation σ) → List Event
  | [] => []
  | op :: ops => (op.events (l.through ops)).reverse ++ l.reported ops

def batches (l : Layout) : List (Operation σ) → List Batch
  | [] => []
  | op :: ops => ((op.handovers (l.through ops)).map (·.batch)).reverse ++ l.batches ops

structure Reflects (l : Layout) (ms : List Moment) : Prop where
  reset : l.flags.resetNeeded = Moment.resetAsked ms
  seen : l.seen = Moment.lastIds ms
  faithful : Moment.Faithful ms

section Steps

variable {l l' : Layout} {ms : List Moment}

theorem Reflects.congr (h : l.Reflects ms) (reset : l'.flags.resetNeeded = l.flags.resetNeeded)
    (seen : l'.seen = l.seen) : l'.Reflects ms :=
  ⟨reset.trans h.reset, seen.trans h.seen, h.faithful⟩

theorem Reflects.requested (h : l.Reflects ms) {reset : Bool}
    (needed : l'.flags.resetNeeded = (l.flags.resetNeeded || reset)) (seen : l'.seen = l.seen) :
    l'.Reflects (.requested reset :: ms) := by
  refine ⟨?_, seen.trans h.seen, h.faithful⟩
  rw [needed, h.reset, Bool.or_comm]
  rfl

theorem Reflects.requests (h : l.Reflects ms) (rs : List Bool) :
    (rs.foldl request l).Reflects (rs.reverse.map .requested ++ ms) := by
  induction rs generalizing l ms with
  | nil => exact h
  | cons r rs ih =>
    have step : (l.request r).Reflects (.requested r :: ms) := h.requested rfl rfl
    simpa using ih step

theorem Reflects.passed (h : l.Reflects ms) (v : View) :
    (l.passed v).Reflects (.arranged (l.startsAfresh v.children) v.ids :: ms) := by
  refine ⟨rfl, rfl, ?_, h.faithful⟩
  rw [startsAfresh, h.reset, h.seen, Bool.or_eq_true, bne_iff_ne]
  exact or_congr_right ne_comm

theorem reports_reset (l : Layout) (number : Nat) (v : View) :
    (l.reports number v).filterMap Event.reset? = [l.startsAfresh v.children] := by
  have quiet : (l.arrangement v).events.filterMap Event.reset? = [] := by
    rw [List.filterMap_eq_nil_iff]
    intro e he
    have h := (l.arrangement_quiet v e he).2
    cases e with
    | pass => cases h
    | _ => rfl
  simp [reports, Event.reset?, quiet]

end Steps

section Updates

variable {host : Host σ} {left number : Nat} {l : Layout} {s : σ} {log : List (Handover σ)}
  {calls : List Arranger.Call} {o : Outcome σ} {ms : List Moment}

structure Traced (l : Layout) (o : Outcome σ) (log : List (Handover σ))
    (calls : List Arranger.Call) : Prop where
  batches : log.map (·.batch) = calls.map (·.answer.batch)
  reported : calls.map (·.reset) = o.events.filterMap Event.reset?
  reflects : ∀ ms, l.Reflects ms → o.layout.Reflects (noted log calls ms)

theorem filter_requests (rs : List Bool) :
    (rs.map Moment.requested).filter Moment.isArranged = [] := by
  rw [List.filter_eq_nil_iff]
  rintro m hm
  obtain ⟨r, -, rfl⟩ := List.mem_map.mp hm
  nofun

theorem filter_noted (length : log.length = calls.length) (ms : List Moment) :
    (noted log calls ms).filter Moment.isArranged =
      (calls.map Arranger.Call.moment).reverse ++ ms.filter Moment.isArranged := by
  induction log generalizing calls ms with
  | nil =>
    obtain rfl : calls = [] := List.eq_nil_of_length_eq_zero length.symm
    rfl
  | cons h log ih =>
    cases calls with
    | nil => cases length
    | cons c calls =>
      rw [noted, ih (Nat.succ.inj length), List.filter_append, filter_requests, List.map_cons,
        List.reverse_cons, List.append_assoc]
      rfl

theorem Traced.length (traced : Traced l o log calls) : log.length = calls.length := by
  simpa only [List.length_map] using congrArg List.length traced.batches

theorem Traced.idle (layout : ∀ ms, l.Reflects ms → o.layout.Reflects ms)
    (quiet : o.events.filterMap Event.reset? = []) : Traced l o [] [] :=
  ⟨rfl, quiet.symm, layout⟩

def call (l : Layout) (v : View) : Arranger.Call :=
  ⟨l.mode, l.settings, v.children, v.bounds, l.startsAfresh v.children⟩

theorem Reflects.answered (h : l.Reflects ms) (host : Host σ) (s : σ) (v : View) :
    (l.answered host s v).Reflects (noted [l.handover host s v] [l.call v] ms) :=
  (h.passed v).requests _

theorem Traced.once {v : View} {events : List Event}
    (layout : ∀ ms, (l.answered host s v).Reflects ms → o.layout.Reflects ms)
    (reports : o.events = l.reports number v ++ events)
    (quiet : events.filterMap Event.reset? = []) :
    Traced l o [l.handover host s v] [l.call v] := by
  refine ⟨rfl, ?_, fun ms h => layout _ (h.answered host s v)⟩
  rw [reports, List.filterMap_append, reports_reset, quiet]
  rfl

theorem Traced.again {v : View} (rest : Traced (l.answered host s v) o log calls) :
    Traced l (o.after (l.reports number v)) (l.handover host s v :: log) (l.call v :: calls) := by
  refine ⟨congrArg (List.cons _) rest.batches, ?_, fun ms h => ?_⟩
  · rw [Outcome.after, List.filterMap_append, reports_reset, List.map_cons, rest.reported]
    rfl
  · exact rest.reflects _ (h.answered host s v)

theorem recorded_open (l : Layout) (v : View) :
    Arranger.recorded l.mode l.settings v.children v.bounds (l.startsAfresh v.children) = do
      modify (· ++ [l.call v])
      return l.arrangement v := rfl

theorem Course.traced (course : Course host left number l s log o) :
    ∃ calls, Traced l o log calls ∧
      ∀ kept, (passesBy .recorded host left number l s).run kept = (o, kept ++ calls) := by
  -- each pass adds its call to those kept before, so these are any
  induction course with
  | out number l s =>
    refine ⟨[], .idle (fun _ h => h.congr rfl rfl) rfl, fun kept => ?_⟩
    rw [List.append_nil]
    rfl
  | busy left number l unseen =>
    refine ⟨[], .idle (fun _ h => h.congr rfl rfl) rfl, fun kept => ?_⟩
    rw [passesBy_busy _ _ _ _ _ unseen, List.append_nil]
    rfl
  | suspended left number l look suspended =>
    refine ⟨[], .idle (fun _ h => h.congr rfl rfl) rfl, fun kept => ?_⟩
    rw [passesBy_suspended _ _ _ _ _ look suspended, List.append_nil]
    rfl
  | deferred left number l look opened reply =>
    refine ⟨_, .once (fun _ h => h.congr rfl rfl) rfl rfl, fun kept => ?_⟩
    rw [passesBy_open host left number l .recorded _ (l.recorded_open _) look opened, reply]
    rfl
  | failed left number l look opened reply =>
    refine ⟨_, .once (fun _ h => h) rfl rfl, fun kept => ?_⟩
    rw [passesBy_open host left number l .recorded _ (l.recorded_open _) look opened, reply]
    rfl
  | settled left number l look opened reply quiet =>
    refine ⟨_, .once (fun _ h => h) (List.append_nil _).symm rfl, fun kept => ?_⟩
    rw [passesBy_open host left number l .recorded _ (l.recorded_open _) look opened, reply]
    simp only [if_pos quiet]
    rfl
  | @reopened left number l s v log o look opened reopens rest ih =>
    obtain ⟨calls, traced, run⟩ := ih
    refine ⟨_, traced.again, fun kept => ?_⟩
    have again := run (kept ++ [l.call v])
    rw [List.append_assoc, List.singleton_append] at again
    rw [passesBy_open host left number l .recorded _ (l.recorded_open _) look opened, reopens.1]
    simp only [if_neg reopens.2]
    exact congrArg (fun r => (r.1.after (l.reports number v), r.2)) again

end Updates

section Calls

variable {l l' : Layout} {ms : List Moment} {o : Outcome σ} {log : List (Handover σ)}
  {calls : List Arranger.Call} {c : Change}

theorem Traced.congr (traced : Traced l o log calls)
    (reset : l'.flags.resetNeeded = l.flags.resetNeeded) (seen : l'.seen = l.seen) :
    Traced l' o log calls :=
  ⟨traced.batches, traced.reported, fun ms h => traced.reflects ms (h.congr reset.symm seen.symm)⟩

theorem Traced.setPerforming (traced : Traced l o log calls) (performing : Bool) :
    Traced l { o with layout := o.layout.setPerforming performing } log calls :=
  ⟨traced.batches, traced.reported, fun ms h => (traced.reflects ms h).congr rfl rfl⟩

theorem Traced.after (traced : Traced l o log calls) {events : List Event}
    (quiet : events.filterMap Event.reset? = []) : Traced l (o.after events) log calls := by
  refine ⟨traced.batches, ?_, traced.reflects⟩
  rw [Outcome.after, List.filterMap_append, quiet, traced.reported]
  rfl

theorem run_recorded_update (host : Host σ) (reset : Bool) (l : Layout) (s : σ)
    (kept : List Arranger.Call) :
    (l.updateBy .recorded (some host) reset s).run kept =
      let (o, calls) := (passesBy .recorded host maxPasses 0
        ((l.begun reset).setPerforming true) s).run kept
      ({ o with layout := o.layout.setPerforming false }, calls) := rfl

theorem update_traced (host : Option (Host σ)) (reset : Bool) (l : Layout) (s : σ) :
    ∃ calls, Traced (l.begun reset) (l.update host reset s)
        (l.update (host.map Host.recorded) reset (s, [])).state.2 calls ∧
      (l.updateBy .recorded host reset s).run [] = (l.update host reset s, calls) := by
  cases host with
  | none => exact ⟨[], .idle (fun _ h => h) rfl, rfl⟩
  | some host =>
    obtain ⟨log, o, course, update, recorded⟩ := exists_recorded host reset l s
    obtain ⟨calls, traced, run⟩ := course.traced
    have start : Traced (l.begun reset) o log calls := traced.congr rfl rfl
    rw [Option.map_some, recorded, run_recorded_update, run, update]
    exact ⟨calls, start.setPerforming false, rfl⟩

theorem resetNeeded_of_revised {view : Option View} (revised : Revised l view c l') :
    l'.flags.resetNeeded = (l.flags.resetNeeded || c.resets l.mode) := by
  cases revised with
  | margins | spacing | alignment => cases l.mode <;> exact (Bool.or_false _).symm
  | boxAxis mode | boxStretch mode | flowStretch mode | range mode | rowStretch mode
  | columnStretch mode | handleWidth mode | fixed mode | release mode =>
    rw [mode]
    exact (Bool.or_false _).symm
  | splitterAxis mode | splitterStretch mode | fractions mode =>
    rw [mode]
    exact (Bool.or_true _).symm

theorem filterMap_reset_of_revise {attached : Bool} {view : Option View} {events : List Event}
    (h : l.revise attached view c = .ok (some (l', events))) :
    events.filterMap Event.reset? = [] := by
  rw [List.filterMap_eq_nil_iff]
  intro e he
  obtain ⟨handle, position, rfl⟩ := reported_of_revise h e he
  rfl

theorem changeResets_of_none (host : Option (Host σ)) (s : σ)
    (h : l.revised? host.isSome (host.bind (·.look s)) c = none) :
    Operation.changeResets l host c s = false := by
  rw [Operation.changeResets, h]
  rfl

theorem changeResets_of_revise (host : Option (Host σ)) (s : σ) {events : List Event}
    (h : l.revise host.isSome (host.bind (·.look s)) c = .ok (some (l', events))) :
    Operation.changeResets l host c s = c.resets l.mode := by
  simp only [Operation.changeResets, revised?, h]
  rfl

theorem Traced.revised {view : Option View} (revised : Revised l view c l')
    (traced : Traced (l'.forget.begun false) o log calls) :
    Traced (l.begun (c.resets l.mode)) o log calls := by
  have reset := resetNeeded_of_revised revised
  have seen := seen_of_revised revised
  exact traced.congr (reset.symm.trans (Bool.or_false _).symm) seen.symm

/-- A change that is not made is no request; one that is made is one, and an update follows. -/
theorem apply_traced (host : Option (Host σ)) (c : Change) (l : Layout) (s : σ) :
    ∃ calls, Traced (l.begun (Operation.changeResets l host c s)) (l.apply host c s)
        (l.apply (host.map Host.recorded) c (s, [])).state.2 calls ∧
      (l.applyBy .recorded host c s).run [] = (l.apply host c s, calls) := by
  cases made : l.revised? host.isSome (host.bind (·.look s)) c with
  | none =>
    have unmade : l.revised? (host.map Host.recorded).isSome
        ((host.map Host.recorded).bind (·.look (s, []))) c = none := by
      cases host <;> exact made
    rw [apply_of_none host s made, applyBy_of_none .recorded host s made,
      apply_of_none (host.map Host.recorded) (s, []) unmade, changeResets_of_none host s made]
    exact ⟨[], .idle (fun _ h => h.congr (Bool.or_false _).symm rfl) rfl, rfl⟩
  | some l' =>
    obtain ⟨events, revise⟩ := revise_of_revised? made
    have quiet := filterMap_reset_of_revise revise
    have revised := revised_of_revise revise
    rw [changeResets_of_revise host s revise]
    cases host with
    | none =>
      have recorded := apply_alone (s, ([] : List (Handover σ))) revise
      rw [apply_alone s revise, applyBy_alone .recorded s revise, Option.map_none, recorded]
      refine ⟨[], .revised revised (.idle (fun _ h => ?_) quiet), rfl⟩
      exact h.congr (Bool.or_false _).symm rfl
    | some host =>
      obtain ⟨calls, traced, run⟩ := update_traced (some host) false l'.forget s
      have recorded := apply_made host.recorded (s, []) revise
      rw [apply_made host s revise, applyBy_made .recorded host s revise, Option.map_some,
        recorded, StateT.run_bind, run]
      exact ⟨calls, .revised revised (traced.after quiet), rfl⟩

end Calls

section Runs

variable {l : Layout} {ms : List Moment}

theorem Reflects.query (h : l.Reflects ms) (view : Option View) (size : Size) :
    (l.minSizeFor view size).2.Reflects ms := by
  rw [minSizeFor_def]
  split
  · exact h
  · exact h.congr rfl rfl

structure Accounted (l : Layout) (op : Operation σ) : Prop where
  reflects : ∀ ms, l.Reflects ms → (op.run l).Reflects (op.note l ms)
  arranged : ∀ ms, (op.note l ms).filter Moment.isArranged =
    ((op.calls l).map Arranger.Call.moment).reverse ++ ms.filter Moment.isArranged
  batches : (op.handovers l).map (·.batch) = (op.calls l).map (·.answer.batch)
  reported : (op.calls l).map (·.reset) = (op.events l).filterMap Event.reset?

theorem Accounted.still {op : Operation σ} (calls : op.calls l = [])
    (handovers : op.handovers l = []) (events : op.events l = [])
    (reflects : ∀ ms, l.Reflects ms → (op.run l).Reflects ((op.asks l).map .requested ++ ms)) :
    l.Accounted op := by
  refine ⟨fun ms h => ?_, fun ms => ?_, ?_, ?_⟩
  · rw [Operation.note, calls, handovers]
    exact reflects ms h
  · rw [Operation.note, calls, handovers]
    show List.filter _ (_ ++ ms) = ms.filter _
    rw [List.filter_append, filter_requests, List.nil_append]
  · rw [calls, handovers]
    rfl
  · rw [calls, events]
    rfl

theorem Traced.accounted {op : Operation σ} {reset : Bool} {o : Outcome σ}
    {calls : List Arranger.Call} (traced : Traced (l.begun reset) o (op.handovers l) calls)
    (layout : op.run l = o.layout) (events : op.events l = o.events)
    (called : op.calls l = calls) (asks : op.asks l = [reset]) : l.Accounted op := by
  refine ⟨fun ms h => ?_, fun ms => ?_, ?_, ?_⟩
  · rw [layout, Operation.note, called, asks]
    exact traced.reflects _ (h.requested rfl rfl)
  · rw [Operation.note, called, asks, filter_noted traced.length]
    rfl
  · rw [called, traced.batches]
  · rw [called, events, traced.reported]

theorem accounted (l : Layout) (op : Operation σ) : l.Accounted op := by
  cases op with
  | attach => exact .still rfl rfl rfl fun _ h => h.requested (Bool.or_true _).symm rfl
  | detach => exact .still rfl rfl rfl fun _ h => h.congr rfl rfl
  | request reset => exact .still rfl rfl rfl fun _ h => h.requested rfl rfl
  | query view size => exact .still rfl rfl rfl fun _ h => h.query view size
  | update host reset s =>
    obtain ⟨calls, traced, run⟩ := update_traced host reset l s
    exact traced.accounted rfl rfl (congrArg Prod.snd run) rfl
  | change host c s =>
    obtain ⟨calls, traced, run⟩ := apply_traced host c l s
    exact traced.accounted rfl rfl (congrArg Prod.snd run) rfl

theorem Made.reflects (made : l.Made) : l.Reflects [] :=
  ⟨congrArg PassFlags.resetNeeded made.new.idle, made.new.unseen, trivial⟩

theorem Reflects.moments (h : l.Reflects []) (ops : List (Operation σ)) :
    (l.through ops).Reflects (l.moments ops) := by
  induction ops with
  | nil => exact h
  | cons op ops ih => exact ((l.through ops).accounted op).reflects _ ih

theorem filter_moments (l : Layout) (ops : List (Operation σ)) :
    (l.moments ops).filter Moment.isArranged = (l.calls ops).map Arranger.Call.moment := by
  induction ops with
  | nil => rfl
  | cons op ops ih =>
    rw [moments, ((l.through ops).accounted op).arranged, ih, calls, List.map_append,
      List.map_reverse]

theorem calls_reported (l : Layout) (ops : List (Operation σ)) :
    (l.calls ops).map (·.reset) = (l.reported ops).filterMap Event.reset? := by
  induction ops with
  | nil => rfl
  | cons op ops ih =>
    rw [calls, List.map_append, ih, List.map_reverse, ((l.through ops).accounted op).reported,
      reported, List.filterMap_append, List.filterMap_reverse]

theorem batches_answered (l : Layout) (ops : List (Operation σ)) :
    l.batches ops = (l.calls ops).map (·.answer.batch) := by
  induction ops with
  | nil => rfl
  | cons op ops ih =>
    rw [batches, ((l.through ops).accounted op).batches, ih, calls, List.map_append,
      List.map_reverse]

/-- Whatever is done with a layout, a call to arrange starts afresh exactly if, since the call
before it, a fresh start was asked for, or if it is given other children than that call. The calls
are those whose answers the containers are handed. -/
theorem passes_afresh_iff (made : l.Made) (ops : List (Operation σ)) :
    l.batches ops = (l.calls ops).map (·.answer.batch) ∧
    (l.reported ops).filterMap Event.reset? = (l.calls ops).map (·.reset) ∧
    (l.moments ops).filter Moment.isArranged = (l.calls ops).map Arranger.Call.moment ∧
    ∀ later reset ids earlier, l.moments ops = later ++ .arranged reset ids :: earlier →
      (reset = true ↔ Moment.resetAsked earlier = true ∨ ids ≠ Moment.lastIds earlier) := by
  refine ⟨batches_answered l ops, (calls_reported l ops).symm, filter_moments l ops, ?_⟩
  intro later reset ids earlier split
  have faithful := (made.reflects.moments ops).faithful
  rw [split] at faithful
  exact faithful.of_append.1

def countdown : Host Nat where
  look _ := some unevenPanes
  commit n _ _ := ⟨.applied, if n = 0 then [] else [true], n - 1⟩

/-- The last of the passes that one update may run asks for another one. It is left to the next
update, and starts afresh there. -/
theorem columns_afresh :
    let ops := [.update (some countdown) false 0, .update (some countdown) false 9, .attach]
    ∃ earlier, freshColumns.moments ops =
        [] ++ .arranged true [1, 2, 3] :: .requested false :: .requested true :: earlier ∧
      (true = true ↔ Moment.resetAsked (.requested false :: .requested true :: earlier) = true ∨
        [1, 2, 3] ≠ Moment.lastIds (.requested false :: .requested true :: earlier)) := by
  intro ops
  have made : freshColumns.Made :=
    .splitter (show splitter .horizontal (some 4) = .ok freshColumns from rfl)
  let first : List Moment := [.arranged true [1, 2, 3], .requested false, .requested true]
  let again : List Moment := [.arranged true [1, 2, 3], .requested true]
  have run : freshColumns.moments ops = [] ++ .arranged true [1, 2, 3] :: .requested false ::
      .requested true :: ((List.replicate 7 again).flatten ++ first) := by decide +kernel
  exact ⟨_, run, (passes_afresh_iff made ops).2.2.2 [] true [1, 2, 3] _ run⟩

end Runs

end Layout

end PixelLayout
