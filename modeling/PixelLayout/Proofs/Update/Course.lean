import PixelLayout.Layout.Update

/-!
# The course of an update

An update hands over one batch for each pass that gets to see its container. Its course lists what
was handed over, with the flags that the layout had meanwhile and the answer that came back, along
with the outcome; the rules say once what a pass can come to, and every update follows them. A
recording host keeps what it is handed and otherwise does what the host behind it does, so its
record is the course of the update as a container sees it.
-/

set_option autoImplicit false

namespace PixelLayout

variable {σ : Type}

structure Handover (σ : Type) where
  found : σ
  flags : PassFlags
  batch : Batch
  commit : Commit σ

def Handover.Reopens (h : Handover σ) : Prop :=
  h.commit.reply = .applied ∧ h.commit.requests ≠ []

namespace Host

def recorded (host : Host σ) : Host (σ × List (Handover σ)) where
  look s := host.look s.1
  commit s flags batch :=
    let c := host.commit s.1 flags batch
    ⟨c.reply, c.requests, (c.state, s.2 ++ [⟨s.1, flags, batch, c⟩])⟩

def Shut (host : Host σ) (s : σ) : Prop := ∀ v, host.look s = some v → v.suspended = true

end Host

namespace Layout

def begun (l : Layout) (reset : Bool) : Layout :=
  { l.forget with flags := { l.flags with resetNeeded := l.flags.resetNeeded || reset } }

def arrangement (l : Layout) (v : View) : Arrangement :=
  l.mode.arrange l.settings v.children v.bounds (l.startsAfresh v.children)

def passed (l : Layout) (v : View) : Layout := (l.setPending false).arranged v (l.arrangement v)

def reports (l : Layout) (number : Nat) (v : View) : List Event :=
  .pass l.mode.name number (l.startsAfresh v.children) v.bounds.size :: (l.arrangement v).events

def handover (l : Layout) (host : Host σ) (s : σ) (v : View) : Handover σ :=
  ⟨s, (l.passed v).flags, (l.arrangement v).batch,
    host.commit s (l.passed v).flags (l.arrangement v).batch⟩

def answered (l : Layout) (host : Host σ) (s : σ) (v : View) : Layout :=
  (l.handover host s v).commit.requests.foldl request (l.passed v)

/-- Requests change the marks of a layout and nothing else. -/
theorem foldl_request (l : Layout) (rs : List Bool) :
    rs.foldl request l = { l with flags := rs.foldl .request l.flags } := by
  induction rs generalizing l with
  | nil => rfl
  | cons r rs ih => exact ih _

theorem foldl_request_performing (l : Layout) (rs : List Bool) :
    (rs.foldl request l).flags.performing = l.flags.performing := by
  induction rs generalizing l with
  | nil => rfl
  | cons r rs ih => exact ih _

theorem foldl_request_mode (l : Layout) (rs : List Bool) :
    (rs.foldl request l).mode = l.mode := by
  rw [foldl_request]

theorem foldl_request_pending (l : Layout) (rs : List Bool) :
    (rs.foldl request l).flags.pending = (l.flags.pending || !rs.isEmpty) := by
  induction rs generalizing l with
  | nil => simp
  | cons r rs ih =>
    rw [List.foldl_cons, ih]
    simp [request, PassFlags.request]

theorem foldl_request_resetNeeded (l : Layout) (rs : List Bool) :
    (rs.foldl request l).flags.resetNeeded = (l.flags.resetNeeded || rs.contains true) := by
  induction rs generalizing l with
  | nil => simp
  | cons r rs ih =>
    rw [List.foldl_cons, ih, List.contains_cons, ← Bool.or_assoc]
    cases r <;> rfl

section Answered

variable (l : Layout) (host : Host σ) (s : σ) (v : View)

theorem answered_performing : (l.answered host s v).flags.performing = l.flags.performing :=
  foldl_request_performing _ _

theorem answered_pending :
    (l.answered host s v).flags.pending = !(l.handover host s v).commit.requests.isEmpty :=
  foldl_request_pending _ _

theorem answered_name : (l.answered host s v).mode.name = l.mode.name := by
  rw [answered, foldl_request_mode]
  change (l.mode.arrange _ _ _ _).mode.name = l.mode.name
  cases l.mode <;> rfl

end Answered

/-- What up to `left` passes can come to, the first of them with the given number. -/
inductive Course (host : Host σ) :
    Nat → Nat → Layout → σ → List (Handover σ) → Outcome σ → Prop where
  | out (number : Nat) (l : Layout) (s : σ) :
      Course host 0 number l s []
        ⟨.ok (), l.setPending false, s, [.unsettled l.mode.name number]⟩
  | busy (left number : Nat) (l : Layout) {s : σ} (unseen : host.look s = none) :
      Course host (left + 1) number l s []
        ⟨.ok (), l.setPending true, s, [.containerBusy l.mode.name]⟩
  | suspended (left number : Nat) (l : Layout) {s : σ} {v : View} (look : host.look s = some v)
      (suspended : v.suspended = true) :
      Course host (left + 1) number l s []
        ⟨.ok (), l.setPending true, s, [.containerSuspended l.mode.name]⟩
  | deferred (left number : Nat) (l : Layout) {s : σ} {v : View} (look : host.look s = some v)
      (opened : v.suspended = false) (reply : (l.handover host s v).commit.reply = .busy) :
      Course host (left + 1) number l s [l.handover host s v]
        ⟨.ok (), (l.answered host s v).setPending true, (l.handover host s v).commit.state,
          l.reports number v ++ [.commitDeferred l.mode.name]⟩
  | failed (left number : Nat) (l : Layout) {s : σ} {v : View} {e : CommitError}
      (look : host.look s = some v) (opened : v.suspended = false)
      (reply : (l.handover host s v).commit.reply = .failed e) :
      Course host (left + 1) number l s [l.handover host s v]
        ⟨.error (.commit e), l.answered host s v, (l.handover host s v).commit.state,
          l.reports number v ++ [.commitFailed l.mode.name e]⟩
  | settled (left number : Nat) (l : Layout) {s : σ} {v : View} (look : host.look s = some v)
      (opened : v.suspended = false) (reply : (l.handover host s v).commit.reply = .applied)
      (quiet : (l.handover host s v).commit.requests = []) :
      Course host (left + 1) number l s [l.handover host s v]
        ⟨.ok (), l.answered host s v, (l.handover host s v).commit.state, l.reports number v⟩
  | reopened {left number : Nat} {l : Layout} {s : σ} {v : View} {log : List (Handover σ)}
      {o : Outcome σ} (look : host.look s = some v) (opened : v.suspended = false)
      (reopens : (l.handover host s v).Reopens)
      (rest : Course host left (number + 1) (l.answered host s v)
        (l.handover host s v).commit.state log o) :
      Course host (left + 1) number l s (l.handover host s v :: log) (o.after (l.reports number v))

section Passes

variable (host : Host σ) (left number : Nat) (l : Layout) {s : σ} {v : View}

section Arranged

variable {m : Type → Type} [Monad m] (arrange : Arranger m)

theorem passesBy_busy (unseen : host.look s = none) :
    passesBy arrange host (left + 1) number l s =
      pure ⟨.ok (), l.setPending true, s, [.containerBusy l.mode.name]⟩ := by
  simp only [passesBy, unseen]
  rfl

theorem passesBy_suspended (look : host.look s = some v) (suspended : v.suspended = true) :
    passesBy arrange host (left + 1) number l s =
      pure ⟨.ok (), l.setPending true, s, [.containerSuspended l.mode.name]⟩ := by
  simp only [passesBy, look, if_pos suspended]
  rfl

/-- A pass that gets to hand over its batch, and what follows it. The arranger may do something
first, but gives what the mode gives. -/
theorem passesBy_open [LawfulMonad m] (first : m PUnit)
    (arranges : arrange l.mode l.settings v.children v.bounds (l.startsAfresh v.children) = do
      first
      return l.arrangement v)
    (look : host.look s = some v) (opened : v.suspended = false) :
    passesBy arrange host (left + 1) number l s = do
      first
      match (l.handover host s v).commit.reply with
      | .busy =>
        return ⟨.ok (), (l.answered host s v).setPending true, (l.handover host s v).commit.state,
          l.reports number v ++ [.commitDeferred l.mode.name]⟩
      | .failed e =>
        return ⟨.error (.commit e), l.answered host s v, (l.handover host s v).commit.state,
          l.reports number v ++ [.commitFailed l.mode.name e]⟩
      | .applied =>
        if (l.handover host s v).commit.requests = [] then
          return ⟨.ok (), l.answered host s v, (l.handover host s v).commit.state,
            l.reports number v⟩
        else
          return (← passesBy arrange host left (number + 1) (l.answered host s v)
            (l.handover host s v).commit.state).after (l.reports number v) := by
  have hp := l.answered_pending host s v
  rw [← l.answered_name host s v]
  simp only [passesBy, look, opened, Bool.false_eq_true, if_false]
  show arrange l.mode l.settings v.children v.bounds (l.startsAfresh v.children) >>= _ = _
  rw [arranges, bind_assoc]
  refine bind_congr fun _ => ?_
  rw [pure_bind]
  change (match (l.handover host s v).commit.reply with
    | .busy => (_ : m (Outcome σ))
    | .failed e => _
    | .applied => if (l.answered host s v).flags.pending = true then _ else _) = _
  cases (l.handover host s v).commit.reply with
  | busy => rfl
  | failed e => rfl
  | applied =>
    by_cases quiet : (l.handover host s v).commit.requests = []
    · rw [if_neg (by simp [hp, quiet]), if_pos quiet]
      rfl
    · rw [if_pos (by simp [hp, quiet]), if_neg quiet]
      rfl

end Arranged

theorem passes_busy (unseen : host.look s = none) :
    passes host (left + 1) number l s =
      ⟨.ok (), l.setPending true, s, [.containerBusy l.mode.name]⟩ :=
  passesBy_busy host left number l .plain unseen

theorem passes_suspended (look : host.look s = some v) (suspended : v.suspended = true) :
    passes host (left + 1) number l s =
      ⟨.ok (), l.setPending true, s, [.containerSuspended l.mode.name]⟩ :=
  passesBy_suspended host left number l .plain look suspended

theorem passes_open (look : host.look s = some v) (opened : v.suspended = false) :
    passes host (left + 1) number l s =
      match (l.handover host s v).commit.reply with
      | .busy => ⟨.ok (), (l.answered host s v).setPending true, (l.handover host s v).commit.state,
          l.reports number v ++ [.commitDeferred l.mode.name]⟩
      | .failed e => ⟨.error (.commit e), l.answered host s v, (l.handover host s v).commit.state,
          l.reports number v ++ [.commitFailed l.mode.name e]⟩
      | .applied =>
        if (l.handover host s v).commit.requests = [] then
          ⟨.ok (), l.answered host s v, (l.handover host s v).commit.state, l.reports number v⟩
        else
          (passes host left (number + 1) (l.answered host s v)
            (l.handover host s v).commit.state).after (l.reports number v) :=
  passesBy_open host left number l .plain (pure ()) rfl look opened

end Passes

/-- Every update takes a course. -/
theorem exists_course (host : Host σ) (left number : Nat) (l : Layout) (s : σ) :
    ∃ log, Course host left number l s log (passes host left number l s) := by
  induction left generalizing number l s with
  | zero => exact ⟨[], .out number l s⟩
  | succ left ih =>
    cases look : host.look s with
    | none =>
      rw [passes_busy host left number l look]
      exact ⟨_, .busy left number l look⟩
    | some v =>
      cases opened : v.suspended with
      | true =>
        rw [passes_suspended host left number l look opened]
        exact ⟨_, .suspended left number l look opened⟩
      | false =>
        rw [passes_open host left number l look opened]
        cases reply : (l.handover host s v).commit.reply with
        | busy => exact ⟨_, .deferred left number l look opened reply⟩
        | failed e => exact ⟨_, .failed left number l look opened reply⟩
        | applied =>
          by_cases quiet : (l.handover host s v).commit.requests = []
          · simp only [if_pos quiet]
            exact ⟨_, .settled left number l look opened reply quiet⟩
          · simp only [if_neg quiet]
            obtain ⟨log, rest⟩ := ih (number + 1) (l.answered host s v) _
            exact ⟨_, .reopened look opened ⟨reply, quiet⟩ rest⟩

theorem update_some (host : Host σ) (reset : Bool) (l : Layout) (s : σ) :
    l.update (some host) reset s =
      let o := passes host maxPasses 0 ((l.begun reset).setPerforming true) s
      { o with layout := o.layout.setPerforming false } := rfl

section Recorded

variable (l : Layout) (host : Host σ) (s : σ) (before : List (Handover σ)) (v : View)

theorem recorded_reply : (l.handover host.recorded (s, before) v).commit.reply =
    (l.handover host s v).commit.reply := rfl

theorem recorded_state : (l.handover host.recorded (s, before) v).commit.state =
    ((l.handover host s v).commit.state, before ++ [l.handover host s v]) := rfl

theorem recorded_answered : l.answered host.recorded (s, before) v = l.answered host s v := rfl

end Recorded

/-- A recording host does what the host behind it does, and its record is the course. -/
theorem Course.recorded {host : Host σ} {left number : Nat} {l : Layout} {s : σ}
    {log : List (Handover σ)} {o : Outcome σ} (course : Course host left number l s log o)
    (before : List (Handover σ)) :
    passes host.recorded left number l (s, before) =
      ⟨o.result, o.layout, (o.state, before ++ log), o.events⟩ := by
  induction course generalizing before with
  | out number l s => rw [passes_zero, List.append_nil]
  | @busy left number l s unseen =>
    rw [passes_busy (s := (s, before)) host.recorded left number l unseen, List.append_nil]
  | @suspended left number l s v look suspended =>
    rw [passes_suspended (s := (s, before)) host.recorded left number l look suspended,
      List.append_nil]
  | @deferred left number l s v look opened reply =>
    rw [passes_open (s := (s, before)) host.recorded left number l look opened, recorded_reply]
    simp only [reply, recorded_state, recorded_answered]
  | @failed left number l s v e look opened reply =>
    rw [passes_open (s := (s, before)) host.recorded left number l look opened, recorded_reply]
    simp only [reply, recorded_state, recorded_answered]
  | @settled left number l s v look opened reply quiet =>
    rw [passes_open (s := (s, before)) host.recorded left number l look opened, recorded_reply]
    simp only [reply]
    exact if_pos quiet
  | @reopened left number l s v log o look opened reopens rest ih =>
    rw [passes_open (s := (s, before)) host.recorded left number l look opened, recorded_reply]
    simp only [reopens.1]
    refine (if_neg reopens.2).trans ?_
    rw [recorded_state, recorded_answered, ih, List.append_assoc, List.singleton_append,
      Outcome.after, Outcome.after]

/-- An update over a host and over its recording follow one course. -/
theorem exists_recorded (host : Host σ) (reset : Bool) (l : Layout) (s : σ) :
    ∃ log o, Course host maxPasses 0 ((l.begun reset).setPerforming true) s log o ∧
      l.update (some host) reset s = { o with layout := o.layout.setPerforming false } ∧
      l.update (some host.recorded) reset (s, []) =
        ⟨o.result, o.layout.setPerforming false, (o.state, log), o.events⟩ := by
  obtain ⟨log, course⟩ :=
    exists_course host maxPasses 0 ((l.begun reset).setPerforming true) s
  refine ⟨log, _, course, rfl, ?_⟩
  rw [update_some, course.recorded]
  rfl

end Layout

end PixelLayout
