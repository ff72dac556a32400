import PixelLayout.Proofs.Update.Course

/-!
# How an update ends

Every batch but the last was applied and followed by a request for a further pass. After the last
one there are five ways to end: it was applied and nothing was asked for; it failed; the container
did not take it; the pass behind it found the container in use or suspended; or the passes ran
out. The result, the flags and the warnings of an update are those of its way to end.
-/

set_option autoImplicit false

namespace PixelLayout

variable {σ : Type}

def Outcome.warnings (o : Outcome σ) : List Event := o.events.filter (·.isWarning)

def Event.passNumber? : Event → Option Nat
  | pass _ number _ _ => some number
  | _ => none

/-- The ways to end for an update of a layout of the given mode, of which at most `left` passes
may run; the last of these has the number before `limit`. -/
inductive Ending (host : Host σ) (mode : String) (left limit : Nat) (log : List (Handover σ))
    (o : Outcome σ) : Prop where
  | settled (h : Handover σ) (last : log.getLast? = some h) (applied : h.commit.reply = .applied)
      (quiet : h.commit.requests = []) (ok : o.result = .ok ())
      (idle : o.layout.flags.pending = false) (warnings : o.warnings = [])
  | failed (h : Handover σ) (e : CommitError) (last : log.getLast? = some h)
      (failed : h.commit.reply = .failed e) (error : o.result = .error (.commit e))
      (warnings : o.warnings = [.commitFailed mode e])
  | deferred (h : Handover σ) (last : log.getLast? = some h) (busy : h.commit.reply = .busy)
      (ok : o.result = .ok ()) (pending : o.layout.flags.pending = true)
      (warnings : o.warnings = [])
  | shut (early : log.length < left) (reopened : ∀ h ∈ log, h.Reopens) (shut : host.Shut o.state)
      (ok : o.result = .ok ()) (pending : o.layout.flags.pending = true)
      (warnings : o.warnings = [])
  | unsettled (all : log.length = left) (reopened : ∀ h ∈ log, h.Reopens) (ok : o.result = .ok ())
      (idle : o.layout.flags.pending = false) (warnings : o.warnings = [.unsettled mode limit])

namespace Layout

def Successive (host : Host σ) : Layout → σ → List (Handover σ) → Prop
  | _, _, [] => True
  | l, s, h :: rest =>
    ∃ v, host.look s = some v ∧ v.suspended = false ∧ h = l.handover host s v ∧
      Successive host (l.answered host s v) h.commit.state rest

section Reports

variable (l : Layout) (number : Nat) (v : View)

theorem arrangement_quiet :
    ∀ e ∈ (l.arrangement v).events, e.isWarning = false ∧ e.passNumber? = none := by
  unfold arrangement
  cases l.mode with
  | splitter s =>
    simp only [Mode.arrange_def]
    split
    · simp
    · simp [Event.isWarning, Event.passNumber?]
  | _ => simp [Mode.arrange_def]

theorem reports_warnings : (l.reports number v).filter (·.isWarning) = [] := by
  rw [List.filter_eq_nil_iff, reports, List.forall_mem_cons]
  refine ⟨by simp [Event.isWarning], fun e he => ?_⟩
  simp [(l.arrangement_quiet v e he).1]

theorem reports_passNumber : (l.reports number v).filterMap Event.passNumber? = [number] := by
  have h : (l.arrangement v).events.filterMap Event.passNumber? = [] :=
    List.filterMap_eq_nil_iff.mpr fun e he => (l.arrangement_quiet v e he).2
  simp [reports, Event.passNumber?, h]

end Reports

theorem reports_warnings_append (l : Layout) (number : Nat) (v : View) (events : List Event) :
    (l.reports number v ++ events).filter (·.isWarning) = events.filter (·.isWarning) := by
  rw [List.filter_append, reports_warnings, List.nil_append]

namespace Course

variable {host : Host σ} {left number : Nat} {l : Layout} {s : σ} {log : List (Handover σ)}
  {o : Outcome σ}

theorem getLast?_cons_of_some {α : Type} {a b : α} {l : List α} (h : l.getLast? = some b) :
    (a :: l).getLast? = some b := by
  rw [List.getLast?_cons, h, Option.getD_some]

theorem successive (course : Course host left number l s log o) : Successive host l s log := by
  induction course with
  | out | busy | suspended => trivial
  | deferred _ _ _ look opened | failed _ _ _ look opened | settled _ _ _ look opened =>
    exact ⟨_, look, opened, rfl, trivial⟩
  | reopened look opened _ _ ih => exact ⟨_, look, opened, rfl, ih⟩

theorem reopened_dropLast (course : Course host left number l s log o) :
    ∀ h ∈ log.dropLast, h.Reopens := by
  induction course with
  | @reopened _ _ _ _ _ log _ _ _ reopens rest ih =>
    cases log with
    | nil => simp
    | cons h log => exact List.forall_mem_cons.mpr ⟨reopens, ih⟩
  | _ => simp

theorem passNumbers (course : Course host left number l s log o) :
    o.events.filterMap Event.passNumber? = List.range' number log.length := by
  induction course with
  | reopened _ _ _ _ ih =>
    simp only [Outcome.after, List.filterMap_append, reports_passNumber, ih]
    rfl
  | out | busy | suspended => rfl
  | deferred | failed | settled => simp [reports_passNumber, Event.passNumber?]

theorem performing (course : Course host left number l s log o) :
    ∀ h ∈ log, h.flags.performing = l.flags.performing := by
  induction course with
  | reopened _ _ _ _ ih =>
    rw [answered_performing] at ih
    exact List.forall_mem_cons.mpr ⟨rfl, ih⟩
  | out | busy | suspended => simp
  | deferred | failed | settled =>
    intro h hh
    rw [List.mem_singleton.mp hh]
    rfl

theorem ending (course : Course host left number l s log o) :
    Ending host l.mode.name left (number + left) log o := by
  induction course with
  | out number l s => exact .unsettled rfl (by simp) rfl rfl rfl
  | busy left number l unseen =>
    exact .shut (by simp) (by simp) (by simp [Host.Shut, unseen]) rfl rfl rfl
  | suspended left number l look suspended =>
    exact .shut (by simp) (by simp) (by simpa [Host.Shut, look] using suspended) rfl rfl rfl
  | deferred left number l look opened reply =>
    exact .deferred _ rfl reply rfl rfl (reports_warnings_append _ _ _ _)
  | failed left number l look opened reply =>
    exact .failed _ _ rfl reply rfl (reports_warnings_append _ _ _ _)
  | settled left number l look opened reply quiet =>
    refine .settled _ rfl reply quiet rfl ?_ (reports_warnings _ _ _)
    simp [answered_pending, quiet]
  | @reopened left number l s v log o look opened reopens rest ih =>
    have hw : (o.after (l.reports number v)).warnings = o.warnings :=
      reports_warnings_append _ _ _ _
    rw [answered_name, Nat.add_right_comm] at ih
    cases ih with
    | settled h last applied quiet ok idle warnings =>
      exact .settled h (getLast?_cons_of_some last) applied quiet ok idle (hw.trans warnings)
    | failed h e last failed error warnings =>
      exact .failed h e (getLast?_cons_of_some last) failed error (hw.trans warnings)
    | deferred h last busy ok pending warnings =>
      exact .deferred h (getLast?_cons_of_some last) busy ok pending (hw.trans warnings)
    | shut early reopened shut ok pending warnings =>
      exact .shut (Nat.succ_lt_succ early) (List.forall_mem_cons.mpr ⟨reopens, reopened⟩) shut ok
        pending (hw.trans warnings)
    | unsettled all reopened ok idle warnings =>
      exact .unsettled (congrArg (· + 1) all) (List.forall_mem_cons.mpr ⟨reopens, reopened⟩) ok
        idle (hw.trans warnings)

end Course

end Layout

namespace Ending

variable {host : Host σ} {mode : String} {left limit : Nat} {log : List (Handover σ)}
  {o : Outcome σ}

theorem unfailed_of_reopened (reopened : ∀ h ∈ log, h.Reopens) :
    ¬ ∃ h ∈ log, ∃ e, h.commit.reply = .failed e := by
  rintro ⟨h, hh, e, he⟩
  rw [(reopened h hh).1] at he
  cases he

/-- Nothing is handed over behind a commit that failed. -/
theorem eq_last_of_failed (before : ∀ h ∈ log.dropLast, h.Reopens) {a h : Handover σ}
    (last : log.getLast? = some a) (hh : h ∈ log) {e : CommitError}
    (failed : h.commit.reply = .failed e) : h = a := by
  obtain ⟨front, rfl⟩ := List.getLast?_eq_some_iff.mp last
  rw [List.dropLast_concat] at before
  rcases List.mem_append.mp hh with hh | hh
  · exact absurd ⟨h, hh, e, failed⟩ (unfailed_of_reopened before)
  · exact List.mem_singleton.mp hh

theorem unfailed_of_last (before : ∀ h ∈ log.dropLast, h.Reopens) {a : Handover σ}
    (last : log.getLast? = some a) (ha : ∀ e, a.commit.reply ≠ .failed e) :
    ¬ ∃ h ∈ log, ∃ e, h.commit.reply = .failed e := by
  rintro ⟨h, hh, e, failed⟩
  exact ha e (eq_last_of_failed before last hh failed ▸ failed)

theorem not_reopened_of_last {a : Handover σ} (last : log.getLast? = some a)
    (ha : ¬ a.Reopens) : ¬ ∀ h ∈ log, h.Reopens := fun reopened =>
  ha (reopened a (List.mem_of_getLast? last))

/-- Only a failed commit is an error. -/
theorem error_iff (ending : Ending host mode left limit log o)
    (before : ∀ h ∈ log.dropLast, h.Reopens) :
    (∃ e, o.result = .error e) ↔ ∃ h ∈ log, ∃ e, h.commit.reply = .failed e := by
  cases ending with
  | failed a e last failed error =>
    exact iff_of_true ⟨_, error⟩ ⟨a, List.mem_of_getLast? last, e, failed⟩
  | settled a last applied quiet ok =>
    exact iff_of_false (by simp [ok]) (unfailed_of_last before last (by simp [applied]))
  | deferred a last busy ok =>
    exact iff_of_false (by simp [ok]) (unfailed_of_last before last (by simp [busy]))
  | shut early reopened shut ok | unsettled all reopened ok =>
    exact iff_of_false (by simp [ok]) (unfailed_of_reopened reopened)

theorem applied_of_idle (ending : Ending host mode left limit log o) (hleft : 0 < left)
    (ok : o.result = .ok ()) (idle : o.layout.flags.pending = false) :
    ∃ h, log.getLast? = some h ∧ h.commit.reply = .applied := by
  cases ending with
  | settled h last applied => exact ⟨h, last, applied⟩
  | failed h e last failed error => simp [error] at ok
  | deferred h last busy _ pending => simp [pending] at idle
  | shut early reopened shut _ pending => simp [pending] at idle
  | unsettled all reopened =>
    obtain ⟨h, hh⟩ := List.getLast?_isSome.mpr (List.length_pos_iff.mp (all ▸ hleft)) |>
      Option.isSome_iff_exists.mp
    exact ⟨h, hh, (reopened h (List.mem_of_getLast? hh)).1⟩

theorem unavailable_of_pending (ending : Ending host mode left limit log o)
    (ok : o.result = .ok ()) (pending : o.layout.flags.pending = true) :
    (∃ h, log.getLast? = some h ∧ h.commit.reply = .busy) ∨
      log.length < left ∧ host.Shut o.state := by
  cases ending with
  | settled h last applied quiet _ idle => simp [idle] at pending
  | failed h e last failed error => simp [error] at ok
  | deferred h last busy => exact .inl ⟨h, last, busy⟩
  | shut early reopened shut => exact .inr ⟨early, shut⟩
  | unsettled all reopened _ idle => simp [idle] at pending

/-- An update warns of a commit that failed, and of requests that do not end. -/
theorem mem_warnings_iff (ending : Ending host mode left limit log o)
    (before : ∀ h ∈ log.dropLast, h.Reopens) (w : Event) :
    w ∈ o.warnings ↔
      (∃ h ∈ log, ∃ e, h.commit.reply = .failed e ∧ w = .commitFailed mode e) ∨
      (log.length = left ∧ (∀ h ∈ log, h.Reopens) ∧ w = .unsettled mode limit) := by
  have unwarned (quiet : ¬ ∃ h ∈ log, ∃ e, h.commit.reply = .failed e)
      (short : ¬ (log.length = left ∧ ∀ h ∈ log, h.Reopens)) (none : o.warnings = []) :
      w ∈ o.warnings ↔
        (∃ h ∈ log, ∃ e, h.commit.reply = .failed e ∧ w = .commitFailed mode e) ∨
        (log.length = left ∧ (∀ h ∈ log, h.Reopens) ∧ w = .unsettled mode limit) := by
    refine iff_of_false (by simp [none]) ?_
    rintro (⟨h, hh, e, failed, -⟩ | ⟨all, reopened, -⟩)
    · exact quiet ⟨h, hh, e, failed⟩
    · exact short ⟨all, reopened⟩
  cases ending with
  | settled a last applied quiet _ _ warnings =>
    exact unwarned (unfailed_of_last before last (by simp [applied]))
      (fun h => not_reopened_of_last last (fun ha => ha.2 quiet) h.2) warnings
  | deferred a last busy _ _ warnings =>
    refine unwarned (unfailed_of_last before last (by simp [busy])) (fun h => ?_) warnings
    exact not_reopened_of_last last (fun ha => by simp [ha.1] at busy) h.2
  | shut early reopened _ _ _ warnings =>
    exact unwarned (unfailed_of_reopened reopened) (fun h => Nat.ne_of_lt early h.1) warnings
  | failed a e last failed _ warnings =>
    rw [warnings, List.mem_singleton]
    constructor
    · rintro rfl
      exact .inl ⟨a, List.mem_of_getLast? last, e, failed, rfl⟩
    · rintro (⟨h, hh, e', failed', rfl⟩ | ⟨-, reopened, -⟩)
      · rw [eq_last_of_failed before last hh failed', failed] at failed'
        cases failed'
        rfl
      · exact absurd reopened (not_reopened_of_last last fun ha => by simp [ha.1] at failed)
  | unsettled all reopened _ _ warnings =>
    rw [warnings, List.mem_singleton]
    constructor
    · rintro rfl
      exact .inr ⟨all, reopened, rfl⟩
    · rintro (⟨h, hh, e, failed, -⟩ | ⟨-, -, rfl⟩)
      · exact absurd ⟨h, hh, e, failed⟩ (unfailed_of_reopened reopened)
      · rfl

/-- The mark of a running update has no part in how it ends. -/
theorem release (ending : Ending host mode left limit log o) :
    Ending host mode left limit log { o with layout := o.layout.setPerforming false } := by
  cases ending with
  | settled h last applied quiet ok idle warnings =>
    exact .settled h last applied quiet ok idle warnings
  | failed h e last failed error warnings => exact .failed h e last failed error warnings
  | deferred h last busy ok pending warnings => exact .deferred h last busy ok pending warnings
  | shut early reopened shut ok pending warnings =>
    exact .shut early reopened shut ok pending warnings
  | unsettled all reopened ok idle warnings => exact .unsettled all reopened ok idle warnings

theorem warnings_length_le (ending : Ending host mode left limit log o) :
    o.warnings.length ≤ 1 := by
  cases ending with
  | settled _ _ _ _ _ _ warnings | failed _ _ _ _ _ warnings | deferred _ _ _ _ _ warnings
  | shut _ _ _ _ _ warnings | unsettled _ _ _ _ warnings => simp [warnings]

end Ending

structure UpdateProtocol (host : Host σ) (l : Layout) (s : σ) (log : List (Handover σ))
    (o : Outcome σ) : Prop where
  successive : l.Successive host s log
  computed : o.events.filterMap Event.passNumber? = List.range log.length
  reopened : ∀ h ∈ log.dropLast, h.Reopens
  ending : Ending host l.mode.name maxPasses maxPasses log o
  performing : ∀ h ∈ log, h.flags.performing = true
  released : o.layout.flags.performing = false
  error_iff : (∃ e, o.result = .error e) ↔ ∃ h ∈ log, ∃ e, h.commit.reply = .failed e
  committed : o.result = .ok () → o.layout.flags.pending = false →
    ∃ h, log.getLast? = some h ∧ h.commit.reply = .applied
  unavailable : o.result = .ok () → o.layout.flags.pending = true →
    (∃ h, log.getLast? = some h ∧ h.commit.reply = .busy) ∨
      log.length < maxPasses ∧ host.Shut o.state
  warned : ∀ w, w ∈ o.warnings ↔
    (∃ h ∈ log, ∃ e, h.commit.reply = .failed e ∧ w = .commitFailed l.mode.name e) ∨
    (log.length = maxPasses ∧ (∀ h ∈ log, h.Reopens) ∧ w = .unsettled l.mode.name maxPasses)
  warned_once : o.warnings.length ≤ 1

/-- An update keeps to the protocol towards any container, and a recording host, which it treats
no differently, is handed the batches that the protocol is about. -/
theorem update_protocol (host : Host σ) (reset : Bool) (l : Layout) (s : σ) :
    let o := l.update (some host) reset s
    ∃ log, l.update (some host.recorded) reset (s, []) =
        ⟨o.result, o.layout, (o.state, log), o.events⟩ ∧
      UpdateProtocol host ((l.begun reset).setPerforming true) s log o := by
  intro o
  obtain ⟨log, course⟩ :=
    Layout.exists_course host maxPasses 0 ((l.begun reset).setPerforming true) s
  have before := course.reopened_dropLast
  have ending : Ending host l.mode.name maxPasses maxPasses log o := course.ending.release
  refine ⟨log, ?_, ?_⟩
  · rw [Layout.update_some, course.recorded]
    rfl
  · exact {
      successive := course.successive
      computed := course.passNumbers.trans (List.range_eq_range' ..).symm
      reopened := before
      ending
      performing := course.performing
      released := rfl
      error_iff := ending.error_iff before
      committed := ending.applied_of_idle (by decide)
      unavailable := ending.unavailable_of_pending
      warned := ending.mem_warnings_iff before
      warned_once := ending.warnings_length_le }

end PixelLayout
