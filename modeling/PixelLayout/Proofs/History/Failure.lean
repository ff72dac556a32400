import PixelLayout.Offscreen.Session
import PixelLayout.Proofs.History.Retry

/-!
# Changes that fail

A change can fail in two ways. It is refused, and then nothing happened at all: the layout and the
container are what they were, nothing was handed over and nothing reported. Or it is made, and the
update that follows it fails at a commit; then the layout is what it would be had that commit gone
through, so the setting has its new value all the same.
-/

set_option autoImplicit false

namespace PixelLayout

variable {σ : Type}

namespace Layout

section Forgiven

variable {host : Host σ} {left number : Nat} {l : Layout} {s : σ} {log : List (Handover σ)}
  {o : Outcome σ}

theorem Course.isCommit (course : Course host left number l s log o) {e : LayoutError}
    (failed : o.result = .error e) : e.isCommit = true := by
  induction course with
  | out | busy | suspended | deferred | settled => cases failed
  | failed =>
    cases failed
    rfl
  | reopened look opened reopens rest ih => exact ih failed

theorem isCommit_of_update (host : Option (Host σ)) (reset : Bool) (l : Layout) (s : σ)
    {e : LayoutError} (failed : (l.update host reset s).result = .error e) :
    e.isCommit = true := by
  cases host with
  | none => cases failed
  | some host =>
    obtain ⟨log, course⟩ :=
      exists_course host maxPasses 0 ((l.begun reset).setPerforming true) s
    exact course.isCommit failed

end Forgiven

/-- A call that fails was refused, or the change was made and the update that followed failed. -/
theorem apply_failed {host : Option (Host σ)} {c : Change} {l : Layout} {s : σ} {e : LayoutError}
    (failed : (l.apply host c s).result = .error e) :
    (∃ cause, e = .parameter cause ∧
      l.revise host.isSome (host.bind (·.look s)) c = .error cause) ∨
    ∃ h l' events, host = some h ∧ l.revise true (h.look s) c = .ok (some (l', events)) ∧
      (l'.forget.update (some h) false s).result = .error e := by
  cases revise : l.revise host.isSome (host.bind (·.look s)) c with
  | error cause =>
    rw [apply_refused host s revise] at failed
    exact .inl ⟨cause, (Except.error.inj failed).symm, rfl⟩
  | ok revision =>
    cases revision with
    | none =>
      rw [apply_idle host s revise] at failed
      cases failed
    | some made =>
      obtain ⟨l', events⟩ := made
      cases host with
      | none =>
        rw [apply_alone s revise] at failed
        cases failed
      | some h =>
        rw [apply_made h s revise] at failed
        exact .inr ⟨h, l', events, rfl, revise, failed⟩

section Columns

open Offscreen

end Columns

end Layout

namespace Offscreen.World

theorem setLayout_self {w : World} {i : Nat} {slot : Slot} (h : w.slot? i = some slot) :
    w.setLayout i slot.layout = w := by
  have there : w.slots[i]? = some (some slot) := Option.join_eq_some_iff.mp h
  obtain ⟨lt, at_i⟩ := List.getElem?_eq_some_iff.mp there
  simp only [setLayout, h, setSlot]
  rw [show (some { slot with layout := slot.layout }) = w.slots[i] from at_i.symm,
    List.set_getElem_self]

theorem error_of_finished {step : Step} {a : Answer} {o : Outcome World} {e : LayoutError}
    (made : ∀ e, a ≠ .refused e) (refused : (finished step a o).answer = .refused e) :
    o.result = .error e := by
  unfold finished at refused
  cases result : o.result with
  | ok => exact absurd (by simpa [result] using refused) (made e)
  | error e' =>
    simp only [result] at refused
    exact congrArg _ (Answer.refused.inj refused)

/-- A call that is refused is a change. -/
theorem call_refused {w : World} {step : Step} {slot : Slot} (h : w.slot? step.layout = some slot)
    {c : Call} {e : ParameterError}
    (refused : (w.call step slot c).answer = .refused (.parameter e)) :
    w.call step slot c = ⟨.refused (.parameter e), [], w⟩ := by
  have query (mode : Mode) (settings : Settings) (view : Option View) (e : LayoutError) :
      Answer.ofQuery mode settings view c ≠ .refused e := by
    unfold Answer.ofQuery
    split <;> nofun
  cases c with
  | update reset =>
    have commit := Layout.isCommit_of_update _ _ _ _ (error_of_finished (by nofun) refused)
    cases commit
  | change c =>
    simp only [call] at refused ⊢
    by_cases applies : c.appliesTo slot.layout.mode
    · rw [if_pos applies] at refused ⊢
      have made (view : Option View) : ∀ e, Answer.ofChange slot.layout view c ≠ .refused e := by
        cases c <;> nofun
      rcases Layout.apply_failed (error_of_finished (made _) refused) with
        ⟨cause, same, revise⟩ | ⟨host, l', events, -, -, update⟩
      · cases same
        rw [Layout.apply_refused _ _ revise]
        show (⟨_, _, w.setLayout step.layout slot.layout⟩ : Record) = _
        rw [setLayout_self h]
      · have commit := Layout.isCommit_of_update _ _ _ _ update
        cases commit
    · rw [if_neg applies] at refused
      cases refused
  | attach =>
    simp only [call, attach] at refused
    split at refused <;> cases refused
  | requestRelayout times =>
    simp only [call, requestRelayout] at refused
    split at refused <;> cases refused
  | clampHandle handle position =>
    simp only [call] at refused
    split at refused <;> cases refused
  | detach | requestUpdate | flags | minSize | minSizeFor => cases refused
  | _ => exact absurd refused (query _ _ _ _)

/-- A step of a session whose change is refused leaves all containers and layouts as they are. -/
theorem perform_refused {w : World} {step : Step} {e : ParameterError}
    (refused : (w.perform step).answer = .refused (.parameter e)) :
    w.perform step = ⟨.refused (.parameter e), [], w⟩ := by
  unfold perform at refused ⊢
  cases task : step.task with
  | act a =>
    simp only [task, act] at refused
    split at refused
    · cases refused
    · split at refused <;> cases refused
  | dropContainer =>
    simp only [task] at refused
    cases refused
  | call c =>
    simp only [task] at refused ⊢
    cases slot : w.slot? step.layout with
    | none =>
      simp only [slot] at refused
      cases refused
    | some s =>
      simp only [slot] at refused ⊢
      exact call_refused slot refused

end Offscreen.World

end PixelLayout
