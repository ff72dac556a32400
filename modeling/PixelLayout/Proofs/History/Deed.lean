import PixelLayout.Proofs.History.Revision
import PixelLayout.Proofs.Update.Course

/-!
# Histories of a layout

Whatever is done with a layout comes down to a few kinds of deeds: it is given a container or loses
it, a further pass is asked for, an update begins, the marks of a running and of a pending pass are
set, a pass goes over a view, a change is asked for, a least size is asked for. A history lists
them with the latest first. Every update and every change on any container, however that behaves,
leads to a layout that such a history leads to. So what every history keeps holds at all times.
-/

set_option autoImplicit false

namespace PixelLayout

inductive Deed where
  | attach
  | detach
  | request (reset : Bool)
  | start (reset : Bool)
  | mark (performing pending : Bool)
  | pass (v : View)
  | change (attached : Bool) (view : Option View) (c : Change)
  | query (view : Option View) (size : Size)

def Deed.ofUpdate : Deed → Bool
  | request _ | start _ | mark _ _ | pass _ => true
  | attach | detach | change _ _ _ | query _ _ => false

namespace Layout

def undergo (l : Layout) : Deed → Layout
  -- A pass finds the memo dropped, and so does what follows an accepted change.
  | .attach => l.attach
  | .detach => l.detach
  | .request reset => l.request reset
  | .start reset => l.begun reset
  | .mark performing pending => { l with flags := { l.flags with performing, pending } }
  | .pass v => l.forget.passed v
  | .change attached view c => ((l.revised? attached view c).map forget).getD l
  | .query view size => (l.minSizeFor view size).2

def after (l : Layout) : List Deed → Layout
  | [] => l
  | d :: ds => (l.after ds).undergo d

theorem after_append (l : Layout) (ds ds' : List Deed) :
    l.after (ds ++ ds') = (l.after ds').after ds := by
  induction ds with
  | nil => rfl
  | cons d ds ih => exact congrArg (·.undergo d) ih

theorem after_requests (l : Layout) (rs : List Bool) :
    l.after (rs.reverse.map .request) = rs.foldl request l := by
  induction rs generalizing l with
  | nil => rfl
  | cons r rs ih =>
    rw [List.reverse_cons, List.map_append, after_append]
    exact ih _

/-- What every deed keeps holds after every history. -/
theorem after_induction {P : Layout → Prop} (step : ∀ l d, P l → P (l.undergo d)) {l : Layout}
    (h : P l) (ds : List Deed) : P (l.after ds) := by
  induction ds with
  | nil => exact h
  | cons d ds ih => exact step _ d ih

/-- An update can take the first layout to the second one. -/
def Leads (l l' : Layout) : Prop := ∃ ds : List Deed, (∀ d ∈ ds, d.ofUpdate) ∧ l' = l.after ds

namespace Leads

variable {l l' l'' : Layout}

theorem refl (l : Layout) : Leads l l := ⟨[], by simp, rfl⟩

theorem trans (h : Leads l l') (h' : Leads l' l'') : Leads l l'' := by
  obtain ⟨ds, hds, rfl⟩ := h
  obtain ⟨ds', hds', rfl⟩ := h'
  refine ⟨ds' ++ ds, fun d hd => ?_, (after_append _ _ _).symm⟩
  exact (List.mem_append.mp hd).elim (hds' d) (hds d)

theorem deed (l : Layout) (d : Deed) (hd : d.ofUpdate = true) : Leads l (l.undergo d) :=
  ⟨[d], by simpa using hd, rfl⟩

theorem setPending (l : Layout) (pending : Bool) : Leads l (l.setPending pending) :=
  deed l (.mark l.flags.performing pending) rfl

theorem setPerforming (l : Layout) (performing : Bool) : Leads l (l.setPerforming performing) :=
  deed l (.mark performing l.flags.pending) rfl

theorem requests (l : Layout) (rs : List Bool) : Leads l (rs.foldl request l) := by
  refine ⟨rs.reverse.map .request, fun d hd => ?_, (after_requests l rs).symm⟩
  obtain ⟨r, -, rfl⟩ := List.mem_map.mp hd
  rfl

end Leads

theorem foldl_request_memo (l : Layout) (rs : List Bool) : (rs.foldl request l).memo = l.memo := by
  rw [foldl_request]

variable {σ : Type} {host : Host σ} {left number : Nat} {l : Layout} {s : σ}
  {log : List (Handover σ)} {o : Outcome σ}

theorem answered_memo (l : Layout) (host : Host σ) (s : σ) (v : View) :
    (l.answered host s v).memo = l.memo := foldl_request_memo _ _

/-- A pass that finds the memo dropped, up to the end of its handover. -/
theorem leads_answered (forgotten : l.memo = []) (host : Host σ) (s : σ) (v : View) :
    Leads l (l.answered host s v) := by
  have hl : l.forget = l := by
    rw [forget, ← forgotten]
  have pass : Leads l (l.forget.passed v) := .deed l (.pass v) rfl
  rw [hl] at pass
  exact pass.trans (.requests _ _)

theorem Course.leads (course : Course host left number l s log o) (forgotten : l.memo = []) :
    Leads l o.layout := by
  induction course with
  | out number l s => exact .setPending l false
  | busy left number l | suspended left number l => exact .setPending l true
  | deferred left number l => exact (leads_answered forgotten _ _ _).trans (.setPending _ true)
  | failed left number l | settled left number l => exact leads_answered forgotten _ _ _
  | reopened look opened reopens rest ih =>
    exact (leads_answered forgotten _ _ _).trans (ih ((answered_memo _ _ _ _).trans forgotten))

theorem leads_begun (l : Layout) (reset : Bool) :
    Leads l ((l.begun reset).setPerforming true) :=
  (Leads.deed l (.start reset) rfl).trans (.setPerforming _ true)

theorem leads_update (host : Option (Host σ)) (reset : Bool) (l : Layout) (s : σ) :
    Leads l (l.update host reset s).layout := by
  cases host with
  | none => exact .deed l (.start reset) rfl
  | some host =>
    obtain ⟨log, course⟩ :=
      exists_course host maxPasses 0 ((l.begun reset).setPerforming true) s
    rw [update_some]
    exact (leads_begun l reset).trans ((course.leads rfl).trans (.setPerforming _ false))

section Apply

variable {c : Change} {l l' : Layout} {events : List Event}

section Arranged

variable {m : Type → Type} [Monad m] (arrange : Arranger m)

/-- A change that is refused, or finds the setting as it asks for, leaves everything as it is. -/
theorem applyBy_eq (host : Option (Host σ)) (s : σ) :
    applyBy arrange host c l s =
      match l.revise host.isSome (host.bind (·.look s)) c with
      | .error e => return ⟨.error (.parameter e), l, s, []⟩
      | .ok none => return ⟨.ok (), l, s, []⟩
      | .ok (some (l', events)) =>
        if host.isSome then return (← updateBy arrange host false l'.forget s).after events
        else return ⟨.ok (), l'.forget, s, events⟩ := by
  have atomic := c.steps_atomic host.isSome (host.bind (·.look s))
  cases revise : l.revise host.isSome (host.bind (·.look s)) c with
  | error e => rw [applyBy, atomic.run_refused revise]
  | ok revision =>
    cases revision with
    | none => rw [applyBy, atomic.run_idle revise]
    | some made => rw [applyBy, Setter.run_of_outcome revise]

theorem applyBy_of_none (host : Option (Host σ)) (s : σ)
    (h : l.revised? host.isSome (host.bind (·.look s)) c = none) :
    applyBy arrange host c l s =
      pure ⟨((l.revise host.isSome (host.bind (·.look s)) c).mapError .parameter).map fun _ => (),
        l, s, []⟩ := by
  unfold revised? at h
  rw [applyBy_eq]
  cases revise : l.revise host.isSome (host.bind (·.look s)) c with
  | error e => rfl
  | ok revision =>
    cases revision with
    | none => rfl
    | some made => simp [revise] at h

theorem applyBy_alone (s : σ) (h : l.revise false none c = .ok (some (l', events))) :
    applyBy arrange (none : Option (Host σ)) c l s = pure ⟨.ok (), l'.forget, s, events⟩ := by
  have revise : l.revise (none : Option (Host σ)).isSome
      ((none : Option (Host σ)).bind (·.look s)) c = .ok (some (l', events)) := h
  rw [applyBy_eq, revise]
  rfl

theorem applyBy_made (host : Host σ) (s : σ)
    (h : l.revise true (host.look s) c = .ok (some (l', events))) :
    applyBy arrange (some host) c l s =
      return (← updateBy arrange (some host) false l'.forget s).after events := by
  have revise : l.revise (some host).isSome ((some host).bind (·.look s)) c =
      .ok (some (l', events)) := h
  rw [applyBy_eq, revise]
  rfl

end Arranged

theorem apply_refused (host : Option (Host σ)) (s : σ) {e : ParameterError}
    (h : l.revise host.isSome (host.bind (·.look s)) c = .error e) :
    l.apply host c s = ⟨.error (.parameter e), l, s, []⟩ := by
  rw [apply, applyBy_eq, h]
  rfl

theorem apply_idle (host : Option (Host σ)) (s : σ)
    (h : l.revise host.isSome (host.bind (·.look s)) c = .ok none) :
    l.apply host c s = ⟨.ok (), l, s, []⟩ := by
  rw [apply, applyBy_eq, h]
  rfl

theorem apply_alone (s : σ) (h : l.revise false none c = .ok (some (l', events))) :
    l.apply (none : Option (Host σ)) c s = ⟨.ok (), l'.forget, s, events⟩ :=
  applyBy_alone .plain s h

theorem apply_made (host : Host σ) (s : σ)
    (h : l.revise true (host.look s) c = .ok (some (l', events))) :
    l.apply (some host) c s = (l'.forget.update (some host) false s).after events :=
  applyBy_made .plain host s h

theorem apply_of_none (host : Option (Host σ)) (s : σ)
    (h : l.revised? host.isSome (host.bind (·.look s)) c = none) :
    l.apply host c s =
      ⟨((l.revise host.isSome (host.bind (·.look s)) c).mapError .parameter).map fun _ => (),
        l, s, []⟩ :=
  applyBy_of_none .plain host s h

end Apply

/-- A change with the update that follows it. -/
theorem leads_apply (host : Option (Host σ)) (c : Change) (l : Layout) (s : σ) :
    Leads (l.undergo (.change host.isSome (host.bind (·.look s)) c))
      (l.apply host c s).layout := by
  simp only [undergo]
  cases made : l.revised? host.isSome (host.bind (·.look s)) c with
  | none =>
    rw [apply_of_none host s made]
    exact .refl l
  | some l' =>
    obtain ⟨events, revise⟩ := revise_of_revised? made
    cases host with
    | none =>
      rw [apply_alone s revise]
      exact .refl _
    | some host =>
      rw [apply_made host s revise]
      exact leads_update _ _ _ _

theorem exists_apply (host : Option (Host σ)) (c : Change) (l : Layout) (s : σ) :
    ∃ ds, (l.apply host c s).layout = l.after ds := by
  obtain ⟨ds, -, layout⟩ := leads_apply host c l s
  refine ⟨ds ++ [.change host.isSome (host.bind (·.look s)) c], ?_⟩
  rw [layout, after_append]
  rfl

end Layout

end PixelLayout
