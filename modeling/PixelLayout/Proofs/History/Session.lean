import PixelLayout.Offscreen.Session
import PixelLayout.Proofs.History.Sound

/-!
# The layouts of a session

In a session, layouts are attached to containers, updated while these are held, and asked for
further passes by the commits of other layouts. All the same, each of them is at any time what a
history makes of the layout that was there at the start.
-/

set_option autoImplicit false

namespace PixelLayout

/-- What every handover leads to, an update leads to. -/
theorem Layout.Course.state {σ : Type} {host : Host σ} {R : σ → σ → Prop} (refl : ∀ s, R s s)
    (trans : ∀ s s' s'', R s s' → R s' s'' → R s s'')
    (commit : ∀ s flags batch, R s (host.commit s flags batch).state) {left number : Nat}
    {l : Layout} {s : σ} {log : List (Handover σ)} {o : Outcome σ}
    (course : Course host left number l s log o) : R s o.state := by
  induction course with
  | out | busy | suspended => exact refl _
  | deferred | failed | settled => exact commit _ _ _
  | reopened _ _ _ _ ih => exact trans _ _ _ (commit _ _ _) ih

namespace Offscreen.World

def Follows (w w' : World) : Prop :=
  ∀ i s', w'.slot? i = some s' → ∃ s, w.slot? i = some s ∧ ∃ ds, s'.layout = s.layout.after ds

namespace Follows

theorem refl (w : World) : w.Follows w := fun _ s h => ⟨s, h, [], rfl⟩

theorem trans {w w' w'' : World} (h : w.Follows w') (h' : w'.Follows w'') : w.Follows w'' := by
  intro i s'' hs''
  obtain ⟨s', hs', ds', hds'⟩ := h' i s'' hs''
  obtain ⟨s, hs, ds, hds⟩ := h i s' hs'
  exact ⟨s, hs, ds' ++ ds, by rw [hds', hds, Layout.after_append]⟩

theorem setMount (w : World) (i : Nat) (m : Option Mount) : w.Follows (w.setMount i m) := refl w

theorem setSlot {w w' : World} (h : w.Follows w') {i : Nat} {s : Slot} (hs : w.slot? i = some s)
    {s' : Slot} (hs' : ∃ ds, s'.layout = s.layout.after ds) : w.Follows (w'.setSlot i s') := by
  intro j t ht
  simp only [slot?, World.setSlot, List.getElem?_set] at ht
  split at ht
  · next hij =>
    subst hij
    split at ht
    · cases ht
      exact ⟨s, hs, hs'⟩
    · cases ht
  · exact h j t ht

theorem setLayout {w w' : World} (h : w.Follows w') {i : Nat} {s : Slot} (hs : w.slot? i = some s)
    {l : Layout} (hl : ∃ ds, l = s.layout.after ds) : w.Follows (w'.setLayout i l) := by
  unfold World.setLayout
  split
  · exact h.setSlot hs hl
  · exact h

theorem ask (w : World) (a : Ask) : w.Follows (w.ask a) := by
  unfold World.ask
  split
  · next s hs => exact (refl w).setSlot hs ⟨[.request a.reset], rfl⟩
  · exact refl w

theorem askAll (w : World) (asks : List Ask) : w.Follows (w.askAll asks) := by
  induction asks generalizing w with
  | nil => exact refl w
  | cons a asks ih => exact (ask w a).trans (ih _)

theorem commit (w : World) (i j : Nat) (hold : Hold) (own : PassFlags) (batch : Batch) :
    w.Follows (w.commit i j hold own batch).state := by
  unfold World.commit
  split
  · exact (setMount _ _ _).trans (askAll _ _)
  · exact refl w

end Follows

def Tame (host : Host World) : Prop :=
  ∀ (w : World) (flags : PassFlags) (batch : Batch), w.Follows (host.commit w flags batch).state

section Hosted

variable (w : World) {host : Option (Host World)} (tame : ∀ h ∈ host, Tame h)

include tame

theorem update_follows (reset : Bool) (l : Layout) : w.Follows (l.update host reset w).state := by
  cases host with
  | none => exact .refl w
  | some host =>
    obtain ⟨log, course⟩ :=
      Layout.exists_course host maxPasses 0 ((l.begun reset).setPerforming true) w
    exact course.state Follows.refl (fun _ _ _ => Follows.trans) (tame host rfl)

theorem apply_follows (c : Change) (l : Layout) : w.Follows (l.apply host c w).state := by
  cases made : l.revised? host.isSome (host.bind (·.look w)) c with
  | none =>
    rw [Layout.apply_of_none host w made]
    exact .refl w
  | some l' =>
    obtain ⟨events, revise⟩ := Layout.revise_of_revised? made
    cases host with
    | none =>
      rw [Layout.apply_alone w revise]
      exact .refl w
    | some host =>
      rw [Layout.apply_made host w revise]
      exact update_follows w tame _ _

end Hosted

theorem hostOf_tame (w : World) (step : Step) (slot : Slot) :
    ∀ h ∈ w.hostOf step slot, Tame h := by
  intro h hh w' flags batch
  obtain ⟨j, -, rfl⟩ := Option.map_eq_some_iff.mp hh
  exact Follows.commit _ _ _ _ _ _

section Steps

variable (w : World) (step : Step)

theorem finished_follows {slot : Slot} (hs : w.slot? step.layout = some slot) (a : Answer)
    {o : Outcome World} (state : w.Follows o.state)
    (layout : ∃ ds, o.layout = slot.layout.after ds) : w.Follows (finished step a o).world :=
  state.setLayout hs layout

theorem attach_follows {slot : Slot} (hs : w.slot? step.layout = some slot) :
    w.Follows (w.attach step slot).world := by
  unfold World.attach
  split
  · exact .refl w
  · exact Follows.setSlot (.setMount w _ _) hs ⟨[.attach], rfl⟩

theorem requestRelayout_follows (times : Nat) :
    w.Follows (w.requestRelayout step times).world := by
  unfold World.requestRelayout
  split
  · exact .refl w
  · exact .setMount w _ _

theorem call_follows {slot : Slot} (hs : w.slot? step.layout = some slot) (c : Call) :
    w.Follows (w.call step slot c).world := by
  have tame := w.hostOf_tame step slot
  cases c with
  | attach => exact w.attach_follows step hs
  | detach => exact (Follows.refl w).setSlot hs ⟨[.detach], rfl⟩
  | update reset =>
    obtain ⟨ds, -, layout⟩ := Layout.leads_update (w.hostOf step slot) reset slot.layout w
    exact w.finished_follows step hs _ (update_follows w tame _ _) ⟨ds, layout⟩
  | requestUpdate reset => exact (Follows.refl w).setLayout hs ⟨[.request reset], rfl⟩
  | requestRelayout times => exact w.requestRelayout_follows step times
  | change c =>
    simp only [World.call]
    split
    · have layout := Layout.exists_apply (w.hostOf step slot) c slot.layout w
      exact w.finished_follows step hs _ (apply_follows w tame _ _) layout
    · exact .refl w
  | minSize =>
    refine (Follows.refl w).setLayout hs ?_
    cases w.viewOf step slot with
    | none => exact ⟨[], rfl⟩
    | some v => exact ⟨[.query (some v) v.bounds.size], rfl⟩
  | minSizeFor size =>
    exact (Follows.refl w).setLayout hs ⟨[.query _ size], rfl⟩
  | clampHandle handle position =>
    simp only [World.call]
    split <;> exact .refl w
  | _ => exact .refl w

theorem act_follows (a : Action) : w.Follows (w.act step a).world := by
  unfold World.act
  split
  · exact (Follows.setMount w _ _).trans (.askAll _ _)
  · exact .refl w

theorem perform_follows : w.Follows (w.perform step).world := by
  unfold perform
  split
  · exact w.act_follows step _
  · exact .setMount w _ _
  · split
    · next hs => exact w.call_follows step hs _
    · exact .refl w

end Steps

/-- Every world of a session follows the one at its start. -/
theorem run_follows (w : World) (steps : List Step) : ∀ r ∈ w.run steps, w.Follows r.world := by
  induction steps generalizing w with
  | nil => simp [run]
  | cons step steps ih =>
    have first := w.perform_follows step
    exact List.forall_mem_cons.mpr ⟨first, fun r hr => first.trans (ih _ r hr)⟩

/-- A layout of a session is what a history makes of the layout that was made for its place. -/
theorem run_after (mounts : List Mount) (layouts : List (Except ParameterError Layout))
    (steps : List Step) : ∀ r ∈ (fresh mounts layouts).run steps, ∀ i s, r.world.slot? i = some s →
      ∃ l, layouts[i]? = some (.ok l) ∧ ∃ ds, s.layout = l.after ds := by
  intro r hr i s hs
  obtain ⟨s₀, hs₀, ds, hds⟩ := run_follows _ steps r hr i s hs
  simp only [slot?, fresh, List.getElem?_map] at hs₀
  cases hl : layouts[i]? with
  | none => simp [hl] at hs₀
  | some made =>
    cases made with
    | error e => simp [hl, Except.toOption] at hs₀
    | ok l =>
      simp only [hl, Option.map_some, Except.toOption, Option.join_some, Option.some.injEq] at hs₀
      subst hs₀
      exact ⟨l, rfl, ds, hds⟩

end Offscreen.World

end PixelLayout
