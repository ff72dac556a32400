import PixelLayout.Proofs.Table
import PixelLayout.Splitter.Balance

/-!
# What handing out space changes

A pixel goes to one pane, or is taken from one pane, that has a state, is neither fixed nor kept
at its minimum, and is not at its limit. What such a step keeps holds behind any number of them.
-/

set_option autoImplicit false

namespace PixelLayout.Splitter

variable {growing : Bool} {limits : List Limits} {panes panes' : Panes}

def best (growing : Bool) (b : Option Candidate) (c : Candidate) : Option Candidate :=
  match b with
  | none => some c
  | some b => if c.precedes growing b then some c else some b

theorem mem_of_best {cs : List Candidate} {b : Option Candidate} {c : Candidate}
    (h : cs.foldl (best growing) b = some c) : b = some c ∨ c ∈ cs := by
  induction cs generalizing b with
  | nil => exact .inl h
  | cons a cs ih =>
    rw [List.mem_cons]
    rcases ih h with hb | hc
    · unfold best at hb
      split at hb
      · exact .inr (.inl (Option.some.inj hb).symm)
      · split at hb
        · exact .inr (.inl (Option.some.inj hb).symm)
        · exact .inl hb
    · exact .inr (.inr hc)

theorem mem_of_choose {cs : List Candidate} {c : Candidate} (h : choose growing cs = some c) :
    c ∈ cs := (mem_of_best (b := none) h).resolve_left nofun

structure Pliable (growing : Bool) (panes : Panes) (l : Limits) (p : Pane) : Prop where
  state : panes.get? l.id = some p
  free : p.fixed = false
  movable : p.keepsSize = false
  room : hasRoom growing l p = true

theorem candidate?_eq_some_iff {l : Limits} {c : Candidate} :
    candidate? growing panes l = some c ↔
      ∃ p, Pliable growing panes l p ∧ c = ⟨l.id, p.growth, max p.weight 1⟩ := by
  constructor
  · intro h
    unfold candidate? at h
    split at h
    · next p state =>
      split at h
      · cases h
      · next hp =>
        cases h
        simp only [Bool.or_eq_true, Bool.not_eq_true', not_or, Bool.not_eq_true,
          Bool.not_eq_false] at hp
        exact ⟨p, ⟨state, hp.1.1, hp.1.2, hp.2⟩, rfl⟩
    · cases h
  · rintro ⟨p, pliable, rfl⟩
    simp [candidate?, pliable.state, pliable.free, pliable.movable, pliable.room]

theorem pliable_of_nudge (h : nudge? growing limits panes = some panes') :
    ∃ l ∈ limits, ∃ p,
      Pliable growing panes l p ∧ panes' = panes.insert l.id (p.nudge growing) := by
  obtain ⟨c, chosen, rfl⟩ := Option.map_eq_some_iff.mp h
  obtain ⟨l, hl, hc⟩ := List.mem_filterMap.mp (mem_of_choose chosen)
  obtain ⟨p, pliable, rfl⟩ := candidate?_eq_some_iff.mp hc
  refine ⟨l, hl, p, pliable, ?_⟩
  rw [Table.modify, pliable.state, Option.getD_some]

section Runs

variable {P : Panes → Prop}

/-- What every pixel that is handed out keeps holds after any number of them. -/
theorem pour_keeps
    (step : ∀ panes panes', nudge? growing limits panes = some panes' → P panes → P panes')
    (n : Nat) (h : P panes) : P (pour growing limits n panes).1 := by
  induction n generalizing panes with
  | zero => exact h
  | succ n ih =>
    unfold pour
    cases hn : nudge? growing limits panes with
    | none => exact h
    | some panes' => exact ih (step panes panes' hn h)

/-- It is enough that it is kept by a pixel to or from any pane that can take one. -/
theorem pour_induction
    (step : ∀ panes l p, l ∈ limits → Pliable growing panes l p → P panes →
      P (panes.insert l.id (p.nudge growing)))
    (n : Nat) (h : P panes) : P (pour growing limits n panes).1 := by
  refine pour_keeps (fun panes panes' hn h => ?_) n h
  obtain ⟨l, hl, p, pliable, rfl⟩ := pliable_of_nudge hn
  exact step panes l p hl pliable h

theorem distribute_induction
    (step : ∀ growing panes l p, l ∈ limits → Pliable growing panes l p → P panes →
      P (panes.insert l.id (p.nudge growing)))
    (amount : Int) (h : P panes) : P (distribute limits panes amount).1 :=
  pour_induction (step _) _ h

end Runs

/-- Handing out space makes no new state. -/
theorem contains_distribute (limits : List Limits) (panes : Panes) (amount : Int) (id : Nat) :
    (distribute limits panes amount).1.contains id = panes.contains id := by
  refine distribute_induction (P := fun t => t.contains id = panes.contains id) ?_ amount rfl
  intro growing t l p _ pliable h
  rw [Table.contains_insert, ← h]
  by_cases hid : l.id = id
  · have held : t.contains id = true := by
      rw [Table.contains, ← hid, pliable.state, Option.isSome_some]
    rw [held, Bool.or_true]
  · simp [hid]

end PixelLayout.Splitter
