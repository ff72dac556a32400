import PixelLayout.Offscreen.Session
import PixelLayout.Proofs.History.Sound

/-!
# What layouts keep of their children

A mode keeps a state for some of its items: stretch factors, ranges with their cells, panes. A pass
that clears drops those of former children. It does so if it starts afresh, or if a splitter shows
other panes than before. A pass that does not clear finds the children of the pass before; so a
state of a former child that it leaves was given to that child between the two passes.
-/

set_option autoImplicit false

namespace PixelLayout

def Change.subjects (view : Option View) : Change → List Nat
  | stretch item _ | range item _ | fixed item _ => [item]
  | fractions _ | release _ _ => (view.map fun v => Splitter.alternate v.ids).getD []
  | _ => []

namespace Mode

def Keeps : Mode → Nat → Prop
  | box b, id => b.stretch.contains id = true
  | grid g, id => g.ranges.contains id = true ∨ ∃ i j, g.itemAt i j = some id
  | flow f, id => f.stretch.contains id = true
  | splitter s, id => s.panes.contains id = true

def owners : Mode → List Nat → List Nat
  | splitter _, ids => Splitter.alternate ids
  | _, ids => ids

def shows : Mode → List Item → List Nat
  | splitter _, children => (Splitter.shown children).map (·.id)
  | _, _ => []

def clears : Mode → List Item → Bool → Bool
  | splitter s, children, reset => reset || (Splitter.shown children).map (·.id) != s.lastShown
  | _, _, reset => reset

end Mode

theorem Grid.WellFormed.keeps {g : Grid} (h : g.WellFormed) {id : Nat} :
    (Mode.grid g).Keeps id ↔ g.ranges.contains id = true := by
  refine ⟨fun held => held.elim (fun h => h) ?_, .inl⟩
  rintro ⟨i, j, held⟩
  obtain ⟨r, hr, -⟩ := (h.cell i j id).mp held
  rw [Table.contains, hr, Option.isSome_some]

theorem Mode.Fresh.not_keeps {m : Mode} (fresh : m.Fresh) {id : Nat} : ¬ m.Keeps id := by
  cases fresh with
  | box | flow | splitter => nofun
  | grid =>
    rw [Grid.fresh_wellFormed.keeps]
    nofun

namespace Stretches

variable {s : Stretches} {id : Nat}

theorem mem_of_contains_restrict {children : List Item}
    (h : (s.restrict children).contains id = true) : id ∈ children.map (·.id) := by
  rw [restrict, Table.contains_keep, Bool.and_eq_true] at h
  exact mem_ids_of_any h.1

theorem contains_of_restrict {children : List Item}
    (h : (s.restrict children).contains id = true) : s.contains id = true := by
  rw [restrict, Table.contains_keep, Bool.and_eq_true] at h
  exact h.2

theorem contains_of_set {item factor : Nat} (h : (s.set item factor).contains id = true) :
    id = item ∨ s.contains id = true := by
  unfold set at h
  split at h
  · rw [Table.contains_erase, Bool.and_eq_true] at h
    exact .inr h.2
  · rw [Table.contains_insert, Bool.or_eq_true] at h
    exact h.imp_left fun h => (beq_iff_eq.mp h).symm

end Stretches

namespace Grid

variable {g : Grid} {id : Nat}

theorem mem_of_contains_restrict {children : List Item}
    (h : (g.restrict children).ranges.contains id = true) : id ∈ children.map (·.id) := by
  rw [restrict, Table.contains, foldl_release_ranges] at h
  split at h
  · cases h
  · next kept =>
    have held := Table.mem_keys_of_contains _ h
    simp only [List.mem_filter, held, true_and, Bool.not_eq_true', Bool.not_eq_false] at kept
    exact mem_ids_of_any kept

theorem contains_of_restrict {children : List Item}
    (h : (g.restrict children).ranges.contains id = true) : g.ranges.contains id = true := by
  rw [restrict, Table.contains, foldl_release_ranges] at h
  split at h
  · cases h
  · exact h

theorem contains_of_assign {item : Nat} {r : Range}
    (h : (g.assign item r).ranges.contains id = true) :
    id = item ∨ g.ranges.contains id = true := by
  simp only [assign, Table.contains_insert, Bool.or_eq_true, beq_iff_eq] at h
  refine h.imp Eq.symm fun h => ?_
  rw [Table.contains, foldl_release_ranges] at h
  split at h
  · cases h
  · change ((g.release item).ranges.get? id).isSome = true at h
    rw [release_ranges] at h
    split at h
    · cases h
    · exact h

end Grid

namespace Mode

section Arrange

variable {m : Mode} {settings : Settings} {children : List Item} {bounds : Rect} {reset : Bool}
  {id : Nat}

theorem owners_arrange (ids : List Nat) :
    (m.arrange settings children bounds reset).mode.owners ids = m.owners ids := by
  cases m <;> rfl

theorem mem_of_keeps_arrange (sound : m.Sound) (h : m.clears children reset = true)
    (held : (m.arrange settings children bounds reset).mode.Keeps id) :
    id ∈ m.owners (children.map (·.id)) := by
  cases m with
  | box b | flow f =>
    obtain rfl : reset = true := h
    exact Stretches.mem_of_contains_restrict held
  | grid g =>
    obtain rfl : reset = true := h
    exact Grid.mem_of_contains_restrict ((sound.restrict children).keeps.mp held)
  | splitter s =>
    have h : (reset || (Splitter.shown children).map (·.id) != s.lastShown) = true := h
    change (s.settle children bounds reset).1.panes.contains id = true at held
    rw [Splitter.contains_settle, Splitter.rebased, if_pos h] at held
    rw [owners, Splitter.alternate_map]
    exact Splitter.mem_of_contains_reset s children id held

theorem keeps_arrange (h : m.clears children reset = false) :
    (m.arrange settings children bounds reset).mode.Keeps id ↔ m.Keeps id := by
  cases m with
  | box b | flow f | grid g =>
    obtain rfl : reset = false := h
    exact Iff.rfl
  | splitter s =>
    have h : (reset || (Splitter.shown children).map (·.id) != s.lastShown) = false := h
    change (s.settle children bounds reset).1.panes.contains id = true ↔ _
    rw [Splitter.contains_settle, Splitter.rebased, if_neg (Bool.eq_false_iff.mp h)]
    exact Iff.rfl

/-- A pass gives a state to none but the panes it shows. -/
theorem keeps_of_keeps_arrange (sound : m.Sound)
    (held : (m.arrange settings children bounds reset).mode.Keeps id) :
    id ∈ m.shows children ∨ m.Keeps id := by
  cases h : m.clears children reset with
  | false => exact .inr ((keeps_arrange h).mp held)
  | true =>
    cases m with
    | box b | flow f =>
      obtain rfl : reset = true := h
      exact .inr (Stretches.contains_of_restrict held)
    | grid g =>
      obtain rfl : reset = true := h
      exact .inr (.inl (Grid.contains_of_restrict ((sound.restrict children).keeps.mp held)))
    | splitter s =>
      have h : (reset || (Splitter.shown children).map (·.id) != s.lastShown) = true := h
      change (s.settle children bounds reset).1.panes.contains id = true at held
      rw [Splitter.contains_settle, Splitter.rebased, if_pos h, Splitter.contains_reset,
        Bool.or_eq_true, Bool.and_eq_true] at held
      exact held.imp mem_ids_of_any And.right

end Arrange

end Mode

namespace Layout

variable {l l' : Layout} {view : Option View} {v : View} {c : Change} {id : Nat}

/-- A change gives a state to none but its subjects. -/
theorem keeps_of_revised (sound : l.Sound) (revised : Revised l view c l')
    (held : l'.mode.Keeps id) : id ∈ c.subjects view ∨ l.mode.Keeps id := by
  have mode := sound.mode
  have mode' := (sound.revised revised).mode
  cases revised with
  | margins | spacing | alignment => exact .inr held
  | boxAxis hm | splitterAxis hm | handleWidth hm =>
    rw [hm]
    exact .inr held
  | boxStretch hm | flowStretch hm =>
    rw [hm]
    exact (Stretches.contains_of_set held).imp_left List.mem_singleton.mpr
  | range hm =>
    rw [hm] at mode ⊢
    have held := Grid.contains_of_assign (Grid.WellFormed.keeps mode' |>.mp held)
    exact held.imp List.mem_singleton.mpr .inl
  | rowStretch hm | columnStretch hm =>
    rw [hm]
    exact .inr (.inl (Grid.WellFormed.keeps mode' |>.mp held))
  | @splitterStretch s hm _ _ item =>
    rw [hm]
    simp only [Mode.Keeps, Splitter.contains_restretch, Bool.or_eq_true, beq_iff_eq] at held
    exact held.imp_left fun h => List.mem_singleton.mpr h.symm
  | fixed hm =>
    rw [hm]
    simp only [Mode.Keeps, Table.contains_modify, Bool.or_eq_true, beq_iff_eq] at held
    exact held.imp_left fun h => List.mem_singleton.mpr h.symm
  | @fractions s hm v look values f =>
    rw [hm, look]
    simp only [Mode.Keeps, Splitter.contains_pinAll, Bool.or_eq_true, List.any_eq_true,
      beq_iff_eq] at held
    refine held.imp_left ?_
    rintro ⟨share, hshare, rfl⟩
    rw [← Splitter.alternate_map] at hshare
    exact (List.of_mem_zip hshare).1
  | @release s hm v look handle d drag position =>
    obtain ⟨before, after⟩ := Splitter.mem_of_drag drag
    rw [← Splitter.alternate_map] at before after
    rw [hm, look]
    simp only [Mode.Keeps, Splitter.contains_drop, Bool.or_eq_true, beq_iff_eq] at held
    rcases held with rfl | rfl | held
    · exact .inl after
    · exact .inl before
    · exact .inr held

theorem owners_of_revised (revised : Revised l view c l') (ids : List Nat) :
    l'.mode.owners ids = l.mode.owners ids := by
  cases revised with
  | margins | spacing | alignment => rfl
  | boxAxis hm | splitterAxis hm | boxStretch hm | flowStretch hm | splitterStretch hm | range hm
  | rowStretch hm | columnStretch hm | handleWidth hm | fixed hm | fractions hm | release hm =>
    rw [hm]
    rfl

theorem seen_of_revised (revised : Revised l view c l') : l'.seen = l.seen := by
  cases revised <;> rfl

def clears (l : Layout) (v : View) : Bool := l.mode.clears v.children (l.startsAfresh v.children)

theorem seen_of_clears_eq_false (h : l.clears v = false) : l.seen = v.ids := by
  have again : l.startsAfresh v.children = false := by
    unfold clears Mode.clears at h
    split at h
    · exact (Bool.or_eq_false_iff.mp h).1
    · exact h
  simpa [View.ids] using (Bool.or_eq_false_iff.mp again).2

/-- The items that got a state from a change since the last pass that cleared. -/
def configured (l : Layout) : List Deed → List Nat
  | [] => []
  | .pass v :: ds => if (l.after ds).clears v then [] else l.configured ds
  | .change attached view c :: ds =>
    if ((l.after ds).revised? attached view c).isSome then c.subjects view ++ l.configured ds
    else l.configured ds
  | .attach :: ds | .detach :: ds | .request _ :: ds | .start _ :: ds | .mark _ _ :: ds
  | .query _ _ :: ds => l.configured ds

def Spared (l : Layout) (id : Nat) : List Deed → Prop
  | [] => True
  | .pass v :: ds => id ∉ (l.after ds).mode.shows v.children ∧ l.Spared id ds
  | .change attached view c :: ds =>
    (((l.after ds).revised? attached view c).isSome = true → id ∉ c.subjects view) ∧
      l.Spared id ds
  | .attach :: ds | .detach :: ds | .request _ :: ds | .start _ :: ds | .mark _ _ :: ds
  | .query _ _ :: ds => l.Spared id ds

@[simp] theorem minSizeFor_seen (view : Option View) (size : Size) :
    (l.minSizeFor view size).2.seen = l.seen := by
  rw [minSizeFor_def]
  split <;> rfl

/-- Whatever a layout keeps belongs to a child of the last pass, or was configured since the last
pass that cleared. -/
theorem keeps_after (made : l.Made) (ds : List Deed) (held : (l.after ds).mode.Keeps id) :
    id ∈ (l.after ds).mode.owners (l.after ds).seen ∨ id ∈ l.configured ds := by
  induction ds with
  | nil => exact absurd held made.new.mode.not_keeps
  | cons d ds ih =>
    have sound := made.sound ds
    cases d with
    | attach | detach | request | start | mark => exact ih held
    | query view size =>
      simp only [after, undergo, minSizeFor_mode, minSizeFor_seen] at held ⊢
      exact ih held
    | pass v =>
      change ((l.after ds).mode.arrange _ _ _ _).mode.Keeps id at held
      change id ∈ ((l.after ds).mode.arrange _ _ _ _).mode.owners v.ids ∨ _
      rw [Mode.owners_arrange]
      cases hc : (l.after ds).clears v with
      | true => exact .inl (Mode.mem_of_keeps_arrange sound.mode hc held)
      | false =>
        rw [← seen_of_clears_eq_false hc, configured, hc]
        exact ih ((Mode.keeps_arrange hc).mp held)
    | change attached view c =>
      simp only [after, undergo, configured] at held ⊢
      cases hr : (l.after ds).revised? attached view c with
      | none =>
        rw [hr] at held
        exact ih held
      | some l' =>
        have revised := revised_of_revised? hr
        rw [hr] at held
        change l'.mode.Keeps id at held
        change id ∈ l'.mode.owners l'.seen ∨ id ∈ c.subjects view ++ l.configured ds
        rw [owners_of_revised revised, seen_of_revised revised, List.mem_append]
        rcases keeps_of_revised sound revised held with subject | held
        · exact .inr (.inl subject)
        · exact (ih held).imp_right .inr

/-- What a layout does not keep it starts to keep only by a pass that shows a pane, or by a change
about the item. -/
theorem not_keeps_after (sound : l.Sound) (bare : ¬ l.mode.Keeps id) (ds : List Deed)
    (spared : l.Spared id ds) : ¬ (l.after ds).mode.Keeps id := by
  induction ds with
  | nil => exact bare
  | cons d ds ih =>
    have sound := sound.after ds
    cases d with
    | attach | detach | request | start | mark => exact ih spared
    | query view size =>
      simp only [after, undergo, minSizeFor_mode]
      exact ih spared
    | pass v =>
      exact fun held => (Mode.keeps_of_keeps_arrange sound.mode held).elim spared.1 (ih spared.2)
    | change attached view c =>
      simp only [after, undergo]
      cases hr : (l.after ds).revised? attached view c with
      | none => exact ih spared.2
      | some l' =>
        have apart := spared.1 (by rw [hr]; rfl)
        exact fun held =>
          (keeps_of_revised sound (revised_of_revised? hr) held).elim apart (ih spared.2)

/-- A pass leaves states of current children only, if and only if it clears or no former child was
configured since the last pass that cleared. What it leaves without a state stays without one until
a pass shows it as a pane or a change is about it. -/
theorem kept_for_children_iff (made : l.Made) (ds : List Deed) (v : View) :
    ((∀ id, (l.after (.pass v :: ds)).mode.Keeps id → id ∈ (l.after ds).mode.owners v.ids) ↔
      (l.after ds).clears v = true ∨
        ∀ id ∈ l.configured ds, (l.after ds).mode.Keeps id →
          id ∈ (l.after ds).mode.owners v.ids) ∧
    ∀ id, ¬ (l.after (.pass v :: ds)).mode.Keeps id →
      ∀ later, (l.after (.pass v :: ds)).Spared id later →
        ¬ (l.after (later ++ .pass v :: ds)).mode.Keeps id := by
  refine ⟨?_, fun id bare later spared => ?_⟩
  · cases hc : (l.after ds).clears v with
    | true =>
      exact iff_of_true (fun id held => Mode.mem_of_keeps_arrange (made.sound ds).mode hc held)
        (.inl rfl)
    | false =>
      have same : ∀ id, (l.after (.pass v :: ds)).mode.Keeps id ↔ (l.after ds).mode.Keeps id :=
        fun id => Mode.keeps_arrange hc
      simp only [same, Bool.false_eq_true, false_or]
      refine ⟨fun h id _ held => h id held, fun h id held => ?_⟩
      rcases keeps_after made ds held with child | configured
      · rwa [seen_of_clears_eq_false hc] at child
      · exact h id configured held
  · rw [after_append]
    exact not_keeps_after (made.sound _) bare later spared

section Rows

open Offscreen

def square (id : Nat) : Item := { Item.plain id with preferred := ⟨10, 10⟩ }

def squares (ids : List Nat) : View := ⟨false, ids.map square, ⟨0, 0, 100, 20⟩⟩

theorem row_forgets_removed :
    (∀ id, (row.after [.pass (squares [1]), .pass (squares [1, 2]),
      .change true (some (squares [1, 2])) (.stretch 2 5), .attach]).mode.Keeps id → id ∈ [1]) ∧
    ¬ (row.after [.pass (squares [1, 2]), .pass (squares [1]), .pass (squares [1, 2]),
      .change true (some (squares [1, 2])) (.stretch 2 5), .attach]).mode.Keeps 2 := by
  have h := kept_for_children_iff row_made [.pass (squares [1, 2]),
    .change true (some (squares [1, 2])) (.stretch 2 5), .attach] (squares [1])
  exact ⟨h.1.mpr (.inl (by decide)), h.2 2 nofun [.pass (squares [1, 2])] ⟨nofun, trivial⟩⟩

/-- An item that is pushed into a suspended container, given a stretch factor and removed again
before the next pass keeps the factor, and has it when it is pushed once more. -/
theorem row_keeps_removed :
    ((World.fresh [⟨.fresh ⟨0, 0, 100, 20⟩ [square 1], none⟩] [box .horizontal none]).run
      ([.call .attach, .call (.update false), .act (.push (square 2)), .act .suspend,
        .call (.change (.stretch 2 5)), .act (.remove 2), .act .resume, .call (.update false),
        .call (.stretch 2), .act (.push (square 2)), .call (.update false),
        .call (.stretch 2)].map (⟨0, 0, .free, ·⟩))).map (·.answer) =
    [.done, .done, .done, .done, .done, .response (.found true), .done, .done,
      .number 5, .done, .done, .number 5] := rfl

end Rows

end Layout

end PixelLayout
