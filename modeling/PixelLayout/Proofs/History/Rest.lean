import PixelLayout.Proofs.Collect
import PixelLayout.Proofs.History.Sound

/-!
# Layouts at rest

A pass over a view brings a layout to rest: nothing is left of former children, and no further pass
is asked for. Whether a change is refused, and what it makes of the layout once a pass has gone over
it, are the same for a layout at rest and for one that still waits for its pass. This holds of boxes,
grids and flows, which keep no sizes from one pass to the next.
-/

set_option autoImplicit false

namespace PixelLayout

namespace Mode

def Plain : Mode → Prop
  | box _ | grid _ | flow _ => True
  | splitter _ => False

def refreshed (children : List Item) (reset : Bool) : Mode → Mode
  | box b => .box (b.refresh children reset)
  | grid g => .grid (g.refresh children reset)
  | flow f => .flow (f.refresh children reset)
  | splitter s => .splitter s

theorem refreshed_false (m : Mode) (children : List Item) : m.refreshed children false = m := by
  cases m <;> rfl

variable {m : Mode} (plain : m.Plain)

include plain

theorem Plain.refreshed (children : List Item) (reset : Bool) :
    (m.refreshed children reset).Plain := by
  cases m <;> exact plain

/-- A pass refreshes the mode and arranges the children with what it then is. -/
theorem Plain.arrange (settings : Settings) (children : List Item) (bounds : Rect)
    (reset : Bool) :
    m.arrange settings children bounds reset =
      (m.refreshed children reset).arrange settings children bounds false := by
  cases m with
  | box | grid | flow => rfl
  | splitter => exact plain.elim

theorem Plain.arrange_mode (settings : Settings) (children : List Item) (bounds : Rect)
    (reset : Bool) :
    (m.arrange settings children bounds reset).mode = m.refreshed children reset := by
  cases m with
  | box | grid | flow => rfl
  | splitter => exact plain.elim

end Mode

namespace Layout

def rested (l : Layout) (v : View) : Layout :=
  ⟨l.settings, .idle, [], v.ids, l.mode.refreshed v.children (l.startsAfresh v.children)⟩

def settled (l : Layout) (v : View) (view : Option View) (c : Change) :
    Except ParameterError (Option Layout) :=
  (l.revise true view c).map (Option.map fun made => made.1.rested v)

section Rested

variable {l l' : Layout} {v v' : View}

theorem rested_congr (settings : l'.settings = l.settings) (mode : l'.mode = l.mode)
    (reset : l'.flags.resetNeeded = l.flags.resetNeeded) (seen : l'.seen = l.seen) :
    l'.rested v = l.rested v := by
  rw [rested, rested, settings, mode, startsAfresh, startsAfresh, reset, seen]

theorem rested_of_seen (settings : Settings) (mode : Mode) (v : View) :
    (⟨settings, .idle, [], v.ids, mode⟩ : Layout).rested v =
      ⟨settings, .idle, [], v.ids, mode⟩ := by
  have resumes :
      (⟨settings, .idle, [], v.ids, mode⟩ : Layout).startsAfresh v.children = false := by
    show (false || v.ids != v.ids) = false
    simp
  rw [rested, resumes, Mode.refreshed_false]

theorem rested_again (l : Layout) (v : View) : (l.rested v).rested v = l.rested v :=
  rested_of_seen _ _ _

/-- A refreshed mode is given where the mode itself is. -/
theorem rested_withMode (l : Layout) (v : View) {m m' : Mode}
    (refreshed : m.refreshed v.children (l.startsAfresh v.children) = m') :
    ({ l.rested v with mode := m' } : Layout).rested v =
      ({ l with mode := m } : Layout).rested v := by
  subst refreshed
  exact rested_of_seen _ _ _

theorem rested_withSettings (l : Layout) (v : View) (settings : Settings) :
    ({ l.rested v with settings } : Layout).rested v = ({ l with settings } : Layout).rested v :=
  rested_of_seen _ _ _

end Rested

section Settled

variable {l : Layout} {v : View} {view view' : Option View}

theorem rested_mode {m : Mode} (mode : l.mode = m) (v : View) :
    (l.rested v).mode = m.refreshed v.children (l.startsAfresh v.children) := by
  rw [rested, mode]

/-- A change of the settings comes to the same at rest and not, if it goes by them alone. -/
theorem settled_of_settings {c : Change} (f : Settings → Except ParameterError (Option Settings))
    (revise : ∀ l : Layout, l.mode.Plain → ∀ view, l.revise true view c =
      (f l.settings).map (Option.map fun settings => ({ l with settings }, [])))
    (plain : l.mode.Plain) : (l.rested v).settled v view c = l.settled v view' c := by
  rw [settled, settled, revise _ (plain.refreshed _ _), revise _ plain]
  show Except.map _ (Except.map _ (f l.settings)) = _
  cases f l.settings with
  | error e => rfl
  | ok settings =>
    cases settings with
    | none => rfl
    | some settings => exact congrArg (Except.ok ∘ some) (rested_withSettings l v settings)

theorem settled_margins (plain : l.mode.Plain) (m : Margins) :
    (l.rested v).settled v view (.margins m) = l.settled v view' (.margins m) := by
  refine settled_of_settings (fun settings =>
    if m = settings.margins then .ok none
    else if m.hasNegative then .error (.negativeMargin m)
    else .ok (some { settings with margins := m })) (fun l plain view => ?_) plain
  rw [Layout.revise, Change.steps, Setter.outcome_setMargins]
  cases mode : l.mode with
  | splitter => exact (mode ▸ plain).elim
  | _ =>
    dsimp only
    split
    · rfl
    · split <;> rfl

theorem settled_spacing (plain : l.mode.Plain) (n : Int) :
    (l.rested v).settled v view (.spacing n) = l.settled v view' (.spacing n) := by
  refine settled_of_settings (fun settings =>
    if n = settings.spacing then .ok none
    else if n < 0 then .error (.negativeSpacing n)
    else .ok (some { settings with spacing := n })) (fun l plain view => ?_) plain
  rw [Layout.revise, Change.steps, Setter.outcome_setSpacing]
  cases mode : l.mode with
  | splitter => exact (mode ▸ plain).elim
  | _ =>
    dsimp only
    split
    · rfl
    · split <;> rfl

theorem settled_alignment (plain : l.mode.Plain) (a : Alignment) :
    (l.rested v).settled v view (.alignment a) = l.settled v view' (.alignment a) := by
  refine settled_of_settings (fun settings =>
    if a = settings.alignment then .ok none
    else .ok (some { settings with alignment := a })) (fun l plain view => ?_) plain
  rw [Layout.revise, Change.steps, Setter.outcome_setAlignment]
  cases mode : l.mode with
  | splitter => exact (mode ▸ plain).elim
  | _ =>
    dsimp only
    split <;> rfl

theorem settled_axis (plain : l.mode.Plain) (a : Axis) :
    (l.rested v).settled v view (.axis a) = l.settled v view' (.axis a) := by
  simp only [settled, revise, Change.steps, Setter.outcome_setAxis]
  cases mode : l.mode with
  | splitter => exact (mode ▸ plain).elim
  | grid | flow =>
    rw [rested_mode mode]
    rfl
  | box b =>
    rw [rested_mode mode]
    have axis : (b.refresh v.children (l.startsAfresh v.children)).axis = b.axis := by
      rw [Box.refresh]
      split <;> rfl
    simp only [Mode.refreshed, axis]
    split
    · rfl
    · refine congrArg (Except.ok ∘ some) (rested_withMode l v ?_)
      simp only [Mode.refreshed, Box.refresh]
      split <;> rfl

/-- What a change makes of the mode of a layout, at rest and not. -/
theorem settled_withMode {m m' : Mode}
    (refreshed : m.refreshed v.children (l.startsAfresh v.children) = m') :
    Except.map (Option.map fun made : Layout × List Event => made.1.rested v)
        (.ok ((l.rested v).withMode m')) =
      (Except.map (Option.map fun made : Layout × List Event => made.1.rested v)
        (.ok (l.withMode m)) : Except ParameterError (Option Layout)) :=
  congrArg (Except.ok ∘ some) (rested_withMode l v refreshed)

theorem any_of_requireChild {item : Nat} (h : requireChild (some v) item = .ok ()) :
    v.children.any (·.id == item) = true := by
  by_contra absent
  simp [requireChild, absent] at h

theorem settled_stretch (plain : l.mode.Plain) (item factor : Nat) :
    (l.rested v).settled v (some v) (.stretch item factor) =
      l.settled v (some v) (.stretch item factor) := by
  simp only [settled, revise, Change.steps, Setter.outcome_setStretch]
  cases requireFactor factor with
  | error e => rfl
  | ok =>
    cases mode : l.mode with
    | splitter => exact (mode ▸ plain).elim
    | grid =>
      rw [rested_mode mode]
      rfl
    | box b =>
      rw [rested_mode mode]
      cases known : requireChild (some v) item with
      | error e => rfl
      | ok =>
        have child := any_of_requireChild known
        show Except.map _ (if factor = Stretches.factor _ item then _ else _) =
          Except.map _ (if factor = b.stretch.factor item then _ else _)
        rw [b.refresh_factor child]
        split
        · rfl
        · exact settled_withMode (congrArg Mode.box (b.refresh_set child _ factor))
    | flow f =>
      rw [rested_mode mode]
      cases known : requireChild (some v) item with
      | error e => rfl
      | ok =>
        have child := any_of_requireChild known
        show Except.map _ (if factor = Stretches.factor _ item then _ else _) =
          Except.map _ (if factor = f.stretch.factor item then _ else _)
        rw [f.refresh_factor child]
        split
        · rfl
        · exact settled_withMode (congrArg Mode.flow (f.refresh_set child _ factor))

section Grids

variable (plain : l.mode.Plain) (sound : l.mode.Sound)

include plain sound

theorem settled_range (item : Nat) (r : Range) :
    (l.rested v).settled v (some v) (.range item r) = l.settled v (some v) (.range item r) := by
  simp only [settled, revise, Change.steps, Setter.outcome_setRange]
  cases mode : l.mode with
  | splitter => exact (mode ▸ plain).elim
  | box | flow =>
    rw [rested_mode mode]
    rfl
  | grid g =>
    have formed : g.WellFormed := by
      rw [mode] at sound
      exact sound
    rw [rested_mode mode]
    cases valid : r.check with
    | error e => rfl
    | ok =>
      cases known : requireChild (some v) item with
      | error e => rfl
      | ok =>
        have child := any_of_requireChild known
        exact settled_withMode (congrArg Mode.grid (formed.refresh_assign _ child valid))

theorem settled_rowStretch (row : Int) (factor : Nat) :
    (l.rested v).settled v (some v) (.rowStretch row factor) =
      l.settled v (some v) (.rowStretch row factor) := by
  simp only [settled, revise, Change.steps, Setter.outcome_setRowStretch]
  cases mode : l.mode with
  | splitter => exact (mode ▸ plain).elim
  | box | flow =>
    rw [rested_mode mode]
    rfl
  | grid g =>
    have formed : g.WellFormed := by
      rw [mode] at sound
      exact sound
    rw [rested_mode mode]
    cases track : requireTrack true "row" row factor with
    | error e => rfl
    | ok i =>
      show Except.map _ (if factor = Grid.stretchAt (g.refresh _ _).rowStretch i then _ else _) =
        Except.map _ (if factor = Grid.stretchAt g.rowStretch i then _ else _)
      rw [Grid.refresh_rowStretch]
      split
      · rfl
      · have valid := (of_requireTrack track).2.1
        exact settled_withMode (congrArg Mode.grid (formed.refresh_setRow _ i valid))

theorem settled_columnStretch (column : Int) (factor : Nat) :
    (l.rested v).settled v (some v) (.columnStretch column factor) =
      l.settled v (some v) (.columnStretch column factor) := by
  simp only [settled, revise, Change.steps, Setter.outcome_setColumnStretch]
  cases mode : l.mode with
  | splitter => exact (mode ▸ plain).elim
  | box | flow =>
    rw [rested_mode mode]
    rfl
  | grid g =>
    have formed : g.WellFormed := by
      rw [mode] at sound
      exact sound
    rw [rested_mode mode]
    cases track : requireTrack true "column" column factor with
    | error e => rfl
    | ok i =>
      show Except.map _ (if factor = Grid.stretchAt (g.refresh _ _).columnStretch i then _ else _) =
        Except.map _ (if factor = Grid.stretchAt g.columnStretch i then _ else _)
      rw [Grid.refresh_columnStretch]
      split
      · rfl
      · have valid := (of_requireTrack track).2.1
        exact settled_withMode (congrArg Mode.grid (formed.refresh_setColumn _ i valid))

/-- A change comes to the same for a layout that still waits for its pass as for one at rest. -/
theorem settled_rested (v : View) (c : Change) :
    (l.rested v).settled v (some v) c = l.settled v (some v) c := by
  cases c with
  | margins m => exact settled_margins plain m
  | spacing n => exact settled_spacing plain n
  | alignment a => exact settled_alignment plain a
  | axis a => exact settled_axis plain a
  | stretch item factor => exact settled_stretch plain item factor
  | range item r => exact settled_range plain sound item r
  | rowStretch row factor => exact settled_rowStretch plain sound row factor
  | columnStretch column factor => exact settled_columnStretch plain sound column factor
  | handleWidth | fixed | fractions | release =>
    simp only [settled, revise, Change.steps, Setter.outcome_setHandleWidth, Setter.outcome_setFixed,
      Setter.outcome_setFractions, Setter.outcome_releaseHandle]
    cases mode : l.mode with
    | splitter => exact (mode ▸ plain).elim
    | _ =>
      rw [rested_mode mode]
      rfl

end Grids

/-- Changes look at the children alone. -/
theorem revise_view (plain : l.mode.Plain) {v' : View} (children : v'.children = v.children)
    (c : Change) : l.revise true (some v') c = l.revise true (some v) c := by
  have child (item : Nat) : requireChild (some v') item = requireChild (some v) item := by
    rw [requireChild, requireChild, children]
  have pane (item : Nat) : requirePane (some v') item = requirePane (some v) item := by
    rw [requirePane, requirePane, children]
  cases c with
  | margins | spacing | alignment | axis | rowStretch | columnStretch | handleWidth => rfl
  | stretch item factor => simp only [revise, Change.steps, Setter.outcome_setStretch, child, pane]
  | range item r => simp only [revise, Change.steps, Setter.outcome_setRange, child]
  | fixed item on => simp only [revise, Change.steps, Setter.outcome_setFixed, pane]
  | fractions | release =>
    simp only [revise, Change.steps, Setter.outcome_setFractions, Setter.outcome_releaseHandle]
    cases mode : l.mode with
    | splitter => exact (mode ▸ plain).elim
    | _ => rfl

end Settled

end Layout

end PixelLayout
