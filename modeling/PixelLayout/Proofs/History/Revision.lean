import PixelLayout.Proofs.History.Outcome
import PixelLayout.Proofs.Splitter.Panes

/-!
# What an accepted change does

The rules below say for each kind of change which layouts it can be accepted by and what it makes
of them. Everything that holds of the changes of a layout is read off these rules.
-/

set_option autoImplicit false

namespace PixelLayout

def View.ids (v : View) : List Nat := v.children.map (·.id)

inductive Revised (l : Layout) (view : Option View) : Change → Layout → Prop where
  | margins {m : Margins} (valid : m.hasNegative = false) :
      Revised l view (.margins m) { l with settings := { l.settings with margins := m } }
  | spacing {n : Int} (valid : 0 ≤ n) :
      Revised l view (.spacing n) { l with settings := { l.settings with spacing := n } }
  | alignment (a : Alignment) :
      Revised l view (.alignment a) { l with settings := { l.settings with alignment := a } }
  | boxAxis {b : Box} (mode : l.mode = .box b) (a : Axis) :
      Revised l view (.axis a) { l with mode := .box { b with axis := a } }
  | splitterAxis {s : Splitter} (mode : l.mode = .splitter s) (a : Axis) :
      Revised l view (.axis a) { l.resetLater with mode := .splitter { s with axis := a } }
  | boxStretch {b : Box} (mode : l.mode = .box b) {v : View} (look : view = some v) {item : Nat}
      (child : item ∈ v.ids) {factor : Nat} (valid : 1 ≤ factor) :
      Revised l view (.stretch item factor)
        { l with mode := .box { b with stretch := b.stretch.set item factor } }
  | flowStretch {f : Flow} (mode : l.mode = .flow f) {v : View} (look : view = some v) {item : Nat}
      (child : item ∈ v.ids) {factor : Nat} (valid : 1 ≤ factor) :
      Revised l view (.stretch item factor)
        { l with mode := .flow { f with stretch := f.stretch.set item factor } }
  | splitterStretch {s : Splitter} (mode : l.mode = .splitter s) {v : View} (look : view = some v)
      {item : Nat} (pane : item ∈ Splitter.alternate v.ids) {factor : Nat} (valid : 1 ≤ factor) :
      Revised l view (.stretch item factor)
        { l.resetLater with mode := .splitter (s.restretch item factor) }
  | range {g : Grid} (mode : l.mode = .grid g) {v : View} (look : view = some v) {item : Nat}
      (child : item ∈ v.ids) {r : Range} (valid : r.check = .ok ()) :
      Revised l view (.range item r) { l with mode := .grid (g.assign item r) }
  | rowStretch {g : Grid} (mode : l.mode = .grid g) {row : Int} (origin : 0 ≤ row) {factor : Nat}
      (valid : 1 ≤ factor) :
      Revised l view (.rowStretch row factor)
        { l with mode := .grid { g.grow (row.toNat + 1) g.columnCount with
            rowStretch := (g.grow (row.toNat + 1) g.columnCount).rowStretch.set row.toNat factor } }
  | columnStretch {g : Grid} (mode : l.mode = .grid g) {column : Int} (origin : 0 ≤ column)
      {factor : Nat} (valid : 1 ≤ factor) :
      Revised l view (.columnStretch column factor)
        { l with mode := .grid { g.grow g.rowCount (column.toNat + 1) with
            columnStretch :=
              (g.grow g.rowCount (column.toNat + 1)).columnStretch.set column.toNat factor } }
  | handleWidth {s : Splitter} (mode : l.mode = .splitter s) {width : Int} (valid : 0 ≤ width) :
      Revised l view (.handleWidth width)
        { l with mode := .splitter { s with handleWidth := width } }
  | fixed {s : Splitter} (mode : l.mode = .splitter s) {v : View} (look : view = some v)
      {item : Nat} (pane : item ∈ Splitter.alternate v.ids) (on : Bool) :
      Revised l view (.fixed item on)
        { l with mode := .splitter { s with
            panes := s.panes.modify item .fresh fun p => { p with fixed := on } } }
  | fractions {s : Splitter} (mode : l.mode = .splitter s) {v : View} (look : view = some v)
      {values : List Float} {f : Splitter.Fractions}
      (valid : Splitter.Fractions.ofList values = .ok f) :
      Revised l view (.fractions values)
        { l.resetLater with
          mode := .splitter (s.pinAll (((Splitter.alternate v.children).map (·.id)).zip f.values)) }
  | release {s : Splitter} (mode : l.mode = .splitter s) {v : View} (look : view = some v)
      {handle : Nat} {d : Splitter.Drag} (drag : s.drag? v.children v.bounds handle = some d)
      (position : Int) :
      Revised l view (.release handle position)
        { l with mode := .splitter (s.drop d (d.clamp position)) }

theorem mem_ids_of_any {children : List Item} {id : Nat}
    (h : children.any (·.id == id) = true) : id ∈ children.map (·.id) := by
  obtain ⟨c, hc, hid⟩ := List.any_eq_true.mp h
  exact List.mem_map.mpr ⟨c, hc, beq_iff_eq.mp hid⟩

theorem any_of_mem_ids {children : List Item} {id : Nat} (h : id ∈ children.map (·.id)) :
    children.any (·.id == id) = true := by
  obtain ⟨c, hc, rfl⟩ := List.mem_map.mp h
  exact List.any_eq_true.mpr ⟨c, hc, beq_iff_eq.mpr rfl⟩

theorem child_of_requireChild {view : Option View} {item : Nat}
    (h : requireChild view item = .ok ()) : ∃ v, view = some v ∧ item ∈ v.ids := by
  unfold requireChild at h
  split at h
  · cases h
  · next v =>
    split at h
    · next hany => exact ⟨v, rfl, mem_ids_of_any hany⟩
    · cases h

theorem pane_of_requirePane {view : Option View} {item : Nat}
    (h : requirePane view item = .ok ()) :
    ∃ v, view = some v ∧ item ∈ Splitter.alternate v.ids := by
  unfold requirePane at h
  split at h
  · cases h
  · next v =>
    split at h
    · next i hi =>
      obtain ⟨hlt, hid, -⟩ := List.findIdx?_eq_some_iff_getElem.mp hi
      split at h
      · next even =>
        refine ⟨v, rfl, Splitter.mem_alternate_of_getElem? (i := i) ?_ even⟩
        rw [View.ids, List.getElem?_map, List.getElem?_eq_getElem hlt, Option.map_some]
        exact congrArg some (beq_iff_eq.mp hid)
      · cases h
    · cases h

theorem le_of_requireFactor {factor : Nat} (h : requireFactor factor = .ok ()) : 1 ≤ factor := by
  unfold requireFactor at h
  split at h
  · cases h
  · omega

theorem of_requireTrack {attached : Bool} {track : String} {index : Int} {factor i : Nat}
    (h : requireTrack attached track index factor = .ok i) :
    0 ≤ index ∧ 1 ≤ factor ∧ i = index.toNat := by
  unfold requireTrack at h
  split at h
  · cases h
  split at h
  · cases h
  split at h
  · cases h
  · exact ⟨by omega, by omega, (Except.ok.inj h).symm⟩

theorem bind_ok {ε α β : Type} {x : Except ε α} {f : α → Except ε β} {b : β}
    (h : x >>= f = .ok b) : ∃ a, x = .ok a ∧ f a = .ok b := by
  cases x with
  | error e => cases h
  | ok a => exact ⟨a, rfl, h⟩

theorem map_ok {ε α β : Type} {x : Except ε α} {f : α → β} {b : β} (h : x.map f = .ok b) :
    ∃ a, x = .ok a ∧ f a = b := by
  cases x with
  | error e => cases h
  | ok a => exact ⟨a, rfl, Except.ok.inj h⟩

namespace Layout

def revise (l : Layout) (attached : Bool) (view : Option View) (c : Change) :
    Except ParameterError Revision := (c.steps attached view).outcome l

def revised? (l : Layout) (attached : Bool) (view : Option View) (c : Change) : Option Layout :=
  match l.revise attached view c with
  | .ok (some (l, _)) => some l
  | _ => none

section Accepted

variable {l l' : Layout} {attached : Bool} {view : Option View} {events : List Event}

theorem revised_margins {m : Margins}
    (h : (Setter.setMargins m).outcome l = .ok (some (l', events))) :
    Revised l view (.margins m) l' := by
  rw [Setter.outcome_setMargins] at h
  split at h
  · split at h <;> cases h
  split at h
  · cases h
  split at h
  · cases h
  · next hm =>
    cases h
    exact .margins (by simpa using hm)

theorem revised_spacing {n : Int} (h : (Setter.setSpacing n).outcome l = .ok (some (l', events))) :
    Revised l view (.spacing n) l' := by
  rw [Setter.outcome_setSpacing] at h
  split at h
  · split at h <;> cases h
  split at h
  · cases h
  split at h
  · cases h
  · next hn =>
    cases h
    exact .spacing (Int.not_lt.mp hn)

theorem revised_alignment {a : Alignment}
    (h : (Setter.setAlignment a).outcome l = .ok (some (l', events))) :
    Revised l view (.alignment a) l' := by
  rw [Setter.outcome_setAlignment] at h
  split at h
  · cases h
  split at h
  · cases h
  · cases h
    exact .alignment a

theorem revised_axis {a : Axis} (h : (Setter.setAxis a).outcome l = .ok (some (l', events))) :
    Revised l view (.axis a) l' := by
  rw [Setter.outcome_setAxis] at h
  split at h
  · next b mode =>
    split at h
    · cases h
    · cases h
      exact .boxAxis mode a
  · next s mode =>
    split at h
    · cases h
    · cases h
      exact .splitterAxis mode a
  · cases h

theorem revised_stretch {item factor : Nat}
    (h : (Setter.setStretch view item factor).outcome l = .ok (some (l', events))) :
    Revised l view (.stretch item factor) l' := by
  rw [Setter.outcome_setStretch] at h
  obtain ⟨⟨⟩, hf, h⟩ := bind_ok h
  have valid := le_of_requireFactor hf
  split at h
  · next b mode =>
    obtain ⟨⟨⟩, hc, h⟩ := bind_ok h
    obtain ⟨v, look, child⟩ := child_of_requireChild hc
    split at h
    · cases h
    · cases h
      exact .boxStretch mode look child valid
  · next f mode =>
    obtain ⟨⟨⟩, hc, h⟩ := bind_ok h
    obtain ⟨v, look, child⟩ := child_of_requireChild hc
    split at h
    · cases h
    · cases h
      exact .flowStretch mode look child valid
  · next s mode =>
    obtain ⟨⟨⟩, hc, h⟩ := bind_ok h
    obtain ⟨v, look, child⟩ := pane_of_requirePane hc
    split at h
    · cases h
    · cases h
      exact .splitterStretch mode look child valid
  · cases h

theorem revised_range {item : Nat} {r : Range}
    (h : (Setter.setRange view item r).outcome l = .ok (some (l', events))) :
    Revised l view (.range item r) l' := by
  rw [Setter.outcome_setRange] at h
  split at h
  · next g mode =>
    obtain ⟨⟨⟩, valid, h⟩ := bind_ok h
    obtain ⟨⟨⟩, hc, h⟩ := bind_ok h
    obtain ⟨v, look, child⟩ := child_of_requireChild hc
    cases h
    exact .range mode look child valid
  · cases h

theorem revised_rowStretch {row : Int} {factor : Nat}
    (h : (Setter.setRowStretch attached row factor).outcome l = .ok (some (l', events))) :
    Revised l view (.rowStretch row factor) l' := by
  rw [Setter.outcome_setRowStretch] at h
  split at h
  · next g mode =>
    obtain ⟨i, ht, h⟩ := bind_ok h
    obtain ⟨origin, valid, rfl⟩ := of_requireTrack ht
    split at h
    · cases h
    · cases h
      exact .rowStretch mode origin valid
  · cases h

theorem revised_columnStretch {column : Int} {factor : Nat}
    (h : (Setter.setColumnStretch attached column factor).outcome l = .ok (some (l', events))) :
    Revised l view (.columnStretch column factor) l' := by
  rw [Setter.outcome_setColumnStretch] at h
  split at h
  · next g mode =>
    obtain ⟨i, ht, h⟩ := bind_ok h
    obtain ⟨origin, valid, rfl⟩ := of_requireTrack ht
    split at h
    · cases h
    · cases h
      exact .columnStretch mode origin valid
  · cases h

theorem revised_handleWidth {width : Int}
    (h : (Setter.setHandleWidth width).outcome l = .ok (some (l', events))) :
    Revised l view (.handleWidth width) l' := by
  rw [Setter.outcome_setHandleWidth] at h
  unfold Splitter.checkHandleWidth at h
  split at h
  · next s mode =>
    split at h
    · cases h
    split at h
    · cases h
    · next hw =>
      cases h
      exact .handleWidth mode (Int.not_lt.mp hw)
  · cases h

theorem revised_fixed {item : Nat} {on : Bool}
    (h : (Setter.setFixed view item on).outcome l = .ok (some (l', events))) :
    Revised l view (.fixed item on) l' := by
  rw [Setter.outcome_setFixed] at h
  split at h
  · next s mode =>
    split at h
    · cases h
    · obtain ⟨⟨⟩, hc, h⟩ := bind_ok h
      cases h
      obtain ⟨v, look, child⟩ := pane_of_requirePane hc
      exact .fixed mode look child on
  · cases h

theorem revised_fractions {values : List Float}
    (h : (Setter.setFractions view values).outcome l = .ok (some (l', events))) :
    Revised l view (.fractions values) l' := by
  rw [Setter.outcome_setFractions] at h
  split at h
  · next s mode =>
    split at h
    · cases h
    · cases h
    · next f v valid =>
      dsimp only at h
      split at h
      · cases h
      · cases h
        exact .fractions mode rfl valid
  · cases h

theorem revised_release {handle : Nat} {position : Int}
    (h : (Setter.releaseHandle view handle position).outcome l = .ok (some (l', events))) :
    Revised l view (.release handle position) l' := by
  rw [Setter.outcome_releaseHandle] at h
  unfold drag? at h
  split at h
  · next s mode =>
    split at h
    · cases h
    split at h
    · cases h
    · next d hd =>
      cases h
      rw [mode] at hd
      cases view with
      | none => cases hd
      | some v => exact .release mode rfl hd position
  · cases h

theorem revised_of_revise {c : Change}
    (h : l.revise attached view c = .ok (some (l', events))) : Revised l view c l' := by
  cases c with
  | margins m => exact revised_margins h
  | spacing n => exact revised_spacing h
  | alignment a => exact revised_alignment h
  | axis a => exact revised_axis h
  | stretch item factor => exact revised_stretch h
  | range item r => exact revised_range h
  | rowStretch row factor => exact revised_rowStretch h
  | columnStretch column factor => exact revised_columnStretch h
  | handleWidth width => exact revised_handleWidth h
  | fixed item on => exact revised_fixed h
  | fractions values => exact revised_fractions h
  | release handle position => exact revised_release h

theorem revise_of_revised? {c : Change} (h : l.revised? attached view c = some l') :
    ∃ events, l.revise attached view c = .ok (some (l', events)) := by
  unfold revised? at h
  split at h
  · next hr =>
    cases h
    exact ⟨_, hr⟩
  · cases h

theorem revised_of_revised? {c : Change} (h : l.revised? attached view c = some l') :
    Revised l view c l' := by
  obtain ⟨events, h⟩ := revise_of_revised? h
  exact revised_of_revise h

/-- The only thing that an accepted change reports itself is a handle that is let go. -/
theorem reported_of_revise {c : Change}
    (h : l.revise attached view c = .ok (some (l', events))) :
    ∀ e ∈ events, ∃ handle position, e = .handleReleased handle position := by
  rw [revise] at h
  cases c with
  | release handle position =>
    rw [Change.steps, Setter.outcome_releaseHandle] at h
    repeat' split at h
    all_goals cases h
    simp
  | margins | spacing | alignment | axis | fractions =>
    simp only [Change.steps, Setter.outcome_setMargins, Setter.outcome_setSpacing,
      Setter.outcome_setAlignment, Setter.outcome_setAxis, Setter.outcome_setFractions] at h
    repeat' split at h
    all_goals cases h
    all_goals nofun
  | stretch item factor =>
    rw [Change.steps, Setter.outcome_setStretch] at h
    obtain ⟨⟨⟩, -, h⟩ := bind_ok h
    split at h
    all_goals first | cases h | obtain ⟨⟨⟩, -, h⟩ := bind_ok h
    all_goals split at h <;> cases h
    all_goals nofun
  | range item r =>
    rw [Change.steps, Setter.outcome_setRange] at h
    split at h
    · obtain ⟨⟨⟩, -, h⟩ := bind_ok h
      obtain ⟨⟨⟩, -, h⟩ := bind_ok h
      cases h
      nofun
    · cases h
  | rowStretch i factor | columnStretch i factor =>
    simp only [Change.steps, Setter.outcome_setRowStretch, Setter.outcome_setColumnStretch] at h
    split at h
    · obtain ⟨_, -, h⟩ := bind_ok h
      split at h <;> cases h
      nofun
    · cases h
  | handleWidth | fixed =>
    simp only [Change.steps, Setter.outcome_setHandleWidth, Setter.outcome_setFixed] at h
    split at h
    · split at h
      · cases h
      · obtain ⟨⟨⟩, -, h⟩ := bind_ok h
        cases h
        nofun
    · cases h

end Accepted

end Layout

end PixelLayout
