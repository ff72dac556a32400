import PixelLayout.Proofs.History.Atomic

/-!
# What the steps of a change come to

Since nothing is written before the last check, all that a change comes to is a refusal or at most
one new layout, and each kind of change is its checks and that layout.
-/

set_option autoImplicit false

namespace PixelLayout

abbrev Revision := Option (Layout × List Event)

def Layout.withMode (l : Layout) (mode : Mode) : Revision := some ({ l with mode := mode }, [])

namespace Setter

def outcome (p : Setter Report) (l : Layout) : Except ParameterError Revision :=
  match p.run l with
  | .error e _ => .error e
  | .ok none _ => .ok none
  | .ok (some events) l' => .ok (some (l', events))

section Steps

variable {α : Type} (p q : Setter Report) (l : Layout)

@[simp] theorem outcome_idle : outcome (return none) l = .ok none := rfl

@[simp] theorem outcome_report (events : List Event) :
    outcome (return some events) l = .ok (some (l, events)) := rfl

@[simp] theorem outcome_throw (e : ParameterError) : outcome (throw e) l = .error e := rfl

@[simp] theorem outcome_unsupported (setting : String) :
    outcome (unsupported setting) l = .error (.unsupported setting) := rfl

@[simp] theorem outcome_ite (c : Prop) [Decidable c] :
    outcome (if c then p else q) l = if c then outcome p l else outcome q l :=
  apply_ite (outcome · l) c p q

@[simp] theorem outcome_get (rest : Layout → Setter Report) :
    outcome (do let l ← get; rest l) l = outcome (rest l) l := rfl

@[simp] theorem outcome_check (x : Except ParameterError α) (rest : α → Setter Report) :
    outcome (do let a ← check x; rest a) l = x >>= fun a => outcome (rest a) l := by
  cases x <;> rfl

@[simp] theorem outcome_putSettings (settings : Settings) :
    outcome (do putSettings settings; p) l = outcome p { l with settings } := rfl

@[simp] theorem outcome_putMode (mode : Mode) :
    outcome (do putMode mode; p) l = outcome p { l with mode } := rfl

@[simp] theorem outcome_askReset :
    outcome (do askReset; p) l = outcome p l.resetLater := rfl

variable {p l}

theorem Atomic.run_refused (atomic : p.Atomic) {e : ParameterError}
    (refused : p.outcome l = .error e) : p.run l = .error e l := by
  have kept := atomic l
  unfold outcome at refused
  split at refused
  · next run =>
    rw [run] at kept
    cases refused
    rw [run, kept]
  · cases refused
  · cases refused

theorem Atomic.run_idle (atomic : p.Atomic) (idle : p.outcome l = .ok none) :
    p.run l = .ok none l := by
  have kept := atomic l
  unfold outcome at idle
  split at idle
  · cases idle
  · next run =>
    rw [run] at kept
    rw [run, kept]
  · cases idle

theorem run_of_outcome {l' : Layout} {events : List Event}
    (made : p.outcome l = .ok (some (l', events))) : p.run l = .ok (some events) l' := by
  unfold outcome at made
  split at made
  · cases made
  · cases made
  · next run =>
    cases made
    exact run

end Steps

section Kinds

variable (l : Layout) (attached : Bool) (view : Option View)

theorem outcome_setMargins (m : Margins) :
    (setMargins m).outcome l =
      match l.mode with
      | .splitter _ => if m = .zero then .ok none else .error (.unsupported "margins")
      | _ =>
        if m = l.settings.margins then .ok none
        else if m.hasNegative then .error (.negativeMargin m)
        else .ok (some ({ l with settings := { l.settings with margins := m } }, [])) := by
  unfold setMargins
  cases mode : l.mode <;> simp [mode, -bind_pure_comp]

theorem outcome_setSpacing (n : Int) :
    (setSpacing n).outcome l =
      match l.mode with
      | .splitter _ => if n = 0 then .ok none else .error (.unsupported "spacing")
      | _ =>
        if n = l.settings.spacing then .ok none
        else if n < 0 then .error (.negativeSpacing n)
        else .ok (some ({ l with settings := { l.settings with spacing := n } }, [])) := by
  unfold setSpacing
  cases mode : l.mode <;> simp [mode, -bind_pure_comp]

theorem outcome_setAlignment (a : Alignment) :
    (setAlignment a).outcome l =
      match l.mode with
      | .splitter _ => .error (.unsupported "alignment")
      | _ =>
        if a = l.settings.alignment then .ok none
        else .ok (some ({ l with settings := { l.settings with alignment := a } }, [])) := by
  unfold setAlignment
  cases mode : l.mode <;> simp [mode, -bind_pure_comp]

theorem outcome_setAxis (a : Axis) :
    (setAxis a).outcome l =
      match l.mode with
      | .box b => if a = b.axis then .ok none else .ok (l.withMode (.box { b with axis := a }))
      | .splitter s =>
        if a = s.axis then .ok none
        else .ok (l.resetLater.withMode (.splitter { s with axis := a }))
      | _ => .error (.unsupported "orientation") := by
  unfold setAxis
  cases mode : l.mode <;> simp [mode, Layout.withMode, Layout.resetLater, -bind_pure_comp]

theorem outcome_setStretch (item factor : Nat) :
    (setStretch view item factor).outcome l = requireFactor factor >>= fun _ =>
      match l.mode with
      | .box b => do
        requireChild view item
        if factor = b.stretch.factor item then .ok none
        else .ok (l.withMode (.box { b with stretch := b.stretch.set item factor }))
      | .flow f => do
        requireChild view item
        if factor = f.stretch.factor item then .ok none
        else .ok (l.withMode (.flow { f with stretch := f.stretch.set item factor }))
      | .splitter s => do
        requirePane view item
        if factor = Splitter.stretchOf s.panes item then .ok none
        else .ok (l.resetLater.withMode (.splitter (s.restretch item factor)))
      | .grid _ => .error (.unsupported "stretch") := by
  unfold setStretch
  cases mode : l.mode <;> simp [mode, Layout.withMode, Layout.resetLater, -bind_pure_comp]

theorem outcome_setRange (item : Nat) (r : Range) :
    (setRange view item r).outcome l =
      match l.mode with
      | .grid g => do
        r.check
        requireChild view item
        .ok (l.withMode (.grid (g.assign item r)))
      | _ => .error (.unsupported "range") := by
  unfold setRange
  cases mode : l.mode <;> simp [mode, Layout.withMode, -bind_pure_comp]

theorem outcome_setRowStretch (row : Int) (factor : Nat) :
    (setRowStretch attached row factor).outcome l =
      match l.mode with
      | .grid g => do
        let row ← requireTrack attached "row" row factor
        if factor = Grid.stretchAt g.rowStretch row then .ok none
        else
          let g := g.grow (row + 1) g.columnCount
          .ok (l.withMode (.grid { g with rowStretch := g.rowStretch.set row factor }))
      | _ => .error (.unsupported "row stretch") := by
  unfold setRowStretch
  cases mode : l.mode <;> simp [mode, Layout.withMode, -bind_pure_comp]

theorem outcome_setColumnStretch (column : Int) (factor : Nat) :
    (setColumnStretch attached column factor).outcome l =
      match l.mode with
      | .grid g => do
        let column ← requireTrack attached "column" column factor
        if factor = Grid.stretchAt g.columnStretch column then .ok none
        else
          let g := g.grow g.rowCount (column + 1)
          .ok (l.withMode (.grid { g with columnStretch := g.columnStretch.set column factor }))
      | _ => .error (.unsupported "column stretch") := by
  unfold setColumnStretch
  cases mode : l.mode <;> simp [mode, Layout.withMode, -bind_pure_comp]

theorem outcome_setHandleWidth (width : Int) :
    (setHandleWidth width).outcome l =
      match l.mode with
      | .splitter s =>
        if width = s.handleWidth then .ok none
        else do
          Splitter.checkHandleWidth width
          .ok (l.withMode (.splitter { s with handleWidth := width }))
      | _ => .error (.unsupported "handle width") := by
  unfold setHandleWidth
  cases mode : l.mode <;> simp [mode, Layout.withMode, -bind_pure_comp]

theorem outcome_setFixed (item : Nat) (on : Bool) :
    (setFixed view item on).outcome l =
      match l.mode with
      | .splitter s =>
        if on = (s.panes.get? item).any (·.fixed) then .ok none
        else do
          requirePane view item
          let panes := s.panes.modify item .fresh fun p => { p with fixed := on }
          .ok (l.withMode (.splitter { s with panes }))
      | _ => .error (.unsupported "fixed") := by
  unfold setFixed
  cases mode : l.mode <;> simp [mode, Layout.withMode, -bind_pure_comp]

theorem outcome_setFractions (values : List Float) :
    (setFractions view values).outcome l =
      match l.mode with
      | .splitter s =>
        match Splitter.Fractions.ofList values, view with
        | .error fault, _ => .error fault.toError
        | .ok _, none => .error .containerRequired
        | .ok fractions, some v =>
          let ids := (Splitter.alternate v.children).map (·.id)
          if ids.length ≠ fractions.values.length then
            .error Splitter.FractionFault.wrongCount.toError
          else .ok (l.resetLater.withMode (.splitter (s.pinAll (ids.zip fractions.values))))
      | _ => .error (.unsupported "fractions") := by
  unfold setFractions
  cases mode : l.mode with
  | splitter s =>
    cases Splitter.Fractions.ofList values <;> cases view <;>
      simp [mode, Layout.withMode, Layout.resetLater, -bind_pure_comp]
  | _ => simp [mode]

theorem outcome_releaseHandle (handle : Nat) (position : Int) :
    (releaseHandle view handle position).outcome l =
      match l.mode with
      | .splitter s =>
        if view.isNone then .error .containerRequired
        else match l.drag? view handle with
          | none => .error (.invalidHandle handle)
          | some d =>
            let position := d.clamp position
            .ok (some ({ l with mode := .splitter (s.drop d position) },
              [.handleReleased handle position]))
      | _ => .error (.unsupported "handles") := by
  unfold releaseHandle
  cases mode : l.mode with
  | splitter s => cases drag : l.drag? view handle <;> simp [mode, drag, -bind_pure_comp]
  | _ => simp [mode]

end Kinds

end Setter

end PixelLayout
