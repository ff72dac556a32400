import PixelLayout.Layout.Basic

/-!
# Changing a setting

A change goes step by step: it reads the layout, checks itself against the layout and its view of
the container, and writes. A check that fails ends it, and the layout stays as it is at that moment.
A change that is through says what it reports, or that the setting is already as it asks for.
-/

set_option autoImplicit false

namespace PixelLayout

inductive Change where
  | margins (m : Margins)
  | spacing (n : Int)
  | alignment (a : Alignment)
  | axis (a : Axis)
  | stretch (item factor : Nat)
  | range (item : Nat) (r : Range)
  | rowStretch (row : Int) (factor : Nat)
  | columnStretch (column : Int) (factor : Nat)
  | handleWidth (width : Int)
  | fixed (item : Nat) (on : Bool)
  | fractions (values : List Float)
  | release (handle : Nat) (position : Int)

def Change.appliesTo (mode : Mode) : Change → Bool
  | margins _ | spacing _ => true
  | alignment _ => match mode with
    | .splitter _ => false
    | _ => true
  | axis _ => match mode with
    | .box _ | .splitter _ => true
    | _ => false
  | stretch _ _ => match mode with
    | .grid _ => false
    | _ => true
  | range _ _ | rowStretch _ _ | columnStretch _ _ => match mode with
    | .grid _ => true
    | _ => false
  | handleWidth _ | fixed _ _ | fractions _ | release _ _ => match mode with
    | .splitter _ => true
    | _ => false

def requireChild (view : Option View) (item : Nat) : Except ParameterError Unit :=
  match view with
  | none => .error .containerRequired
  | some v => if v.children.any (·.id == item) then .ok () else .error (.unknownItem item)

def requirePane (view : Option View) (item : Nat) : Except ParameterError Unit :=
  match view with
  | none => .error .containerRequired
  | some v =>
    match v.children.findIdx? (·.id == item) with
    | some i => if i % 2 = 0 then .ok () else .error (.unknownItem item)
    | none => .error (.unknownItem item)

def requireFactor (factor : Nat) : Except ParameterError Unit :=
  if factor < 1 then .error (.stretchBelowOne factor) else .ok ()

def requireTrack (attached : Bool) (track : String) (index : Int) (factor : Nat) :
    Except ParameterError Nat :=
  if index < 0 then .error (.negativeGridTrack track index)
  else if factor < 1 then .error (.stretchBelowOne factor)
  else if !attached then .error .containerRequired
  else .ok index.toNat

/-- Steps of a change. One that fails leaves the layout as the steps before it made it. -/
abbrev Setter := EStateM ParameterError Layout

abbrev Report := Option (List Event)

def Splitter.restretch (s : Splitter) (item factor : Nat) : Splitter :=
  let panes := s.panes.modify item .fresh fun p => { p with stretch := factor }
  let panes := panes.map fun p => { p with fraction := none, weight := p.stretch }
  { s with panes }

def Splitter.pinAll (s : Splitter) (shares : List (Nat × Float)) : Splitter :=
  let pin (panes : Table Pane) (share : Nat × Float) : Table Pane :=
    panes.modify share.1 .fresh fun p =>
      { p with fraction := some share.2, weight := fractionWeight share.2, growth := 0 }
  { s with panes := shares.foldl pin s.panes }

namespace Setter

def check {α : Type} : Except ParameterError α → Setter α
  | .ok a => return a
  | .error e => throw e

def putMode (mode : Mode) : Setter Unit := modify fun l => { l with mode := mode }

def putSettings (settings : Settings) : Setter Unit :=
  modify fun l => { l with settings := settings }

def askReset : Setter Unit := modify Layout.resetLater

def unsupported (setting : String) : Setter Report := throw (.unsupported setting)

def setMargins (m : Margins) : Setter Report := do
  let l ← get
  match l.mode with
  | .splitter _ => if m = .zero then return none else unsupported "margins"
  | _ =>
    if m = l.settings.margins then return none
    else if m.hasNegative then throw (.negativeMargin m)
    else
      putSettings { l.settings with margins := m }
      return some []

def setSpacing (n : Int) : Setter Report := do
  let l ← get
  match l.mode with
  | .splitter _ => if n = 0 then return none else unsupported "spacing"
  | _ =>
    if n = l.settings.spacing then return none
    else if n < 0 then throw (.negativeSpacing n)
    else
      putSettings { l.settings with spacing := n }
      return some []

def setAlignment (a : Alignment) : Setter Report := do
  let l ← get
  match l.mode with
  | .splitter _ => unsupported "alignment"
  | _ =>
    if a = l.settings.alignment then return none
    else
      putSettings { l.settings with alignment := a }
      return some []

def setAxis (a : Axis) : Setter Report := do
  let l ← get
  match l.mode with
  | .box b =>
    if a = b.axis then return none
    else
      putMode (.box { b with axis := a })
      return some []
  | .splitter s =>
    if a = s.axis then return none
    else
      putMode (.splitter { s with axis := a })
      askReset
      return some []
  | _ => unsupported "orientation"

def setStretch (view : Option View) (item factor : Nat) : Setter Report := do
  check (requireFactor factor)
  let l ← get
  match l.mode with
  | .box b =>
    check (requireChild view item)
    if factor = b.stretch.factor item then return none
    else
      putMode (.box { b with stretch := b.stretch.set item factor })
      return some []
  | .flow f =>
    check (requireChild view item)
    if factor = f.stretch.factor item then return none
    else
      putMode (.flow { f with stretch := f.stretch.set item factor })
      return some []
  | .splitter s =>
    check (requirePane view item)
    if factor = Splitter.stretchOf s.panes item then return none
    else
      putMode (.splitter (s.restretch item factor))
      askReset
      return some []
  | .grid _ => unsupported "stretch"

def setRange (view : Option View) (item : Nat) (r : Range) : Setter Report := do
  let l ← get
  match l.mode with
  | .grid g =>
    check r.check
    check (requireChild view item)
    putMode (.grid (g.assign item r))
    return some []
  | _ => unsupported "range"

def setRowStretch (attached : Bool) (row : Int) (factor : Nat) : Setter Report := do
  let l ← get
  match l.mode with
  | .grid g =>
    let row ← check (requireTrack attached "row" row factor)
    if factor = Grid.stretchAt g.rowStretch row then return none
    else
      let g := g.grow (row + 1) g.columnCount
      putMode (.grid g)
      putMode (.grid { g with rowStretch := g.rowStretch.set row factor })
      return some []
  | _ => unsupported "row stretch"

def setColumnStretch (attached : Bool) (column : Int) (factor : Nat) : Setter Report := do
  let l ← get
  match l.mode with
  | .grid g =>
    let column ← check (requireTrack attached "column" column factor)
    if factor = Grid.stretchAt g.columnStretch column then return none
    else
      let g := g.grow g.rowCount (column + 1)
      putMode (.grid g)
      putMode (.grid { g with columnStretch := g.columnStretch.set column factor })
      return some []
  | _ => unsupported "column stretch"

def setHandleWidth (width : Int) : Setter Report := do
  let l ← get
  match l.mode with
  | .splitter s =>
    if width = s.handleWidth then return none
    else
      check (Splitter.checkHandleWidth width)
      putMode (.splitter { s with handleWidth := width })
      return some []
  | _ => unsupported "handle width"

def setFixed (view : Option View) (item : Nat) (on : Bool) : Setter Report := do
  let l ← get
  match l.mode with
  | .splitter s =>
    if on = (s.panes.get? item).any (·.fixed) then return none
    else
      check (requirePane view item)
      let panes := s.panes.modify item .fresh fun p => { p with fixed := on }
      putMode (.splitter { s with panes })
      return some []
  | _ => unsupported "fixed"

def setFractions (view : Option View) (values : List Float) : Setter Report := do
  let l ← get
  match l.mode with
  | .splitter s =>
    match Splitter.Fractions.ofList values, view with
    | .error fault, _ => throw fault.toError
    | .ok _, none => throw .containerRequired
    | .ok fractions, some v =>
      let ids := (Splitter.alternate v.children).map (·.id)
      if ids.length ≠ fractions.values.length then throw Splitter.FractionFault.wrongCount.toError
      else
        putMode (.splitter (s.pinAll (ids.zip fractions.values)))
        askReset
        return some []
  | _ => unsupported "fractions"

end Setter

namespace Layout

def drag? (l : Layout) (view : Option View) (handle : Nat) : Option Splitter.Drag :=
  match l.mode, view with
  | .splitter s, some v => s.drag? v.children v.bounds handle
  | _, _ => none

def clampHandle (l : Layout) (view : Option View) (handle : Nat) (position : Int) : Option Int :=
  (l.drag? view handle).map (·.clamp position)

end Layout

def Setter.releaseHandle (view : Option View) (handle : Nat) (position : Int) : Setter Report := do
  let l ← get
  match l.mode with
  | .splitter s =>
    if view.isNone then throw .containerRequired
    else match l.drag? view handle with
      | none => throw (.invalidHandle handle)
      | some d =>
        let position := d.clamp position
        putMode (.splitter (s.drop d position))
        return some [.handleReleased handle position]
  | _ => unsupported "handles"

def Change.steps (attached : Bool) (view : Option View) : Change → Setter Report
  | margins m => .setMargins m
  | spacing n => .setSpacing n
  | alignment a => .setAlignment a
  | axis a => .setAxis a
  | stretch item factor => .setStretch view item factor
  | range item r => .setRange view item r
  | rowStretch row factor => .setRowStretch attached row factor
  | columnStretch column factor => .setColumnStretch attached column factor
  | handleWidth width => .setHandleWidth width
  | fixed item on => .setFixed view item on
  | fractions values => .setFractions view values
  | release handle position => .releaseHandle view handle position

end PixelLayout
