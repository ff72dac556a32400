import PixelLayout.Offscreen.World

/-!
# Sessions

A session is a list of steps on a world of layouts and containers. Every step has an answer and
the events that layouts reported during it.
-/

set_option autoImplicit false

namespace PixelLayout.Offscreen

inductive Call where
  | attach
  | detach
  | update (reset : Bool)
  | requestUpdate (reset : Bool)
  | requestRelayout (times : Nat)
  | change (c : Change)
  | flags
  | minSize
  | minSizeFor (size : Size)
  | stretch (item : Nat)
  | rows (width : Int)
  | range (item : Nat)
  | itemAt (row column : Nat)
  | rowStretch (row : Nat)
  | columnStretch (column : Nat)
  | isFixed (item : Nat)
  | pane (item : Nat)
  | fractions
  | clampHandle (handle : Nat) (position : Int)

inductive Task where
  | act (a : Action)
  | dropContainer
  | call (c : Call)

structure Step where
  layout : Nat
  container : Nat
  hold : Hold
  task : Task

inductive Answer where
  | response (r : Response)
  | flags (f : Flags)
  | size (s : Size)
  | number (n : Nat)
  | flag (b : Bool)
  | rows (ids : List (List Nat))
  | range (r : Option Range)
  | item (id : Option Nat)
  | pane (p : Option Splitter.Pane)
  | fractions (f : Splitter.Fractions)
  | position (p : Option Int)
  | refused (e : LayoutError)
  | noLayout
  | noContainer
  | noSuchStep

structure Record where
  answer : Answer
  events : List Event
  world : World

def Answer.done : Answer := .response .done

def Answer.ofQuery (mode : Mode) (settings : Settings) (view : Option View) (c : Call) : Answer :=
  match mode, c with
  | .box b, .stretch id => .number (b.stretch.factor id)
  | .flow f, .stretch id => .number (f.stretch.factor id)
  | .flow _, .rows width =>
    let rows := (view.map fun v => Flow.rows settings v.children width).getD []
    .rows (rows.map fun row => row.map (·.id))
  | .grid g, .range id => .range (g.ranges.get? id)
  | .grid g, .itemAt row column => .item (g.itemAt row column)
  | .grid g, .rowStretch row => .number (Grid.stretchAt g.rowStretch row)
  | .grid g, .columnStretch column => .number (Grid.stretchAt g.columnStretch column)
  | .splitter s, .stretch id => .number (Splitter.stretchOf s.panes id)
  | .splitter s, .isFixed id => .flag ((s.panes.get? id).any (·.fixed))
  | .splitter s, .pane id => .pane (s.panes.get? id)
  | .splitter s, .fractions => .fractions ((view.map fun v => s.fractions v.children).getD .empty)
  | _, _ => .noSuchStep

def Answer.ofChange (l : Layout) (view : Option View) : Change → Answer
  | .release handle p => .position (l.clampHandle view handle p)
  | _ => .done

namespace World

def holdOf (w : World) (step : Step) (j : Nat) : Hold :=
  -- A probe passes everything on at once, and is never held.
  if step.container = j && (w.mount? j).any (·.probe.isNone) then step.hold else .free

def hostOf (w : World) (step : Step) (slot : Slot) : Option (Host World) :=
  (w.home? slot).map fun j => host step.layout j (w.holdOf step j)

def viewOf (w : World) (step : Step) (slot : Slot) : Option View :=
  (w.hostOf step slot).bind (·.look w)

def answered (w : World) (step : Step) (a : Answer) (l : Layout) : Record :=
  ⟨a, [], w.setLayout step.layout l⟩

def finished (step : Step) (a : Answer) (o : Outcome World) : Record :=
  let answer := match o.result with
    | .ok () => a
    | .error e => .refused e
  ⟨answer, o.events, o.state.setLayout step.layout o.layout⟩

def attach (w : World) (step : Step) (slot : Slot) : Record :=
  match w.mount? step.container with
  | none => ⟨.noContainer, [], w⟩
  | some m =>
    let probe := m.probe.map fun p => { p with layout := some step.layout }
    let w := w.setMount step.container (some { m with probe })
    ⟨.done, [], w.setSlot step.layout ⟨slot.layout.attach, some step.container⟩⟩

def requestRelayout (w : World) (step : Step) (times : Nat) : Record :=
  match w.mount? step.container with
  | none => ⟨.noContainer, [], w⟩
  | some m =>
    let container := { m.container with relayout := some ⟨step.layout, times⟩ }
    ⟨.done, [], w.setMount step.container (some { m with container })⟩

def call (w : World) (step : Step) (slot : Slot) (c : Call) : Record :=
  let l := slot.layout
  let host := w.hostOf step slot
  let view := w.viewOf step slot
  match c with
  | .attach => w.attach step slot
  | .detach => ⟨.done, [], w.setSlot step.layout ⟨l.detach, none⟩⟩
  | .update reset => finished step .done (l.update host reset w)
  | .requestUpdate reset => w.answered step .done (l.request reset)
  | .requestRelayout times => w.requestRelayout step times
  | .change change =>
    if change.appliesTo l.mode then
      finished step (.ofChange l view change) (l.apply host change w)
    else ⟨.noSuchStep, [], w⟩
  | .flags => ⟨.flags (l.reportedFlags view), [], w⟩
  | .minSize =>
    let (size, l) := l.minSize view
    w.answered step (.size size) l
  | .minSizeFor size =>
    let (size, l) := l.minSizeFor view size
    w.answered step (.size size) l
  | .clampHandle handle position =>
    match l.mode with
    | .splitter _ => ⟨.position (l.clampHandle view handle position), [], w⟩
    | _ => ⟨.noSuchStep, [], w⟩
  | query => ⟨.ofQuery l.mode l.settings view query, [], w⟩

def act (w : World) (step : Step) (a : Action) : Record :=
  match w.mount? step.container with
  | some m =>
    let r := m.container.act a
    let w := w.setMount step.container (some { m with container := r.container })
    ⟨.response r.answer, [], w.askAll r.asks⟩
  | none => ⟨if (w.slot? step.layout).isNone then .noLayout else .noSuchStep, [], w⟩

def perform (w : World) (step : Step) : Record :=
  match step.task with
  | .act a => w.act step a
  | .dropContainer => ⟨.done, [], w.setMount step.container none⟩
  | .call c =>
    match w.slot? step.layout with
    | some slot => w.call step slot c
    | none => ⟨.noLayout, [], w⟩

def run (w : World) : List Step → List Record
  | [] => []
  | step :: steps =>
    let r := w.perform step
    r :: r.world.run steps

end World

def World.fresh (mounts : List Mount) (layouts : List (Except ParameterError Layout)) : World where
  mounts := mounts.map some
  slots := layouts.map fun l => l.toOption.map (⟨·, none⟩)

end PixelLayout.Offscreen
