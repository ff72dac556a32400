import PixelLayout.Offscreen.Container

/-!
# Probes

A probe stands between layouts and a container. It passes everything on except that the container
is suspended. On each commit it notes how far the pass of its layout has come, and after a full
commit it goes through the next entry of its agenda: actions on the container, and maybe a request
to its layout.
-/

set_option autoImplicit false

namespace PixelLayout.Offscreen

structure Errand where
  actions : List Action
  request : Option Bool

structure Sight where
  performing : Bool
  pending : Bool
  deriving DecidableEq, Repr

structure Probe where
  layout : Option Nat
  seen : List Sight
  agenda : List Errand

namespace Probe

def fresh (agenda : List Errand) : Probe := ⟨none, [], agenda⟩

def note (p : Probe) (flags : Nat → Option PassFlags) : Probe :=
  match p.layout.bind flags with
  | some f => { p with seen := p.seen ++ [⟨f.performing, f.pending⟩] }
  | none => p

def request (p : Probe) (e : Errand) : List Ask :=
  match p.layout, e.request with
  | some layout, some reset => [⟨layout, reset⟩]
  | _, _ => []

end Probe

structure Mount where
  container : Container
  probe : Option Probe

namespace Mount

def view (m : Mount) : View :=
  ⟨m.probe.isNone && m.container.suspended, m.container.children, m.container.bounds⟩

structure Result where
  answer : Except CommitError Unit
  mount : Mount
  asks : List Ask

def runErrand (c : Container) (p : Probe) : Mount × List Ask :=
  match p.agenda with
  | [] => (⟨c, some p⟩, [])
  | e :: agenda =>
    let (c, asks) := c.actAll e.actions
    (⟨c, some { p with agenda }⟩, asks ++ p.request e)

def commit (m : Mount) (flags : Nat → Option PassFlags) (batch : Batch) : Result :=
  let r := m.container.commit batch
  match m.probe.map (·.note flags), r.answer with
  | none, answer => ⟨answer, ⟨r.container, none⟩, r.asks⟩
  | some p, .error e => ⟨.error e, ⟨r.container, some p⟩, r.asks⟩
  | some p, .ok () =>
    let (mount, asks) := runErrand r.container p
    ⟨.ok (), mount, r.asks ++ asks⟩

end Mount

end PixelLayout.Offscreen
