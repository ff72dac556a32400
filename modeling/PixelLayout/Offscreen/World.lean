import PixelLayout.Offscreen.Probe

/-!
# Layouts and containers together

Layouts and containers are known by their indices. A layout is linked to at most one container,
and has none once that container is dropped. While a layout works on its container, requests to
the same layout go to the running update, and requests to other layouts to their flags.

A container may be held by someone else meanwhile: one that is held for reading can be looked at
and takes no batch, and one that is held for writing cannot even be looked at.
-/

set_option autoImplicit false

namespace PixelLayout.Offscreen

inductive Hold where
  | free
  | reading
  | writing
  deriving DecidableEq, Repr, Inhabited

structure Slot where
  layout : Layout
  link : Option Nat

structure World where
  mounts : List (Option Mount)
  slots : List (Option Slot)

namespace World

def mount? (w : World) (i : Nat) : Option Mount := (w.mounts[i]?).join

def slot? (w : World) (i : Nat) : Option Slot := (w.slots[i]?).join

def setMount (w : World) (i : Nat) (m : Option Mount) : World :=
  { w with mounts := w.mounts.set i m }

def setSlot (w : World) (i : Nat) (s : Slot) : World :=
  { w with slots := w.slots.set i (some s) }

def setLayout (w : World) (i : Nat) (l : Layout) : World :=
  match w.slot? i with
  | some s => w.setSlot i { s with layout := l }
  | none => w

def flagsOf (w : World) (i : Nat) : Option PassFlags := (w.slot? i).map (·.layout.flags)

def ask (w : World) (a : Ask) : World :=
  match w.slot? a.layout with
  | some s => w.setSlot a.layout { s with layout := s.layout.request a.reset }
  | none => w

def askAll (w : World) (asks : List Ask) : World := asks.foldl ask w

def home? (w : World) (s : Slot) : Option Nat := s.link.filter fun i => (w.mount? i).isSome

def commit (w : World) (i j : Nat) (hold : Hold) (own : PassFlags) (batch : Batch) :
    Commit World :=
  match hold, w.mount? j with
  | .free, some m =>
    let r := m.commit (fun k => if k = i then some own else w.flagsOf k) batch
    let (mine, others) := r.asks.partition (·.layout == i)
    {
      reply := match r.answer with
        | .ok () => .applied
        | .error e => .failed e
      requests := mine.map (·.reset)
      state := (w.setMount j (some r.mount)).askAll others }
  | _, _ => ⟨.busy, [], w⟩

def host (i j : Nat) (hold : Hold) : Host World where
  look w := if hold = .writing then none else (w.mount? j).map (·.view)
  commit w := w.commit i j hold

end World

end PixelLayout.Offscreen
