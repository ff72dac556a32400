import PixelLayout.Layout.Update

/-!
# Containers in memory

A container keeps its bounds, its children, the last rectangle committed for each item and the
last batch that was committed in full. It can be suspended, made to fail part way through its
commits, and made to ask a layout for a further pass on each of its next commits.

What happens to a container apart from passes is an action, and each action has an answer.
Commits leave requests for layouts, which are carried out by whoever has the layouts.
-/

set_option autoImplicit false

namespace PixelLayout.Offscreen

structure Ask where
  layout : Nat
  reset : Bool
  deriving DecidableEq, Repr

structure Relayout where
  layout : Nat
  times : Nat
  deriving DecidableEq, Repr

structure Container where
  bounds : Rect
  children : List Item
  suspended : Bool
  geometry : Table Rect
  lastBatch : Batch
  commits : Nat
  failAfter : Option Nat
  relayout : Option Relayout

inductive Action where
  | push (item : Item)
  | remove (item : Nat)
  | setBounds (bounds : Rect)
  | suspend
  | resume
  | failAfter (count : Nat)
  | clearFailure
  | setMin (item : Nat) (size : Size)
  | setPreferred (item : Nat) (size : Size)
  | setVisible (item : Nat) (visible : Bool)
  | geometryOf (item : Nat)
  | batchGet (item : Nat)
  | commit (batch : Batch)

inductive Response where
  | done
  | found (yes : Bool)
  | rect (r : Option Rect)
  | failed (e : CommitError)
  deriving DecidableEq, Repr

namespace Container

def fresh (bounds : Rect) (children : List Item) : Container :=
  ⟨bounds, children, false, .empty, [], 0, none, none⟩

structure Result (α : Type) where
  answer : α
  container : Container
  asks : List Ask

def store (c : Container) (batch : Batch) : Container :=
  { c with geometry := batch.foldl (fun t e => t.insert e.1 e.2) c.geometry }

def failureReason : String := "injected commit failure"

def nextAsk : Option Relayout → Option Relayout × List Ask
  | some ⟨layout, times + 1⟩ => (some ⟨layout, times⟩, [⟨layout, false⟩])
  | r => (r, [])

def commit (c : Container) (batch : Batch) : Result (Except CommitError Unit) :=
  match c.failAfter.filter (· < batch.length) with
  | some n => ⟨.error ⟨n, failureReason⟩, c.store (batch.take n), []⟩
  | none =>
    let (relayout, asks) := nextAsk c.relayout
    let c := c.store batch
    ⟨.ok (), { c with lastBatch := batch, commits := c.commits + 1, relayout }, asks⟩

def hasChild (c : Container) (item : Nat) : Bool := c.children.any (·.id == item)

def adjustFirst (item : Nat) (f : Item → Item) : List Item → List Item
  | [] => []
  | c :: cs => if c.id = item then f c :: cs else c :: adjustFirst item f cs

def adjust (c : Container) (item : Nat) (f : Item → Item) : Result Response :=
  ⟨.found (c.hasChild item), { c with children := adjustFirst item f c.children }, []⟩

def remove (c : Container) (item : Nat) : Result Response :=
  if c.hasChild item then
    let children := c.children.eraseP (·.id == item)
    ⟨.found true, { c with children, geometry := c.geometry.erase item }, []⟩
  else ⟨.found false, c, []⟩

def act (c : Container) : Action → Result Response
  | .push item => ⟨.done, { c with children := c.children ++ [item] }, []⟩
  | .remove item => c.remove item
  | .setBounds bounds => ⟨.done, { c with bounds }, []⟩
  | .suspend => ⟨.done, { c with suspended := true }, []⟩
  | .resume => ⟨.done, { c with suspended := false }, []⟩
  | .failAfter count => ⟨.done, { c with failAfter := some count }, []⟩
  | .clearFailure => ⟨.done, { c with failAfter := none }, []⟩
  | .setMin item size => c.adjust item fun i => { i with min := size }
  | .setPreferred item size => c.adjust item fun i => { i with preferred := size }
  | .setVisible item visible => c.adjust item fun i => { i with visible }
  | .geometryOf item => ⟨.rect (c.geometry.get? item), c, []⟩
  | .batchGet item => ⟨.rect (c.lastBatch.get? item), c, []⟩
  | .commit batch =>
    let r := c.commit batch
    ⟨match r.answer with
      | .ok () => .done
      | .error e => .failed e, r.container, r.asks⟩

def actAll (c : Container) : List Action → Container × List Ask
  | [] => (c, [])
  | a :: rest =>
    let r := c.act a
    let (c, asks) := r.container.actAll rest
    (c, r.asks ++ asks)

end Container

end PixelLayout.Offscreen
