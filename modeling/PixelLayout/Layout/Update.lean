import PixelLayout.Layout.Change

/-!
# Updates

An update runs passes over the container: look, arrange, commit. While it is committed to, the
container may ask for further passes; each request is one more pass, up to a bound, and no pass
runs inside another. A pass that finds the container in use or suspended stays pending.

The container is any host: a way to look at it, and a way to hand it a batch, which gives its
reply, the requests made meanwhile, each of which says whether to start afresh, and its next state.
What arranges the children is a parameter as well, and so may write down what it is called with;
the plain one is the mode itself.
-/

set_option autoImplicit false

namespace PixelLayout

inductive Reply where
  -- in use elsewhere: the batch was not taken
  | busy
  | failed (e : CommitError)
  | applied
  deriving DecidableEq, Repr

structure Commit (σ : Type) where
  reply : Reply
  requests : List Bool
  state : σ

structure Host (σ : Type) where
  look : σ → Option View
  commit : σ → PassFlags → Batch → Commit σ

structure Outcome (σ : Type) where
  result : Except LayoutError Unit
  layout : Layout
  state : σ
  events : List Event

variable {σ : Type}

def Outcome.after (o : Outcome σ) (events : List Event) : Outcome σ :=
  { o with events := events ++ o.events }

abbrev Arranger (m : Type → Type) := Mode → Settings → List Item → Rect → Bool → m Arrangement

def Arranger.plain : Arranger Id := Mode.arrange

def maxPasses : Nat := 8

namespace Layout

def setPending (l : Layout) (pending : Bool) : Layout :=
  { l with flags := { l.flags with pending := pending } }

def setPerforming (l : Layout) (performing : Bool) : Layout :=
  { l with flags := { l.flags with performing := performing } }

def startsAfresh (l : Layout) (children : List Item) : Bool :=
  l.flags.resetNeeded || l.seen != children.map (·.id)

def arranged (l : Layout) (v : View) (a : Arrangement) : Layout :=
  { l with
    flags := { l.flags with resetNeeded := false }
    seen := v.children.map (·.id)
    mode := a.mode }

section Arranged

variable {m : Type → Type} [Monad m] (arrange : Arranger m)

def passesBy (host : Host σ) : Nat → Nat → Layout → σ → m (Outcome σ)
  | 0, number, l, s =>
    return ⟨.ok (), l.setPending false, s, [.unsettled l.mode.name number]⟩
  | left + 1, number, l, s =>
    let l := l.setPending false
    match host.look s with
    | none => return ⟨.ok (), l.setPending true, s, [.containerBusy l.mode.name]⟩
    | some v =>
      if v.suspended then
        return ⟨.ok (), l.setPending true, s, [.containerSuspended l.mode.name]⟩
      else do
        let reset := l.startsAfresh v.children
        let a ← arrange l.mode l.settings v.children v.bounds reset
        let events := .pass l.mode.name number reset v.bounds.size :: a.events
        let l := l.arranged v a
        let c := host.commit s l.flags a.batch
        let l := c.requests.foldl request l
        match c.reply with
        | .busy =>
          return ⟨.ok (), l.setPending true, c.state, events ++ [.commitDeferred l.mode.name]⟩
        | .failed e =>
          return ⟨.error (.commit e), l, c.state, events ++ [.commitFailed l.mode.name e]⟩
        | .applied =>
          if l.flags.pending then
            return (← passesBy host left (number + 1) l c.state).after events
          else return ⟨.ok (), l, c.state, events⟩

def updateBy (host : Option (Host σ)) (reset : Bool) (l : Layout) (s : σ) : m (Outcome σ) :=
  let l := l.forget
  let l := { l with flags := { l.flags with resetNeeded := l.flags.resetNeeded || reset } }
  match host with
  | none => return ⟨.ok (), l, s, [.noContainer l.mode.name]⟩
  | some host => do
    let o ← passesBy arrange host maxPasses 0 (l.setPerforming true) s
    return { o with layout := o.layout.setPerforming false }

def applyBy (host : Option (Host σ)) (change : Change) (l : Layout) (s : σ) : m (Outcome σ) :=
  match (change.steps host.isSome (host.bind (·.look s))).run l with
  | .error e l => return ⟨.error (.parameter e), l, s, []⟩
  | .ok none l => return ⟨.ok (), l, s, []⟩
  | .ok (some events) l =>
    if host.isSome then return (← updateBy arrange host false l.forget s).after events
    else return ⟨.ok (), l.forget, s, events⟩

end Arranged

def passes (host : Host σ) (left number : Nat) (l : Layout) (s : σ) : Outcome σ :=
  Id.run (passesBy .plain host left number l s)

theorem passes_zero (host : Host σ) (number : Nat) (l : Layout) (s : σ) :
    passes host 0 number l s =
      ⟨.ok (), l.setPending false, s, [.unsettled l.mode.name number]⟩ := rfl

def update (host : Option (Host σ)) (reset : Bool) (l : Layout) (s : σ) : Outcome σ :=
  Id.run (updateBy .plain host reset l s)

def apply (host : Option (Host σ)) (change : Change) (l : Layout) (s : σ) : Outcome σ :=
  Id.run (applyBy .plain host change l s)

end Layout

end PixelLayout
