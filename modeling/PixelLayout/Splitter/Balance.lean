import PixelLayout.Splitter.Pane

/-!
# Handing out space pixel by pixel

When the space of a splitter changes, each pixel goes to the pane that has grown least for its
weight, or is taken from the one that has grown most; the first of equals is chosen. Panes that
are fixed, keep their size or are at their limit are passed over. The pixels for which no pane is
left stay unassigned.
-/

set_option autoImplicit false

namespace PixelLayout.Splitter

structure Candidate where
  id : Nat
  growth : Int
  weight : Nat
  deriving DecidableEq, Repr

def hasRoom (growing : Bool) (l : Limits) (p : Pane) : Bool :=
  if growing then l.most.all (p.size < ·) else l.least < p.size

def candidate? (growing : Bool) (panes : Panes) (l : Limits) : Option Candidate :=
  match panes.get? l.id with
  | some p =>
    if p.fixed || p.keepsSize || !hasRoom growing l p then none
    else some ⟨l.id, p.growth, max p.weight 1⟩
  | none => none

def Candidate.precedes (growing : Bool) (a b : Candidate) : Bool :=
  if growing then a.growth * b.weight < b.growth * a.weight
  else a.growth * b.weight > b.growth * a.weight

def choose (growing : Bool) (cs : List Candidate) : Option Candidate :=
  cs.foldl (fun best c =>
    match best with
    | none => some c
    | some b => if c.precedes growing b then some c else some b) none

def Pane.nudge (growing : Bool) (p : Pane) : Pane :=
  let d := if growing then 1 else -1
  { p with size := p.size + d, growth := p.growth + d }

def nudge? (growing : Bool) (limits : List Limits) (panes : Panes) : Option Panes :=
  (choose growing (limits.filterMap (candidate? growing panes))).map fun c =>
    panes.modify c.id .fresh (.nudge growing)

def pour (growing : Bool) (limits : List Limits) : Nat → Panes → Panes × Nat
  | 0, panes => (panes, 0)
  | n + 1, panes =>
    match nudge? growing limits panes with
    | some panes => pour growing limits n panes
    | none => (panes, n + 1)

def distribute (limits : List Limits) (panes : Panes) (amount : Int) : Panes × Int :=
  let (panes, left) := pour (0 < amount) limits amount.natAbs panes
  (panes, if 0 < amount then left else -(left : Int))

end PixelLayout.Splitter
