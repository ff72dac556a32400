import PixelLayout.Space.Demand
import PixelLayout.Total

/-!
# Sharing out the space along one axis

A request lists demands in line order, with the space available and the spacing between
neighbours. Each demand starts from its minimum. The tiers are walked in order, and each
demand that can grow takes from the excess, which is the space less all minimums and gaps
still to be served, the part that its weight has among the demands of its tier not yet served;
the part is cut off toward zero and the sum fitted to the demand. The last demand of a tier
divides by its own weight and so takes all that is left, up to its maximum.

A walk is kept as its list of visits, each with the account it found, so that statements can
be made about every number on the way.

An allocator is any way to answer requests, with what else that does. What lays items out is
written for all of them; the plain one answers with the sizes and does nothing else.
-/

set_option autoImplicit false

namespace PixelLayout.Space

structure Request where
  demands : List Demand
  available : Int
  spacing : Int
  deriving DecidableEq, Repr, Inhabited

structure Turn where
  demand : Demand
  index : Nat
  weightLeft : Nat
  deriving DecidableEq, Repr, Inhabited

structure Account where
  space : Int
  minimums : Int
  gaps : Int
  deriving DecidableEq, Repr, Inhabited

def Account.excess (a : Account) : Int := a.space - a.minimums - a.gaps

structure Visit where
  account : Account
  turn : Turn
  deriving DecidableEq, Repr, Inhabited

namespace Visit

def demand (v : Visit) : Demand := v.turn.demand

def product (v : Visit) : Int := v.account.excess * v.demand.weight

def share (v : Visit) : Int := v.product.tdiv v.turn.weightLeft

def size (v : Visit) : Int :=
  if v.demand.canGrow then v.demand.fit (v.demand.min + v.share) else v.demand.min

def after (v : Visit) (spacing : Int) : Account where
  space := v.account.space - (v.size + spacing)
  minimums := v.account.minimums - v.demand.min
  gaps := v.account.gaps - spacing

end Visit

def visits (spacing : Int) : Account → List Turn → List Visit
  | _, [] => []
  | account, turn :: turns =>
    let visit : Visit := ⟨account, turn⟩
    visit :: visits spacing (visit.after spacing) turns

def turns : List (Demand × Nat) → List Turn
  | [] => []
  | (d, i) :: rest => ⟨d, i, d.weight + totalWeight (rest.map (·.1.weight))⟩ :: turns rest

namespace Request

def minimums (r : Request) : Int := total (r.demands.map (·.min))

def gaps (r : Request) : Int := r.spacing * (r.demands.length - 1)

def feasible (r : Request) : Bool := r.minimums + r.gaps ≤ r.available

def ranked (r : Request) (tier : Tier) : List (Demand × Nat) :=
  -- Demands that tie keep their order in the line.
  (r.demands.zipIdx.filter fun d => d.1.tier == tier).mergeSort fun a b => a.1.before b.1

def queue (r : Request) : List Turn := Tier.all.flatMap fun tier => turns (r.ranked tier)

def opening (r : Request) : Account := ⟨r.available, r.minimums, r.gaps⟩

def walk (r : Request) : List Visit := visits r.spacing r.opening r.queue

def sizes (r : Request) : List Int :=
  if r.feasible then
    let walk := r.walk
    r.demands.mapIdx fun i d =>
      match walk.find? (·.turn.index == i) with
      | some v => v.size
      | none => d.min
  else r.demands.map (·.min)

end Request

def slack (sizes : List Int) (available spacing : Int) : Int :=
  if sizes.isEmpty then available
  else Pixel.saturate (available - (total sizes + spacing * (sizes.length - 1)))

def Request.slack (r : Request) : Int := Space.slack r.sizes r.available r.spacing

end PixelLayout.Space

namespace PixelLayout

abbrev Allocator (m : Type → Type) := Space.Request → m (List Int)

def Allocator.plain : Allocator Id := fun r => pure r.sizes

end PixelLayout
