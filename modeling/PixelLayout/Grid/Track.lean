import PixelLayout.Grid.Matrix
import PixelLayout.Space.Allocation

/-!
# Rows and columns

Along one axis a grid is a list of tracks. A track has the largest minimum of the items that it
holds alone, the largest maximum of all items that cover it, and the tier of the items that it
holds alone. An item over several tracks then adds what its minimum exceeds their minimums and
the spacing between them by, in proportion to their stretch. Tracks that no item covers take
neither space nor spacing.
-/

set_option autoImplicit false

namespace PixelLayout.Grid

structure Placement where
  item : Item
  range : Range

structure Track where
  occupied : Bool
  min : Int
  cap : Int
  unbounded : Bool
  greedy : Bool
  greedySpacer : Bool
  deriving DecidableEq, Repr, Inhabited

namespace Track

def idle : Track := ⟨false, 0, 0, false, false, false⟩

def tier (t : Track) : Space.Tier :=
  if t.greedy then .greedy else if t.greedySpacer then .greedySpacer else .regular

def max (t : Track) : Option Int := if t.unbounded then none else some (Max.max t.cap t.min)

def cover (t : Track) : Option Int → Track
  | some m => { t with occupied := true, cap := Max.max t.cap m }
  | none => { t with occupied := true, unbounded := true }

def hold (t : Track) (item : Item) (axis : Axis) (min : Int) : Track :=
  let greedy := item.flags.isGreedy axis
  { t with
    min := Max.max t.min (Max.max min 0)
    greedy := t.greedy || (greedy && !item.spacer)
    greedySpacer := t.greedySpacer || (greedy && item.spacer) }

end Track

def slice {α : Type} (s : Span) (l : List α) : List α := (l.drop s.start).take s.count

def portions : Int → List Nat → List Int
  -- Each part is cut off, and the rest is divided among the weights that follow.
  | _, [] => []
  | amount, w :: ws =>
    let part := (amount * w).tdiv (w + totalWeight ws : Nat)
    part :: portions (amount - part) ws

def raise (s : Span) (amounts : List Int) (tracks : List Track) : List Track :=
  tracks.take s.start
    ++ List.zipWith (fun t a => { t with min := t.min + a }) (slice s tracks) amounts
    ++ tracks.drop (s.start + s.count)

structure Ruler where
  axis : Axis
  spacing : Int
  stretch : List Nat
  need : Placement → Int

namespace Ruler

def occupy (r : Ruler) (tracks : List Track) (p : Placement) : List Track :=
  let span := p.range.along r.axis
  tracks.mapIdx fun i t =>
    if span.covers i then
      let t := t.cover (p.item.axisMax r.axis)
      if span.count = 1 then t.hold p.item r.axis (r.need p) else t
    else t

def deficit (r : Ruler) (tracks : List Track) (p : Placement) : Int :=
  let span := p.range.along r.axis
  r.need p - (total ((slice span tracks).map (·.min)) + r.spacing * (span.count - 1))

def weights (r : Ruler) (span : Span) : List Nat :=
  (List.range span.count).map fun i => stretchAt r.stretch (span.start + i)

def widen (r : Ruler) (tracks : List Track) (p : Placement) : List Track :=
  let span := p.range.along r.axis
  let deficit := r.deficit tracks p
  if span.count < 2 || deficit ≤ 0 then tracks
  else raise span (portions deficit (r.weights span)) tracks

def tracks (r : Ruler) (placements : List Placement) : List Track :=
  placements.foldl r.widen
    (placements.foldl r.occupy (List.replicate r.stretch.length .idle))

end Ruler

def demands (tracks : List Track) (stretch : List Nat) : List Space.Demand :=
  tracks.zipIdx.filterMap fun (t, i) =>
    if t.occupied then some ⟨t.min, t.max, stretchAt stretch i, t.tier⟩ else none

def request (tracks : List Track) (stretch : List Nat) (available spacing : Int) :
    Space.Request :=
  ⟨demands tracks stretch, max available 0, spacing⟩

def scatter : List Track → List Int → List Int
  | [], _ => []
  | t :: ts, sizes =>
    if t.occupied then
      match sizes with
      | [] => 0 :: scatter ts []
      | s :: rest => s :: scatter ts rest
    else 0 :: scatter ts sizes

section Allocated

variable {m : Type → Type} [Monad m] (ask : Allocator m) (tracks : List Track)
  (stretch : List Nat) (available spacing : Int)

def trackSizesBy : m (List Int) := do
  let sizes ← ask (request tracks stretch available spacing)
  return scatter tracks sizes

def trackSizes : List Int := Id.run (trackSizesBy .plain tracks stretch available spacing)

theorem trackSizes_def : trackSizes tracks stretch available spacing =
    scatter tracks (request tracks stretch available spacing).sizes := rfl

end Allocated

def minExtent (tracks : List Track) (spacing : Int) : Int :=
  let used := tracks.filter (·.occupied)
  total (used.map (·.min)) + spacing * max (used.length - 1 : Int) 0

def trackStarts (spacing : Int) : Int → List (Track × Int) → List Int
  | _, [] => []
  | position, (t, size) :: rest =>
    position
      :: trackStarts spacing (if t.occupied then position + (size + spacing) else position) rest

def spanExtent (tracks : List Track) (sizes : List Int) (span : Span) (spacing : Int) : Int :=
  let used := (slice span tracks).countP (·.occupied)
  total (slice span sizes) + spacing * max (used - 1 : Int) 0

end PixelLayout.Grid
