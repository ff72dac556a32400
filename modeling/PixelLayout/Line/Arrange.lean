import PixelLayout.Batch
import PixelLayout.Line.Stretch
import PixelLayout.Settings
import PixelLayout.Space.Allocation

/-!
# Items in one line

A line lays items out along its axis inside bounds less margins. The extents along the axis
come from one allocation. What it leaves over goes, by the alignment along the axis, after the
items, before them, or in equal parts before, between and after them. Across the axis an item
that can grow fills the space and any other keeps its preferred extent, placed by its own
alignment or else by that of the line.
-/

set_option autoImplicit false

namespace PixelLayout

structure Line where
  axis : Axis
  settings : Settings
  bounds : Rect
  stretch : Stretches

namespace Line

def start (l : Line) (axis : Axis) : Int := l.bounds.start axis + l.settings.margins.near axis

def space (l : Line) (axis : Axis) : Int :=
  l.bounds.size.along axis - l.settings.margins.sum axis

def least (l : Line) (item : Item) : Int :=
  max (match l.axis, item.heightForWidth with
    | .vertical, some height => height (l.space .horizontal)
    | axis, _ => item.minimum.along axis) 0

def demand (l : Line) (item : Item) : Space.Demand where
  min := l.least item
  max := (item.axisMax l.axis).map (Max.max · (l.least item))
  stretch := l.stretch.factor item.id
  tier := item.tier l.axis

def request (l : Line) (items : List Item) : Space.Request :=
  ⟨items.map l.demand, max (l.space l.axis) 0, l.settings.spacing⟩

def extents (l : Line) (items : List Item) : List Int := (l.request items).sizes

def slackOf (l : Line) (extents : List Int) : Int :=
  max (Space.slack extents (l.space l.axis) l.settings.spacing) 0

def slack (l : Line) (items : List Item) : Int := l.slackOf (l.extents items)

def padsOf (l : Line) (items : List Item) (extents : List Int) : Int × Int :=
  let slack := l.slackOf extents
  match l.settings.alignment.along l.axis with
  | .near => (0, 0)
  | .far => (slack, 0)
  | .center => (slack.tdiv (items.length + 1), slack.tdiv (items.length + 1))

def pads (l : Line) (items : List Item) : Int × Int := l.padsOf items (l.extents items)

def crossExtent (l : Line) (item : Item) : Int :=
  if item.flags.canGrow l.axis.cross then l.space l.axis.cross
  else max (item.preferred.along l.axis.cross) (item.minimum.along l.axis.cross)

def rect (l : Line) (item : Item) (position extent : Int) : Rect :=
  let cross := l.axis.cross
  let align := (item.alignment.orElse l.settings.alignment).along cross
  let extent' := l.crossExtent item
  .ofAxes l.axis position (l.start cross + align.offset (l.space cross) extent') extent extent'

def place (l : Line) (gap : Int) : Int → List (Item × Int) → List Rect
  | _, [] => []
  | position, (item, extent) :: rest =>
    l.rect item position extent
      :: l.place gap (position + (extent + l.settings.spacing + gap)) rest

def rectsOf (l : Line) (items : List Item) (extents : List Int) : List Rect :=
  let (lead, gap) := l.padsOf items extents
  l.place gap (l.start l.axis + lead) (items.zip extents)

def rects (l : Line) (items : List Item) : List Rect := l.rectsOf items (l.extents items)

def heightsOf (l : Line) (items : List Item) (extents : List Int) : List Int :=
  List.zipWith (fun item rect => item.heightAt rect.width) items (l.rectsOf items extents)

def heights (l : Line) (items : List Item) : List Int := l.heightsOf items (l.extents items)

def gaps (l : Line) (n : Nat) : Int := l.settings.spacing * max (n - 1 : Int) 0

def minSizeOf (l : Line) (items : List Item) (heights : List Int) : Size :=
  let widths := items.map (·.minimum.width)
  let margins := l.settings.margins
  match l.axis with
  | .horizontal =>
    ⟨margins.horizontal + total widths + l.gaps items.length,
      margins.vertical + heights.foldl max 0⟩
  | .vertical =>
    ⟨margins.horizontal + widths.foldl max 0,
      margins.vertical + total heights + l.gaps items.length⟩

section Allocated

variable {m : Type → Type} [Monad m] (ask : Allocator m) (l : Line) (items : List Item)

def arrangeBy : m Batch := do
  let extents ← ask (l.request items)
  return (items.map (·.id)).zip (l.rectsOf items extents)

def minSizeBy : m Size := do
  let extents ← ask (l.request items)
  return l.minSizeOf items (l.heightsOf items extents)

def arrange : Batch := Id.run (l.arrangeBy .plain items)

def minSize : Size := Id.run (l.minSizeBy .plain items)

theorem slack_def : l.slack items =
    max (Space.slack (l.extents items) (l.space l.axis) l.settings.spacing) 0 := rfl

theorem pads_def : l.pads items =
    match l.settings.alignment.along l.axis with
    | .near => (0, 0)
    | .far => (l.slack items, 0)
    | .center =>
      ((l.slack items).tdiv (items.length + 1), (l.slack items).tdiv (items.length + 1)) :=
  rfl

theorem rects_def : l.rects items =
    l.place (l.pads items).2 (l.start l.axis + (l.pads items).1)
      (items.zip (l.extents items)) := rfl

theorem heights_def : l.heights items =
    List.zipWith (fun item rect => item.heightAt rect.width) items (l.rects items) := rfl

theorem arrange_def : l.arrange items = (items.map (·.id)).zip (l.rects items) := rfl

theorem minSize_def : l.minSize items = l.minSizeOf items (l.heights items) := rfl

end Allocated

end Line

end PixelLayout
