import PixelLayout.Batch
import PixelLayout.Grid.Track
import PixelLayout.Settings

/-!
# Arranging a grid

Columns are sized first and rows second, since items that trade height for width need the widths
of their columns. An item that can grow fills its cells; any other keeps its preferred extent
inside them and is aligned there.
-/

set_option autoImplicit false

namespace PixelLayout.Grid

def placements (g : Grid) (children : List Item) : List Placement :=
  (children.filter (·.laidOut)).filterMap fun item =>
    (g.ranges.get? item.id).map fun range => ⟨item, range⟩

def columnRuler (g : Grid) (settings : Settings) : Ruler :=
  ⟨.horizontal, settings.spacing, g.columnStretch, fun p => p.item.minimum.width⟩

def rowRuler (g : Grid) (settings : Settings) (columns : List Track) (widths : List Int) : Ruler :=
  ⟨.vertical, settings.spacing, g.rowStretch, fun p =>
    p.item.heightAt (spanExtent columns widths (p.range.along .horizontal) settings.spacing)⟩

structure Tracks where
  columns : List Track
  widths : List Int
  rows : List Track

def place (p : Placement) (axis : Axis) (starts sizes : List Int) (alignment : Alignment) :
    Int × Int :=
  let span := p.range.along axis
  let last := span.start + span.count - 1
  let start := starts.getD span.start 0
  let room := starts.getD last 0 + sizes.getD last 0 - start
  if p.item.flags.canGrow axis then (start, room)
  else
    let extent := min (max (p.item.preferred.along axis) (p.item.minimum.along axis)) room
    (start + (alignment.along axis).offset room extent, extent)

def batchOf (settings : Settings) (bounds : Rect) (ps : List Placement) (t : Tracks)
    (heights : List Int) : Batch :=
  let xs := trackStarts settings.spacing (bounds.x + settings.margins.hNear)
    (t.columns.zip t.widths)
  let ys := trackStarts settings.spacing (bounds.y + settings.margins.vNear)
    (t.rows.zip heights)
  ps.map fun p =>
    let alignment := p.item.alignment.orElse settings.alignment
    let (x, width) := place p .horizontal xs t.widths alignment
    let (y, height) := place p .vertical ys heights alignment
    (p.item.id, ⟨x, y, width, height⟩)

def minSizeOf (settings : Settings) (t : Tracks) : Size :=
  ⟨settings.margins.horizontal + minExtent t.columns settings.spacing,
    settings.margins.vertical + minExtent t.rows settings.spacing⟩

section Allocated

variable {m : Type → Type} [Monad m] (ask : Allocator m) (g : Grid) (settings : Settings)

def tracksBy (ps : List Placement) (width : Int) : m Tracks := do
  let columns := (g.columnRuler settings).tracks ps
  let widths ← trackSizesBy ask columns g.columnStretch (width - settings.margins.horizontal)
    settings.spacing
  return ⟨columns, widths, (g.rowRuler settings columns widths).tracks ps⟩

def arrangeBy (children : List Item) (bounds : Rect) : m Batch := do
  let ps := g.placements children
  let t ← g.tracksBy ask settings ps bounds.width
  let heights ← trackSizesBy ask t.rows g.rowStretch (bounds.height - settings.margins.vertical)
    settings.spacing
  return batchOf settings bounds ps t heights

def minSizeBy (children : List Item) (size : Size) : m Size := do
  let t ← g.tracksBy ask settings (g.placements children) size.width
  return minSizeOf settings t

def tracks (ps : List Placement) (width : Int) : Tracks :=
  Id.run (g.tracksBy .plain settings ps width)

def arrange (children : List Item) (bounds : Rect) : Batch :=
  Id.run (g.arrangeBy .plain settings children bounds)

def minSize (children : List Item) (size : Size) : Size :=
  Id.run (g.minSizeBy .plain settings children size)

theorem tracks_def (ps : List Placement) (width : Int) :
    g.tracks settings ps width =
      let columns := (g.columnRuler settings).tracks ps
      let widths := trackSizes columns g.columnStretch (width - settings.margins.horizontal)
        settings.spacing
      ⟨columns, widths, (g.rowRuler settings columns widths).tracks ps⟩ := rfl

theorem arrange_def (children : List Item) (bounds : Rect) :
    g.arrange settings children bounds =
      let ps := g.placements children
      let t := g.tracks settings ps bounds.width
      batchOf settings bounds ps t (trackSizes t.rows g.rowStretch
        (bounds.height - settings.margins.vertical) settings.spacing) := rfl

theorem minSize_def (children : List Item) (size : Size) :
    g.minSize settings children size =
      minSizeOf settings (g.tracks settings (g.placements children) size.width) := rfl

end Allocated

def refresh (g : Grid) (children : List Item) (reset : Bool) : Grid :=
  if reset then g.restrict children else g

def flags (children : List Item) : Flags :=
  if children.isEmpty then .resizable
  else .join ((children.filter (·.laidOut)).map (·.flags))

end PixelLayout.Grid
