import PixelLayout.Batch
import PixelLayout.Splitter.Balance

/-!
# Arranging a splitter

The panes and the handles that take space lie end to end along the axis and fill the bounds
across it; the other handles are empty. On a reset, and when other panes are shown than at the
last pass, the sizes come from the pinned shares or from the stretch. Then the space that the
panes do not fill is handed out.
-/

set_option autoImplicit false

namespace PixelLayout

structure Splitter where
  axis : Axis
  handleWidth : Int
  panes : Splitter.Panes
  lastShown : List Nat

namespace Splitter

def defaultHandleWidth : Int := 4

def checkHandleWidth (width : Int) : Except ParameterError Unit :=
  if width < 0 then .error (.negativeHandleWidth width) else .ok ()

def ofAxis (axis : Axis) (handleWidth : Int) : Splitter := ⟨axis, handleWidth, .empty, []⟩

def paneSpace (s : Splitter) (children : List Item) (bounds : Rect) : Int :=
  max (bounds.size.along s.axis - (activeHandles children).length * s.handleWidth) 0

def limits (s : Splitter) (children : List Item) : List Limits :=
  (shown children).map (Limits.of s.axis)

def idealSize (space : Int) (stretchTotal : Nat) (least : Int) (p : Pane) : Int :=
  if p.keepsSize then least
  else match p.fraction with
    | some f => Decimal.roundWithin Pixel.least Pixel.greatest (Float.ofInt space * f)
    | none => (space * p.stretch).tdiv (max stretchTotal 1 : Nat)

def resetPane (axis : Axis) (space : Int) (stretchTotal : Nat) (item : Item) (p : Pane) : Pane :=
  let limits := Limits.of axis item
  let p := { p with
    growth := 0
    weight := p.ownWeight
    keepsSize := !item.flags.canGrow axis }
  { p with size := limits.fit (idealSize space stretchTotal limits.least p) }

def reset (s : Splitter) (children : List Item) (space : Int) : Splitter :=
  let panes := s.panes.keep fun id => (alternate children).any (·.id == id)
  let items := shown children
  let stretchTotal := totalWeight (items.map fun c => stretchOf panes c.id)
  { s with
    panes := items.foldl
      (fun t c => t.modify c.id .fresh (resetPane s.axis space stretchTotal c)) panes
    lastShown := items.map (·.id) }

def settle (s : Splitter) (children : List Item) (bounds : Rect) (reset : Bool) :
    Splitter × Int :=
  let space := s.paneSpace children bounds
  let ids := (shown children).map (·.id)
  let s := if reset || ids != s.lastShown then s.reset children space else s
  let used := total (ids.map (sizeOf s.panes))
  let (panes, left) := distribute (s.limits children) s.panes (space - used)
  ({ s with panes := panes }, left)

def extent? (s : Splitter) (children : List Item) (cross : Int) (index : Nat) (item : Item) :
    Option (Int × Int) :=
  if index % 2 == 1 then
    some (if isActiveHandle children index then (s.handleWidth, cross) else (0, 0))
  else if item.laidOut then some (sizeOf s.panes item.id, cross)
  else none

def placeFrom (s : Splitter) (children : List Item) (bounds : Rect) :
    Int → List (Item × Nat) → List (Option Rect)
  | _, [] => []
  | position, (item, index) :: rest =>
    let cross := s.axis.cross
    match s.extent? children (bounds.size.along cross) index item with
    | some (extent, extent') =>
      some (.ofAxes s.axis position (bounds.start cross) extent extent')
        :: s.placeFrom children bounds (position + extent) rest
    | none => none :: s.placeFrom children bounds position rest

def place (s : Splitter) (children : List Item) (bounds : Rect) : List (Option Rect) :=
  s.placeFrom children bounds (bounds.start s.axis) children.zipIdx

def batch (s : Splitter) (children : List Item) (bounds : Rect) : Batch :=
  (children.zip (s.place children bounds)).filterMap fun (item, rect) =>
    rect.map fun r => (item.id, r)

def minSize (s : Splitter) (children : List Item) : Size :=
  let minimums := (shown children).map (·.minimum)
  .ofAxes s.axis
    (total (minimums.map (·.along s.axis)) + (activeHandles children).length * s.handleWidth)
    ((minimums.map (·.across s.axis)).foldl max 0)

def fractions (s : Splitter) (children : List Item) : Fractions :=
  let ids := (alternate children).map (·.id)
  let sizes := ids.map fun id => max (sizeOf s.panes id) 0
  if 0 < total sizes then .proportional sizes
  else .proportional (ids.map fun id => (stretchOf s.panes id : Int))

end Splitter

end PixelLayout
