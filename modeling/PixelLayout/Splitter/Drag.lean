import PixelLayout.Splitter.Arrange

/-!
# Dragging a handle

A handle can be moved between two positions, at which the shown pane before it or the pane after
it is at its minimum. Letting it go sets the sizes of these two panes and pins the share of every
pane.
-/

set_option autoImplicit false

namespace PixelLayout.Splitter

structure Drag where
  before : Nat
  start : Int
  after : Nat
  stop : Int
  low : Int
  high : Int
  deriving DecidableEq, Repr

def Drag.clamp (d : Drag) (position : Int) : Int :=
  if position < d.low then d.low else if position > d.high then d.high else position

def paneBefore? (rects : List (Option Rect)) (handle : Nat) : Option Nat :=
  (List.range handle).reverse.find? fun i => i % 2 == 0 && (rects.getD i none).isSome

def drag? (s : Splitter) (children : List Item) (bounds : Rect) (handle : Nat) : Option Drag :=
  if isActiveHandle children handle then do
    let rects := s.place children bounds
    let i ← paneBefore? rects handle
    let before ← children[i]?
    let after ← children[handle + 1]?
    let first ← rects.getD i none
    let second ← rects.getD (handle + 1) none
    let start := first.start s.axis
    let stop := second.start s.axis + second.size.along s.axis
    some {
      before := before.id
      start
      after := after.id
      stop
      low := start + (Limits.of s.axis before).least
      high := stop - (Limits.of s.axis after).least - s.handleWidth }
  else none

def Pane.pin (whole : Int) (p : Pane) : Pane :=
  let p := { p with
    growth := 0
    fraction := if 0 < whole then some (Float.ofInt (max p.size 0) / Float.ofInt whole) else none }
  { p with weight := p.ownWeight }

def drop (s : Splitter) (d : Drag) (position : Int) : Splitter :=
  let panes := s.panes.modify d.before .fresh fun p => { p with size := position - d.start }
  let panes := panes.modify d.after .fresh fun p =>
    { p with size := d.stop - position - s.handleWidth }
  let whole := total (panes.values.map fun p => max p.size 0)
  { s with panes := panes.map (.pin whole) }

end PixelLayout.Splitter
