import PixelLayout.Flow.Arrange
import PixelLayout.Grid.Arrange
import PixelLayout.Layout.Event
import PixelLayout.Line.Box
import PixelLayout.Splitter.Drag

/-!
# The four modes

A mode with its own state arranges children inside bounds. Arranging may change that state: a
reset drops what belongs to former children, and a splitter moves its sizes with the space.
-/

set_option autoImplicit false

namespace PixelLayout

inductive Mode where
  | box (b : Box)
  | grid (g : Grid)
  | flow (f : Flow)
  | splitter (s : Splitter)

structure Arrangement where
  mode : Mode
  batch : Batch
  events : List Event

namespace Mode

def name : Mode → String
  | box _ => "box"
  | grid _ => "grid"
  | flow _ => "flow"
  | splitter _ => "splitter"

section Allocated

variable {m : Type → Type} [Monad m] (ask : Allocator m) (mode : Mode) (settings : Settings)
  (children : List Item)

def arrangeBy (bounds : Rect) (reset : Bool) : m Arrangement :=
  match mode with
  | box b => do
    let b := b.refresh children reset
    return ⟨.box b, ← b.arrangeBy ask settings children bounds, []⟩
  | grid g => do
    let g := g.refresh children reset
    return ⟨.grid g, ← g.arrangeBy ask settings children bounds, []⟩
  | flow f => do
    let f := f.refresh children reset
    return ⟨.flow f, ← f.arrangeBy ask settings children bounds, []⟩
  | splitter s =>
    let (s, left) := s.settle children bounds reset
    return ⟨.splitter s, s.batch children bounds,
      if left = 0 then [] else [.spaceUnassigned left]⟩

def minSizeBy (size : Size) : m Size :=
  match mode with
  | box b => b.minSizeBy ask settings children size
  | grid g => g.minSizeBy ask settings children size
  | flow f => f.minSizeBy ask settings children size
  | splitter s => return s.minSize children

def arrange (bounds : Rect) (reset : Bool) : Arrangement :=
  Id.run (mode.arrangeBy .plain settings children bounds reset)

def minSize (size : Size) : Size := Id.run (mode.minSizeBy .plain settings children size)

theorem arrange_def (bounds : Rect) (reset : Bool) :
    mode.arrange settings children bounds reset =
      match mode with
      | box b =>
        let b := b.refresh children reset
        ⟨.box b, b.arrange settings children bounds, []⟩
      | grid g =>
        let g := g.refresh children reset
        ⟨.grid g, g.arrange settings children bounds, []⟩
      | flow f =>
        let f := f.refresh children reset
        ⟨.flow f, f.arrange settings children bounds, []⟩
      | splitter s =>
        let (s, left) := s.settle children bounds reset
        ⟨.splitter s, s.batch children bounds,
          if left = 0 then [] else [.spaceUnassigned left]⟩ := by
  cases mode <;> rfl

end Allocated

end Mode

end PixelLayout
