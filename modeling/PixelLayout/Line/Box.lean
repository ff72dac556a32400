import PixelLayout.Line.Arrange

/-!
# Boxes

A box lays out all its children in one row or one column.
-/

set_option autoImplicit false

namespace PixelLayout

structure Box where
  axis : Axis
  stretch : Stretches

namespace Box

def ofAxis (axis : Axis) : Box := ⟨axis, .empty⟩

def line (b : Box) (settings : Settings) (bounds : Rect) : Line :=
  ⟨b.axis, settings, bounds, b.stretch⟩

def refresh (b : Box) (children : List Item) (reset : Bool) : Box :=
  if reset then { b with stretch := b.stretch.restrict children } else b

section Allocated

variable {m : Type → Type} [Monad m] (ask : Allocator m) (b : Box) (settings : Settings)
  (children : List Item)

def arrangeBy (bounds : Rect) : m Batch :=
  (b.line settings bounds).arrangeBy ask (children.filter (·.inLine))

def minSizeBy (size : Size) : m Size :=
  (b.line settings (.ofSize size)).minSizeBy ask (children.filter (·.inLine))

def arrange (bounds : Rect) : Batch := Id.run (b.arrangeBy .plain settings children bounds)

def minSize (size : Size) : Size := Id.run (b.minSizeBy .plain settings children size)

theorem arrange_def (bounds : Rect) : b.arrange settings children bounds =
    (b.line settings bounds).arrange (children.filter (·.inLine)) := rfl

theorem minSize_def (size : Size) : b.minSize settings children size =
    (b.line settings (.ofSize size)).minSize (children.filter (·.inLine)) := rfl

end Allocated

def flags (b : Box) (children : List Item) : Flags :=
  if children.isEmpty then .resizable
  else
    let shown := children.filter (·.laidOut)
    let grown := (Flags.join (shown.map (·.flags))).union (.growable b.axis)
    if shown.any fun c => !c.flags.canShrink b.axis.cross then
      grown.diff (.shrinkable b.axis.cross)
    else grown

end Box

end PixelLayout
