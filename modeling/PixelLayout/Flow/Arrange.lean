import PixelLayout.Flow.Wrap
import PixelLayout.Line.Arrange

/-!
# Rows that wrap

A flow breaks its children into rows by their least widths and lays out each row as a line. A row
is as high as its items need at the widths they get, which do not depend on its height. Rows are
stacked with the spacing between them; the top margin belongs to the first row and the bottom
margin to the last one.
-/

set_option autoImplicit false

namespace PixelLayout

structure Flow where
  stretch : Stretches

namespace Flow

def fresh : Flow := ⟨.empty⟩

def refresh (f : Flow) (children : List Item) (reset : Bool) : Flow :=
  if reset then { f with stretch := f.stretch.restrict children } else f

def rows (settings : Settings) (children : List Item) (width : Int) : List (List Item) :=
  wrap (width - settings.margins.horizontal) settings.spacing (children.filter (·.inLine))

def rowMargins (m : Margins) (first last : Bool) : Margins where
  hNear := m.hNear
  vNear := if first then m.vNear else 0
  hFar := m.hFar
  vFar := if last then m.vFar else 0

def rowLine (f : Flow) (settings : Settings) (margins : Margins) (bounds : Rect) : Line :=
  ⟨.horizontal, { settings with margins := margins }, bounds, f.stretch⟩

def needOf (row : List Item) (extents : List Int) : Int :=
  ((List.zipWith Item.heightAt row extents).max?).getD 0

def rowWidth (settings : Settings) (row : List Item) : Int :=
  total (row.map (·.minimum.width)) + settings.spacing * (row.length - 1)

def minSizeOf (settings : Settings) (rows : List (List Item)) (needs : List Int) : Size :=
  let widest := (rows.map (rowWidth settings)).foldl max 0
  ⟨widest + settings.margins.horizontal,
    total needs + settings.margins.vertical + settings.spacing * max (rows.length - 1 : Int) 0⟩

section Allocated

variable {m : Type → Type} [Monad m] (ask : Allocator m) (f : Flow) (settings : Settings)

def rowNeedBy (width : Int) (row : List Item) : m Int := do
  let line := f.rowLine settings settings.margins ⟨0, 0, width, 0⟩
  let extents ← ask (line.request row)
  return needOf row extents

def stackBy (x width : Int) : Bool → Int → List (List Item) → m Batch
  | _, _, [] => return []
  | first, y, row :: rest => do
    let margins := rowMargins settings.margins first rest.isEmpty
    let need ← f.rowNeedBy ask settings width row
    let height := need + margins.vertical
    let head ← (f.rowLine settings margins ⟨x, y, width, height⟩).arrangeBy ask row
    let tail ← stackBy x width false (y + (height + settings.spacing)) rest
    return head ++ tail

def arrangeBy (children : List Item) (bounds : Rect) : m Batch :=
  f.stackBy ask settings bounds.x bounds.width true bounds.y (rows settings children bounds.width)

def minSizeBy (children : List Item) (size : Size) : m Size := do
  let rows := rows settings children size.width
  let needs ← rows.mapM (f.rowNeedBy ask settings size.width)
  return minSizeOf settings rows needs

def rowNeed (width : Int) (row : List Item) : Int := Id.run (f.rowNeedBy .plain settings width row)

def stack (x width : Int) (first : Bool) (y : Int) (rows : List (List Item)) : Batch :=
  Id.run (f.stackBy .plain settings x width first y rows)

def arrange (children : List Item) (bounds : Rect) : Batch :=
  Id.run (f.arrangeBy .plain settings children bounds)

def minSize (children : List Item) (size : Size) : Size :=
  Id.run (f.minSizeBy .plain settings children size)

theorem rowNeed_def (width : Int) (row : List Item) :
    f.rowNeed settings width row =
      needOf row ((f.rowLine settings settings.margins ⟨0, 0, width, 0⟩).extents row) := rfl

theorem stack_nil (x width : Int) (first : Bool) (y : Int) :
    f.stack settings x width first y [] = [] := rfl

theorem stack_cons (x width : Int) (first : Bool) (y : Int) (row : List Item)
    (rest : List (List Item)) :
    f.stack settings x width first y (row :: rest) =
      let margins := rowMargins settings.margins first rest.isEmpty
      let height := f.rowNeed settings width row + margins.vertical
      (f.rowLine settings margins ⟨x, y, width, height⟩).arrange row
        ++ f.stack settings x width false (y + (height + settings.spacing)) rest := rfl

theorem arrange_def (children : List Item) (bounds : Rect) :
    f.arrange settings children bounds =
      f.stack settings bounds.x bounds.width true bounds.y
        (rows settings children bounds.width) := rfl

theorem minSize_def (children : List Item) (size : Size) :
    f.minSize settings children size =
      minSizeOf settings (rows settings children size.width)
        ((rows settings children size.width).map (f.rowNeed settings size.width)) :=
  congrArg (minSizeOf settings _) List.idRun_mapM

end Allocated

end Flow

end PixelLayout
