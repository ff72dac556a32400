import PixelLayout.Grid.Matrix
import PixelLayout.Json.Format
import PixelLayout.Settings
import PixelLayout.Splitter.Fractions

/-!
# The JSON formats of layout values

Geometry, settings and ranges are records of pixels. The alignments that fix both axes are named
by them.
-/

set_option autoImplicit false

namespace PixelLayout.Json

namespace Format

def axis : Format Axis := choice [("horizontal", .horizontal), ("vertical", .vertical)]

def align : Format Align := choice [("Near", .near), ("Center", .center), ("Far", .far)]

def alignment : Format Alignment := choice [
  ("Default", .inherited),
  ("HNearVNear", .fixed .near .near),
  ("HNearVCenter", .fixed .near .center),
  ("HNearVFar", .fixed .near .far),
  ("HCenterVNear", .fixed .center .near),
  ("HCenterVCenter", .fixed .center .center),
  ("HCenterVFar", .fixed .center .far),
  ("HFarVNear", .fixed .far .near),
  ("HFarVCenter", .fixed .far .center),
  ("HFarVFar", .fixed .far .far)]

def itemId : Format Nat := natural 18446744073709551615

def pair {α : Type} (names : List String) (parts : α → Int × Int) (make : Int → Int → α) :
    Format α :=
  Fields.format {
    names
    write := fun a => [pixel.write (parts a).1, pixel.write (parts a).2]
    read := fun
      | [a, b] => do some (make (← pixel.read a) (← pixel.read b))
      | _ => none }

def quad {α : Type} (names : List String) (parts : α → Int × Int × Int × Int)
    (make : Int → Int → Int → Int → α) : Format α :=
  Fields.format {
    names
    write := fun x =>
      let (a, b, c, d) := parts x
      [pixel.write a, pixel.write b, pixel.write c, pixel.write d]
    read := fun
      | [a, b, c, d] => do
        some (make (← pixel.read a) (← pixel.read b) (← pixel.read c) (← pixel.read d))
      | _ => none }

def point : Format Point := pair ["x", "y"] (fun p => (p.x, p.y)) .mk

def size : Format Size := pair ["width", "height"] (fun s => (s.width, s.height)) .mk

def rect : Format Rect :=
  quad ["x", "y", "width", "height"] (fun r => (r.x, r.y, r.width, r.height)) .mk

def margins : Format Margins :=
  quad ["h_near", "v_near", "h_far", "v_far"] (fun m => (m.hNear, m.vNear, m.hFar, m.vFar)) .mk

def range : Format Range :=
  quad ["row", "column", "row_span", "column_span"]
    (fun r => (r.row, r.column, r.rowSpan, r.columnSpan)) .mk

def settings : Format Settings :=
  Fields.format {
    names := ["margins", "spacing", "alignment"]
    write := fun s =>
      [margins.write s.margins, pixel.write s.spacing, alignment.write s.alignment]
    read := fun
      | [a, b, c] => do
        some ⟨← margins.read a, ← pixel.read b, ← alignment.read c⟩
      | _ => none }

def handleWidth : Format Int :=
  Fields.format {
    names := ["handle_width"]
    write := fun n => [pixel.write n]
    read := fun
      | [a] => pixel.read a
      | _ => none }

end Format

def doubles? : Value → Option (List Float)
  | .array vs => vs.mapM Value.double?
  | _ => none

def fractions? (v : Value) : Option (Except Splitter.FractionFault Splitter.Fractions) :=
  (doubles? v).map Splitter.Fractions.ofList

end PixelLayout.Json
