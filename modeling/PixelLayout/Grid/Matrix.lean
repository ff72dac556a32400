import PixelLayout.Error
import PixelLayout.Item.Basic
import PixelLayout.Table

/-!
# The cells of a grid

An item of a grid covers a range of cells. The grid keeps the ranges by item and the cells with
their occupants by row, and a stretch factor for every row and column. It never shrinks. Giving
an item a range takes the whole range from every other item that has one of its cells.
-/

set_option autoImplicit false

namespace PixelLayout

structure Span where
  start : Nat
  count : Nat
  deriving DecidableEq, Repr, Inhabited

def Span.covers (s : Span) (i : Nat) : Bool := s.start ≤ i && i < s.start + s.count

structure Range where
  row : Int
  column : Int
  rowSpan : Int
  columnSpan : Int
  deriving DecidableEq, Repr, Inhabited

namespace Range

def cell (row column : Int) : Range := ⟨row, column, 1, 1⟩

def ofRect (r : Rect) : Range := ⟨r.y, r.x, r.height, r.width⟩

def check (r : Range) : Except ParameterError Unit :=
  if r.row < 0 || r.column < 0 then .error (.negativeGridOrigin r.row r.column)
  else if r.rowSpan < 1 || r.columnSpan < 1 then
    .error (.nonPositiveGridSpan r.rowSpan r.columnSpan)
  else .ok ()

def along (r : Range) (axis : Axis) : Span :=
  axis.pick ⟨r.column.toNat, r.columnSpan.toNat⟩ ⟨r.row.toNat, r.rowSpan.toNat⟩

def covers (r : Range) (row column : Nat) : Bool :=
  (r.along .vertical).covers row && (r.along .horizontal).covers column

end Range

structure Grid where
  ranges : Table Range
  cells : List (List (Option Nat))
  rowStretch : List Nat
  columnStretch : List Nat

namespace Grid

def fresh : Grid := ⟨.empty, [], [], []⟩

def rowCount (g : Grid) : Nat := g.rowStretch.length

def columnCount (g : Grid) : Nat := g.columnStretch.length

def itemAt (g : Grid) (row column : Nat) : Option Nat :=
  ((g.cells.getD row []).getD column none)

def stretchAt (factors : List Nat) (i : Nat) : Nat := max (factors.getD i 1) 1

def pad {α : Type} (n : Nat) (a : α) (l : List α) : List α :=
  l ++ List.replicate (n - l.length) a

def grow (g : Grid) (rows columns : Nat) : Grid :=
  let rowStretch := pad rows 1 g.rowStretch
  let columnStretch := pad columns 1 g.columnStretch
  { g with
    rowStretch := rowStretch
    columnStretch := columnStretch
    cells := (pad rowStretch.length [] g.cells).map (pad columnStretch.length none) }

def fill (cells : List (List (Option Nat))) (r : Range) (occupant : Option Nat) :
    List (List (Option Nat)) :=
  cells.mapIdx fun i row => row.mapIdx fun j c => if r.covers i j then occupant else c

def occupants (cells : List (List (Option Nat))) (r : Range) : List Nat :=
  (cells.mapIdx fun i row =>
    (row.mapIdx fun j c => if r.covers i j then c else none).reduceOption).flatten

def release (g : Grid) (item : Nat) : Grid :=
  match g.ranges.get? item with
  | some r => { g with ranges := g.ranges.erase item, cells := fill g.cells r none }
  | none => g

def assign (g : Grid) (item : Nat) (r : Range) : Grid :=
  let rows := r.along .vertical
  let columns := r.along .horizontal
  let g := (g.release item).grow (rows.start + rows.count) (columns.start + columns.count)
  let g := (occupants g.cells r).foldl release g
  { g with ranges := g.ranges.insert item r, cells := fill g.cells r (some item) }

def restrict (g : Grid) (children : List Item) : Grid :=
  (g.ranges.keys.filter fun id => !children.any (·.id == id)).foldl release g

end Grid

end PixelLayout
