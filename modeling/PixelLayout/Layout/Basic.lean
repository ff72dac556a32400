import PixelLayout.Layout.Mode

/-!
# Layouts

A layout is a mode with its settings, the flags that say whether a pass is running, requested,
or to start afresh, a memo of least sizes by container size, and the children of its last pass.
It sees its container only through a view of the children and the bounds. There is no view while
the layout is not attached, or while the container is in use elsewhere.
-/

set_option autoImplicit false

namespace PixelLayout

structure PassFlags where
  performing : Bool
  pending : Bool
  resetNeeded : Bool
  deriving DecidableEq, Repr, Inhabited

namespace PassFlags

def idle : PassFlags := ⟨false, false, false⟩

def request (p : PassFlags) (reset : Bool) : PassFlags :=
  { p with pending := true, resetNeeded := p.resetNeeded || reset }

end PassFlags

structure View where
  suspended : Bool
  children : List Item
  bounds : Rect

structure Layout where
  settings : Settings
  flags : PassFlags
  memo : List (Size × Size)
  seen : List Nat
  mode : Mode

namespace Layout

def make (settings : Settings) (mode : Mode) : Except ParameterError Layout :=
  settings.check.map fun _ => ⟨settings, .idle, [], [], mode⟩

def box (axis : Axis) (settings : Option Settings) : Except ParameterError Layout :=
  make (settings.getD .spacious) (.box (.ofAxis axis))

def grid (settings : Option Settings) : Except ParameterError Layout :=
  make (settings.getD .zero) (.grid .fresh)

def flow (settings : Option Settings) : Except ParameterError Layout :=
  make (settings.getD .spacious) (.flow .fresh)

def splitter (axis : Axis) (handleWidth : Option Int) : Except ParameterError Layout := do
  let width := handleWidth.getD Splitter.defaultHandleWidth
  Splitter.checkHandleWidth width
  make .zero (.splitter (.ofAxis axis width))

def forget (l : Layout) : Layout := { l with memo := [] }

def request (l : Layout) (reset : Bool) : Layout := { l with flags := l.flags.request reset }

def resetLater (l : Layout) : Layout := { l with flags := { l.flags with resetNeeded := true } }

def attach (l : Layout) : Layout := l.resetLater.forget

def detach (l : Layout) : Layout := l.forget

def reportedFlags (l : Layout) (view : Option View) : Flags :=
  match l.mode with
  | .box b => (view.map fun v => b.flags v.children).getD .empty
  | .grid _ => (view.map fun v => Grid.flags v.children).getD .empty
  | .flow _ => .all
  | .splitter _ => .all

section Allocated

variable {m : Type → Type} [Monad m] (ask : Allocator m) (l : Layout)

def freshMinSizeBy (view : Option View) (size : Size) : m Size :=
  match view with
  | none => return .zero
  | some v => l.mode.minSizeBy ask l.settings v.children size

def minSizeForBy (view : Option View) (size : Size) : m (Size × Layout) :=
  match l.memo.lookup size with
  | some least => return (least, l)
  | none => do
    let least ← l.freshMinSizeBy ask view size
    return (least, { l with memo := (size, least) :: l.memo })

def freshMinSize (view : Option View) (size : Size) : Size :=
  Id.run (l.freshMinSizeBy .plain view size)

def minSizeFor (view : Option View) (size : Size) : Size × Layout :=
  Id.run (l.minSizeForBy .plain view size)

theorem freshMinSize_def (view : Option View) (size : Size) :
    l.freshMinSize view size =
      (view.map fun v => l.mode.minSize l.settings v.children size).getD .zero := by
  cases view <;> rfl

theorem minSizeFor_def (view : Option View) (size : Size) :
    l.minSizeFor view size =
      match l.memo.lookup size with
      | some least => (least, l)
      | none =>
        let least := l.freshMinSize view size
        (least, { l with memo := (size, least) :: l.memo }) := by
  unfold minSizeFor minSizeForBy
  cases l.memo.lookup size <;> rfl

end Allocated

def minSize (l : Layout) (view : Option View) : Size × Layout :=
  match view with
  | some v => l.minSizeFor view v.bounds.size
  | none => (.zero, l)

end Layout

end PixelLayout
