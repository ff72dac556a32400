import PixelLayout.Layout.Change

/-!
# Changes that leave no trace

The steps of a change may write before a later one fails, and the layout then stays half changed.
They never do: each kind of change writes after its last check, and from there on nothing fails. So
a change that is refused, and one that finds the setting as it asks for, leave the layout as it was.
-/

set_option autoImplicit false

namespace PixelLayout

namespace Setter

def Atomic (p : Setter Report) : Prop :=
  -- Steps that fail, or find nothing to change, have not written.
  ∀ l, match p.run l with
    | .error _ l' | .ok none l' => l' = l
    | .ok (some _) _ => True

def Certain (p : Setter Report) : Prop := ∀ l, ∃ events l', p.run l = .ok (some events) l'

section Built

variable {α : Type} {p : Setter Report} {rest : α → Setter Report}

theorem Certain.report (events : List Event) : Certain (return some events) :=
  fun l => ⟨events, l, rfl⟩

theorem Certain.write (f : Layout → Layout) (certain : Certain p) :
    Certain (do modify f; p) := fun l => certain (f l)

theorem Certain.atomic (certain : Certain p) : Atomic p := by
  intro l
  obtain ⟨events, l', run⟩ := certain l
  rw [run]
  trivial

theorem Atomic.idle : Atomic (return none) := fun _ => rfl

theorem Atomic.fail (e : ParameterError) : Atomic (throw e) := fun _ => rfl

theorem Atomic.either {q : Setter Report} {c : Prop} [Decidable c] (first : Atomic p)
    (second : Atomic q) : Atomic (if c then p else q) := by
  split
  · exact first
  · exact second

theorem Atomic.read {rest : Layout → Setter Report} (atomic : ∀ l, Atomic (rest l)) :
    Atomic (do let l ← get; rest l) := fun l => atomic l l

theorem Atomic.checked (x : Except ParameterError α) (atomic : ∀ a, Atomic (rest a)) :
    Atomic (do let a ← check x; rest a) := by
  cases x with
  | error e => exact .fail e
  | ok a => exact atomic a

theorem atomic_putSettings (settings : Settings) :
    Atomic (do putSettings settings; return some []) :=
  (Certain.write _ (.report [])).atomic

theorem atomic_putMode (mode : Mode) (events : List Event) :
    Atomic (do putMode mode; return some events) :=
  (Certain.write _ (.report events)).atomic

theorem atomic_putModeTwice (mode mode' : Mode) :
    Atomic (do putMode mode; putMode mode'; return some []) :=
  (Certain.write _ (.write _ (.report []))).atomic

theorem atomic_putModeAfresh (mode : Mode) :
    Atomic (do putMode mode; askReset; return some []) :=
  (Certain.write _ (.write _ (.report []))).atomic

end Built

section Kinds

variable (attached : Bool) (view : Option View)

theorem setMargins_atomic (m : Margins) : Atomic (setMargins m) := by
  refine .read fun l => ?_
  split
  · exact .either .idle (.fail _)
  · exact .either .idle (.either (.fail _) (atomic_putSettings _))

theorem setSpacing_atomic (n : Int) : Atomic (setSpacing n) := by
  refine .read fun l => ?_
  split
  · exact .either .idle (.fail _)
  · exact .either .idle (.either (.fail _) (atomic_putSettings _))

theorem setAlignment_atomic (a : Alignment) : Atomic (setAlignment a) := by
  refine .read fun l => ?_
  split
  · exact .fail _
  · exact .either .idle (atomic_putSettings _)

theorem setAxis_atomic (a : Axis) : Atomic (setAxis a) := by
  refine .read fun l => ?_
  split
  · exact .either .idle (atomic_putMode _ _)
  · exact .either .idle (atomic_putModeAfresh _)
  · exact .fail _

theorem setStretch_atomic (item factor : Nat) : Atomic (setStretch view item factor) := by
  refine .checked _ fun _ => .read fun l => ?_
  split
  · exact .checked _ fun _ => .either .idle (atomic_putMode _ _)
  · exact .checked _ fun _ => .either .idle (atomic_putMode _ _)
  · exact .checked _ fun _ => .either .idle (atomic_putModeAfresh _)
  · exact .fail _

theorem setRange_atomic (item : Nat) (r : Range) : Atomic (setRange view item r) := by
  refine .read fun l => ?_
  split
  · exact .checked _ fun _ => .checked _ fun _ => atomic_putMode _ _
  · exact .fail _

theorem setRowStretch_atomic (row : Int) (factor : Nat) :
    Atomic (setRowStretch attached row factor) := by
  refine .read fun l => ?_
  split
  · exact .checked _ fun _ => .either .idle (atomic_putModeTwice _ _)
  · exact .fail _

theorem setColumnStretch_atomic (column : Int) (factor : Nat) :
    Atomic (setColumnStretch attached column factor) := by
  refine .read fun l => ?_
  split
  · exact .checked _ fun _ => .either .idle (atomic_putModeTwice _ _)
  · exact .fail _

theorem setHandleWidth_atomic (width : Int) : Atomic (setHandleWidth width) := by
  refine .read fun l => ?_
  split
  · exact .either .idle (.checked _ fun _ => atomic_putMode _ _)
  · exact .fail _

theorem setFixed_atomic (item : Nat) (on : Bool) : Atomic (setFixed view item on) := by
  refine .read fun l => ?_
  split
  · exact .either .idle (.checked _ fun _ => atomic_putMode _ _)
  · exact .fail _

theorem setFractions_atomic (values : List Float) : Atomic (setFractions view values) := by
  refine .read fun l => ?_
  split
  · split
    · exact .fail _
    · exact .fail _
    · exact .either (.fail _) (atomic_putModeAfresh _)
  · exact .fail _

theorem releaseHandle_atomic (handle : Nat) (position : Int) :
    Atomic (releaseHandle view handle position) := by
  refine .read fun l => ?_
  split
  · refine .either (.fail _) ?_
    split
    · exact .fail _
    · exact atomic_putMode _ _
  · exact .fail _

end Kinds

end Setter

/-- Whatever change is asked for, it writes nothing unless it is made. -/
theorem Change.steps_atomic (attached : Bool) (view : Option View) (c : Change) :
    (c.steps attached view).Atomic := by
  cases c with
  | margins m => exact Setter.setMargins_atomic m
  | spacing n => exact Setter.setSpacing_atomic n
  | alignment a => exact Setter.setAlignment_atomic a
  | axis a => exact Setter.setAxis_atomic a
  | stretch item factor => exact Setter.setStretch_atomic view item factor
  | range item r => exact Setter.setRange_atomic view item r
  | rowStretch row factor => exact Setter.setRowStretch_atomic attached row factor
  | columnStretch column factor => exact Setter.setColumnStretch_atomic attached column factor
  | handleWidth width => exact Setter.setHandleWidth_atomic width
  | fixed item on => exact Setter.setFixed_atomic view item on
  | fractions values => exact Setter.setFractions_atomic view values
  | release handle position => exact Setter.releaseHandle_atomic view handle position

end PixelLayout
