import PixelLayout.Proofs.History.Sound
import PixelLayout.Proofs.Transpose.Grid
import PixelLayout.Proofs.Transpose.Line
import PixelLayout.Proofs.Transpose.Splitter

/-!
# Changes of a transposed layout

A change of a layout and the transposed change of its transpose are accepted together, and what they
make of the two are transposes again. A flow always fills rows, so it has no transpose and is left
out.
-/

set_option autoImplicit false

namespace PixelLayout

def Mode.transpose : Mode → Mode
  | box b => .box b.transpose
  | grid g => .grid g.transpose
  | flow f => .flow f
  | splitter s => .splitter s.transpose

def Layout.transpose (l : Layout) : Layout where
  settings := l.settings.transpose
  flags := l.flags
  memo := l.memo.map fun e => (e.1.transpose, e.2.transpose)
  seen := l.seen
  mode := l.mode.transpose

def Change.transpose : Change → Change
  | margins m => .margins m.transpose
  | spacing n => .spacing n
  | alignment a => .alignment a.transpose
  | axis a => .axis a.cross
  | stretch item factor => .stretch item factor
  | range item r => .range item r.transpose
  | rowStretch row factor => .columnStretch row factor
  | columnStretch column factor => .rowStretch column factor
  | handleWidth width => .handleWidth width
  | fixed item on => .fixed item on
  | fractions values => .fractions values
  | release handle position => .release handle position

def outcome? : Except ParameterError Revision → Option Layout
  | .ok (some (l, _)) => some l
  | _ => none

section Requirements

variable (view : Option View) (item : Nat)

theorem requireChild_transpose :
    requireChild (view.map .transpose) item = requireChild view item := by
  cases view with
  | none => rfl
  | some v =>
    show (if (v.children.map Item.transpose).any (·.id == item) then _ else _) = _
    rw [any_id_transpose _ (· == item)]
    rfl

theorem requirePane_transpose :
    requirePane (view.map .transpose) item = requirePane view item := by
  cases view with
  | none => rfl
  | some v =>
    have first : (v.children.map Item.transpose).findIdx? (·.id == item) =
        v.children.findIdx? (·.id == item) := by
      rw [List.findIdx?_map]
      rfl
    simp only [requirePane, Option.map_some, View.transpose, first]

end Requirements

namespace Layout

variable {l : Layout} (attached : Bool) (view : Option View)

theorem outcome?_margins (m : Margins) :
    outcome? ((Setter.setMargins m.transpose).outcome l.transpose) =
      (outcome? ((Setter.setMargins m).outcome l)).map .transpose := by
  have zero : m.transpose = .zero ↔ m = .zero := Margins.transpose_inj (n := .zero)
  obtain ⟨settings, flags, memo, seen, mode⟩ := l
  cases mode with
  | splitter s =>
    simp only [Setter.outcome_setMargins, transpose, Mode.transpose, zero]
    split <;> rfl
  | box | grid | flow =>
    simp only [Setter.outcome_setMargins, transpose, Mode.transpose, Settings.transpose_margins,
      Margins.transpose_inj, Margins.hasNegative_transpose]
    split
    · rfl
    split <;> rfl

theorem outcome?_spacing (n : Int) :
    outcome? ((Setter.setSpacing n).outcome l.transpose) =
      (outcome? ((Setter.setSpacing n).outcome l)).map .transpose := by
  obtain ⟨settings, flags, memo, seen, mode⟩ := l
  cases mode with
  | splitter s =>
    simp only [Setter.outcome_setSpacing, transpose, Mode.transpose]
    split <;> rfl
  | box | grid | flow =>
    rw [Setter.outcome_setSpacing, Setter.outcome_setSpacing]
    show outcome? (if n = settings.spacing then _ else if n < 0 then _ else _) =
      (outcome? (if n = settings.spacing then _ else if n < 0 then _ else _)).map _
    split
    · rfl
    split <;> rfl

theorem outcome?_alignment (a : Alignment) :
    outcome? ((Setter.setAlignment a.transpose).outcome l.transpose) =
      (outcome? ((Setter.setAlignment a).outcome l)).map .transpose := by
  obtain ⟨settings, flags, memo, seen, mode⟩ := l
  cases mode with
  | splitter s => rfl
  | box | grid | flow =>
    simp only [Setter.outcome_setAlignment, transpose, Mode.transpose, Settings.transpose_alignment,
      Alignment.transpose_inj]
    split <;> rfl

theorem outcome?_axis (a : Axis) :
    outcome? ((Setter.setAxis a.cross).outcome l.transpose) =
      (outcome? ((Setter.setAxis a).outcome l)).map .transpose := by
  obtain ⟨settings, flags, memo, seen, mode⟩ := l
  cases mode with
  | box b =>
    simp only [Setter.outcome_setAxis, transpose, Mode.transpose, Box.transpose, Axis.cross_inj]
    split <;> rfl
  | splitter s =>
    simp only [Setter.outcome_setAxis, transpose, Mode.transpose, Splitter.transpose_axis,
      Axis.cross_inj]
    split <;> rfl
  | grid | flow => rfl

/-- A change that has a requirement and may find the setting as it asks for. -/
theorem outcome?_required (x : Except ParameterError Unit) (p : Prop) [Decidable p] (l : Layout) :
    outcome? (x >>= fun _ => if p then .ok none else .ok (some (l.transpose, []))) =
      (outcome? (x >>= fun _ => if p then .ok none else .ok (some (l, [])))).map .transpose := by
  cases x with
  | error => rfl
  | ok =>
    show outcome? (if p then _ else _) = (outcome? (if p then _ else _)).map _
    split <;> rfl

theorem outcome?_stretch (item factor : Nat) :
    outcome? ((Setter.setStretch (view.map .transpose) item factor).outcome l.transpose) =
      (outcome? ((Setter.setStretch view item factor).outcome l)).map .transpose := by
  obtain ⟨settings, flags, memo, seen, mode⟩ := l
  simp only [Setter.outcome_setStretch, requireChild_transpose, requirePane_transpose]
  cases requireFactor factor with
  | error => rfl
  | ok =>
    cases mode with
    | box b =>
      exact outcome?_required (requireChild view item) (factor = b.stretch.factor item)
        ⟨settings, flags, memo, seen, .box { b with stretch := b.stretch.set item factor }⟩
    | flow f =>
      exact outcome?_required (requireChild view item) (factor = f.stretch.factor item)
        ⟨settings, flags, memo, seen, .flow { f with stretch := f.stretch.set item factor }⟩
    | splitter s =>
      exact outcome?_required (requirePane view item)
        (factor = Splitter.stretchOf s.panes item)
        ⟨settings, { flags with resetNeeded := true }, memo, seen,
          .splitter (s.restretch item factor)⟩
    | grid => rfl

theorem outcome?_range (h : l.Sound) (item : Nat) (r : Range) :
    outcome? ((Setter.setRange (view.map .transpose) item r.transpose).outcome l.transpose) =
      (outcome? ((Setter.setRange view item r).outcome l)).map .transpose := by
  obtain ⟨settings, flags, memo, seen, mode⟩ := l
  cases mode with
  | grid g =>
    simp only [Setter.outcome_setRange, transpose, Mode.transpose, requireChild_transpose]
    cases hr : r.check with
    | error =>
      -- the transposed range is refused as well, though the error gives its own numbers
      cases hr' : r.transpose.check with
      | error => rfl
      | ok =>
        have valid := r.check_transpose.mp hr'
        rw [hr] at valid
        cases valid
    | ok =>
      rw [r.check_transpose.mpr hr]
      cases requireChild view item with
      | error => rfl
      | ok =>
        have assigned : g.transpose.assign item r.transpose = (g.assign item r).transpose :=
          Grid.WellFormed.assign_transpose h.mode item hr
        show some _ = some _
        rw [assigned]
        rfl
  | box | flow | splitter => rfl

theorem outcome?_rowStretch (h : l.Sound) (row : Int) (factor : Nat) :
    outcome? ((Setter.setColumnStretch attached row factor).outcome l.transpose) =
      (outcome? ((Setter.setRowStretch attached row factor).outcome l)).map .transpose := by
  obtain ⟨settings, flags, memo, seen, mode⟩ := l
  cases mode with
  | grid g =>
    simp only [Setter.outcome_setRowStretch, Setter.outcome_setColumnStretch, requireTrack,
      transpose, Mode.transpose]
    split
    · rfl
    split
    · rfl
    split
    · rfl
    · next _ valid _ =>
      show outcome? (if factor = Grid.stretchAt g.rowStretch row.toNat then _ else _) =
        (outcome? (if factor = Grid.stretchAt g.rowStretch row.toNat then _ else _)).map _
      split
      · rfl
      · have set := Grid.WellFormed.setRow_transpose h.mode row.toNat (Nat.not_lt.mp valid)
        exact congrArg (fun g => some (Layout.mk _ flags _ seen (.grid g))) set
  | box | flow | splitter => rfl

theorem outcome?_columnStretch (h : l.Sound) (column : Int) (factor : Nat) :
    outcome? ((Setter.setRowStretch attached column factor).outcome l.transpose) =
      (outcome? ((Setter.setColumnStretch attached column factor).outcome l)).map .transpose := by
  obtain ⟨settings, flags, memo, seen, mode⟩ := l
  cases mode with
  | grid g =>
    simp only [Setter.outcome_setRowStretch, Setter.outcome_setColumnStretch, requireTrack,
      transpose, Mode.transpose]
    split
    · rfl
    split
    · rfl
    split
    · rfl
    · next _ valid _ =>
      show outcome? (if factor = Grid.stretchAt g.columnStretch column.toNat then _ else _) =
        (outcome? (if factor = Grid.stretchAt g.columnStretch column.toNat then _ else _)).map _
      split
      · rfl
      · have set := Grid.WellFormed.setColumn_transpose h.mode column.toNat (Nat.not_lt.mp valid)
        exact congrArg (fun g => some (Layout.mk _ flags _ seen (.grid g))) set
  | box | flow | splitter => rfl

theorem outcome?_handleWidth (width : Int) :
    outcome? ((Setter.setHandleWidth width).outcome l.transpose) =
      (outcome? ((Setter.setHandleWidth width).outcome l)).map .transpose := by
  obtain ⟨settings, flags, memo, seen, mode⟩ := l
  cases mode with
  | splitter s =>
    simp only [Setter.outcome_setHandleWidth, transpose, Mode.transpose, Splitter.transpose]
    split
    · rfl
    cases Splitter.checkHandleWidth width <;> rfl
  | box | grid | flow => rfl

theorem outcome?_fixed (item : Nat) (on : Bool) :
    outcome? ((Setter.setFixed (view.map .transpose) item on).outcome l.transpose) =
      (outcome? ((Setter.setFixed view item on).outcome l)).map .transpose := by
  obtain ⟨settings, flags, memo, seen, mode⟩ := l
  cases mode with
  | splitter s =>
    simp only [Setter.outcome_setFixed, transpose, Mode.transpose, Splitter.transpose,
      requirePane_transpose]
    split
    · rfl
    cases requirePane view item <;> rfl
  | box | grid | flow => rfl

theorem outcome?_fractions (values : List Float) :
    outcome? ((Setter.setFractions (view.map .transpose) values).outcome l.transpose) =
      (outcome? ((Setter.setFractions view values).outcome l)).map .transpose := by
  obtain ⟨settings, flags, memo, seen, mode⟩ := l
  cases mode with
  | splitter s =>
    simp only [Setter.outcome_setFractions, transpose, Mode.transpose]
    cases Splitter.Fractions.ofList values with
    | error => rfl
    | ok f =>
      cases view with
      | none => rfl
      | some v =>
        simp only [Option.map_some, View.transpose, Splitter.alternate_map, map_id_transpose]
        split <;> rfl
  | box | grid | flow => rfl

theorem outcome?_release (handle : Nat) (position : Int) :
    outcome? ((Setter.releaseHandle (view.map .transpose) handle position).outcome l.transpose) =
      (outcome? ((Setter.releaseHandle view handle position).outcome l)).map .transpose := by
  obtain ⟨settings, flags, memo, seen, mode⟩ := l
  cases mode with
  | splitter s =>
    cases view with
    | none => rfl
    | some v =>
      have drag : s.transpose.drag? (v.children.map .transpose) v.bounds.transpose handle =
          s.drag? v.children v.bounds handle := s.drag?_transpose v.children v.bounds handle
      simp only [Setter.outcome_releaseHandle, drag?, transpose, Mode.transpose, Option.map_some,
        View.transpose, drag]
      cases s.drag? v.children v.bounds handle <;> rfl
  | box | grid | flow => rfl

/-- A layout and its transpose accept the same changes, up to transposition. -/
theorem revised?_transpose (h : l.Sound) (c : Change) :
    l.transpose.revised? attached (view.map .transpose) c.transpose =
      (l.revised? attached view c).map .transpose := by
  have unfold (l : Layout) (view : Option View) (c : Change) :
      l.revised? attached view c = outcome? (l.revise attached view c) := rfl
  rw [unfold, unfold]
  cases c with
  | margins m => exact l.outcome?_margins m
  | spacing n => exact l.outcome?_spacing n
  | alignment a => exact l.outcome?_alignment a
  | axis a => exact l.outcome?_axis a
  | stretch item factor => exact l.outcome?_stretch view item factor
  | range item r => exact outcome?_range view h item r
  | rowStretch row factor => exact outcome?_rowStretch attached h row factor
  | columnStretch column factor => exact outcome?_columnStretch attached h column factor
  | handleWidth width => exact l.outcome?_handleWidth width
  | fixed item on => exact l.outcome?_fixed view item on
  | fractions values => exact l.outcome?_fractions view values
  | release handle position => exact l.outcome?_release view handle position

end Layout

end PixelLayout
