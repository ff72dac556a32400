import PixelLayout.Proofs.Transpose.Change

/-!
# Histories of a transposed layout

Whatever happens to a layout can happen to its transpose with both axes swapped, and the two stay
transposes of each other: so do their batches, their least sizes and the flags that they report, and
the panes of a splitter keep the same sizes. Only flows, and children that trade height for width,
tell the axes apart.
-/

set_option autoImplicit false

namespace PixelLayout

def Arrangement.transpose (a : Arrangement) : Arrangement :=
  ⟨a.mode.transpose, a.batch.transpose, a.events⟩

namespace Mode

variable {m : Mode} (notFlow : m.name ≠ "flow") (settings : Settings) {children : List Item}
  (plain : ∀ c ∈ children, c.Plain)

include notFlow plain

theorem arrange_transpose (sound : m.Sound) (bounds : Rect) (reset : Bool) :
    m.transpose.arrange settings.transpose (children.map .transpose) bounds.transpose reset =
      (m.arrange settings children bounds reset).transpose := by
  cases m with
  | box b =>
    simp only [arrange_def, transpose, b.refresh_transpose, Box.arrange_transpose _ plain]
    rfl
  | grid g =>
    simp only [arrange_def, transpose, Grid.WellFormed.refresh_transpose sound,
      Grid.arrange_transpose _ _ plain]
    rfl
  | flow => exact absurd rfl notFlow
  | splitter s =>
    simp only [arrange_def, transpose, s.settle_transpose, Splitter.batch_transpose]
    rfl

theorem minSize_transpose (size : Size) :
    m.transpose.minSize settings.transpose (children.map .transpose) size.transpose =
      (m.minSize settings children size).transpose := by
  cases m with
  | box b => exact b.minSize_transpose plain settings size
  | grid g => exact g.minSize_transpose settings plain size
  | flow => exact absurd rfl notFlow
  | splitter s => exact s.minSize_transpose children

end Mode

namespace Layout

variable {l : Layout}

/-- A layout keeps to its kind. -/
theorem undergo_name (d : Deed) : (l.undergo d).mode.name = l.mode.name := by
  cases d with
  | attach | detach | request | start | mark => rfl
  | query view size => exact congrArg Mode.name (minSizeFor_mode view size)
  | pass v =>
    show (l.mode.arrange _ _ _ _).mode.name = l.mode.name
    cases l.mode <;> rfl
  | change attached view c =>
    simp only [undergo]
    cases hr : l.revised? attached view c with
    | none => rfl
    | some l' =>
      show l'.mode.name = l.mode.name
      cases revised_of_revised? hr with
      | margins | spacing | alignment => rfl
      | boxAxis mode | splitterAxis mode | boxStretch mode | flowStretch mode
      | splitterStretch mode | range mode | rowStretch mode | columnStretch mode
      | handleWidth mode | fixed mode | fractions mode | release mode =>
        rw [mode]
        rfl

theorem after_name (ds : List Deed) : (l.after ds).mode.name = l.mode.name :=
  after_induction (P := fun l' => l'.mode.name = l.mode.name)
    (fun _ d h => (undergo_name d).trans h) rfl ds

end Layout

def Deed.transpose : Deed → Deed
  | attach => .attach
  | detach => .detach
  | request reset => .request reset
  | start reset => .start reset
  | mark performing pending => .mark performing pending
  | pass v => .pass v.transpose
  | change attached view c => .change attached (view.map .transpose) c.transpose
  | query view size => .query (view.map .transpose) size.transpose

def Deed.Plain : Deed → Prop
  | pass v => v.Plain
  | query view _ => ∀ v ∈ view, v.Plain
  | _ => True

namespace Layout

section Transpose

variable {l : Layout} (notFlow : l.mode.name ≠ "flow")

theorem reportedFlags_transpose (view : Option View) :
    l.transpose.reportedFlags (view.map .transpose) = (l.reportedFlags view).transpose := by
  obtain ⟨settings, flags, memo, seen, mode⟩ := l
  cases mode with
  | box b =>
    cases view with
    | none => rfl
    | some v => exact b.flags_transpose v.children
  | grid g =>
    cases view with
    | none => rfl
    | some v => exact Grid.flags_transpose v.children
  | flow | splitter => rfl

include notFlow

theorem arrangement_transpose (sound : l.Sound) {v : View} (plain : v.Plain) :
    l.transpose.arrangement v.transpose = (l.arrangement v).transpose := by
  have reset : l.transpose.startsAfresh v.transpose.children = l.startsAfresh v.children := by
    rw [startsAfresh, View.transpose, map_id_transpose]
    rfl
  rw [arrangement, reset]
  exact Mode.arrange_transpose notFlow l.settings plain sound.mode v.bounds _

theorem minSizeFor_transpose {view : Option View} (plain : ∀ v ∈ view, v.Plain) (size : Size) :
    l.transpose.minSizeFor (view.map .transpose) size.transpose =
      ((l.minSizeFor view size).1.transpose, (l.minSizeFor view size).2.transpose) := by
  have known (memo : List (Size × Size)) :
      (memo.map fun e => (e.1.transpose, e.2.transpose)).lookup size.transpose =
        (memo.lookup size).map .transpose := by
    induction memo with
    | nil => rfl
    | cons e memo ih =>
      have same : (size.transpose == e.1.transpose) = (size == e.1) := by
        rw [Bool.eq_iff_iff, beq_iff_eq, beq_iff_eq]
        exact Size.transpose_inj
      rw [List.map_cons, List.lookup_cons, List.lookup_cons, ih, same]
      cases size == e.1 <;> rfl
  have known : l.transpose.memo.lookup size.transpose = (l.memo.lookup size).map .transpose :=
    known l.memo
  have fresh : l.transpose.freshMinSize (view.map .transpose) size.transpose =
      (l.freshMinSize view size).transpose := by
    cases view with
    | none => rfl
    | some v => exact Mode.minSize_transpose notFlow l.settings (plain v rfl) size
  rw [minSizeFor_def, known, fresh, minSizeFor_def]
  cases l.memo.lookup size <;> rfl

theorem undergo_transpose (sound : l.Sound) {d : Deed} (plain : d.Plain) :
    l.transpose.undergo d.transpose = (l.undergo d).transpose := by
  cases d with
  | attach | detach | request | start | mark => rfl
  | pass v =>
    have arranged : l.transpose.forget.arrangement v.transpose =
        (l.forget.arrangement v).transpose :=
      arrangement_transpose (l := l.forget) notFlow ⟨sound.settings, sound.mode⟩ plain
    have seen : v.transpose.children.map (·.id) = v.children.map (·.id) :=
      map_id_transpose v.children
    simp only [undergo, Deed.transpose, passed, Layout.arranged, arranged, seen]
    rfl
  | change attached view c =>
    simp only [undergo, Deed.transpose, revised?_transpose attached view sound]
    cases l.revised? attached view c <;> rfl
  | query view size => exact congrArg Prod.snd (minSizeFor_transpose notFlow plain size)

theorem after_transpose (sound : l.Sound) {ds : List Deed} (plain : ∀ d ∈ ds, d.Plain) :
    l.transpose.after (ds.map .transpose) = (l.after ds).transpose := by
  induction ds with
  | nil => rfl
  | cons d ds ih =>
    obtain ⟨here, rest⟩ := List.forall_mem_cons.mp plain
    have kind : (l.after ds).mode.name ≠ "flow" := (after_name ds).symm ▸ notFlow
    rw [List.map_cons, after, ih rest, undergo_transpose kind (sound.after ds) here]
    rfl

omit notFlow in
theorem make_transpose {settings : Settings} {mode : Mode} (h : make settings mode = .ok l) :
    make settings.transpose mode.transpose = .ok l.transpose := by
  obtain ⟨⟨⟩, check, rfl⟩ := map_ok h
  rw [make, Settings.check_transpose check]
  rfl

theorem Made.transpose (made : l.Made) : l.transpose.Made := by
  have given (settings : Option Settings) (fallback : Settings) :
      (settings.map .transpose).getD fallback.transpose =
        (settings.getD fallback).transpose := by
    cases settings <;> rfl
  cases made with
  | @box axis settings made =>
    refine .box (show Layout.box axis.cross (settings.map .transpose) = _ from ?_)
    have made := make_transpose made
    rwa [← given] at made
  | @grid settings made =>
    refine .grid (show Layout.grid (settings.map .transpose) = _ from ?_)
    have made := make_transpose made
    rwa [← given] at made
  | flow made =>
    obtain ⟨⟨⟩, -, rfl⟩ := map_ok made
    exact absurd rfl notFlow
  | @splitter axis width made =>
    refine .splitter (show Layout.splitter axis.cross width = _ from ?_)
    obtain ⟨⟨⟩, check, made⟩ := bind_ok made
    rw [Layout.splitter, check]
    exact make_transpose made

omit notFlow in
/-- Swapping the axes of everything that happens to a box, a grid or a splitter swaps them in all
that comes of it, as long as no child trades height for width. So batches list the same children in
the same order, and the panes of a splitter go through the same sizes. -/
theorem transposed_after (made : l.Made) (notFlow : l.mode.name ≠ "flow") {ds : List Deed}
    (plain : ∀ d ∈ ds, d.Plain) :
    let l' := l.transpose.after (ds.map .transpose)
    l.transpose.Made ∧ l' = (l.after ds).transpose ∧
    (∀ v : View, v.Plain →
      (l'.arrangement v.transpose).batch = ((l.after ds).arrangement v).batch.transpose) ∧
    (∀ view : Option View, (∀ v ∈ view, v.Plain) → ∀ size : Size,
      (l'.minSizeFor (view.map .transpose) size.transpose).1 =
        ((l.after ds).minSizeFor view size).1.transpose) ∧
    (∀ view : Option View,
      l'.reportedFlags (view.map .transpose) = ((l.after ds).reportedFlags view).transpose) ∧
    ∀ s, (l.after ds).mode = .splitter s →
      l'.mode = .splitter { s with axis := s.axis.cross } := by
  intro l'
  have same : l' = (l.after ds).transpose := after_transpose notFlow made.new.sound plain
  have kind : (l.after ds).mode.name ≠ "flow" := (after_name ds).symm ▸ notFlow
  rw [same]
  refine ⟨made.transpose notFlow, rfl, fun v plain => ?_, fun view plain size => ?_,
    (l.after ds).reportedFlags_transpose, fun s mode => ?_⟩
  · rw [arrangement_transpose kind (made.sound ds) plain]
    rfl
  · rw [minSizeFor_transpose kind plain]
  · exact congrArg Mode.transpose mode

end Transpose

def shelf : Layout := ⟨⟨⟨1, 2, 3, 4⟩, 5, .inherited⟩, .idle, [], [], .grid .fresh⟩

theorem shelf_made : shelf.Made :=
  .grid (show grid (some ⟨⟨1, 2, 3, 4⟩, 5, .inherited⟩) = .ok shelf from rfl)

def books : View where
  suspended := false
  children := [{ Item.plain 1 with min := ⟨50, 10⟩ }, { Item.plain 2 with min := ⟨20, 30⟩ },
    { Item.plain 3 with flags := .resizable }]
  bounds := ⟨0, 0, 100, 80⟩

def stocked : List Deed :=
  let change (c : Change) : Deed := .change true (some books) c
  [.query (some books) ⟨100, 80⟩, change (.columnStretch 1 3), .pass books,
    change (.range 3 (.cell 1 1)), change (.range 2 (.cell 1 0)), change (.range 1 ⟨0, 0, 1, 2⟩),
    .attach]

theorem shelf_transposed :
    let l := shelf.transpose.after (stocked.map .transpose)
    (l.arrangement books.transpose).batch =
      [(1, ⟨9, 24, 10, 50⟩), (2, ⟨39, 9, 30, 20⟩), (3, ⟨32, 43, 44, 54⟩)] ∧
    (l.minSizeFor (some books.transpose) ⟨80, 100⟩).1 = ⟨51, 54⟩ := by
  intro l
  have plain : books.Plain := by simp [View.Plain, books, Item.Plain, Item.plain]
  have sober : ∀ d ∈ stocked, d.Plain := by simp [stocked, Deed.Plain, plain]
  obtain ⟨-, -, batch, least, -⟩ := transposed_after shelf_made (by decide) sober
  refine ⟨(batch books plain).trans ?_,
    (least (some books) (by simpa using plain) ⟨100, 80⟩).trans ?_⟩
  · cbv
  · cbv

end Layout

end PixelLayout
