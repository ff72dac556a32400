import PixelLayout.Proofs.Flow.Heights

/-!
# Flows of one row

As long as a flow does not wrap, it is a row of a box: it has the same least size, and at the height
of that it arranges its items in the same way. The stretch factors of the two need to agree only on
the items that are laid out.
-/

set_option autoImplicit false

namespace PixelLayout

theorem max?_getD_eq_foldl {ns : List Int} (nonneg : ∀ n ∈ ns, 0 ≤ n) :
    ns.max?.getD 0 = ns.foldl max 0 := by
  cases ns with
  | nil => rfl
  | cons n ns =>
    have first : max 0 n = n := max_eq_right (nonneg n List.mem_cons_self)
    rw [List.max?_cons', Option.getD_some, List.foldl_cons, first]

namespace Line

variable {l : Line} {stretch : Stretches} {items : List Item}

theorem place_stretch (gap position : Int) (es : List (Item × Int)) :
    { l with stretch := stretch }.place gap position es = l.place gap position es := by
  induction es generalizing position with
  | nil => rfl
  | cons e es ih => exact congrArg (l.rect e.1 position e.2 :: ·) (ih _)

/-- A line uses no stretch factors but those of its items. -/
theorem arrange_stretch (factors : ∀ c ∈ items, stretch.factor c.id = l.stretch.factor c.id) :
    { l with stretch := stretch }.arrange items = l.arrange items := by
  have extents : { l with stretch := stretch }.extents items = l.extents items := by
    refine extents_congr (fun c hc => ?_) rfl rfl
    unfold demand
    rw [factors c hc]
    rfl
  have slack : { l with stretch := stretch }.slack items = l.slack items := by
    rw [Line.slack_def, extents]
    rfl
  have pads : { l with stretch := stretch }.pads items = l.pads items := by
    rw [Line.pads_def, slack]
    rfl
  rw [arrange_def, rects_def, pads, extents]
  exact congrArg _ (l.place_stretch _ _ _)

end Line

namespace Flow

variable (f : Flow) (settings : Settings) (b : Box) {children : List Item}

theorem rows_eq_nil {width : Int} (shown : children.filter (·.inLine) = []) :
    rows settings children width = [] := by
  rw [rows, shown]
  rfl

theorem rows_eq_singleton {width : Int} (shown : children.filter (·.inLine) ≠ [])
    (unwrapped : (rows settings children width).length ≤ 1) :
    rows settings children width = [children.filter (·.inLine)] := by
  have whole := flatten_rows settings children width
  cases hrows : rows settings children width with
  | nil =>
    rw [hrows] at whole
    exact absurd whole.symm shown
  | cons row rest =>
    rw [hrows] at whole unwrapped
    have alone : rest = [] := by simpa using unwrapped
    rw [alone, List.flatten_singleton] at whole
    rw [alone, whole]

variable {f b} (horizontal : b.axis = .horizontal)
  (factors : ∀ c ∈ children.filter (·.inLine), b.stretch.factor c.id = f.stretch.factor c.id)

include horizontal factors

/-- A row of a flow needs what a box finds it to need. -/
theorem rowNeed_eq_heights (nonneg : ∀ c ∈ children.filter (·.inLine), c.Nonneg) (size : Size) :
    f.rowNeed settings size.width (children.filter (·.inLine)) =
      ((b.line settings (.ofSize size)).heights (children.filter (·.inLine))).foldl max 0 := by
  set items := children.filter (·.inLine)
  have extents : (f.rowLine settings settings.margins ⟨0, 0, size.width, 0⟩).extents items =
      (b.line settings (.ofSize size)).extents items := by
    refine Line.extents_congr (fun c hc => ?_) ?_ rfl
    · exact Line.demand_row horizontal rfl (factors c hc).symm
    · rw [show (b.line settings (.ofSize size)).axis = .horizontal from horizontal]
      rfl
  have needs : ∀ need ∈ List.zipWith Item.heightAt items
      ((b.line settings (.ofSize size)).extents items), 0 ≤ need := by
    rw [← List.map_uncurry_zip_eq_zipWith]
    exact List.forall_mem_map.mpr fun e he => (nonneg e.1 (List.of_mem_zip he).1).heightAt e.2
  rw [Line.heights_row horizontal, rowNeed_def, extents]
  exact max?_getD_eq_foldl needs

variable (nonneg : ∀ c ∈ children.filter (·.inLine), c.Nonneg)

include nonneg

theorem minSize_eq_row (spacing : 0 ≤ settings.spacing) (size : Size)
    (unwrapped : (rows settings children size.width).length ≤ 1) :
    f.minSize settings children size = b.minSize settings children size := by
  rw [Box.minSize_row settings horizontal, minSize_def, minSizeOf]
  by_cases shown : children.filter (·.inLine) = []
  · rw [rows_eq_nil settings shown, shown]
    simp [Line.gaps, Line.heights_def, Line.rects_def, Line.place]
  · have one := rows_eq_singleton settings shown unwrapped
    have need := rowNeed_eq_heights settings horizontal factors nonneg size
    have some := List.length_pos_iff.mpr shown
    have count : max ((children.filter (·.inLine)).length - 1 : Int) 0 =
        (children.filter (·.inLine)).length - 1 := max_eq_left (by omega)
    have wide : 0 ≤ rowWidth settings (children.filter (·.inLine)) := by
      refine Int.add_nonneg (total_nonneg ?_) (mul_nonneg spacing (by omega))
      exact List.forall_mem_map.mpr fun c hc => (nonneg c hc).minimum .horizontal
    simp only [one, List.map_singleton, List.foldl_cons, List.foldl_nil, max_eq_right wide,
      total_cons, total_nil, need, List.length_singleton, Nat.cast_one, sub_self, max_self,
      mul_zero, add_zero]
    simp only [rowWidth, Line.gaps, count, Box.line, Size.mk.injEq]
    constructor <;> omega

theorem arrange_eq_row (x y : Int) (size : Size)
    (unwrapped : (rows settings children size.width).length ≤ 1) :
    f.arrange settings children ⟨x, y, size.width, (b.minSize settings children size).height⟩ =
      b.arrange settings children
        ⟨x, y, size.width, (b.minSize settings children size).height⟩ := by
  rw [arrange_def, Box.arrange_def]
  by_cases shown : children.filter (·.inLine) = []
  · rw [rows_eq_nil settings shown, shown]
    rfl
  · have need := rowNeed_eq_heights settings horizontal factors nonneg size
    have height : (b.minSize settings children size).height =
        f.rowNeed settings size.width (children.filter (·.inLine)) + settings.margins.vertical := by
      rw [Box.minSize_row settings horizontal, need]
      exact add_comm _ _
    rw [rows_eq_singleton settings shown unwrapped, height]
    simp only [stack_cons, stack_nil, List.append_nil]
    obtain ⟨axis, stretch⟩ := b
    obtain rfl : axis = .horizontal := horizontal
    exact (Line.arrange_stretch factors).symm

end Flow

namespace Layout

/-- As long as a flow does not wrap its children, it is a row of them: a row with the same settings,
and with the same stretch factors of the children that are laid out, has the same least size for the
same size; and wherever the two are given that width and that least height, they arrange their
children in the same way. -/
theorem one_row_arranged {l : Layout} (made : l.Made) (ds : List Deed) {f : Flow}
    (mode : (l.after ds).mode = .flow f) {row : Layout} {b : Box} (boxed : row.mode = .box b)
    (horizontal : b.axis = .horizontal) (settings : row.settings = (l.after ds).settings) (v : View)
    (factors : ∀ c ∈ v.children.filter (·.inLine), b.stretch.factor c.id = f.stretch.factor c.id)
    (nonneg : ∀ c ∈ v.children.filter (·.inLine), c.Nonneg) (size : Size)
    (unwrapped : (Flow.rows (l.after ds).settings v.children size.width).length ≤ 1) :
    let flow := l.after ds
    let least := flow.freshMinSize (some v) size
    row.freshMinSize (some v) size = least ∧
    ∀ x y,
      let bounds := ⟨x, y, size.width, least.height⟩
      (row.arrangement { v with bounds }).batch = (flow.arrangement { v with bounds }).batch := by
  intro flow least
  have spacing : 0 ≤ flow.settings.spacing := (made.sound ds).settings.2
  have computed : least = f.minSize flow.settings v.children size := by
    show flow.mode.minSize _ _ _ = _
    rw [mode]
    rfl
  have same : least = b.minSize flow.settings v.children size :=
    computed.trans (Flow.minSize_eq_row _ horizontal factors nonneg spacing size unwrapped)
  constructor
  · rw [same, ← settings]
    show row.mode.minSize _ _ _ = _
    rw [boxed]
    rfl
  · intro x y bounds
    -- either one may first drop the stretch factors of former children
    set b' := b.refresh v.children (row.startsAfresh v.children)
    set f' := f.refresh v.children (flow.startsAfresh v.children)
    have horizontal' : b'.axis = .horizontal := (b.refresh_axis _ _).trans horizontal
    have factors' : ∀ c ∈ v.children.filter (·.inLine),
        b'.stretch.factor c.id = f'.stretch.factor c.id := by
      intro c hc
      have child : v.children.any (·.id == c.id) = true :=
        List.any_eq_true.mpr ⟨c, (List.mem_filter.mp hc).1, beq_self_eq_true _⟩
      rw [b.refresh_factor child, f.refresh_factor child, factors c hc]
    have same' : least = b'.minSize flow.settings v.children size := by
      rw [computed, ← f.minSize_refresh]
      exact Flow.minSize_eq_row _ horizontal' factors' nonneg spacing size unwrapped
    have arranged : (flow.arrangement { v with bounds }).batch =
        f'.arrange flow.settings v.children bounds := by
      show (flow.mode.arrange _ _ _ _).batch = _
      rw [mode]
      rfl
    have arranged' : (row.arrangement { v with bounds }).batch =
        b'.arrange flow.settings v.children bounds := by
      show (row.mode.arrange _ _ _ _).batch = _
      rw [boxed, ← settings]
      rfl
    rw [arranged, arranged', show bounds = ⟨x, y, size.width, least.height⟩ from rfl, same']
    exact (Flow.arrange_eq_row _ horizontal' factors' nonneg x y size unwrapped).symm

theorem captioned_nonneg : ∀ c ∈ captioned.children.filter (·.inLine), c.Nonneg := by
  intro c hc
  have child : c ∈ captioned.children := (List.mem_filter.mp hc).1
  simp only [captioned, List.mem_cons, List.not_mem_nil, or_false] at child
  rcases child with rfl | rfl | rfl
  · exact ⟨by decide, by decide, nofun⟩
  · exact Item.nonneg_wrapping (by decide) (by decide) (by decide) rfl
  · exact ⟨by decide, by decide, nofun⟩

def wrappingRow : Layout := ⟨.spacious, .idle, [], [], .flow .fresh⟩

theorem wrappingRow_made : wrappingRow.Made :=
  .flow (show flow (some .spacious) = .ok wrappingRow from rfl)

/-- The caption gets its stretch before the flow is attached to its container, and after the row
is. -/
theorem captioned_one_row :
    let flow := wrappingRow.after [.attach, .change true (some captioned) (.stretch 2 3)]
    let row := row.after [.change true (some captioned) (.stretch 2 3), .attach]
    flow.freshMinSize (some captioned) ⟨110, 0⟩ = ⟨80, 56⟩ ∧
    row.freshMinSize (some captioned) ⟨110, 0⟩ = ⟨80, 56⟩ ∧
    (flow.arrangement { captioned with bounds := ⟨10, 20, 110, 56⟩ }).batch =
      [(1, ⟨19, 29, 36, 38⟩), (2, ⟨61, 29, 24, 38⟩), (3, ⟨91, 28, 20, 40⟩)] ∧
    ∀ x y,
      let bounds := ⟨x, y, 110, 56⟩
      (row.arrangement { captioned with bounds }).batch =
        (flow.arrangement { captioned with bounds }).batch := by
  intro flow row
  have least : flow.freshMinSize (some captioned) ⟨110, 0⟩ = ⟨80, 56⟩ := by cbv
  obtain ⟨same, arranged⟩ := one_row_arranged wrappingRow_made
    [.attach, .change true (some captioned) (.stretch 2 3)] rfl (show row.mode = .box _ from rfl)
    rfl rfl captioned (by decide) captioned_nonneg ⟨110, 0⟩ (by decide)
  rw [least] at same arranged
  exact ⟨least, same, by cbv, arranged⟩

end Layout

end PixelLayout
