import PixelLayout.Proofs.Flow.Wrap

/-!
# Ways to break items into rows

Items may be broken into rows in many ways that keep their order, leave no row empty and make every
row of several items fit. A flow does it in the one way in which no row could take in the item behind
it. With as many rows no other way gets further, so none needs fewer of them; and what fits into a
container fits into a wider one, so that never needs more.
-/

set_option autoImplicit false

namespace PixelLayout.Flow

/-- The rows are the items in their order. None is empty, and one of several items fits into the
space. -/
structure Breaks (settings : Settings) (space : Int) (items : List Item)
    (rows : List (List Item)) : Prop where
  whole : rows.flatten = items
  filled : ∀ row ∈ rows, row ≠ []
  fits : ∀ row ∈ rows, 2 ≤ row.length → rowWidth settings row ≤ space

def Overflows (settings : Settings) (space : Int) (row next : List Item) : Prop :=
  ∀ item ∈ next.head?, space < rowWidth settings row + settings.spacing + item.minimum.width

section Width

variable {settings : Settings}

theorem rowWidth_perm {row row' : List Item} (h : row.Perm row') :
    rowWidth settings row = rowWidth settings row' := by
  rw [rowWidth, rowWidth, total_perm (h.map _), h.length_eq]

theorem rowWidth_le_of_infix (hs : 0 ≤ settings.spacing) {row row' : List Item} (h : row <:+: row')
    (widths : ∀ c ∈ row', 0 ≤ c.minimum.width) : rowWidth settings row ≤ rowWidth settings row' := by
  obtain ⟨front, back, rfl⟩ := h
  have shifted : (front ++ row ++ back).Perm (row ++ (front ++ back)) := by
    rw [List.append_assoc]
    exact List.perm_append_comm_assoc front row back
  rw [rowWidth_perm shifted]
  apply rowWidth_le_append hs
  intro c hc
  apply widths
  rw [shifted.mem_iff]
  exact List.mem_append_right _ hc

theorem rowWidth_next (row : List Item) (item : Item) :
    rowWidth settings (row ++ [item]) =
      rowWidth settings row + settings.spacing + item.minimum.width := by
  rw [rowWidth_append]
  simp only [List.map_cons, List.map_nil, total_cons, total_nil, List.length_singleton]
  push_cast
  ring

end Width

section Ways

variable {settings : Settings} {space space' : Int} {items row : List Item}
  {rows rows' : List (List Item)}

theorem fits_or_single_iff (filled : row ≠ []) :
    rowWidth settings row ≤ space ∨ row.length = 1 ↔
      (2 ≤ row.length → rowWidth settings row ≤ space) := by
  have pos := List.length_pos_iff.mpr filled
  omega

theorem firstFit_iff : FirstFit settings space rows ↔
    (∀ row ∈ rows, row ≠ []) ∧
      (∀ row ∈ rows, 2 ≤ row.length → rowWidth settings row ≤ space) ∧
      rows.IsChain (Overflows settings space) := by
  induction rows with
  | nil => simp [FirstFit]
  | cons row rows ih =>
    rw [FirstFit, ih]
    cases rows with
    | nil =>
      simp only [List.flatten_nil, List.head?_nil, List.forall_mem_cons]
      by_cases filled : row = []
      · simp [filled]
      · simp [filled, fits_or_single_iff filled]
    | cons next rows =>
      simp only [List.forall_mem_cons, List.isChain_cons_cons]
      by_cases filled : row = []
      · simp [filled]
      by_cases filled' : next = []
      · simp [filled']
      have first : (next :: rows).flatten.head? = next.head? := by
        rw [List.flatten_cons, List.head?_append_of_ne_nil _ filled']
      rw [first, fits_or_single_iff filled]
      simp only [rowWidth_next, Overflows]
      tauto

theorem Breaks.mono (h : Breaks settings space items rows) (hle : space ≤ space') :
    Breaks settings space' items rows :=
  ⟨h.whole, h.filled, fun row hrow several => (h.fits row hrow several).trans hle⟩

theorem Breaks.tail (h : Breaks settings space items (row :: rows)) :
    Breaks settings space rows.flatten rows :=
  ⟨rfl, (List.forall_mem_cons.mp h.filled).2, (List.forall_mem_cons.mp h.fits).2⟩

theorem FirstFit.breaks (h : FirstFit settings space rows) :
    Breaks settings space rows.flatten rows :=
  have ⟨filled, fits, _⟩ := firstFit_iff.mp h
  ⟨rfl, filled, fits⟩

variable (hs : 0 ≤ settings.spacing)

include hs

/-- A row that is filled ends no earlier than one that begins no later. -/
theorem FirstFit.ahead (h : FirstFit settings space (row :: rows)) {row' more : List Item}
    (fits : 2 ≤ row'.length → rowWidth settings row' ≤ space)
    (widths : ∀ c ∈ row', 0 ≤ c.minimum.width)
    (ahead : (row :: rows).flatten <:+ row' ++ more) : rows.flatten <:+ more := by
  obtain ⟨front, same⟩ := ahead
  rw [List.flatten_cons] at same
  rcases List.append_eq_append_iff.mp same with ⟨begun, hrow', rest⟩ | ⟨gap, -, hmore⟩
  · rcases List.append_eq_append_iff.mp rest with ⟨beyond, hbegun, left⟩ | ⟨left, -, hmore⟩
    · -- what the other row has beyond this one did not fit here, so there is nothing
      cases beyond with
      | nil => rw [left, List.nil_append]
      | cons item beyond =>
        have full := h.2.2.1 item (by rw [left]; rfl)
        have inside : row ++ [item] <:+: row' := ⟨front, beyond, by simp [hrow', hbegun]⟩
        have wide := rowWidth_le_of_infix hs inside widths
        have pos := List.length_pos_iff.mpr h.1
        have several := inside.length_le
        simp only [List.length_append, List.length_singleton] at several
        have := fits (by omega)
        omega
    · exact ⟨left, hmore.symm⟩
  · exact ⟨gap ++ row, by rw [hmore, List.append_assoc]⟩

/-- Rows that are filled are no more than those of any other way to break at least their items. -/
theorem FirstFit.length_le (h : FirstFit settings space rows)
    (h' : Breaks settings space items rows') (widths : ∀ c ∈ items, 0 ≤ c.minimum.width)
    (ahead : rows.flatten <:+ items) : rows.length ≤ rows'.length := by
  induction rows' generalizing rows items with
  | nil =>
    have empty : items = [] := h'.whole.symm
    rw [empty, List.suffix_nil] at ahead
    rw [h.eq_nil ahead]
  | cons row' rows' ih =>
    cases rows with
    | nil => exact Nat.zero_le _
    | cons row rows =>
      rw [← h'.whole, List.flatten_cons] at ahead widths
      have behind := h.ahead hs (h'.fits row' List.mem_cons_self)
        (fun c hc => widths c (List.mem_append_left _ hc)) ahead
      have rest := ih h.2.2.2 h'.tail (fun c hc => widths c (List.mem_append_right _ hc)) behind
      exact Nat.succ_le_succ rest

end Ways

theorem rows_breaks {settings : Settings} (hs : 0 ≤ settings.spacing) {children : List Item}
    (widths : ∀ c ∈ children.filter (·.inLine), 0 ≤ c.minimum.width) (width : Int) :
    Breaks settings (width - settings.margins.horizontal) (children.filter (·.inLine))
      (rows settings children width) := by
  have breaks := (rows_firstFit hs widths width).breaks
  rwa [flatten_rows] at breaks

/-- The rows of a flow are the items in their order, none is empty, one of several items fits between
the margins, and no row has room for the item behind it. No other rows are like this. -/
theorem rows_eq_iff {settings : Settings} (hs : 0 ≤ settings.spacing) {children : List Item}
    (widths : ∀ c ∈ children.filter (·.inLine), 0 ≤ c.minimum.width) (width : Int)
    (rows' : List (List Item)) :
    rows' = rows settings children width ↔
      Breaks settings (width - settings.margins.horizontal) (children.filter (·.inLine)) rows' ∧
      rows'.IsChain (Overflows settings (width - settings.margins.horizontal)) := by
  have first := rows_firstFit hs widths width
  constructor
  · rintro rfl
    exact ⟨rows_breaks hs widths width, (firstFit_iff.mp first).2.2⟩
  · rintro ⟨breaks, full⟩
    have other := firstFit_iff.mpr ⟨breaks.filled, breaks.fits, full⟩
    apply other.unique hs first
    · rwa [breaks.whole]
    · rw [breaks.whole, flatten_rows]

def roomy : Settings := ⟨.all 5, 10, .inherited⟩

def jostling : List Item :=
  [(1, 120), (2, 45), (3, 45), (4, 0), (5, 130), (6, 20)].map fun (id, width) =>
    { Item.plain id with min := ⟨width, 10⟩, preferred := ⟨width, 10⟩ }

theorem jostling_widths : ∀ c ∈ jostling.filter (·.inLine), 0 ≤ c.minimum.width := by decide

theorem jostling_rows_only :
    (rows roomy jostling 110).map (·.map (·.id)) = [[1], [2, 3], [4], [5], [6]] ∧
    ∀ rows', Breaks roomy 100 jostling rows' → rows'.IsChain (Overflows roomy 100) →
      rows'.map (·.map (·.id)) = [[1], [2, 3], [4], [5], [6]] := by
  have broken : (rows roomy jostling 110).map (·.map (·.id)) = [[1], [2, 3], [4], [5], [6]] := rfl
  have spacing : 0 ≤ roomy.spacing := by decide
  constructor
  · exact broken
  · intro rows' breaks full
    have same := (rows_eq_iff spacing jostling_widths 110 rows').mpr ⟨breaks, full⟩
    rw [same, broken]

/-- No way to break the items of a flow into rows, each of which fits between the margins or is a
single item, has fewer rows; and a wider container has no more of them. -/
theorem fewest_rows {settings : Settings} (hs : 0 ≤ settings.spacing) {children : List Item}
    (widths : ∀ c ∈ children.filter (·.inLine), 0 ≤ c.minimum.width) (width : Int) :
    let items := children.filter (·.inLine)
    let inner := width - settings.margins.horizontal
    Breaks settings inner items (rows settings children width) ∧
    (∀ rows', Breaks settings inner items rows' →
      (rows settings children width).length ≤ rows'.length) ∧
    ∀ width', width ≤ width' →
      (rows settings children width').length ≤ (rows settings children width).length := by
  intro items inner
  have breaks := rows_breaks hs widths width
  have ahead (width' : Int) : (rows settings children width').flatten <:+ items := by
    rw [flatten_rows]
  refine ⟨breaks, fun rows' h' => ?_, fun width' hle => ?_⟩
  · exact (rows_firstFit hs widths width).length_le hs h' widths (ahead width)
  · have wider : inner ≤ width' - settings.margins.horizontal := by omega
    exact (rows_firstFit hs widths width').length_le hs (breaks.mono wider) widths (ahead width')

theorem jostling_fewest :
    (rows roomy jostling 110).length = 5 ∧ (rows roomy jostling 210).length = 3 ∧
    (∀ rows', Breaks roomy 100 jostling rows' → 5 ≤ rows'.length) ∧
    ∀ width, 110 ≤ width → (rows roomy jostling width).length ≤ 5 := by
  have spacing : 0 ≤ roomy.spacing := by decide
  obtain ⟨-, fewest, wider⟩ := fewest_rows spacing jostling_widths 110
  exact ⟨rfl, rfl, fewest, wider⟩

end PixelLayout.Flow
