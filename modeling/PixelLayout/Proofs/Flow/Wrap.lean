import PixelLayout.Proofs.Extent.Line
import PixelLayout.Proofs.History.Sound

/-!
# How a flow breaks its rows

A row is filled as long as the next item fits behind it. No other way to break the items into rows
does that, so the rows stay the same in any narrower space into which they all fit. The least size
of a flow is as wide as its widest row: a container that is made that narrow keeps its rows.
-/

set_option autoImplicit false

namespace PixelLayout

theorem foldl_max_le_iff {a b : Int} {ns : List Int} :
    ns.foldl max a ≤ b ↔ a ≤ b ∧ ∀ n ∈ ns, n ≤ b := by
  induction ns generalizing a with
  | nil => simp
  | cons n ns ih =>
    rw [List.foldl_cons, ih, List.forall_mem_cons, max_le_iff, and_assoc]

namespace Flow

section Width

variable (settings : Settings)

theorem rowWidth_append (row more : List Item) :
    rowWidth settings (row ++ more) =
      rowWidth settings row + total (more.map (·.minimum.width)) +
        settings.spacing * more.length := by
  simp only [rowWidth, List.map_append, total_append, List.length_append]
  push_cast
  ring

theorem rowWidth_singleton (item : Item) : rowWidth settings [item] = item.minimum.width := by
  simp [rowWidth]

variable {settings} (hs : 0 ≤ settings.spacing)

include hs

theorem rowWidth_le_append (row more : List Item) (h : ∀ c ∈ more, 0 ≤ c.minimum.width) :
    rowWidth settings row ≤ rowWidth settings (row ++ more) := by
  have widths : 0 ≤ total (more.map (·.minimum.width)) := by
    refine total_nonneg fun n hn => ?_
    obtain ⟨c, hc, rfl⟩ := List.mem_map.mp hn
    exact h c hc
  have gaps : 0 ≤ settings.spacing * more.length := mul_nonneg hs (Int.natCast_nonneg _)
  rw [rowWidth_append]
  omega

theorem width_le_rowWidth {row : List Item} (h : ∀ c ∈ row, 0 ≤ c.minimum.width) {item : Item}
    (hitem : item ∈ row) : item.minimum.width ≤ rowWidth settings row := by
  have widths : item.minimum.width ≤ total (row.map (·.minimum.width)) := by
    refine le_total_of_mem (fun n hn => ?_) (List.mem_map_of_mem hitem)
    obtain ⟨c, hc, rfl⟩ := List.mem_map.mp hn
    exact h c hc
  have pos := List.length_pos_of_mem hitem
  have gaps : 0 ≤ settings.spacing * (row.length - 1) := mul_nonneg hs (by omega)
  unfold rowWidth
  omega

end Width

def FirstFit (settings : Settings) (space : Int) : List (List Item) → Prop
  | [] => True
  | row :: rest =>
    row ≠ [] ∧ (rowWidth settings row ≤ space ∨ row.length = 1) ∧
      (∀ item ∈ rest.flatten.head?, space < rowWidth settings (row ++ [item])) ∧
      FirstFit settings space rest

section FirstFit

variable {settings : Settings} {space space' : Int} {row : List Item} {rows rows' : List (List Item)}

theorem FirstFit.fits (h : FirstFit settings space rows) :
    ∀ row ∈ rows, rowWidth settings row ≤ space ∨ row.length = 1 := by
  induction rows with
  | nil => simp
  | cons row rows ih => exact List.forall_mem_cons.mpr ⟨h.2.1, ih h.2.2.2⟩

theorem FirstFit.eq_nil (h : FirstFit settings space rows) (empty : rows.flatten = []) :
    rows = [] := by
  cases rows with
  | nil => rfl
  | cons row rows => exact absurd (List.append_eq_nil_iff.mp empty).1 h.1

/-- Rows broken in one space are broken in the same way in a narrower one that holds them all. -/
theorem FirstFit.narrow (h : FirstFit settings space rows) (hle : space' ≤ space)
    (hold : ∀ row ∈ rows, rowWidth settings row ≤ space') : FirstFit settings space' rows := by
  induction rows with
  | nil => trivial
  | cons row rows ih =>
    obtain ⟨hrow, hrows⟩ := List.forall_mem_cons.mp hold
    obtain ⟨filled, -, full, rest⟩ := h
    exact ⟨filled, .inl hrow, fun item hitem => hle.trans_lt (full item hitem), ih rest hrows⟩

variable (hs : 0 ≤ settings.spacing)

include hs

/-- What `wrapFrom` is left to do: the row it has begun fits, or is a single item that does not. -/
theorem wrapFrom_firstFit {items : List Item} (h : ∀ c ∈ items, 0 ≤ c.minimum.width)
    (left : Int) (begun : row ≠ [] → left = space - rowWidth settings row ∧
      (0 ≤ left ∨ row.length = 1)) :
    FirstFit settings space (wrapFrom space settings.spacing row left items) := by
  induction items generalizing row left with
  | nil =>
    cases row with
    | nil => trivial
    | cons c row =>
      obtain ⟨hleft, hfits⟩ := begun (by simp)
      refine ⟨by simp, hfits.imp_left fun h => by omega, by simp, trivial⟩
  | cons item items ih =>
    obtain ⟨hitem, hitems⟩ := List.forall_mem_cons.mp h
    have single := rowWidth_singleton settings item
    cases row with
    | nil =>
      simp only [wrapFrom, List.isEmpty_nil, if_true]
      split
      · -- the item is wider than the space, so whatever follows does not fit behind it
        next wide =>
        refine ⟨by simp, .inr rfl, fun next hnext => ?_, ih hitems space (by simp)⟩
        rw [flatten_wrapFrom, List.nil_append] at hnext
        have hmem := List.mem_of_mem_head? hnext
        have grows := rowWidth_le_append hs [item] [next] (by simpa using hitems next hmem)
        omega
      · exact ih hitems _ fun _ => ⟨by rw [single], .inr rfl⟩
    | cons c row =>
      obtain ⟨hleft, hfits⟩ := begun (by simp)
      have joined := rowWidth_append settings (c :: row) [item]
      simp only [List.map_cons, List.map_nil, total_cons, total_nil, List.length_singleton] at joined
      simp only [wrapFrom, List.isEmpty_cons, Bool.false_eq_true, if_false]
      split
      · next full =>
        refine ⟨by simp, hfits.imp_left fun h => by omega, fun next hnext => ?_,
          ih hitems _ fun _ => ⟨by rw [single], .inr rfl⟩⟩
        rw [flatten_wrapFrom] at hnext
        obtain rfl : item = next := by simpa using hnext
        omega
      · exact ih hitems _ fun _ => ⟨by omega, .inl (by omega)⟩

theorem wrap_firstFit {items : List Item} (h : ∀ c ∈ items, 0 ≤ c.minimum.width) (space : Int) :
    FirstFit settings space (wrap space settings.spacing items) :=
  wrapFrom_firstFit hs h space (by simp)

/-- A row that is filled is not the beginning of a longer one. -/
theorem FirstFit.longest {more : List Item} {rest rest' : List (List Item)}
    (h : FirstFit settings space (row :: rest))
    (h' : FirstFit settings space ((row ++ more) :: rest'))
    (widths : ∀ c ∈ more, 0 ≤ c.minimum.width) (next : more <+: rest.flatten) : more = [] := by
  by_contra hne
  obtain ⟨item, more, rfl⟩ := List.exists_cons_of_ne_nil hne
  obtain ⟨tail, htail⟩ := next
  have full := h.2.2.1 item (by rw [← htail]; rfl)
  have grows := rowWidth_le_append hs (row ++ [item]) more fun c hc =>
    widths c (List.mem_cons_of_mem _ hc)
  rw [List.append_assoc, List.singleton_append] at grows
  rcases h'.2.1 with fits | single
  · omega
  · have filled := List.length_pos_iff.mpr h.1
    simp only [List.length_append, List.length_cons] at single
    omega

/-- There is one way to break items into rows like this. -/
theorem FirstFit.unique (h : FirstFit settings space rows) (h' : FirstFit settings space rows')
    (widths : ∀ c ∈ rows.flatten, 0 ≤ c.minimum.width) (same : rows.flatten = rows'.flatten) :
    rows = rows' := by
  induction rows generalizing rows' with
  | nil => exact (h'.eq_nil same.symm).symm
  | cons row rows ih =>
    cases rows' with
    | nil => exact absurd (h.eq_nil same) (by simp)
    | cons row' rows' =>
      rw [List.flatten_cons, List.flatten_cons] at same
      rw [List.flatten_cons] at widths
      have heq : row = row' := by
        rcases List.append_eq_append_iff.mp same with ⟨more, hrow, hrest⟩ | ⟨more, hrow, hrest⟩
        · subst hrow
          have hmore := h.longest hs h' (fun c hc => widths c (by simp [hrest, hc])) ⟨_, hrest.symm⟩
          simp [hmore]
        · subst hrow
          have hmore := h'.longest hs h (fun c hc => widths c (by simp [hc])) ⟨_, hrest.symm⟩
          simp [hmore]
      subst heq
      have hrest := ih h.2.2.2 h'.2.2.2 (fun c hc => widths c (by simp [hc]))
        (List.append_cancel_left same)
      rw [hrest]

end FirstFit

section MinSize

variable (f : Flow) {settings : Settings} {children : List Item}

/-- The least size is as narrow as a given width if every row fits into what is inside the margins
of that width. -/
theorem minSize_width_le_iff (size : Size) (width : Int) :
    (f.minSize settings children size).width ≤ width ↔
      0 ≤ width - settings.margins.horizontal ∧
        ∀ row ∈ rows settings children size.width,
          rowWidth settings row ≤ width - settings.margins.horizontal := by
  have widest : ∀ b, ((rows settings children size.width).map (rowWidth settings)).foldl max 0 ≤ b ↔
      0 ≤ b ∧ ∀ row ∈ rows settings children size.width, rowWidth settings row ≤ b := by
    intro b
    rw [foldl_max_le_iff, List.forall_mem_map]
  rw [← widest, minSize_def, minSizeOf]
  dsimp only
  omega

theorem zipWith_heightAt {row : List Item} {extents : List Int} (hlen : extents.length = row.length)
    (rigid : ∀ c ∈ row, c.heightForWidth = none) :
    List.zipWith Item.heightAt row extents = row.map (·.minimum.height) := by
  induction row generalizing extents with
  | nil => simp
  | cons c row ih =>
    cases extents with
    | nil => cases hlen
    | cons extent extents =>
      obtain ⟨hc, hrow⟩ := List.forall_mem_cons.mp rigid
      rw [List.zipWith_cons_cons, List.map_cons, ih (Nat.succ.inj hlen) hrow, Item.heightAt, hc]

/-- Items that do not trade height for width need the same height at every width. -/
theorem rowNeed_of_rigid {row : List Item} (h : ∀ c ∈ row, c.heightForWidth = none) (width : Int) :
    f.rowNeed settings width row = ((row.map (·.minimum.height)).max?).getD 0 := by
  rw [rowNeed_def, needOf, zipWith_heightAt (Line.extents_length _ row) h]

theorem minSize_eq_of_rows {size size' : Size}
    (same : rows settings children size'.width = rows settings children size.width)
    (rigid : ∀ c ∈ children.filter (·.inLine), c.heightForWidth = none) :
    f.minSize settings children size' = f.minSize settings children size := by
  have needs : (rows settings children size.width).map (f.rowNeed settings size'.width) =
      (rows settings children size.width).map (f.rowNeed settings size.width) := by
    refine List.map_congr_left fun row hrow => ?_
    have hrigid : ∀ c ∈ row, c.heightForWidth = none :=
      fun c hc => rigid c (mem_of_mem_rows hrow hc)
    rw [f.rowNeed_of_rigid hrigid, f.rowNeed_of_rigid hrigid]
  rw [minSize_def, minSize_def, same, needs]

variable (hs : 0 ≤ settings.spacing) (widths : ∀ c ∈ children.filter (·.inLine), 0 ≤ c.minimum.width)

include hs widths

theorem rows_firstFit (width : Int) :
    FirstFit settings (width - settings.margins.horizontal) (rows settings children width) :=
  wrap_firstFit hs widths _

theorem rows_fit {width : Int}
    (fits : ∀ c ∈ children.filter (·.inLine), c.minimum.width ≤ width - settings.margins.horizontal) :
    ∀ row ∈ rows settings children width,
      rowWidth settings row ≤ width - settings.margins.horizontal := by
  intro row hrow
  rcases (rows_firstFit hs widths width).fits row hrow with h | single
  · exact h
  · obtain ⟨c, rfl⟩ := List.length_eq_one_iff.mp single
    rw [rowWidth_singleton]
    exact fits c (mem_of_mem_rows hrow (List.mem_singleton_self c))

theorem rows_narrow {width width' : Int} (hle : width' ≤ width)
    (hold : ∀ row ∈ rows settings children width,
      rowWidth settings row ≤ width' - settings.margins.horizontal) :
    rows settings children width' = rows settings children width := by
  have narrower := (rows_firstFit hs widths width).narrow (by omega) hold
  refine (rows_firstFit hs widths width').unique hs narrower ?_ ?_
  · rw [flatten_rows]
    exact widths
  · rw [flatten_rows, flatten_rows]

theorem exists_wide_of_lt {size : Size} (shown : children.filter (·.inLine) ≠ [])
    (h : size.width < (f.minSize settings children size).width) :
    ∃ c ∈ children.filter (·.inLine), size.width - settings.margins.horizontal < c.minimum.width := by
  by_contra none
  have fits : ∀ c ∈ children.filter (·.inLine),
      c.minimum.width ≤ size.width - settings.margins.horizontal := by
    intro c hc
    by_contra wide
    exact none ⟨c, hc, Int.not_le.mp wide⟩
  obtain ⟨c, hc⟩ := List.exists_mem_of_ne_nil _ shown
  have room := (widths c hc).trans (fits c hc)
  have le := (f.minSize_width_le_iff size size.width).mpr ⟨room, rows_fit hs widths fits⟩
  omega

theorem lt_of_exists_wide {size : Size} {c : Item} (hc : c ∈ children.filter (·.inLine))
    (wide : size.width - settings.margins.horizontal < c.minimum.width) :
    size.width < (f.minSize settings children size).width := by
  by_contra narrow
  have hold := ((f.minSize_width_le_iff size size.width).mp (Int.not_lt.mp narrow)).2
  rw [← flatten_rows settings children size.width] at hc
  obtain ⟨row, hrow, hcrow⟩ := List.mem_flatten.mp hc
  have least := width_le_rowWidth hs (fun c hc => widths c (mem_of_mem_rows hrow hc)) hcrow
  have := hold row hrow
  omega

end MinSize

end Flow

namespace Layout

variable {l : Layout}

/-- A flow that is made as narrow as its least size keeps its rows, and that size is its least size
there too if no child trades height for width. It would have to be made wider instead exactly if
some child does not fit on its own. -/
theorem narrowed_keeps_rows (made : l.Made) (ds : List Deed) {f : Flow}
    (mode : (l.after ds).mode = .flow f) (v : View)
    (nonneg : ∀ c ∈ v.children.filter (·.inLine), c.Nonneg)
    (shown : v.children.filter (·.inLine) ≠ []) (size : Size) :
    let settings := (l.after ds).settings
    let least := (l.after ds).freshMinSize (some v)
    let inner := size.width - settings.margins.horizontal
    ((∀ c ∈ v.children.filter (·.inLine), c.minimum.width ≤ inner) →
      (least size).width ≤ size.width ∧
      Flow.rows settings v.children (least size).width = Flow.rows settings v.children size.width ∧
      ((∀ c ∈ v.children.filter (·.inLine), c.heightForWidth = none) →
        least (least size) = least size)) ∧
    (size.width < (least size).width ↔
      ∃ c ∈ v.children.filter (·.inLine), inner < c.minimum.width) := by
  intro settings least inner
  have hs : 0 ≤ settings.spacing := (made.sound ds).settings.2
  have widths : ∀ c ∈ v.children.filter (·.inLine), 0 ≤ c.minimum.width :=
    fun c hc => (nonneg c hc).minimum .horizontal
  have hleast : ∀ s, least s = f.minSize settings v.children s := by
    intro s
    simp only [least, freshMinSize_def, mode]
    rfl
  constructor
  · intro fits
    have hle : (least size).width ≤ size.width := by
      by_contra wide
      rw [hleast, Int.not_le] at wide
      obtain ⟨c, hc, hwide⟩ := f.exists_wide_of_lt hs widths shown wide
      exact absurd (fits c hc) (Int.not_le.mpr hwide)
    have shrunk : (f.minSize settings v.children size).width ≤ (least size).width := by
      rw [hleast]
    have hold := ((f.minSize_width_le_iff size (least size).width).mp shrunk).2
    have hrows := Flow.rows_narrow hs widths hle hold
    refine ⟨hle, hrows, fun rigid => ?_⟩
    rw [hleast (least size), hleast size]
    rw [hleast size] at hrows
    exact f.minSize_eq_of_rows hrows rigid
  · rw [hleast]
    constructor
    · exact f.exists_wide_of_lt hs widths shown
    · rintro ⟨c, hc, wide⟩
      exact f.lt_of_exists_wide hs widths hc wide

def tenApart : Layout := ⟨{ Settings.zero with spacing := 10 }, .idle, [], [], .flow .fresh⟩

theorem tenApart_made : tenApart.Made :=
  .flow (show flow (some { Settings.zero with spacing := 10 }) = .ok tenApart from rfl)

def threeItems : View where
  suspended := false
  children := [1, 2, 3].map fun id =>
    { Item.plain id with min := ⟨40, 10⟩, preferred := ⟨40, 10⟩ }
  bounds := ⟨0, 0, 100, 100⟩

/-- Two items and the ten pixels between them are ninety wide; the third item has a row of its
own. -/
theorem three_items_narrowed :
    let least := (tenApart.after [.attach]).freshMinSize (some threeItems)
    least ⟨100, 100⟩ = ⟨90, 30⟩ ∧ (least ⟨100, 100⟩).width ≤ 100 ∧
    Flow.rows tenApart.settings threeItems.children (least ⟨100, 100⟩).width =
      Flow.rows tenApart.settings threeItems.children 100 ∧
    least (least ⟨100, 100⟩) = least ⟨100, 100⟩ ∧
    (39 < (least ⟨39, 100⟩).width ↔
      ∃ c ∈ threeItems.children.filter (·.inLine), 39 - 0 < c.minimum.width) := by
  intro least
  have nonneg : ∀ c ∈ threeItems.children.filter (·.inLine), c.Nonneg := by
    intro c hc
    obtain ⟨id, -, rfl⟩ := List.mem_map.mp (List.mem_filter.mp hc).1
    exact ⟨show (0 : Int) ≤ 40 by decide, show (0 : Int) ≤ 10 by decide, nofun⟩
  have shown : threeItems.children.filter (·.inLine) ≠ [] := by decide
  have fits : ∀ c ∈ threeItems.children.filter (·.inLine), c.minimum.width ≤ 100 - 0 := by
    intro c hc
    obtain ⟨id, -, rfl⟩ := List.mem_map.mp (List.mem_filter.mp hc).1
    show (40 : Int) ≤ 100 - 0
    decide
  have rigid : ∀ c ∈ threeItems.children.filter (·.inLine), c.heightForWidth = none := by
    intro c hc
    obtain ⟨id, -, rfl⟩ := List.mem_map.mp (List.mem_filter.mp hc).1
    rfl
  have h := narrowed_keeps_rows tenApart_made [.attach] rfl threeItems nonneg shown
  obtain ⟨hle, hrows, hleast⟩ := (h ⟨100, 100⟩).1 fits
  exact ⟨by cbv, hle, hrows, hleast rigid, (h ⟨39, 100⟩).2⟩

end Layout

end PixelLayout
