import PixelLayout.Proofs.Grid.Matrix
import PixelLayout.Proofs.History.Deed
import PixelLayout.Proofs.Splitter.Panes

/-!
# What holds of a layout at all times

A layout is made by one of the four modes, with margins, spacing and handle width that are not
negative and with nothing remembered. They never become negative, and the matrix of a grid stays
well formed, whatever is done with the layout.
-/

set_option autoImplicit false

namespace PixelLayout

def Settings.Nonneg (s : Settings) : Prop := s.margins.hasNegative = false ∧ 0 ≤ s.spacing

theorem Settings.nonneg_of_check {s : Settings} (h : s.check = .ok ()) : s.Nonneg := by
  unfold check at h
  split at h
  · cases h
  split at h
  · cases h
  · next hm hs => exact ⟨by simpa using hm, Int.not_lt.mp hs⟩

inductive Mode.Fresh : Mode → Prop where
  | box (axis : Axis) : Fresh (.box (.ofAxis axis))
  | grid : Fresh (.grid .fresh)
  | flow : Fresh (.flow .fresh)
  | splitter (axis : Axis) {width : Int} (valid : 0 ≤ width) :
      Fresh (.splitter (.ofAxis axis width))

def Mode.Sound : Mode → Prop
  | box _ => True
  | grid g => g.WellFormed
  | flow _ => True
  | splitter s => 0 ≤ s.handleWidth

theorem Mode.Fresh.sound {m : Mode} (h : m.Fresh) : m.Sound := by
  cases h with
  | box | flow => trivial
  | grid => exact Grid.fresh_wellFormed
  | splitter axis valid => exact valid

namespace Layout

inductive Made (l : Layout) : Prop where
  | box {axis : Axis} {settings : Option Settings} (made : box axis settings = .ok l)
  | grid {settings : Option Settings} (made : grid settings = .ok l)
  | flow {settings : Option Settings} (made : flow settings = .ok l)
  | splitter {axis : Axis} {handleWidth : Option Int} (made : splitter axis handleWidth = .ok l)

structure New (l : Layout) : Prop where
  settings : l.settings.Nonneg
  mode : l.mode.Fresh
  idle : l.flags = .idle
  forgotten : l.memo = []
  unseen : l.seen = []

structure Sound (l : Layout) : Prop where
  settings : l.settings.Nonneg
  mode : l.mode.Sound

variable {l : Layout}

theorem Sound.grid (h : l.Sound) {g : Grid} (mode : l.mode = .grid g) : g.WellFormed := by
  have sound := h.mode
  rwa [mode] at sound

theorem new_of_make {settings : Settings} {mode : Mode} (fresh : mode.Fresh)
    (h : make settings mode = .ok l) : l.New := by
  obtain ⟨⟨⟩, check, rfl⟩ := map_ok h
  exact ⟨Settings.nonneg_of_check check, fresh, rfl, rfl, rfl⟩

theorem Made.new (h : l.Made) : l.New := by
  cases h with
  | box made => exact new_of_make (.box _) made
  | grid made => exact new_of_make .grid made
  | flow made => exact new_of_make .flow made
  | splitter made =>
    obtain ⟨⟨⟩, check, made⟩ := bind_ok made
    refine new_of_make (.splitter _ ?_) made
    unfold Splitter.checkHandleWidth at check
    split at check
    · cases check
    · next h => exact Int.not_lt.mp h

def row : Layout := ⟨.spacious, .idle, [], [], .box (.ofAxis .horizontal)⟩

theorem row_made : row.Made := .box (show box .horizontal none = .ok row from rfl)

theorem New.sound (h : l.New) : l.Sound := ⟨h.settings, h.mode.sound⟩

@[simp] theorem minSizeFor_mode (view : Option View) (size : Size) :
    (l.minSizeFor view size).2.mode = l.mode := by
  rw [minSizeFor_def]
  split <;> rfl

@[simp] theorem minSizeFor_settings (view : Option View) (size : Size) :
    (l.minSizeFor view size).2.settings = l.settings := by
  rw [minSizeFor_def]
  split <;> rfl

end Layout

theorem Mode.Sound.arrange {m : Mode} (h : m.Sound) (settings : Settings) (children : List Item)
    (bounds : Rect) (reset : Bool) : (m.arrange settings children bounds reset).mode.Sound := by
  cases m with
  | box | flow => trivial
  | grid g =>
    simp only [Mode.arrange_def, Grid.refresh]
    split
    · exact Grid.WellFormed.restrict h children
    · exact h
  | splitter s =>
    change 0 ≤ (s.settle children bounds reset).1.handleWidth
    rwa [Splitter.settle_handleWidth]

namespace Layout

variable {l : Layout}

theorem Sound.revised (h : l.Sound) {l' : Layout} {view : Option View} {c : Change}
    (revised : Revised l view c l') : l'.Sound := by
  have mode := h.mode
  cases revised with
  | margins valid => exact ⟨⟨valid, h.settings.2⟩, mode⟩
  | spacing valid => exact ⟨⟨h.settings.1, valid⟩, mode⟩
  | alignment => exact ⟨h.settings, mode⟩
  | boxAxis | boxStretch | flowStretch => exact ⟨h.settings, trivial⟩
  | splitterAxis hm | splitterStretch hm | fixed hm | fractions hm | release hm =>
    rw [hm] at mode
    exact ⟨h.settings, mode⟩
  | handleWidth hm valid => exact ⟨h.settings, valid⟩
  | range hm look child valid =>
    rw [hm] at mode
    exact ⟨h.settings, Grid.WellFormed.assign mode _ valid⟩
  | rowStretch hm origin valid =>
    rw [hm] at mode
    exact ⟨h.settings, (Grid.WellFormed.grow mode _ _).setRow _ valid⟩
  | columnStretch hm origin valid =>
    rw [hm] at mode
    exact ⟨h.settings, (Grid.WellFormed.grow mode _ _).setColumn _ valid⟩

theorem Sound.undergo (h : l.Sound) (d : Deed) : (l.undergo d).Sound := by
  cases d with
  | attach | detach | request | start | mark => exact ⟨h.settings, h.mode⟩
  | query view size => exact ⟨by simpa [Layout.undergo] using h.settings,
      by simpa [Layout.undergo] using h.mode⟩
  | pass v => exact ⟨h.settings, h.mode.arrange _ _ _ _⟩
  | change attached view c =>
    simp only [Layout.undergo]
    cases hr : l.revised? attached view c with
    | none => exact h
    | some l' =>
      have := h.revised (revised_of_revised? hr)
      exact ⟨this.settings, this.mode⟩

theorem Sound.after (h : l.Sound) (ds : List Deed) : (l.after ds).Sound :=
  after_induction (fun _ d h => h.undergo d) h ds

/-- A layout is sound at all times. -/
theorem Made.sound (h : l.Made) (ds : List Deed) : (l.after ds).Sound := h.new.sound.after ds

end Layout

end PixelLayout
