import PixelLayout.Proofs.Extent.Grid
import PixelLayout.Proofs.Extent.Line
import PixelLayout.Proofs.History.Deed

/-!
# Layouts over any allocator

Every request for space is put to an allocator, which may do more than to answer: it may refuse a
request and so end the run. Where each request that is put is answered by its sizes, and by nothing
else, the run gives what it gives over the plain allocator.
-/

set_option autoImplicit false

namespace PixelLayout

variable {m : Type → Type} [Monad m] (ask : Allocator m)

def Layout.arrangementBy (l : Layout) (v : View) : m Arrangement :=
  l.mode.arrangeBy ask l.settings v.children v.bounds (l.startsAfresh v.children)

def Allocator.Serves (ask : Allocator m) (r : Space.Request) : Prop := ask r = pure r.sizes

variable [LawfulMonad m] {ask}

namespace Line

variable {l : Line} {items : List Item}

theorem arrangeBy_eq (served : ask.Serves (l.request items)) :
    l.arrangeBy ask items = pure (l.arrange items) := by
  rw [arrangeBy, served, pure_bind]
  rfl

theorem minSizeBy_eq (served : ask.Serves (l.request items)) :
    l.minSizeBy ask items = pure (l.minSize items) := by
  rw [minSizeBy, served, pure_bind]
  rfl

end Line

namespace Flow

variable {f : Flow} {settings : Settings}

def Served (f : Flow) (ask : Allocator m) (settings : Settings) : Prop :=
  ∀ (l : Line) (items : List Item), l.settings.spacing = settings.spacing →
    l.stretch = f.stretch → ask.Serves (l.request items)

theorem rowNeedBy_eq (served : f.Served ask settings) (width : Int) (row : List Item) :
    f.rowNeedBy ask settings width row = pure (f.rowNeed settings width row) := by
  rw [rowNeedBy, served _ row rfl rfl, pure_bind]
  rfl

theorem stackBy_eq (served : f.Served ask settings) (x width : Int) (first : Bool) (y : Int)
    (rows : List (List Item)) :
    f.stackBy ask settings x width first y rows =
      pure (f.stack settings x width first y rows) := by
  induction rows generalizing first y with
  | nil => rfl
  | cons row rest ih =>
    have line : ∀ margins bounds, (f.rowLine settings margins bounds).arrangeBy ask row =
        pure ((f.rowLine settings margins bounds).arrange row) :=
      fun margins bounds =>
        Line.arrangeBy_eq (served (f.rowLine settings margins bounds) row rfl rfl)
    simp only [stackBy, stack_cons, rowNeedBy_eq served, line, ih, pure_bind]

theorem arrangeBy_eq (served : f.Served ask settings) (children : List Item) (bounds : Rect) :
    f.arrangeBy ask settings children bounds = pure (f.arrange settings children bounds) :=
  stackBy_eq served ..

theorem mapM_rowNeedBy (served : f.Served ask settings) (width : Int) (rows : List (List Item)) :
    rows.mapM (f.rowNeedBy ask settings width) =
      pure (rows.map (f.rowNeed settings width)) := by
  rw [funext (rowNeedBy_eq served width), List.mapM_pure]

theorem minSizeBy_eq (served : f.Served ask settings) (children : List Item) (size : Size) :
    f.minSizeBy ask settings children size = pure (f.minSize settings children size) := by
  rw [minSizeBy, mapM_rowNeedBy served, pure_bind, minSize_def]

end Flow

namespace Grid

variable {g : Grid} {settings : Settings}

def Served (ask : Allocator m) (spacing : Int) : Prop :=
  ∀ (n : Nat) (tracks : List Track) (stretch : List Nat) (available : Int), Laid n tracks →
    ask.Serves (request tracks stretch available spacing)

theorem tracksBy_eq (served : Served ask settings.spacing) (ps : List Placement) (width : Int) :
    g.tracksBy ask settings ps width = pure (g.tracks settings ps width) := by
  have columns := (g.columnRuler settings).tracks_laid ps
  rw [tracksBy, trackSizesBy, served _ _ _ _ columns, pure_bind, pure_bind]
  rfl

theorem arrangeBy_eq (served : Served ask settings.spacing) (children : List Item)
    (bounds : Rect) :
    g.arrangeBy ask settings children bounds = pure (g.arrange settings children bounds) := by
  have rows : ∀ ps width, Laid g.rowStretch.length (g.tracks settings ps width).rows :=
    fun ps width => Ruler.tracks_laid _ ps
  rw [arrangeBy, tracksBy_eq served, pure_bind, trackSizesBy, served _ _ _ _ (rows _ _), pure_bind,
    pure_bind]
  rfl

theorem minSizeBy_eq (served : Served ask settings.spacing) (children : List Item) (size : Size) :
    g.minSizeBy ask settings children size = pure (g.minSize settings children size) := by
  rw [minSizeBy, tracksBy_eq served, pure_bind]
  rfl

end Grid

end PixelLayout
