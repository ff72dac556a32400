import PixelLayout.Offscreen.World
import PixelLayout.Proofs.History.Deed
import PixelLayout.Proofs.Splitter.Leftover

/-!
# Passes that are run again

A pass over the same children in the same bounds that does not start afresh gives the same batch
once more and leaves the mode as it is. An update uses up the request to start afresh with its pass,
whatever becomes of the batch; all the same, the batch that was handed over last is the one that the
next update hands over, if nothing was changed and no further fresh start was asked for.
-/

set_option autoImplicit false

namespace PixelLayout

/-- What a pass arranged, the next pass over the same children arranges in the same way. -/
theorem Mode.arrange_again (m : Mode) (settings : Settings) {children : List Item}
    (distinct : (children.map (·.id)).Nodup) (bounds : Rect) (reset : Bool) :
    (m.arrange settings children bounds reset).mode.arrange settings children bounds false =
      m.arrange settings children bounds reset := by
  cases m with
  | box | grid | flow => rfl
  | splitter s =>
    have again := s.settle_again bounds reset distinct
    simp only [Mode.arrange_def, again]

namespace Layout

structure AtRest (l : Layout) (v : View) (a : Arrangement) : Prop where
  resumes : l.startsAfresh v.children = false
  stays : a.mode = l.mode
  again : l.arrangement v = a

/-- Since then nothing was changed: no setting, no children or bounds that a pass found, and no
fresh start was asked for. -/
def Unchanged (l : Layout) (v : View) : List Deed → Prop
  | [] => True
  | .attach :: _ => False
  | .request reset :: ds | .start reset :: ds => reset = false ∧ l.Unchanged v ds
  | .detach :: ds | .mark _ _ :: ds | .query _ _ :: ds => l.Unchanged v ds
  | .pass v' :: ds => v'.children = v.children ∧ v'.bounds = v.bounds ∧ l.Unchanged v ds
  | .change attached view c :: ds =>
    (l.after ds).revised? attached view c = none ∧ l.Unchanged v ds

section AtRest

variable {l l' : Layout} {v v' : View} {a : Arrangement}

theorem AtRest.congr (h : l.AtRest v a) (settings : l'.settings = l.settings)
    (mode : l'.mode = l.mode) (seen : l'.seen = l.seen)
    (reset : l'.flags.resetNeeded = l.flags.resetNeeded) : l'.AtRest v a := by
  have afresh : l'.startsAfresh v.children = l.startsAfresh v.children := by
    rw [startsAfresh, startsAfresh, seen, reset]
  refine ⟨afresh.trans h.resumes, h.stays.trans mode.symm, ?_⟩
  rw [← h.again, arrangement, arrangement, settings, mode, afresh]

theorem AtRest.view (h : l.AtRest v a) (children : v'.children = v.children)
    (bounds : v'.bounds = v.bounds) : l.AtRest v' a := by
  refine ⟨children ▸ h.resumes, h.stays, ?_⟩
  rw [← h.again, arrangement, arrangement, children, bounds]

theorem startsAfresh_passed (l : Layout) (v : View) :
    (l.passed v).startsAfresh v.children = false := by
  show (false || v.children.map (·.id) != v.children.map (·.id)) = false
  simp

theorem atRest_passed (distinct : v.ids.Nodup) (l : Layout) :
    (l.passed v).AtRest v (l.arrangement v) := by
  have resumes := startsAfresh_passed l v
  refine ⟨resumes, rfl, ?_⟩
  rw [arrangement, resumes]
  exact Mode.arrange_again _ _ distinct _ _

theorem AtRest.passed (h : l.AtRest v a) : (l.passed v).AtRest v a := by
  have resumes := startsAfresh_passed l v
  have mode : (l.passed v).mode = l.mode := (congrArg Arrangement.mode h.again).trans h.stays
  refine ⟨resumes, h.stays.trans mode.symm, ?_⟩
  rw [← h.again, arrangement, arrangement, resumes, h.resumes, mode]
  rfl

/-- Requests for a further pass do not disturb a layout, unless one is for a fresh start. -/
theorem AtRest.requests (h : l.AtRest v a) {rs : List Bool} (kept : true ∉ rs) :
    (rs.foldl request l).AtRest v a := by
  have reset : (rs.foldl request l).flags.resetNeeded = l.flags.resetNeeded := by
    rw [foldl_request_resetNeeded]
    simp [kept]
  rw [foldl_request] at reset ⊢
  exact h.congr rfl rfl rfl reset

theorem AtRest.after (h : l.AtRest v a) {ds : List Deed} (unchanged : l.Unchanged v ds) :
    (l.after ds).AtRest v a := by
  induction ds with
  | nil => exact h
  | cons d ds ih =>
    cases d with
    | attach => exact unchanged.elim
    | request reset | start reset =>
      obtain ⟨rfl, unchanged⟩ := unchanged
      exact (ih unchanged).congr rfl rfl rfl (Bool.or_false _)
    | detach | mark => exact (ih unchanged).congr rfl rfl rfl rfl
    | query view size =>
      refine (ih unchanged).congr ?_ ?_ ?_ ?_ <;>
        (simp only [Layout.after, undergo, minSizeFor_def]; split <;> rfl)
    | pass v' =>
      obtain ⟨children, bounds, unchanged⟩ := unchanged
      have rest : (l.after ds).forget.AtRest v a := (ih unchanged).congr rfl rfl rfl rfl
      exact (rest.view children bounds).passed.view children.symm bounds.symm
    | change attached view c =>
      obtain ⟨none, unchanged⟩ := unchanged
      have same : l.after (.change attached view c :: ds) = l.after ds := by
        simp only [Layout.after, undergo, none]
        rfl
      rw [same]
      exact ih unchanged

end AtRest

variable {σ : Type} {host : Host σ} {left number : Nat} {l : Layout} {s : σ}
  {log : List (Handover σ)} {o : Outcome σ}

namespace Course

/-- Without a handover nothing becomes of a layout but its mark of a pending pass. -/
theorem layout_of_nil (course : Course host left number l s log o) (none : log = []) :
    ∃ pending, o.layout = l.setPending pending := by
  cases course with
  | out => exact ⟨false, rfl⟩
  | busy | suspended => exact ⟨true, rfl⟩
  | deferred | failed | settled | reopened => cases none

theorem atRest_answered {v : View} (distinct : v.ids.Nodup)
    (kept : true ∉ (l.handover host s v).commit.requests) :
    (l.answered host s v).AtRest v (l.arrangement v) :=
  (atRest_passed distinct l).requests kept

/-- The batch handed over last leaves the layout at rest, whatever its fate. -/
theorem atRest (course : Course host left number l s log o) {h : Handover σ}
    (last : log.getLast? = some h) {v : View} (look : host.look h.found = some v)
    (distinct : v.ids.Nodup) (kept : true ∉ h.commit.requests) :
    ∃ a, o.layout.AtRest v a ∧ a.batch = h.batch := by
  induction course with
  | out | busy | suspended => cases last
  | @deferred left number l s v' look' =>
    cases last
    obtain rfl : v' = v := Option.some.inj (look'.symm.trans look)
    exact ⟨_, (atRest_answered distinct kept).congr rfl rfl rfl rfl, rfl⟩
  | @failed left number l s v' e look' | @settled left number l s v' look' =>
    cases last
    obtain rfl : v' = v := Option.some.inj (look'.symm.trans look)
    exact ⟨_, atRest_answered distinct kept, rfl⟩
  | @reopened left number l s v' log o look' opened reopens rest ih =>
    -- behind the last batch a further pass may have found the container in use or suspended
    cases hlog : log with
    | nil =>
      rw [hlog] at last
      cases last
      obtain rfl : v' = v := Option.some.inj (look'.symm.trans look)
      obtain ⟨pending, layout⟩ := rest.layout_of_nil hlog
      refine ⟨_, ?_, rfl⟩
      show o.layout.AtRest v' _
      rw [layout]
      exact (atRest_answered distinct kept).congr rfl rfl rfl rfl
    | cons h' log' =>
      rw [hlog, List.getLast?_cons_cons] at last
      rw [hlog] at ih
      exact ih last

theorem head_eq (course : Course host (left + 1) number l s log o) {v : View}
    (look : host.look s = some v) (opened : v.suspended = false) :
    log.head? = some (l.handover host s v) := by
  cases course with
  | busy _ _ _ unseen => simp [look] at unseen
  | suspended _ _ _ look' suspended =>
    obtain rfl := Option.some.inj (look'.symm.trans look)
    simp [opened] at suspended
  | deferred _ _ _ look' | failed _ _ _ look' | settled _ _ _ look' | reopened look' =>
    obtain rfl := Option.some.inj (look'.symm.trans look)
    rfl

end Course

/-- A pass run again, not afresh, gives the same batch and changes nothing. So the batch that an
update handed over last, be it applied, failed or deferred, is what the next update hands over, as
long as nothing was changed and no fresh start was asked for since. -/
theorem arranged_again (l : Layout) :
    (∀ (v : View) (reset : Bool), v.ids.Nodup →
      let first := l.mode.arrange l.settings v.children v.bounds reset
      first.mode.arrange l.settings v.children v.bounds false = first) ∧
    ∀ (host : Host σ) (reset : Bool) (s : σ) (h : Handover σ) (v : View),
      let o := l.update (some host.recorded) reset (s, [])
      o.state.2.getLast? = some h → host.look h.found = some v → v.ids.Nodup →
      true ∉ h.commit.requests → ∀ ds, o.layout.Unchanged v ds →
      ∀ (host' : Host σ) (s' : σ) (v' : View), host'.look s' = some v' →
        v'.suspended = false → v'.children = v.children → v'.bounds = v.bounds →
        ∃ h', ((o.layout.after ds).update (some host'.recorded) false (s', [])).state.2.head? =
            some h' ∧ h'.batch = h.batch := by
  refine ⟨fun v reset distinct => Mode.arrange_again _ _ distinct _ _, ?_⟩
  intro host reset s h v o last look distinct kept ds unchanged host' s' v' look' opened
    children bounds
  obtain ⟨log, o₁, course, -, recorded⟩ := exists_recorded host reset l s
  have hlog : o.state.2 = log := congrArg (·.state.2) recorded
  have hlayout : o.layout = o₁.layout.setPerforming false := congrArg (·.layout) recorded
  obtain ⟨a, rest, batch⟩ := course.atRest (hlog ▸ last) look distinct kept
  have rest : o.layout.AtRest v a := hlayout ▸ rest.congr rfl rfl rfl rfl
  have begun : (((o.layout.after ds).begun false).setPerforming true).AtRest v a :=
    (rest.after unchanged).congr rfl rfl rfl (Bool.or_false _)
  have later := begun.view children bounds
  obtain ⟨log', o', course', -, recorded'⟩ :=
    exists_recorded host' false (o.layout.after ds) s'
  refine ⟨_, (congrArg (·.state.2.head?) recorded').trans (course'.head_eq look' opened), ?_⟩
  rw [← batch, ← later.again]
  rfl

section Columns

open Offscreen

def unevenPanes : View where
  suspended := false
  children := [{ Item.plain 1 with flags := .resizable }, Item.plain 2,
    { Item.plain 3 with flags := .resizable }]
  bounds := ⟨0, 0, 105, 10⟩

def paneWorld (failAfter : Option Nat) : World :=
  ⟨[some ⟨{ Container.fresh unevenPanes.bounds unevenPanes.children with failAfter }, none⟩], []⟩

def freshColumns : Layout := ⟨.zero, .idle, [], [], .splitter (.ofAxis .horizontal 4)⟩

/-- The pixel that is left over goes to the first pane, in the batch that fails and in the next. -/
theorem columns_again :
    let host := World.host 0 0 .free
    let o := freshColumns.update (some host.recorded) true (paneWorld (some 2), [])
    o.result = .error (.commit ⟨2, Container.failureReason⟩) ∧
    ∃ h, o.state.2.getLast? = some h ∧
      h.batch = [(1, ⟨0, 0, 51, 10⟩), (2, ⟨51, 0, 4, 10⟩), (3, ⟨55, 0, 50, 10⟩)] ∧
      ∃ h', (((o.layout.after [.request false, .detach]).update (some host.recorded) false
        (paneWorld none, [])).state.2.head?) = some h' ∧ h'.batch = h.batch := by
  refine ⟨rfl, _, rfl, ?_, ?_⟩
  · rfl
  · exact (arranged_again freshColumns).2 (World.host 0 0 .free) true (paneWorld (some 2)) _
      unevenPanes rfl rfl (by decide) (by decide) [.request false, .detach] ⟨rfl, trivial⟩
      (World.host 0 0 .free) (paneWorld none) unevenPanes rfl rfl rfl rfl

end Columns

end Layout

end PixelLayout
