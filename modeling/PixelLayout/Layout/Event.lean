import PixelLayout.Error
import PixelLayout.Geometry.Rect

/-!
# What a layout reports while it works

Each pass is reported with what it worked on, and each reason for which a pass or a commit did
not take place with an event of its own. Only two of them are warnings: a commit that failed,
and requests for further passes that never end.
-/

set_option autoImplicit false

namespace PixelLayout

inductive Event where
  | pass (mode : String) (number : Nat) (reset : Bool) (size : Size)
  | noContainer (mode : String)
  | containerBusy (mode : String)
  | containerSuspended (mode : String)
  | commitDeferred (mode : String)
  | commitFailed (mode : String) (error : CommitError)
  | unsettled (mode : String) (passes : Nat)
  | handleReleased (handle : Nat) (position : Int)
  | spaceUnassigned (leftover : Int)
  deriving DecidableEq, Repr

namespace Event

def isWarning : Event → Bool
  | commitFailed _ _ => true
  | unsettled _ _ => true
  | _ => false

def message : Event → String
  | pass _ _ _ _ => "layout_update"
  | noContainer _ => "update skipped: no container"
  | containerBusy _ => "update coalesced: container busy"
  | containerSuspended _ => "update skipped: container suspended"
  | commitDeferred _ => "commit deferred: container busy"
  | commitFailed _ _ => "geometry commit failed"
  | unsettled _ _ => "relayout requests did not settle; giving up until the next update"
  | handleReleased _ _ => "splitter handle released"
  | spaceUnassigned _ => "splitter space left unassigned"

end Event

end PixelLayout
