import PixelLayout.Geometry.Rect

/-!
# Errors

Two things can go wrong: a setting is given a value it does not admit, or the container fails
part way through a batch. Each cause is a constructor, and its wording is a function of it.
-/

set_option autoImplicit false

namespace PixelLayout

inductive ParameterError where
  | negativeMargin (margins : Margins)
  | negativeSpacing (spacing : Int)
  | stretchBelowOne (stretch : Nat)
  | negativeGridOrigin (row column : Int)
  | nonPositiveGridSpan (rowSpan columnSpan : Int)
  | negativeGridTrack (track : String) (index : Int)
  | negativeHandleWidth (width : Int)
  | invalidFractions (reason : String)
  | invalidHandle (index : Nat)
  | unknownItem (item : Nat)
  | containerRequired
  | unsupported (setting : String)
  deriving DecidableEq, Repr

def ParameterError.message : ParameterError → String
  | negativeMargin m =>
    "margins must not be negative (h_near=" ++ toString m.hNear ++ ", v_near="
      ++ toString m.vNear ++ ", h_far=" ++ toString m.hFar ++ ", v_far=" ++ toString m.vFar ++ ")"
  | negativeSpacing n => "spacing must not be negative, got " ++ toString n
  | stretchBelowOne n => "stretch factor must be >= 1, got " ++ toString n
  | negativeGridOrigin row column =>
    "grid origin must be >= 0, got row " ++ toString row ++ " column " ++ toString column
  | nonPositiveGridSpan rows columns =>
    "grid span must be >= 1, got " ++ toString rows ++ " rows x " ++ toString columns ++ " columns"
  | negativeGridTrack track index =>
    "grid " ++ track ++ " index must be >= 0, got " ++ toString index
  | negativeHandleWidth width =>
    "splitter handle width must not be negative, got " ++ toString width
  | invalidFractions reason => "invalid splitter fractions: " ++ reason
  | invalidHandle index => "child " ++ toString index ++ " is not an active splitter handle"
  | unknownItem item => "item " ++ toString item ++ " is not a child of the container"
  | containerRequired => "layout is not attached to a container"
  | unsupported setting => setting ++ " is not supported by this layout"

structure CommitError where
  committed : Nat
  reason : String
  deriving DecidableEq, Repr

def CommitError.message (e : CommitError) : String :=
  e.reason ++ " (after " ++ toString e.committed ++ " item(s) were committed)"

inductive LayoutError where
  | parameter (e : ParameterError)
  | commit (e : CommitError)
  deriving DecidableEq, Repr

namespace LayoutError

def isParameter : LayoutError → Bool
  | parameter _ => true
  | commit _ => false

def isCommit : LayoutError → Bool
  | parameter _ => false
  | commit _ => true

def cause : LayoutError → String
  | parameter e => e.message
  | commit e => e.message

def message : LayoutError → String
  | parameter e => "invalid layout parameter: " ++ e.message
  | commit e => "geometry commit failed: " ++ e.message

end LayoutError

end PixelLayout
