import PixelLayout.Batch
import PixelLayout.Flow.Arrange
import PixelLayout.Geometry.Rect
import PixelLayout.Grid.Arrange
import PixelLayout.Item.Basic
import PixelLayout.Json.Reader
import PixelLayout.Json.Schema
import PixelLayout.Json.Writer
import PixelLayout.Layout.Update
import PixelLayout.Line.Box
import PixelLayout.Offscreen.Session
import PixelLayout.Proofs.History.Memo
import PixelLayout.Proofs.Space.Conservation
import PixelLayout.Proofs.Splitter.Balance
import PixelLayout.Proofs.Space.Priority
import PixelLayout.Proofs.Update.Protocol
import PixelLayout.Settings
import PixelLayout.Space.Allocation
import PixelLayout.Splitter.Drag
import PixelLayout.Splitter.Fractions
import PixelLayout.Table
import PixelLayout.Proofs.Splitter.Panes
import PixelLayout.Proofs.History.Children
import PixelLayout.Proofs.Extent.Grid
import PixelLayout.Proofs.Extent.Nonnegative
import PixelLayout.Proofs.History.Session
import PixelLayout.Proofs.History.Retry
import PixelLayout.Proofs.History.FreshStart
import PixelLayout.Proofs.History.Failure
import PixelLayout.Proofs.Collect
import PixelLayout.Proofs.History.Rest
import PixelLayout.Proofs.History.Suspension
import PixelLayout.Proofs.Flow.Wrap
import PixelLayout.Proofs.Flow.Breaks
import PixelLayout.Proofs.Flow.Heights
import PixelLayout.Proofs.Flow.Stack
import PixelLayout.Proofs.Grid.Disjoint
import PixelLayout.Proofs.Line.Least
import PixelLayout.Proofs.Splitter.Tiling
import PixelLayout.Proofs.Splitter.Reversal
import PixelLayout.Proofs.Splitter.Fairness
import PixelLayout.Proofs.Splitter.Bounds
import PixelLayout.Proofs.Request.Admissible
import PixelLayout.Proofs.Transpose.History
import PixelLayout.Proofs.Space.Shares
import PixelLayout.Proofs.Grid.Reassigned
import PixelLayout.Proofs.Grid.Served
import PixelLayout.Proofs.Grid.Retain
import PixelLayout.Proofs.Grid.EmptyTracks
import PixelLayout.Proofs.Grid.Least
import PixelLayout.Proofs.Flow.OneRow
import PixelLayout.Proofs.Line.Gaps
import PixelLayout.Proofs.Splitter.LeastSize
import PixelLayout.Proofs.Splitter.Release
import PixelLayout.Proofs.Space.Reordered
import PixelLayout.Proofs.Space.Range
import PixelLayout.Proofs.Splitter.FractionText
