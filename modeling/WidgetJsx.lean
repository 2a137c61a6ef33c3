import WidgetJsx.Main
import WidgetJsx.Proofs.Cursor
import WidgetJsx.Proofs.Gap
import WidgetJsx.Proofs.Name
import WidgetJsx.Proofs.Keyword
import WidgetJsx.Proofs.Path
import WidgetJsx.Proofs.Literal
import WidgetJsx.Proofs.Number
import WidgetJsx.Proofs.Scan
import WidgetJsx.Proofs.Nesting
import WidgetJsx.Proofs.Fields
import WidgetJsx.Proofs.Tree
import WidgetJsx.Proofs.Form
import WidgetJsx.Proofs.Body
import WidgetJsx.Proofs.WellFormed
import WidgetJsx.Proofs.Shift
import WidgetJsx.Proofs.Subtree
import WidgetJsx.Proofs.Passage
import WidgetJsx.Proofs.Balanced
import WidgetJsx.Proofs.Crossing
import WidgetJsx.Proofs.Margin
import WidgetJsx.Proofs.TypeArguments
import WidgetJsx.Proofs.Layout
import WidgetJsx.Proofs.Recognition
import WidgetJsx.Proofs.Written
import WidgetJsx.Proofs.Listed
import WidgetJsx.Proofs.RoundTrip
import WidgetJsx.Proofs.Sealed
import WidgetJsx.Proofs.Markup
import WidgetJsx.Proofs.Display
import WidgetJsx.Proofs.Quoted
import WidgetJsx.Proofs.ScriptString
import WidgetJsx.Proofs.PlainCall
import WidgetJsx.Proofs.Rounding
import WidgetJsx.Proofs.NumberText
import WidgetJsx.Proofs.Nearest
import WidgetJsx.Proofs.NumberValue
import WidgetJsx.Proofs.Attribute
import WidgetJsx.Proofs.Tag
import WidgetJsx.Proofs.Unambiguous
import WidgetJsx.Proofs.Indentation
import WidgetJsx.Proofs.Presentation
import WidgetJsx.Proofs.Imports
import WidgetJsx.Proofs.Reindentation
import WidgetJsx.Proofs.FaultCause
import WidgetJsx.Proofs.Threshold
import WidgetJsx.Proofs.Descent
import WidgetJsx.Proofs.WidgetList
import WidgetJsx.Proofs.Captured
import WidgetJsx.Proofs.Agreement
import WidgetJsx.Proofs.ArgumentList
import WidgetJsx.Proofs.Segment
import WidgetJsx.Proofs.Excerpt
import WidgetJsx.Proofs.ColorRange
import WidgetJsx.Proofs.Spelled
import WidgetJsx.Proofs.InsetForms
import WidgetJsx.Proofs.Channels
import WidgetJsx.Proofs.StyleText
import WidgetJsx.Proofs.BlankRun
import WidgetJsx.Proofs.Lowered
import WidgetJsx.Proofs.FaultPlace
import WidgetJsx.Proofs.Building
import WidgetJsx.Proofs.Warnings
import WidgetJsx.Proofs.ReadArguments
import WidgetJsx.Proofs.Lawful
import WidgetJsx.Proofs.History
import WidgetJsx.Proofs.Arguments
import WidgetJsx.Proofs.Validation
import WidgetJsx.Proofs.FrontEnds
import WidgetJsx.Proofs.IndentBound
import WidgetJsx.Proofs.Comment
import WidgetJsx.Proofs.Trimmed
import WidgetJsx.Proofs.FailureLine
import WidgetJsx.Proofs.WrittenJson
import WidgetJsx.Proofs.Envelope
import WidgetJsx.Proofs.Leftmost
import WidgetJsx.Proofs.Matching
import WidgetJsx.Proofs.Visits
import WidgetJsx.Proofs.Progress
