import WidgetJsx.Element.Basic
import WidgetJsx.Text.Blank
import WidgetJsx.Text.Lines

/-! Other indentation for markup that is already written. -/

namespace WidgetJsx.Element

/-- The number of bytes of white space at the start of a line. -/
def leadingBytes (line : List Char) : Nat :=
  (line.takeWhile Text.isBlank).foldl (fun n c => n + c.utf8Size) 0

/-- The number of spaces in front of a line that is indented with `unit` spaces for each level. -/
def indentation (unit : Nat) (line : List Char) : Nat := leadingBytes line / standardUnit * unit

/-- A line that is indented gets `unit` spaces for each level and loses white space at its end; any
other stays as it is. -/
def reindentLine (unit : Nat) (line : List Char) : List Char :=
  if leadingBytes line = 0 then line
  else List.replicate (indentation unit line) ' ' ++ Text.trim line

/-- Indentation with `unit` spaces for each level. The standard unit changes nothing. -/
def reindent (unit : Nat) (code : String) : String :=
  if unit = standardUnit then code
  else String.ofList (Text.unlines ((Text.lines code.toList).map (reindentLine unit)))

/-- The largest size in bytes that a text can have. -/
def largestText : Nat := 0x7FFFFFFFFFFFFFFF

/-- Whether the spaces in front of each line can be written. -/
def canReindent (unit : Nat) (code : String) : Bool :=
  unit == standardUnit ||
    (Text.lines code.toList).all fun line => indentation unit line ≤ largestText

end WidgetJsx.Element
