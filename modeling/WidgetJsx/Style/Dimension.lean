import WidgetJsx.Expression.Literal
import WidgetJsx.Widget.Basic
import WidgetJsx.Style.Basic

/-! Numbers in texts and arguments. -/

namespace WidgetJsx.Style

/-- The leftmost decimal number in a text: whether a minus sign touches it, and its digits. -/
def leftmostNumber? (negative : Bool) : List Char → Option (Bool × List Char)
  | [] => none
  | c :: cs =>
    if c.isDigit then some (negative, (c :: cs).take (Expression.decimalLength (c :: cs)))
    else leftmostNumber? (c == '-') cs

/-- The value of the leftmost number in a text; none if there is no number or if it is too
large. -/
def numberIn? (text : String) : Option Binary64 := do
  let (negative, digits) ← leftmostNumber? false text.toList
  let x := (Decimal.ofList digits).nearest negative
  if x.isFinite then some x else none

def numberIn (text : String) : Binary64 := (numberIn? text).getD .zero

end Style

namespace Argument

variable {W : Type}

/-- The value of an argument that is written as a number. -/
def literal? : Argument W → Option Binary64
  | number text => Style.numberIn? text
  | _ => none

/-- The style of an argument that says how large something is: a number, or else its text. -/
def dimension? : Argument W → Option Style.Value
  | number text => some (match Style.numberIn? text with
    | some x => .number x
    | none => .text text)
  | argument => argument.text?.map .text

end Argument

end WidgetJsx
