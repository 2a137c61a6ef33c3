import WidgetJsx.Style.Dimension
import WidgetJsx.Widget.Reading

/-! Colors. A color is written as `#` and six digits in base sixteen, or as a keyword. -/

namespace WidgetJsx.Style

def palette : List (String × String) := [
  ("red", "#F44336"), ("pink", "#E91E63"), ("purple", "#9C27B0"), ("deepPurple", "#673AB7"),
  ("indigo", "#3F51B5"), ("blue", "#2196F3"), ("lightBlue", "#03A9F4"), ("cyan", "#00BCD4"),
  ("teal", "#009688"), ("green", "#4CAF50"), ("lightGreen", "#8BC34A"), ("lime", "#CDDC39"),
  ("yellow", "#FFEB3B"), ("amber", "#FFC107"), ("orange", "#FF9800"), ("deepOrange", "#FF5722"),
  ("brown", "#795548"), ("grey", "#9E9E9E"), ("blueGrey", "#607D8B"), ("black", "#000000"),
  ("white", "#FFFFFF"), ("transparent", "transparent")]

/-- A color of the palette; black for any other name. -/
def namedColor (name : String) : String :=
  (palette.lookup name).getD "#000000"

/-- The color that `0x` and eight digits stand for. The first two, which say how opaque it is, are
left out, and the others are kept as they are written. -/
def opaqueColor? (text : String) : Option String :=
  match text.toList with
  | '0' :: x :: digits =>
    if (x = 'x' ∨ x = 'X') ∧ digits.length = 8 ∧ digits.all Expression.isHexDigit then
      some (String.ofList ('#' :: digits.drop 2))
    else none
  | _ => none

/-- A number up to 255 in two digits of base sixteen, capitals. -/
def byteDigits (n : Nat) : List Char :=
  [(Nat.digitChar (n / 16)).toUpper, (Nat.digitChar (n % 16)).toUpper]

/-- The color whose red, green and blue parts are arguments. -/
def channelColor? (c : Construction) (channels : List Nat) : Option String := do
  let parts ← channels.mapM fun i => do
    let x ← numberIn? (← c.positionalText? i)
    return byteDigits x.toByte
  return String.ofList ('#' :: parts.flatten)

def constructedColor? (c : Construction) : Option String :=
  match c.name with
  | "Color" => c.positionalText? 0 >>= opaqueColor?
  | "Color.fromARGB" => channelColor? c [1, 2, 3]
  | "Color.fromRGBO" => channelColor? c [0, 1, 2]
  | _ => none

/-- The color that an expression stands for; an expression of another kind is left as it is. -/
def color (text : String) : String :=
  let cs := Text.trim text.toList
  if "Colors.".toList.isPrefixOf cs then
    namedColor (String.ofList ((cs.drop "Colors.".length).takeWhile (· ≠ '.')))
  else
    let text := String.ofList cs
    match Construction.read text with
    | .ok c => (constructedColor? c).getD text
    | .error _ => text

end WidgetJsx.Style
