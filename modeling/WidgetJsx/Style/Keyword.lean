import WidgetJsx.Text.Blank

/-! Constants whose style is a keyword: alignment along and across an axis, of text and within a
box, and the weight and style of fonts. -/

namespace WidgetJsx.Style

/-- Placement along the direction of a row or column. -/
def mainAxis (text : String) : String :=
  match Text.trimmed text with
  | "MainAxisAlignment.end" => "flex-end"
  | "MainAxisAlignment.center" => "center"
  | "MainAxisAlignment.spaceBetween" => "space-between"
  | "MainAxisAlignment.spaceAround" => "space-around"
  | "MainAxisAlignment.spaceEvenly" => "space-evenly"
  | _ => "flex-start"

/-- Placement across the direction of a row or column. -/
def crossAxis (text : String) : String :=
  match Text.trimmed text with
  | "CrossAxisAlignment.start" => "flex-start"
  | "CrossAxisAlignment.end" => "flex-end"
  | "CrossAxisAlignment.center" => "center"
  | "CrossAxisAlignment.baseline" => "baseline"
  | _ => "stretch"

/-- Placement of text; lines run from left to right. -/
def textAlign (text : String) : String :=
  match Text.trimmed text with
  | "TextAlign.right" | "TextAlign.end" => "right"
  | "TextAlign.center" => "center"
  | "TextAlign.justify" => "justify"
  | _ => "left"

/-- Placement in a box: from top to bottom, then from left to right. -/
def alignment? (text : String) : Option (String × String) :=
  match Text.trimmed text with
  | "Alignment.topLeft" => some ("flex-start", "flex-start")
  | "Alignment.topCenter" => some ("flex-start", "center")
  | "Alignment.topRight" => some ("flex-start", "flex-end")
  | "Alignment.centerLeft" => some ("center", "flex-start")
  | "Alignment.center" => some ("center", "center")
  | "Alignment.centerRight" => some ("center", "flex-end")
  | "Alignment.bottomLeft" => some ("flex-end", "flex-start")
  | "Alignment.bottomCenter" => some ("flex-end", "center")
  | "Alignment.bottomRight" => some ("flex-end", "flex-end")
  | _ => none

def fontWeight (text : String) : String :=
  match Text.trimmed text with
  | "FontWeight.w100" => "100"
  | "FontWeight.w200" => "200"
  | "FontWeight.w300" => "300"
  | "FontWeight.w400" => "400"
  | "FontWeight.w500" => "500"
  | "FontWeight.w600" => "600"
  | "FontWeight.w700" => "700"
  | "FontWeight.w800" => "800"
  | "FontWeight.w900" => "900"
  | "FontWeight.bold" => "bold"
  | _ => "normal"

def fontStyle (text : String) : String :=
  if Text.trimmed text = "FontStyle.italic" then "italic" else "normal"

end WidgetJsx.Style
