import WidgetJsx.Style.Color

/-! The edge of a box: its line, and how round its corners are. -/

namespace WidgetJsx.Style

/-- How round corners are: all alike, or those that are given. -/
inductive Corners where
  | uniform (radius : Binary64)
  | each (style : Style)

def Corners.style : Corners → Style
  | uniform radius => .ofNumbers [("borderRadius", some radius)]
  | each style => style

def radius? (argument : Argument Widget) : Option Binary64 := do
  let text ← argument.text?
  if text = "Radius.zero" then return .zero
  match Construction.read text with
  | .ok c => if c.name = "Radius.circular" then c.positional.head? >>= Argument.literal? else none
  | .error _ => none

/-- The corners named by arguments, in the order of the table. -/
def namedCorners (c : Construction) (corners : List (String × String)) : Corners :=
  .each <| .ofNumbers <| corners.map fun (argument, corner) =>
    ("border" ++ corner ++ "Radius", c.argument? argument >>= radius?)

def constructedCorners (c : Construction) : Corners :=
  match c.name with
  | "BorderRadius.circular" =>
    .uniform ((c.positional.head? >>= Argument.literal?).getD .zero)
  | "BorderRadius.all" => .uniform ((c.positional.head? >>= radius?).getD .zero)
  | "BorderRadius.only" =>
    namedCorners c [("topLeft", "TopLeft"), ("topRight", "TopRight"),
      ("bottomLeft", "BottomLeft"), ("bottomRight", "BottomRight")]
  | "BorderRadius.vertical" =>
    namedCorners c [("top", "TopLeft"), ("top", "TopRight"), ("bottom", "BottomLeft"),
      ("bottom", "BottomRight")]
  | "BorderRadius.horizontal" =>
    namedCorners c [("left", "TopLeft"), ("left", "BottomLeft"), ("right", "TopRight"),
      ("right", "BottomRight")]
  | _ => .uniform .zero

/-- The corners that an expression stands for; they are square if it is of another kind. -/
def corners (text : String) : Corners :=
  let text := Text.trimmed text
  if text = "BorderRadius.zero" then .uniform .zero
  else
    match Construction.read text with
    | .ok c => constructedCorners c
    | .error _ => .uniform .zero

/-- The line around a box, its width and its color. -/
def border (text : String) : Style :=
  match Construction.read (Text.trimmed text) with
  | .ok c =>
    if c.name = "Border.all" then
      (Style.ofNumbers [("borderWidth", c.argument? "width" >>= Argument.literal?)]).setAll
        ((c.argumentText? "color").toList.map fun value => ("borderColor", .text (color value)))
    else ∅
  | .error _ => ∅

end WidgetJsx.Style
