import WidgetJsx.Style.Dimension
import WidgetJsx.Widget.Reading

/-! Insets: the space on the sides of a box, inside or outside its edges. Only arguments that are
written as numbers count. -/

namespace WidgetJsx.Style

/-- The sides named by arguments, in the order of the table. -/
def namedSides (c : Construction) (sides : List (String × String)) : Style :=
  .ofNumbers <| sides.map fun (argument, key) => (key, c.argument? argument >>= Argument.literal?)

/-- The sides given by the first arguments, which must all be there. -/
def positionalSides (c : Construction) (keys : List String) : Style :=
  if c.positional.length < keys.length then ∅
  else .ofNumbers <| (keys.zip c.positional).map fun (key, value) => (key, value.literal?)

def constructedInsets (c : Construction) : Style :=
  match c.name with
  | "EdgeInsets.all" | "EdgeInsetsDirectional.all" =>
    .ofNumbers [("padding", c.positional.head? >>= Argument.literal?)]
  | "EdgeInsets.symmetric" | "EdgeInsetsDirectional.symmetric" =>
    namedSides c [("vertical", "paddingTop"), ("vertical", "paddingBottom"),
      ("horizontal", "paddingLeft"), ("horizontal", "paddingRight")]
  | "EdgeInsets.only" =>
    namedSides c [("top", "paddingTop"), ("bottom", "paddingBottom"), ("left", "paddingLeft"),
      ("right", "paddingRight")]
  | "EdgeInsetsDirectional.only" =>
    namedSides c [("top", "paddingTop"), ("bottom", "paddingBottom"), ("start", "paddingStart"),
      ("end", "paddingEnd")]
  | "EdgeInsets.fromLTRB" =>
    positionalSides c ["paddingLeft", "paddingTop", "paddingRight", "paddingBottom"]
  | "EdgeInsetsDirectional.fromSTEB" =>
    positionalSides c ["paddingStart", "paddingTop", "paddingEnd", "paddingBottom"]
  | _ => ∅

def padding (text : String) : Style :=
  let text := Text.trimmed text
  if text = "EdgeInsets.zero" ∨ text = "EdgeInsetsDirectional.zero" then
    .ofNumbers [("padding", some .zero)]
  else
    match Construction.read text with
    | .ok c => constructedInsets c
    | .error _ => ∅

def margin (text : String) : Style :=
  (padding text).renamePrefix "padding" "margin"

end WidgetJsx.Style
