import WidgetJsx.Text.Uppercase

/-! What a constructor's name says about what it builds. -/

namespace WidgetJsx.Widget

/-- Widgets whose first argument is the text they show. -/
def textNames : List String := ["Text", "SelectableText"]

/-- Capitalised names without a dot that build values and not widgets. -/
def valueNames : List String := [
  "Alignment", "AssetImage", "Border", "BorderRadius", "BorderSide", "BoxConstraints",
  "BoxDecoration", "BoxShadow", "Color", "Duration", "EdgeInsets", "EdgeInsetsDirectional", "Key",
  "LinearGradient", "NetworkImage", "Offset", "RadialGradient", "Radius", "ShapeDecoration",
  "Size", "TextSpan", "TextStyle", "ValueKey"]

def isTextName (name : String) : Bool :=
  textNames.contains name

def isValueName (name : String) : Bool :=
  valueNames.contains name

def isDotted (name : String) : Bool :=
  name.toList.contains '.'

def isWidgetName (name : String) : Bool :=
  name.toList.head?.any Text.isUppercase && !isDotted name && !isValueName name

end WidgetJsx.Widget
