/-! The widgets that are known, and the component that each becomes. -/

namespace WidgetJsx

inductive Component where
  | view
  | text
  | scrollView
  | touchableOpacity
deriving DecidableEq, Repr

def Component.name : Component → String
  | view => "View"
  | text => "Text"
  | scrollView => "ScrollView"
  | touchableOpacity => "TouchableOpacity"

namespace Catalog

structure Item where
  widget : String
  component : Component
  /-- What is made of the widget's arguments. -/
  remark : String
deriving DecidableEq, Repr

def items : List Item := [
  ⟨"Container", .view,
    "Size, background color, alignment, decoration (color, radius, border), padding and margin."⟩,
  ⟨"Text", .text,
    "Leading string becomes the text content; `style: TextStyle(...)` and `textAlign` are mapped."⟩,
  ⟨"Row", .view, "`flexDirection: 'row'` with main/cross axis alignment."⟩,
  ⟨"Column", .view, "`flexDirection: 'column'` with main/cross axis alignment."⟩,
  ⟨"Stack", .view, "`position: 'relative'`."⟩,
  ⟨"Positioned", .view,
    "`position: 'absolute'` with `top`, `bottom`, `left`, `right`, `width`, `height`."⟩,
  ⟨"Expanded", .view, "`flex`, default 1."⟩,
  ⟨"SizedBox", .view, "`width` and `height`."⟩,
  ⟨"Padding", .view, "`padding` from an `EdgeInsets` value."⟩,
  ⟨"SelectableText", .text, "Same rules as `Text`."⟩,
  ⟨"Flexible", .view, "`flex`, default 1."⟩,
  ⟨"Center", .view, "Centers its child on both axes."⟩,
  ⟨"Opacity", .view, "`opacity`."⟩,
  ⟨"SingleChildScrollView", .scrollView, "Scrollable container; no style."⟩,
  ⟨"ListView", .scrollView, "Scrollable list of children; no style."⟩,
  ⟨"GestureDetector", .touchableOpacity, "Touchable wrapper; callbacks are dropped."⟩,
  ⟨"InkWell", .touchableOpacity, "Touchable wrapper; callbacks are dropped."⟩]

def find? (widget : String) : Option Item :=
  items.find? (·.widget == widget)

def isKnown (widget : String) : Bool :=
  (find? widget).isSome

def fallback : Component := .view

def component (widget : String) : Component :=
  match find? widget with
  | some item => item.component
  | none => fallback

def names : String :=
  String.intercalate ", " (items.map Item.widget)

def padded (width : Nat) (s : String) : String :=
  s ++ String.ofList (List.replicate (width - s.length) ' ')

/-- One line for each known widget. -/
def reference : String :=
  let width := (items.map (·.widget.length)).foldl max 0
  String.join <| items.map fun item =>
    padded width item.widget ++ " -> " ++ padded 16 item.component.name ++ " " ++ item.remark ++
      "\n"

def warning (widget : String) : String :=
  "Widget '" ++ widget ++ "' may not be fully supported. Supported widgets: " ++ names

end Catalog

end WidgetJsx
