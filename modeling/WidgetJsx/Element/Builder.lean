import WidgetJsx.Element.OfWidget

/-! Building elements one after another. A builder takes the unknown names that it has met along from
widget to widget and from tree to tree, with one warning for each. -/

namespace WidgetJsx

structure Builder where
  /-- The unknown names that were met so far, each once. -/
  unknown : List String
  warnings : List String
deriving DecidableEq, Repr

namespace Builder

def new : Builder := ⟨[], []⟩

/-- Notes an unknown name, unless it was met before. -/
def note (b : Builder) (name : String) : Builder :=
  if b.unknown.contains name then b
  else ⟨b.unknown ++ [name], b.warnings ++ [Catalog.warning name]⟩

/-- The style of a widget. A widget that there is no rule for has none, and its name is noted unless it
is known. -/
def style (w : Widget) : StateM Builder Style :=
  match w.name with
  | "Container" => return w.containerStyle
  | "Text" | "SelectableText" => return w.textStyle
  | "Row" => return w.flexStyle "row"
  | "Column" => return w.flexStyle "column"
  | "Stack" => return .ofTexts [("position", "relative")]
  | "Positioned" => return w.positionedStyle
  | "Expanded" | "Flexible" => return w.shareStyle
  | "SizedBox" => return w.dimensions ["width", "height"]
  | "Padding" => return ((w.argumentText? "padding").map Style.padding).getD ∅
  | "Center" => return .ofTexts [("justifyContent", "center"), ("alignItems", "center")]
  | "Opacity" => return w.dimensions ["opacity"]
  | name => do
    if !Catalog.isKnown name then modify (·.note name)
    return ∅

/-- The element of a widget. What stands inside is built behind the widget itself, in order. -/
def build (w : Widget) : StateM Builder Element := do
  let style ← style w
  let children ← w.content.toList.attach.mapM fun ⟨child, _⟩ => build child
  return { component := Catalog.component w.name
           style
           text? := if Widget.isTextName w.name then w.text? else none
           children }
termination_by sizeOf w
decreasing_by exact Widget.sizeOf_lt_of_mem_content ‹_›

end Builder

end WidgetJsx
