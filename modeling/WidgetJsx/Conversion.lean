import WidgetJsx.Element.OfWidget

/-! From source text to markup. -/

namespace WidgetJsx

structure Conversion where
  widget : Widget
  element : Element

namespace Conversion

def ofWidget (widget : Widget) : Conversion := ⟨widget, .ofWidget widget⟩

def read (limits : Limits) (source : String) : Except Expression.Fault Conversion := do
  let widget ← Widget.read limits source
  return .ofWidget widget

def output (c : Conversion) : String :=
  c.element.markup Element.standardUnit 0

def unknownNames (c : Conversion) : List String :=
  Widget.allUnknownNames [c.widget]

def warnings (c : Conversion) : List String :=
  c.unknownNames.map Catalog.warning

end Conversion

/-- The markup of a source text, or a comment that says why there is none. -/
def convert (source : String) : String :=
  match Conversion.read .standard source with
  | .ok c => c.output
  | .error fault => "// Error during conversion: " ++ fault.message ++ "\n"

end WidgetJsx
