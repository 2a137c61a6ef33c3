import WidgetJsx.Catalog
import WidgetJsx.Style.Basic

/-! Elements, the markup that they are written as, and its indentation. -/

namespace WidgetJsx

structure Element where
  component : Component
  style : Style
  text? : Option String
  children : List Element

namespace Element

/-- A line of markup and how deep it lies. Texts are written as they are, so that a line may have
line breaks in it. -/
structure Line where
  level : Nat
  text : String
deriving DecidableEq, Repr

def styleText (style : Style) : String :=
  if style.isEmpty then ""
  else
    " style=\x7b\x7b" ++
      String.intercalate ", " (style.entries.map fun (key, value) =>
        key ++ ": " ++ value.write) ++ "\x7d\x7d"

def opening (component : Component) (style : Style) : String :=
  "<" ++ component.name ++ styleText style

def closing (component : Component) : String :=
  "</" ++ component.name ++ ">"

/-- The lines of an element. Text is shown only where there are no children. -/
def lines (level : Nat) : Element → List Line
  | ⟨component, style, text?, children⟩ =>
    if children.isEmpty then
      let text := text?.getD ""
      if text = "" then [⟨level, opening component style ++ " />"⟩]
      else [⟨level, opening component style ++ ">" ++ text ++ closing component⟩]
    else
      ⟨level, opening component style ++ ">"⟩ :: children.flatMap (lines (level + 1)) ++
        [⟨level, closing component⟩]

def Line.write (unit : Nat) (line : Line) : String :=
  String.ofList (List.replicate (line.level * unit) ' ') ++ line.text ++ "\n"

/-- The markup of an element that lies so deep, with so many spaces for each level. -/
def markup (unit level : Nat) (e : Element) : String :=
  String.join ((e.lines level).map (Line.write unit))

def standardUnit : Nat := 2

end Element

end WidgetJsx
