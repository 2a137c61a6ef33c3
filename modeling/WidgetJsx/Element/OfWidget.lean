import WidgetJsx.Element.Basic
import WidgetJsx.Style.Edge
import WidgetJsx.Style.Insets
import WidgetJsx.Style.Keyword

/-! The element that a widget becomes. Its style comes from the widget's arguments alone, by a rule
for each kind of widget; an argument that a rule does not read has no effect. -/

namespace WidgetJsx

namespace Widget

/-- The arguments that say how large something is, under their own names. -/
def dimensions (w : Widget) (keys : List String) : Style :=
  .ofList <| keys.filterMap fun key =>
    (w.argument? key >>= Argument.dimension?).map (key, ·)

/-- The value of an argument as a style under some key, if the argument is there. -/
def styled (text? : Option String) (key : String) (value : String → String) : Style :=
  .ofTexts (text?.toList.map fun text => (key, value text))

/-- An argument that is a call of one constructor. -/
def construction? (text? : Option String) (name : String) : Option Construction := do
  let text ← text?
  match Construction.read text with
  | .ok c => if c.name = name then some c else none
  | .error _ => none

def decorationStyle (c : Construction) : Style :=
  (styled (c.argumentText? "color") "backgroundColor" Style.color)
    |>.extend (((c.argumentText? "borderRadius").map fun text => (Style.corners text).style).getD ∅)
    |>.extend (((c.argumentText? "border").map Style.border).getD ∅)

def alignmentStyle (text? : Option String) : Style :=
  match text? >>= Style.alignment? with
  | some (down, across) => .ofTexts [("justifyContent", down), ("alignItems", across)]
  | none => ∅

def containerStyle (w : Widget) : Style :=
  (w.dimensions ["width", "height"])
    |>.extend (styled (w.argumentText? "color") "backgroundColor" Style.color)
    |>.extend (alignmentStyle (w.argumentText? "alignment"))
    |>.extend (((construction? (w.argumentText? "decoration") "BoxDecoration").map
        decorationStyle).getD ∅)
    |>.extend (((w.argumentText? "padding").map Style.padding).getD ∅)
    |>.extend (((w.argumentText? "margin").map Style.margin).getD ∅)

def letterStyle (c : Construction) : Style :=
  let size (key : String) : Style :=
    .ofList ((c.argument? key >>= Argument.dimension?).toList.map (key, ·))
  (styled (c.argumentText? "color") "color" Style.color)
    |>.extend (size "fontSize")
    |>.extend (styled (c.argumentText? "fontWeight") "fontWeight" Style.fontWeight)
    |>.extend (styled (c.argumentText? "fontStyle") "fontStyle" Style.fontStyle)
    |>.extend (styled (c.argumentText? "fontFamily") "fontFamily" id)
    |>.extend (size "letterSpacing")

def textStyle (w : Widget) : Style :=
  (((construction? (w.argumentText? "style") "TextStyle").map letterStyle).getD ∅)
    |>.extend (styled (w.argumentText? "textAlign") "textAlign" Style.textAlign)

def flexStyle (w : Widget) (direction : String) : Style :=
  (Style.ofTexts [("flexDirection", direction)])
    |>.extend (styled (w.argumentText? "mainAxisAlignment") "justifyContent" Style.mainAxis)
    |>.extend (styled (w.argumentText? "crossAxisAlignment") "alignItems" Style.crossAxis)

def positionedStyle (w : Widget) : Style :=
  (Style.ofTexts [("position", "absolute")]).extend
    (w.dimensions ["top", "bottom", "left", "right", "width", "height"])

/-- A share of the space, one unless an argument says otherwise. -/
def shareStyle (w : Widget) : Style :=
  .ofList [("flex", (w.argument? "flex" >>= Argument.dimension?).getD (.number (.ofInt 1)))]

def style (w : Widget) : Style :=
  match w.name with
  | "Container" => w.containerStyle
  | "Text" | "SelectableText" => w.textStyle
  | "Row" => w.flexStyle "row"
  | "Column" => w.flexStyle "column"
  | "Stack" => .ofTexts [("position", "relative")]
  | "Positioned" => w.positionedStyle
  | "Expanded" | "Flexible" => w.shareStyle
  | "SizedBox" => w.dimensions ["width", "height"]
  | "Padding" => ((w.argumentText? "padding").map Style.padding).getD ∅
  | "Center" => .ofTexts [("justifyContent", "center"), ("alignItems", "center")]
  | "Opacity" => w.dimensions ["opacity"]
  | _ => ∅

theorem sizeOf_lt_of_mem_content {w child : Widget} (h : child ∈ w.content.toList) :
    sizeOf child < sizeOf w := by
  obtain ⟨name, arguments, text?, content⟩ := w
  cases content with
  | none => simp [Content.toList] at h
  | child c =>
    obtain rfl : child = c := by simpa [Content.toList] using h
    simp only [mk.sizeOf_spec, Content.child.sizeOf_spec]
    omega
  | children cs =>
    have := List.sizeOf_lt_of_mem (show child ∈ cs from h)
    simp only [mk.sizeOf_spec, Content.children.sizeOf_spec]
    omega

/-- A widget and all that stand inside it, each before those inside itself. Widgets held by other
arguments are not among them. -/
def nested (w : Widget) : List Widget :=
  w :: w.content.toList.attach.flatMap fun ⟨child, _⟩ => child.nested
termination_by sizeOf w
decreasing_by exact sizeOf_lt_of_mem_content ‹_›

theorem nested_eq (w : Widget) : w.nested = w :: w.content.toList.flatMap nested := by
  rw [nested]
  simp

/-- The names among those of nested widgets that are not known. -/
def unknownNames (w : Widget) : List String :=
  (w.nested.map Widget.name).filter fun name => !Catalog.isKnown name

/-- The unknown names in a sequence of widgets, each once, where it is first met. -/
def allUnknownNames (ws : List Widget) : List String :=
  (ws.flatMap unknownNames).eraseDups

end Widget

def Element.ofWidget (w : Widget) : Element :=
  { component := Catalog.component w.name
    style := w.style
    text? := if Widget.isTextName w.name then w.text? else none
    children := w.content.toList.attach.map fun ⟨child, _⟩ => Element.ofWidget child }
termination_by sizeOf w
decreasing_by exact Widget.sizeOf_lt_of_mem_content ‹_›

theorem Element.ofWidget_children (w : Widget) :
    (ofWidget w).children = w.content.toList.map ofWidget := by
  rw [ofWidget]
  simp

end WidgetJsx
