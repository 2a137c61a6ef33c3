import WidgetJsx.Conversion
import WidgetJsx.Element.Indentation
import WidgetJsx.Json.Reading
import WidgetJsx.Json.Writing
import WidgetJsx.Service.Query

/-! Replies to requests. Whatever a request is, its reply says what came of it. -/

namespace WidgetJsx.Service

def importLines : String :=
  "import React from 'react';\n" ++
    "import \x7b View, Text, StyleSheet \x7d from 'react-native';\n"

/-- The markup of a conversion, behind the imports if a request wants them. -/
def document (options : Options) (c : Conversion) : String :=
  (if options.includeImports then importLines else "") ++ c.output

/-- The markup of a conversion as a request wants it. -/
def present (options : Options) (c : Conversion) : String :=
  Element.reindent options.unit (document options c)

inductive Reply where
  | converted (output : String) (c : Conversion)
  | unread (fault : Expression.Fault)
  | rejected (fault : Query.Fault)
  | malformed (fault : Json.Fault)

structure Metadata where
  widget? : Option String
  component? : Option String
  warnings : List String
  faultKind? : Option String
deriving DecidableEq, Repr

namespace Reply

def succeeded : Reply → Bool
  | converted _ _ => true
  | _ => false

def output? : Reply → Option String
  | converted output _ => some output
  | _ => none

def error? : Reply → Option String
  | converted _ _ => none
  | unread fault => some fault.message
  | rejected fault => some fault.message
  | malformed fault => some ("Invalid request JSON: " ++ fault.message)

def metadata? : Reply → Option Metadata
  | converted _ c => some ⟨some c.widget.name, some c.element.component.name, c.warnings, none⟩
  | unread _ => some ⟨none, none, [], some "ParseError"⟩
  | rejected _ => none
  | malformed _ => some ⟨none, none, [], some "InvalidJson"⟩

end Reply

def optionalText (key : String) (text? : Option String) : List (String × Json) :=
  text?.toList.map fun text => (key, .string text)

/-- What there is to tell; the rest is left out. -/
def Metadata.json (m : Metadata) : Json :=
  .object ⟨optionalText "input_widget" m.widget? ++
    optionalText "output_component" m.component? ++
    (if m.warnings.isEmpty then [] else [("warnings", .array (m.warnings.map .string))]) ++
    optionalText "error_type" m.faultKind?⟩

def nullable (text? : Option String) : Json :=
  match text? with
  | some text => .string text
  | none => .null

def Reply.json (r : Reply) : Json :=
  .object ⟨[("success", .boolean r.succeeded), ("output", nullable r.output?),
    ("error", nullable r.error?)] ++
    r.metadata?.toList.map fun m => ("metadata", m.json)⟩

def Query.answer (q : Query) : Reply :=
  match Conversion.read .standard q.code with
  | .ok c => .converted (present q.options c) c
  | .error fault => .unread fault

def answer (params : Json) : Reply :=
  match Query.read params with
  | .ok q => q.answer
  | .error fault => .rejected fault

def answerText (text : String) : Reply :=
  match Json.read Json.standardLimit text with
  | .ok params => answer params
  | .error fault => .malformed fault

end WidgetJsx.Service
