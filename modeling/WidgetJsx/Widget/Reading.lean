import WidgetJsx.Expression.Form
import WidgetJsx.Widget.Basic

/-! Reading widget trees and constructor calls. A call within a call is read once its brackets are
matched, and each widget inside another spends one level of the depth that is left. -/

namespace WidgetJsx

open Expression Text

/-- Bounds on the size of a source in bytes, and on how deep widgets may be nested, where the
outermost widget is the first level. -/
structure Limits where
  depth : Nat
  bytes : Nat
deriving DecidableEq, Repr

def Limits.standard : Limits := ⟨100, 1048576⟩

/-- An argument as it is written, with or without a name. -/
structure Entry where
  key? : Option String
  value : Argument Widget

namespace Entry

def positional (entries : List Entry) : List (Argument Widget) :=
  entries.filterMap fun entry =>
    match entry.key? with
    | none => some entry.value
    | some _ => none

/-- The last value of a key counts, at the place of the first. -/
def named (entries : List Entry) : Fields (Argument Widget) :=
  .ofList <| entries.filterMap fun entry => entry.key?.map (·, entry.value)

end Entry

/-- Splits off what stands inside a widget: a `child` that is a widget, else `children` that are a
list of widgets. -/
def Content.split (arguments : Fields (Argument Widget)) :
    Fields (Argument Widget) × Content Widget :=
  match arguments.get? "child", arguments.get? "children" with
  | some (.widget w), _ => (arguments.erase "child", .child w)
  | _, some (.widgets ws) => (arguments.erase "children", .children ws)
  | _, _ => (arguments, .none)

section

/- How a widget call further in is read. -/
variable (descend : Call → Except Fault Widget)

def readWidgets (items : Cursor) : Except Fault (List Widget) := do
  let found ← readAll (fun s => do
    let (call?, n) ← readItem s
    match call? with
    | none => return (none, n)
    | some call => return (some (← descend call), n)) [] items
  return found.filterMap id

def readArgument : Form → Except Fault (Argument Widget)
  | .string text => return .string text
  | .number text => return .number text
  | .boolean value => return .boolean value
  | .reference path => return .reference path
  | .construction text => return .construction text
  | .widget call => return .widget (← descend call)
  | .widgets items => return .widgets (← readWidgets descend items)
  | .raw text => return .raw text

def readEntry (s : Cursor) : Except Fault (Entry × Nat) := do
  let (key?, lead) := match readKey? s with
    | some (key, n) => (some key, n)
    | none => (none, 0)
  let (form, n) ← readForm (s.forward lead)
  return (⟨key?, ← readArgument descend form⟩, lead + n)

def readEntries (s : Cursor) : Except Fault (List Entry) :=
  readAll (readEntry descend) [] s

/-- The leading string of a widget that shows text, and a cursor over what follows it. -/
def readLeadingText? (call : Call) : Except Fault (Option (String × Cursor)) := do
  let s := call.arguments
  let s := s.forward (triviaLength s.ahead)
  if Widget.isTextName call.name && startsString s.previous s.ahead then
    match stringLength? s.ahead with
    | some n =>
      let rest := s.forward n
      return some (stringText n s.ahead, rest.forward (triviaLength rest.ahead))
    | none => throw ⟨s.position, .unclosedString⟩
  else return none

/-- Reads the argument list of a widget. With a leading text, its other arguments are those behind
a comma, and nothing stands inside it. -/
def readBody (call : Call) : Except Fault Widget := do
  match ← readLeadingText? call with
  | some (text, rest) =>
    let entries ← if rest.next? = some ',' then readEntries descend (rest.forward 1) else pure []
    return ⟨call.name, Entry.named entries, some text, .none⟩
  | none =>
    let entries ← readEntries descend call.arguments
    let (arguments, content) := Content.split (Entry.named entries)
    return ⟨call.name, arguments, none, content⟩

end

/-- Reads a widget with so many of the allowed levels left. -/
def readWidget (allowed : Nat) : Nat → Call → Except Fault Widget
  | 0, call => .error ⟨call.arguments.position, .tooDeep allowed⟩
  | left + 1, call => readBody (readWidget allowed left) call

def Limits.open (limits : Limits) (source : String) : Except Fault Cursor :=
  if limits.bytes < source.utf8ByteSize then
    .error ⟨.start, .tooLong source.utf8ByteSize limits.bytes⟩
  else .ok (.ofList source.toList)

def Widget.read (limits : Limits) (source : String) : Except Fault Widget := do
  let s ← limits.open source
  let (call, rest) ← readCall s
  if isDotted call.name then throw ⟨.start, .notWidget call.name⟩
  let widget ← readWidget limits.depth limits.depth call
  expectEnd rest
  return widget

/-- Reads a source text that is one constructor call of any kind. -/
def Construction.read (source : String) : Except Fault Construction := do
  let limits := Limits.standard
  let s ← limits.open source
  let (call, rest) ← readCall s
  let entries ← readEntries (readWidget limits.depth limits.depth) call.arguments
  expectEnd rest
  return ⟨call.name, Entry.positional entries, Entry.named entries⟩

end WidgetJsx
