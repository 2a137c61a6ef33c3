import WidgetJsx.Text.Cursor
import WidgetJsx.Expression.Bracket
import WidgetJsx.Expression.Fault
import WidgetJsx.Widget.Name

/-! The outer form of an expression. Calls and lists are delimited by their brackets, and what
stands between those is left to be read. A reader gives what it found and the number of characters
that it takes. -/

namespace WidgetJsx.Expression

open Text (Cursor)

/-- A constructor's name and a cursor over its argument list, which the closing bracket bounds. -/
structure Call where
  name : String
  arguments : Cursor
deriving DecidableEq, Repr

inductive Form
  | string (text : String)
  | number (text : String)
  | boolean (value : Bool)
  | reference (path : String)
  | construction (text : String)
  | widget (call : Call)
  | widgets (items : Cursor)
  | raw (text : String)
deriving DecidableEq, Repr

/-- The argument list behind an opening bracket, and its length with both brackets. -/
def bracketed (cause : Cause) (s : Cursor) : Except Fault (Cursor × Nat) :=
  match closing? s.previous s.ahead with
  | some n => .ok ((s.forward 1).within (n - 1), n + 1)
  | none => .error ⟨s.position, cause⟩

def listForm (s : Cursor) : Except Fault (Form × Nat) := do
  let (items, n) ← bracketed .unclosedList s
  return (.widgets items, n)

def rawForm (s : Cursor) : Except Fault (Form × Nat) :=
  let n := rawLength s.previous s.ahead
  return (.raw (String.ofList (Text.trim (s.ahead.take n))), n)

/-- A list with the types of its items in front, if that is what stands here. -/
def typedList? (s : Cursor) : Option (Cursor × Nat) :=
  match angleClosing? s.ahead with
  | none => none
  | some n =>
    let n := n + 1
    let n := n + triviaLength (s.ahead.drop n)
    let s := s.forward n
    if s.next? = some '[' then some (s, n) else none

/-- A call, a dotted path, a list or something else. `lead` is the length of a keyword in front,
which a call, a list and a path do without. -/
def compoundForm (start : Cursor) (lead : Nat) : Except Fault (Form × Nat) :=
  let s := start.forward lead
  let path := pathLength s.ahead
  let gap := triviaLength (s.ahead.drop path)
  let opening := s.forward (path + gap)
  if 0 < path ∧ opening.next? = some '(' then do
    let name := s.text path
    let (arguments, n) ← bracketed (.unclosedCall name) opening
    let length := path + gap + n
    return (if Widget.isWidgetName name then .widget ⟨name, arguments⟩
      else .construction (s.text length), lead + length)
  else if (s.ahead.take path).contains '.' then
    return (.reference (s.text path), lead + path)
  else if s.next? = some '[' then do
    let (form, n) ← listForm s
    return (form, lead + n)
  else if s.next? = some '<' then
    match typedList? s with
    | some (list, gap) => do
      let (form, n) ← listForm list
      return (form, lead + gap + n)
    | none => rawForm start
  else do
    let (form, n) ← rawForm s
    return (form, lead + n)

/-- Reads the form of the expression at a cursor. -/
def readForm (s : Cursor) : Except Fault (Form × Nat) :=
  if startsString s.previous s.ahead then
    match stringLength? s.ahead with
    | some n => return (.string (stringText n s.ahead), n)
    | none => throw ⟨s.position, .unclosedString⟩
  else if 0 < numberLength s.ahead then
    return (.number (s.text (numberLength s.ahead)), numberLength s.ahead)
  else if startsWithWord "true" s.ahead then
    return (.boolean true, 4)
  else if startsWithWord "false" s.ahead then
    return (.boolean false, 5)
  else compoundForm s (keywordLength s.ahead)

/-- The name in front of a `:` and the length up to the value behind it. -/
def readKey? (s : Cursor) : Option (String × Nat) :=
  let name := nameLength s.ahead
  let colon := name + triviaLength (s.ahead.drop name)
  match s.ahead.drop colon with
  | ':' :: cs =>
    if name = 0 ∨ cs.head? = some ':' then none
    else some (s.text name, colon + 1 + triviaLength cs)
  | _ => none

/-- The widget constructor call that an item of a list is, or none for an item of another kind. -/
def readItem (s : Cursor) : Except Fault (Option Call × Nat) :=
  let lead := keywordLength s.ahead
  let head := s.forward lead
  let path := pathLength head.ahead
  let gap := triviaLength (head.ahead.drop path)
  let opening := head.forward (path + gap)
  let name := head.text path
  if opening.next? = some '(' ∧ Widget.isWidgetName name then do
    let (arguments, n) ← bracketed (.unclosedCall name) opening
    return (some ⟨name, arguments⟩, lead + path + gap + n)
  else return (none, rawLength s.previous s.ahead)

/-- Reads the call that a whole source text is, up to what follows its closing bracket. -/
def readCall (s : Cursor) : Except Fault (Call × Cursor) := do
  let s := s.forward (triviaLength s.ahead)
  let s := s.forward (keywordLength s.ahead)
  let path := pathLength s.ahead
  if path = 0 then throw ⟨s.position, .callExpected⟩
  let name := s.text path
  let s := s.forward path
  let s := s.forward (triviaLength s.ahead)
  if s.next? ≠ some '(' then throw ⟨s.position, .openingExpected name⟩
  let (arguments, n) ← bracketed (.unclosedCall name) s
  return (⟨name, arguments⟩, s.forward n)

/-- Nothing but white space, comments, commas and semicolons follows. -/
def expectEnd (s : Cursor) : Except Fault Unit :=
  let s := s.forward (terminatorsLength s.ahead)
  if s.atEnd then .ok () else .error ⟨s.position, .trailingText⟩

/-- Reads items one after the other up to the bound. An item that takes no characters is stepped
over. -/
def readAll {α : Type} (item : Cursor → Except Fault (α × Nat)) (found : List α)
    (s : Cursor) : Except Fault (List α) :=
  let s := s.forward (separatorsLength s.ahead)
  match _h : s.ahead with
  | [] => .ok found.reverse
  | _ :: _ =>
    match item s with
    | .error fault => .error fault
    | .ok (a, n) => readAll item (a :: found) (s.forward (max 1 n))
termination_by s.ahead.length
decreasing_by
  have h := congrArg List.length _h
  simp [s] at h ⊢
  omega

end WidgetJsx.Expression
