import WidgetJsx.Expression.Name

/-! Number and string literals. A number is kept as it is written; a string literal is read to the
text that it stands for. -/

namespace WidgetJsx.Expression

def isHexDigit (c : Char) : Bool :=
  c.isDigit || ('a' ≤ c && c ≤ 'f') || ('A' ≤ c && c ≤ 'F')

/-- The length of `0x` or `0X` and at least one digit in base sixteen, or zero. -/
def hexLength : List Char → Nat
  | '0' :: x :: cs =>
    if x = 'x' ∨ x = 'X' then
      match (cs.takeWhile isHexDigit).length with
      | 0 => 0
      | n => n + 2
    else 0
  | _ => 0

def digitsLength (cs : List Char) : Nat :=
  (cs.takeWhile Char.isDigit).length

/-- The length of digits, with a point and more digits if both are there, or zero. -/
def decimalLength (cs : List Char) : Nat :=
  match digitsLength cs with
  | 0 => 0
  | whole =>
    match cs.drop whole with
    | '.' :: cs =>
      match digitsLength cs with
      | 0 => whole
      | fraction => whole + 1 + fraction
    | _ => whole

/-- The length of the number literal at the head of a text, or zero. A minus sign belongs to the
decimal number that it touches. -/
def numberLength (cs : List Char) : Nat :=
  match hexLength cs with
  | 0 =>
    match cs with
    | '-' :: cs =>
      match decimalLength cs with
      | 0 => 0
      | n => n + 1
    | cs => decimalLength cs
  | n => n

def isQuote (c : Char) : Bool :=
  c == '\'' || c == '"'

/-- Whether a string literal starts here: a quote, or an `r` before one that no identifier runs
into. -/
def startsString (previous : Char) : List Char → Bool
  | 'r' :: q :: _ => isQuote q && !isNameChar previous
  | q :: _ => isQuote q
  | [] => false

/-- How a string literal is written: one quote or three at both ends, and raw after an `r`. -/
structure Delimiter where
  quote : Char
  triple : Bool
  raw : Bool
deriving DecidableEq, Repr

namespace Delimiter

/-- The delimiter of the literal at the head of a text where `startsString` holds. -/
def ofList : List Char → Delimiter
  | 'r' :: q :: cs => ⟨q, [q, q].isPrefixOf cs, true⟩
  | q :: cs => ⟨q, [q, q].isPrefixOf cs, false⟩
  | [] => ⟨'"', false, false⟩

def quotes (d : Delimiter) : Nat := if d.triple then 3 else 1

/-- The number of characters before the content. -/
def opening (d : Delimiter) : Nat := if d.raw then d.quotes + 1 else d.quotes

/-- Whether the closing quotes stand here. -/
def closes (d : Delimiter) : List Char → Bool
  | c :: cs => c == d.quote && (!d.triple || [c, c].isPrefixOf cs)
  | [] => false

/-- The length of the content, `n` characters of which lie behind; none if the closing quotes never
come. A backslash keeps the character behind it from closing, unless the literal is raw. -/
def contentLength? (d : Delimiter) (n : Nat) : List Char → Option Nat
  | [] => none
  | c :: cs =>
    if d.closes (c :: cs) then some n
    else if c = '\\' ∧ d.raw = false then
      match cs with
      | [] => none
      | _ :: cs => d.contentLength? (n + 2) cs
    else d.contentLength? (n + 1) cs

end Delimiter

/-- What escaped text stands for, behind `before`, which is kept backwards: a backslash for nothing,
and the character behind it for itself. -/
def unescapeFrom (before : List Char) : List Char → List Char
  | [] => before.reverse
  | '\\' :: c :: cs => unescapeFrom (c :: before) cs
  | c :: cs => unescapeFrom (c :: before) cs

def unescape (cs : List Char) : List Char := unescapeFrom [] cs

/-- The length of the string literal at the head of a text where `startsString` holds; none if it is
never closed. -/
def stringLength? (cs : List Char) : Option Nat :=
  let d := Delimiter.ofList cs
  (d.contentLength? 0 (cs.drop d.opening)).map fun n => d.opening + n + d.quotes

/-- The text that a string literal of a given length stands for. -/
def stringText (length : Nat) (cs : List Char) : String :=
  let d := Delimiter.ofList cs
  let content := (cs.drop d.opening).take (length - d.opening - d.quotes)
  String.ofList (if d.raw then content else unescape content)

end WidgetJsx.Expression
