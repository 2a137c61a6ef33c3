import WidgetJsx.Json.Number
import WidgetJsx.Text.Quoted

/-! JSON strings. Read, an escape stands for one character, and a character beyond sixteen bits may
be written as two. Written, only quotes, backslashes and control characters are escaped. -/

namespace WidgetJsx.Json

def hexValue? (c : Char) : Option Nat :=
  if c.isDigit then some (c.toNat - '0'.toNat)
  else if 'a' ≤ c ∧ c ≤ 'f' then some (c.toNat - 'a'.toNat + 10)
  else if 'A' ≤ c ∧ c ≤ 'F' then some (c.toNat - 'A'.toNat + 10)
  else none

def bytesOf (cs : List Char) : Nat :=
  cs.foldl (fun n c => n + c.utf8Size) 0

/-- The number that four digits in base sixteen stand for. Bytes before them are `before`. -/
def readUnit (before : Nat) (cs : List Char) : Except Flaw Nat :=
  match cs.take 4 |>.mapM hexValue? with
  | some [a, b, c, d] => .ok (((a * 16 + b) * 16 + c) * 16 + d)
  | _ =>
    if bytesOf (cs.take 4) < 4 then .error ⟨.endInString, before + bytesOf (cs.take 4)⟩
    else .error ⟨.invalidEscape, before + 4⟩

def isLeading (unit : Nat) : Bool := 0xD800 ≤ unit && unit ≤ 0xDBFF

def isTrailing (unit : Nat) : Bool := 0xDC00 ≤ unit && unit ≤ 0xDFFF

def readUnits (cs : List Char) : Except Flaw (Char × Nat) := do
  let unit ← readUnit 0 cs
  if isTrailing unit then throw ⟨.loneSurrogate, 4⟩
  if !isLeading unit then return (Char.ofNat unit, 4)
  match cs.drop 4 with
  | [] => throw ⟨.endInString, 4⟩
  | '\\' :: [] => throw ⟨.endInString, 5⟩
  | '\\' :: 'u' :: cs =>
    let second ← readUnit 6 cs
    if !isTrailing second then throw ⟨.loneSurrogate, 10⟩
    return (Char.ofNat (0x10000 + (unit - 0xD800) * 0x400 + (second - 0xDC00)), 10)
  | '\\' :: _ => throw ⟨.escapeEnds, 6⟩
  | _ => throw ⟨.escapeEnds, 5⟩

def readEscape : List Char → Except Flaw (Char × Nat)
  | [] => .error ⟨.endInString, 0⟩
  | 'u' :: cs =>
    match readUnits cs with
    | .ok (c, n) => .ok (c, n + 1)
    | .error flaw => .error ⟨flaw.cause, flaw.bytes + 1⟩
  | 'b' :: _ => .ok ('\x08', 1)
  | 'f' :: _ => .ok ('\x0c', 1)
  | 'n' :: _ => .ok ('\n', 1)
  | 'r' :: _ => .ok ('\r', 1)
  | 't' :: _ => .ok ('\t', 1)
  | c :: _ => if c = '"' ∨ c = '\\' ∨ c = '/' then .ok (c, 1) else .error ⟨.invalidEscape, 1⟩

/-- Reads up to the closing quote. So far `text` was read, backwards, from `length` characters or
`bytes` bytes. -/
def readString (text : List Char) (length bytes : Nat) : List Char →
    Except Flaw (String × Nat)
  | [] => .error ⟨.endInString, bytes⟩
  | '"' :: _ => .ok (String.ofList text.reverse, length + 1)
  | '\\' :: cs =>
    match readEscape cs with
    | .ok (c, n) => readString (c :: text) (length + 1 + n) (bytes + 1 + n) (cs.drop n)
    | .error flaw => .error ⟨flaw.cause, bytes + 1 + flaw.bytes⟩
  | c :: cs =>
    if c.toNat < 32 then .error ⟨.controlCharacter, bytes + 1⟩
    else readString (c :: text) (length + 1) (bytes + c.utf8Size) cs
termination_by cs => cs.length

def writeUnit (n : Nat) : List Char :=
  ['\\', 'u', '0', '0', Nat.digitChar (n / 16), Nat.digitChar (n % 16)]

def writeChar (c : Char) : List Char :=
  match c with
  | '"' => ['\\', '"']
  | '\\' => ['\\', '\\']
  | '\x08' => ['\\', 'b']
  | '\x0c' => ['\\', 'f']
  | '\n' => ['\\', 'n']
  | '\r' => ['\\', 'r']
  | '\t' => ['\\', 't']
  | c => if c.toNat < 32 then writeUnit c.toNat else [c]

def writeString (s : String) : List Char :=
  '"' :: s.toList.flatMap writeChar ++ ['"']

end WidgetJsx.Json
