/-! Why a text is not JSON, and where. Columns count the bytes of a line that were looked at. -/

namespace WidgetJsx.Json

inductive Cause
  | endInValue
  | endInObject
  | endInList
  | endInString
  | valueExpected
  | wordExpected
  | colonExpected
  | objectEndExpected
  | listEndExpected
  | keyNotString
  | trailingComma
  | trailingCharacters
  | invalidNumber
  | numberOutOfRange
  | invalidEscape
  | loneSurrogate
  | escapeEnds
  | controlCharacter
  | tooDeep
deriving DecidableEq, Repr

def Cause.message : Cause → String
  | endInValue => "EOF while parsing a value"
  | endInObject => "EOF while parsing an object"
  | endInList => "EOF while parsing a list"
  | endInString => "EOF while parsing a string"
  | valueExpected => "expected value"
  | wordExpected => "expected ident"
  | colonExpected => "expected `:`"
  | objectEndExpected => "expected `,` or `\x7d`"
  | listEndExpected => "expected `,` or `]`"
  | keyNotString => "key must be a string"
  | trailingComma => "trailing comma"
  | trailingCharacters => "trailing characters"
  | invalidNumber => "invalid number"
  | numberOutOfRange => "number out of range"
  | invalidEscape => "invalid escape"
  | loneSurrogate => "lone leading surrogate in hex escape"
  | escapeEnds => "unexpected end of hex escape"
  | controlCharacter => "control character (\\u0000-\\u001F) found while parsing a string"
  | tooDeep => "recursion limit exceeded"

structure Place where
  line : Nat
  column : Nat
deriving DecidableEq, Repr

namespace Place

def start : Place := ⟨1, 0⟩

def step (p : Place) (c : Char) : Place :=
  if c = '\n' then ⟨p.line + 1, 0⟩ else ⟨p.line, p.column + c.utf8Size⟩

def after (p : Place) (cs : List Char) : Place :=
  cs.foldl step p

/-- The place behind the first bytes of a text, which may end within a character. -/
def afterBytes (p : Place) : Nat → List Char → Place
  | 0, _ => p
  | _, [] => p
  | bytes, c :: cs =>
    if c.utf8Size ≤ bytes then afterBytes (p.step c) (bytes - c.utf8Size) cs
    else ⟨p.line, p.column + bytes⟩

end Place

structure Fault where
  cause : Cause
  place : Place
deriving DecidableEq, Repr

def Fault.message (fault : Fault) : String :=
  fault.cause.message ++ " at line " ++ toString fault.place.line ++ " column " ++
    toString fault.place.column

end WidgetJsx.Json
