import WidgetJsx.Json.Text

/-! Reading JSON. A text is cut into tokens up to the first that is flawed; a token is judged only
where it is needed, so that the first fault in the text is the one that is told. -/

namespace WidgetJsx.Json

/-- A string, a word or number, or any other character. -/
inductive Token where
  | string (read : Except Fault String)
  | scalar (read : Except Fault Json)
  | mark (c : Char)

/-- The tokens of a text, each with the place behind its first byte, and the place of the end. -/
structure Tokens where
  list : List (Token × Place)
  finish : Place

def isSpace (c : Char) : Bool :=
  c == ' ' || c == '\n' || c == '\t' || c == '\r'

def readWord (value : Json) (length : Nat) : List Char → List Char → Except Flaw (Json × Nat)
  | [], _ => .ok (value, length)
  | _ :: _, [] => .error ⟨.endInValue, length⟩
  | w :: ws, c :: cs =>
    if w = c then readWord value (length + 1) ws cs else .error ⟨.wordExpected, length + 1⟩

/-- The token at the head of a text and its length. -/
def readToken (place : Place) (c : Char) (cs : List Char) : Token × Nat :=
  let located {α : Type} (read : Except Flaw (α × Nat)) : Except Fault α × Nat :=
    match read with
    | .ok (a, n) => (.ok a, n)
    | .error flaw => (.error ⟨flaw.cause, place.afterBytes flaw.bytes (c :: cs)⟩, 1)
  let scalar (read : Except Flaw (Json × Nat)) : Token × Nat :=
    let (value, n) := located read
    (.scalar value, n)
  match c with
  | '"' =>
    let (text, n) := located (readString [] 1 1 cs)
    (.string text, n)
  | 'n' => scalar (readWord .null 1 "ull".toList cs)
  | 't' => scalar (readWord (.boolean true) 1 "rue".toList cs)
  | 'f' => scalar (readWord (.boolean false) 1 "alse".toList cs)
  | c =>
    if c = '-' ∨ c.isDigit then
      scalar (match Number.read (c :: cs) with
        | .ok (n, length) => .ok (.number n, length)
        | .error flaw => .error flaw)
    else (.mark c, 1)

def Token.isFlawed : Token → Bool
  | string (.error _) | scalar (.error _) => true
  | _ => false

def Tokens.ofList (found : List (Token × Place)) (place : Place) : List Char → Tokens
  | [] => ⟨found.reverse, place⟩
  | c :: cs =>
    if isSpace c then ofList found (place.step c) cs
    else
      let (token, n) := readToken place c cs
      let found := (token, place.afterBytes 1 (c :: cs)) :: found
      if token.isFlawed then ⟨found.reverse, place⟩
      else ofList found (place.after ((c :: cs).take n)) (cs.drop (n - 1))
termination_by cs => cs.length

/-- What a value is part of: a list with its items so far, last first, or an object with the key
that the value belongs to. -/
inductive Frame where
  | list (items : List Json)
  | object (fields : Fields Json) (key : String)

/-- What a reader waits for, inside some frames. -/
inductive State where
  | value (frames : List Frame)
  /-- An item of a list; the first may be missing. -/
  | item (first : Bool) (items : List Json) (frames : List Frame)
  | listRest (items : List Json) (frames : List Frame)
  /-- A key of an object; the first may be missing. -/
  | key (first : Bool) (fields : Fields Json) (frames : List Frame)
  | colon (fields : Fields Json) (key : String) (frames : List Frame)
  | objectRest (fields : Fields Json) (frames : List Frame)
  | finished (value : Json)

namespace State

def close (v : Json) : List Frame → State
  | [] => finished v
  | .list items :: frames => listRest (v :: items) frames
  | .object fields name :: frames => objectRest (fields.set name v) frames

/-- Reads the token that a value starts with. At most `limit` lists and objects may be open. -/
def openValue (limit : Nat) (frames : List Frame) (token : Token) (place : Place) :
    Except Fault State :=
  match token with
  | .string read => return close (.string (← read)) frames
  | .scalar read => return close (← read) frames
  | .mark c =>
    if c = '[' ∨ c = '{' then
      if limit ≤ frames.length then throw ⟨.tooDeep, place⟩
      else if c = '[' then return item true [] frames
      else return key true ∅ frames
    else throw ⟨.valueExpected, place⟩

def step (limit : Nat) (state : State) (next : Token × Place) : Except Fault State :=
  let (token, place) := next
  match state, token with
  | value frames, token => openValue limit frames token place
  | item true items frames, .mark ']' => return close (.array items) frames
  | item false _ _, .mark ']' => throw ⟨.trailingComma, place⟩
  | item _ items frames, token => openValue limit (.list items :: frames) token place
  | listRest items frames, .mark ']' => return close (.array items.reverse) frames
  | listRest items frames, .mark ',' => return item false items frames
  | listRest _ _, _ => throw ⟨.listEndExpected, place⟩
  | key _ fields frames, .string read => return colon fields (← read) frames
  | key true fields frames, .mark '}' => return close (.object fields) frames
  | key false _ _, .mark '}' => throw ⟨.trailingComma, place⟩
  | key _ _ _, _ => throw ⟨.keyNotString, place⟩
  | colon fields name frames, .mark ':' => return value (.object fields name :: frames)
  | colon _ _ _, _ => throw ⟨.colonExpected, place⟩
  | objectRest fields frames, .mark '}' => return close (.object fields) frames
  | objectRest fields frames, .mark ',' => return key false fields frames
  | objectRest _ _, _ => throw ⟨.objectEndExpected, place⟩
  | finished _, _ => throw ⟨.trailingCharacters, place⟩

/-- The value that was read when the text ends. -/
def result (place : Place) : State → Except Fault Json
  | finished v => .ok v
  | value _ | item false _ _ | key false _ _ => .error ⟨.endInValue, place⟩
  | item true _ _ | listRest _ _ => .error ⟨.endInList, place⟩
  | key true _ _ | colon _ _ _ | objectRest _ _ => .error ⟨.endInObject, place⟩

end State

/-- Reads a text in which at most `limit` lists and objects lie inside one another. -/
def read (limit : Nat) (text : String) : Except Fault Json := do
  let tokens := Tokens.ofList [] .start text.toList
  let state ← tokens.list.foldlM (State.step limit) (.value [])
  state.result tokens.finish

def standardLimit : Nat := 127

end WidgetJsx.Json
