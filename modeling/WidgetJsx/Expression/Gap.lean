import WidgetJsx.Text.Blank

/-! What may stand between the parts of an expression: white space, comments and, in some places,
separators. -/

namespace WidgetJsx.Expression

/-- Where a reader of a gap stands: between comments, in one that a line break ends, or in one
that `*/` ends. -/
inductive GapPart
  | between
  | line
  | block
deriving DecidableEq, Repr

/-- The length of the gap at the head of a text, where `filler` says which characters fill a gap
outside comments. A block comment that is never closed runs to the end. -/
def gapLength (filler : Char → Bool) (cs : List Char) : Nat :=
  go .between 0 cs
where
  go : GapPart → Nat → List Char → Nat
    | .between, n, '/' :: '/' :: cs => go .line (n + 2) cs
    | .between, n, '/' :: '*' :: cs => go .block (n + 2) cs
    | .between, n, c :: cs => if filler c then go .between (n + 1) cs else n
    | .line, n, c :: cs => go (if c = '\n' then .between else .line) (n + 1) cs
    | .block, n, '*' :: '/' :: cs => go .between (n + 2) cs
    | .block, n, _ :: cs => go .block (n + 1) cs
    | _, n, [] => n

/-- White space and comments. -/
def triviaLength (cs : List Char) : Nat :=
  gapLength Text.isBlank cs

/-- White space, comments and the commas between arguments. -/
def separatorsLength (cs : List Char) : Nat :=
  gapLength (fun c => Text.isBlank c || c == ',') cs

/-- What may follow a whole expression: white space, comments, commas and semicolons. -/
def terminatorsLength (cs : List Char) : Nat :=
  gapLength (fun c => Text.isBlank c || c == ',' || c == ';') cs

end WidgetJsx.Expression
