import WidgetJsx.Expression.Literal

/-! Brackets are matched in code only: what string literals and comments hold is passed over. A
scan feeds the characters of code to a step function, one after the other, until it halts. -/

namespace WidgetJsx.Expression

/-- What starts at a place: a character of code, a string literal or comment with so many
characters behind its first, or a string literal that is never closed. -/
inductive Item
  | code
  | inert (behind : Nat)
  | torn
deriving DecidableEq, Repr

def Item.at (previous c : Char) (cs : List Char) : Item :=
  if startsString previous (c :: cs) then
    match stringLength? (c :: cs) with
    | some n => .inert (n - 1)
    | none => .torn
  else if c = '/' ∧ (cs.head? = some '/' ∨ cs.head? = some '*') then
    .inert (triviaLength (c :: cs) - 1)
  else .code

/-- Feeds code to `step` until it halts with an answer; gives the answer and the number of
characters before it. None if the text ends or a string literal is torn before. -/
def scanCode {σ α : Type} (step : σ → Char → Except α σ) (state : σ) (previous : Char)
    (cs : List Char) : Option (α × Nat) :=
  go state 0 previous 0 cs
where
  /-- The first `skip` characters belong to an item met before. -/
  go (state : σ) (skip : Nat) (previous : Char) (n : Nat) : List Char → Option (α × Nat)
    | [] => none
    | c :: cs =>
      match skip with
      | skip + 1 => go state skip c (n + 1) cs
      | 0 =>
        match Item.at previous c cs with
        | .torn => none
        | .inert behind => go state behind c (n + 1) cs
        | .code =>
          match step state c with
          | .ok state => go state 0 c (n + 1) cs
          | .error answer => some (answer, n)

def closerOf? : Char → Option Char
  | '(' => some ')'
  | '[' => some ']'
  | '{' => some '}'
  | _ => none

def isCloser (c : Char) : Bool :=
  c == ')' || c == ']' || c == '}'

/-- Keeps the closing brackets awaited, innermost first. Halts at the last one, and at a closing
bracket of the wrong kind. -/
def matchStep (awaited : List Char) (c : Char) : Except Bool (List Char) :=
  match closerOf? c with
  | some closer => .ok (closer :: awaited)
  | none =>
    if isCloser c then
      match awaited with
      | [] => .error false
      | closer :: awaited =>
        if closer ≠ c then .error false
        else if awaited.isEmpty then .error true
        else .ok awaited
    else .ok awaited

/-- The distance from the bracket at the head of a text to the one that closes it. -/
def closing? (previous : Char) (cs : List Char) : Option Nat :=
  match scanCode matchStep [] previous cs with
  | some (true, n) => some n
  | _ => none

/-- Counts open brackets of all kinds alike. Halts at a comma or a closing bracket outside all
brackets. -/
def rawStep (depth : Nat) (c : Char) : Except Unit Nat :=
  if (closerOf? c).isSome then .ok (depth + 1)
  else if isCloser c then
    match depth with
    | 0 => .error ()
    | depth + 1 => .ok depth
  else if c = ',' ∧ depth = 0 then .error ()
  else .ok depth

/-- The length of an expression that is not read any further: up to the next separator, or all of
the text. -/
def rawLength (previous : Char) (cs : List Char) : Nat :=
  match scanCode rawStep 0 previous cs with
  | some (_, n) => n
  | none => cs.length

/-- The distance from the `<` at the head of a text to the `>` that closes it. -/
def angleClosing? (cs : List Char) : Option Nat :=
  go 0 0 cs
where
  go : Nat → Nat → List Char → Option Nat
    | _, _, [] => none
    | depth, n, c :: cs =>
      if c = '<' then go (depth + 1) (n + 1) cs
      else if c = '>' then if depth ≤ 1 then some n else go (depth - 1) (n + 1) cs
      else go depth (n + 1) cs

end WidgetJsx.Expression
