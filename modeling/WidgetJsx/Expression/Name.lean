import WidgetJsx.Text.Alphabetic
import WidgetJsx.Text.Numeric
import WidgetJsx.Expression.Gap

/-! Identifiers, dotted paths of them, and the words that may stand before a constructor. -/

namespace WidgetJsx.Expression

def isNameStart (c : Char) : Bool :=
  Text.isAlphabetic c || c == '_' || c == '$'

def isNameChar (c : Char) : Bool :=
  isNameStart c || Text.isNumeric c

/-- The length of the identifier at the head of a text, or zero. -/
def nameLength : List Char → Nat
  | [] => 0
  | c :: cs => if isNameStart c then (cs.takeWhile isNameChar).length + 1 else 0

/-- The length of the identifiers joined by dots at the head of a text, or zero. A dot that no
identifier follows is left alone. -/
def pathLength : List Char → Nat
  | [] => 0
  | c :: cs => if isNameStart c then go 1 cs else 0
where
  go : Nat → List Char → Nat
    | n, '.' :: c :: cs => if isNameStart c then go (n + 1) (c :: cs) else n
    | n, c :: cs => if isNameChar c then go (n + 1) cs else n
    | n, [] => n

/-- Whether a text starts with a word that is not part of a longer one. -/
def startsWithWord (word : String) (cs : List Char) : Bool :=
  word.toList.isPrefixOf cs && !(cs.drop word.length).head?.any isNameChar

/-- The length of `const` or `new`, which may stand before a constructor, and of the gap behind
it, or zero. -/
def keywordLength (cs : List Char) : Nat :=
  if startsWithWord "const" cs then 5 + triviaLength (cs.drop 5)
  else if startsWithWord "new" cs then 3 + triviaLength (cs.drop 3)
  else 0

end WidgetJsx.Expression
