import WidgetJsx.Text.Position

/-! A cursor stands inside a source text. What lies ahead of it may be bounded: an argument list
is read through a cursor that ends at the closing bracket. What lies behind it is kept whole, so
that every place can be named. -/

namespace WidgetJsx.Text

structure Cursor where
  /-- The text before the cursor, nearest character first. -/
  behind : List Char
  /-- The text from the cursor to its bound. -/
  ahead : List Char
deriving DecidableEq, Repr

namespace Cursor

def ofList (cs : List Char) : Cursor := ⟨[], cs⟩

def position (s : Cursor) : Position := .behind s.behind

/-- The character before the cursor; the start of a text is the start of a line. -/
def previous (s : Cursor) : Char := s.behind.headD '\n'

def next? (s : Cursor) : Option Char := s.ahead.head?

def atEnd (s : Cursor) : Bool := s.ahead.isEmpty

/-- Passes `n` characters, or as many as there are. -/
def forward (n : Nat) (s : Cursor) : Cursor :=
  go n s.behind s.ahead
where
  go : Nat → List Char → List Char → Cursor
    | n + 1, behind, c :: ahead => go n (c :: behind) ahead
    | _, behind, ahead => ⟨behind, ahead⟩

/-- Bounds the text ahead to `n` characters. -/
def within (n : Nat) (s : Cursor) : Cursor := { s with ahead := s.ahead.take n }

def text (n : Nat) (s : Cursor) : String := String.ofList (s.ahead.take n)

theorem forward_go (n : Nat) (behind ahead : List Char) :
    forward.go n behind ahead = ⟨(ahead.take n).reverse ++ behind, ahead.drop n⟩ := by
  induction n generalizing behind ahead with
  | zero => simp [forward.go]
  | succ n ih => cases ahead <;> simp [forward.go, ih]

@[simp] theorem forward_behind (n : Nat) (s : Cursor) :
    (s.forward n).behind = (s.ahead.take n).reverse ++ s.behind := by simp [forward, forward_go]

@[simp] theorem forward_ahead (n : Nat) (s : Cursor) :
    (s.forward n).ahead = s.ahead.drop n := by simp [forward, forward_go]

end Cursor

end WidgetJsx.Text
