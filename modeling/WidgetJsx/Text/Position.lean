/-! Places in a source text. Lines and columns count from one, and a column is a number of
characters. -/

namespace WidgetJsx.Text

structure Position where
  line : Nat
  column : Nat
deriving DecidableEq, Repr

/-- The place behind a stretch of text, given nearest character first. -/
def Position.behind (before : List Char) : Position where
  line := before.count '\n' + 1
  column := (before.takeWhile (· ≠ '\n')).length + 1

def Position.start : Position := .behind []

theorem Position.behind_newline (before : List Char) :
    behind ('\n' :: before) = ⟨(behind before).line + 1, 1⟩ := by
  simp [behind]

theorem Position.behind_cons {c : Char} (h : c ≠ '\n') (before : List Char) :
    behind (c :: before) = ⟨(behind before).line, (behind before).column + 1⟩ := by
  simp [behind, h]

end WidgetJsx.Text
