import WidgetJsx.Text.Cursor

/-! Moving a cursor, bounding it and writing more text in front of its source. A cursor sees the text
behind it only through the character before it, and through the places that it names. -/

namespace WidgetJsx.Text

attribute [ext] Cursor Position

/-- The place `p` of a text, once that text stands behind the place `q` of another. -/
def Position.after (p q : Position) : Position :=
  if p.line = 1 then ⟨q.line, p.column + q.column - 1⟩ else ⟨p.line + q.line - 1, p.column⟩

theorem Position.one_le_behind (before : List Char) :
    1 ≤ (behind before).line ∧ 1 ≤ (behind before).column :=
  ⟨Nat.le_add_left 1 _, Nat.le_add_left 1 _⟩

theorem Position.behind_append (before earlier : List Char) :
    behind (before ++ earlier) = (behind before).after (behind earlier) := by
  induction before with
  | nil => simp [after, behind]
  | cons c before ih =>
    have hl := one_le_behind before
    have hq := one_le_behind earlier
    by_cases hc : c = '\n'
    · subst hc
      simp only [List.cons_append, behind_newline, ih, after]
      by_cases h : (behind before).line = 1
      · simp only [h, if_true, Nat.reduceAdd, if_neg (show ¬ 2 = 1 by omega), mk.injEq, and_true]
        omega
      · simp only [h, if_false, mk.injEq, if_neg (show ¬ (behind before).line + 1 = 1 by omega),
          and_true]
        omega
    · simp only [List.cons_append, behind_cons hc, ih, after]
      by_cases h : (behind before).line = 1
      · simp only [h, if_true, mk.injEq, true_and]
        omega
      · simp only [h, if_false]

namespace Cursor

@[simp] theorem forward_zero (s : Cursor) : s.forward 0 = s := by
  ext1 <;> simp

@[simp] theorem forward_forward (s : Cursor) (m n : Nat) :
    (s.forward m).forward n = s.forward (m + n) := by
  ext1
  · simp only [forward_behind, forward_ahead, List.take_add, List.reverse_append,
      List.append_assoc]
  · simp only [forward_ahead, List.drop_drop]

theorem forward_cons (behind : List Char) (c : Char) (cs : List Char) (n : Nat) :
    (Cursor.mk behind (c :: cs)).forward (n + 1) = (Cursor.mk (c :: behind) cs).forward n := rfl

theorem forward_append (behind u v : List Char) :
    (Cursor.mk behind (u ++ v)).forward u.length = ⟨u.reverse ++ behind, v⟩ := by
  ext1 <;> simp

theorem forward_append_of_le {n : Nat} {u : List Char} (h : n ≤ u.length) (behind v : List Char) :
    (Cursor.mk behind (u ++ v)).forward n = ⟨(u.take n).reverse ++ behind, u.drop n ++ v⟩ := by
  ext1
  · simp [List.take_append_of_le_length h]
  · simp [List.drop_append_of_le_length h]

@[simp] theorem within_behind (n : Nat) (s : Cursor) : (s.within n).behind = s.behind := rfl

@[simp] theorem within_ahead (n : Nat) (s : Cursor) : (s.within n).ahead = s.ahead.take n := rfl

@[simp] theorem within_previous (n : Nat) (s : Cursor) : (s.within n).previous = s.previous := rfl

theorem forward_within {m n : Nat} (h : n ≤ m) (s : Cursor) :
    (s.within m).forward n = (s.forward n).within (m - n) := by
  ext1
  · simp [List.take_take, Nat.min_eq_left h]
  · simp [List.drop_take]

theorem within_within {m n : Nat} (h : n ≤ m) (s : Cursor) : (s.within m).within n = s.within n := by
  ext1
  · rfl
  · simp [List.take_take, Nat.min_eq_left h]

theorem lt_length_of_forward {s : Cursor} {n : Nat} {c : Char} {cs : List Char}
    (h : (s.forward n).ahead = c :: cs) : n < s.ahead.length := by
  have hlength := congrArg List.length h
  rw [forward_ahead, List.length_drop, List.length_cons] at hlength
  omega

theorem add_le_length {s : Cursor} {m n : Nat} (hm : m ≤ s.ahead.length)
    (hn : n ≤ (s.forward m).ahead.length) : m + n ≤ s.ahead.length := by
  rw [forward_ahead, List.length_drop] at hn
  omega

theorem forward_suffix (s : Cursor) (n : Nat) : (s.forward n).ahead <:+ s.ahead := by
  rw [forward_ahead]
  exact List.drop_suffix _ _

/-- The same cursor, with text in front of its source, nearest character first. -/
def after (earlier : List Char) (s : Cursor) : Cursor := { s with behind := s.behind ++ earlier }

section

variable (earlier : List Char) (s : Cursor) (n : Nat)

@[simp] theorem after_ahead : (s.after earlier).ahead = s.ahead := rfl

@[simp] theorem after_behind : (s.after earlier).behind = s.behind ++ earlier := rfl

@[simp] theorem after_forward : (s.after earlier).forward n = (s.forward n).after earlier := by
  ext1 <;> simp

@[simp] theorem after_within : (s.after earlier).within n = (s.within n).after earlier := rfl

@[simp] theorem after_text : (s.after earlier).text n = s.text n := rfl

@[simp] theorem after_next? : (s.after earlier).next? = s.next? := rfl

@[simp] theorem after_atEnd : (s.after earlier).atEnd = s.atEnd := rfl

theorem after_position : (s.after earlier).position = s.position.after (.behind earlier) :=
  Position.behind_append s.behind earlier

end

/-- The character before the cursor stays what it is when `earlier` is put in front. -/
def Settled (earlier : List Char) (s : Cursor) : Prop := (s.after earlier).previous = s.previous

theorem settled_of_behind {earlier : List Char} {s : Cursor} (h : s.behind ≠ []) :
    s.Settled earlier := by
  obtain ⟨behind, ahead⟩ := s
  cases behind with
  | nil => exact absurd rfl h
  | cons c cs => rfl

theorem Settled.forward {earlier : List Char} {s : Cursor} (h : s.Settled earlier) (n : Nat) :
    (s.forward n).Settled earlier := by
  by_cases he : (s.ahead.take n).reverse ++ s.behind = []
  · have hb : s.behind = [] := (List.append_eq_nil_iff.mp he).2
    have hn : (s.forward n).behind = s.behind := by rw [forward_behind, he, hb]
    simpa only [Settled, previous, after_behind, hn] using h
  · exact settled_of_behind (by simpa using he)

theorem Settled.within {earlier : List Char} {s : Cursor} (h : s.Settled earlier) (n : Nat) :
    (s.within n).Settled earlier := h

end Cursor

end WidgetJsx.Text
