import Mathlib.Data.List.TakeWhile
import WidgetJsx.Expression.Literal
import WidgetJsx.Proofs.Gap

/-! The grammar of names beside the function that measures them, and what may follow a word without
running into it. -/

namespace WidgetJsx.Expression

def IsName : List Char → Prop
  | [] => False
  | c :: cs => isNameStart c = true ∧ ∀ d ∈ cs, isNameChar d = true

instance : DecidablePred IsName
  | [] => inferInstanceAs (Decidable False)
  -- By way of `List.all`, so that deciding it walks the text and not every character there is.
  | c :: cs => decidable_of_iff (isNameStart c = true ∧ cs.all isNameChar = true) (by simp [IsName])

/-- The text does not go on with a character of a name. -/
def Ends (cs : List Char) : Prop := ∀ c ∈ cs.head?, isNameChar c = false

/-- The text goes on neither with a character of a name, nor with a dot or a quote. -/
def Breaks (cs : List Char) : Prop :=
  ∀ c ∈ cs.head?, isNameChar c = false ∧ c ≠ '.' ∧ isQuote c = false

theorem Breaks.ends {cs : List Char} (h : Breaks cs) : Ends cs := fun c hc => (h c hc).1

theorem breaks_nil : Breaks [] := by simp [Breaks]

theorem breaks_cons {c : Char} (h : isNameChar c = false) (hd : c ≠ '.') (hq : isQuote c = false)
    (cs : List Char) : Breaks (c :: cs) := by
  simp [Breaks, h, hd, hq]

theorem breaks_parenthesis (cs : List Char) : Breaks ('(' :: cs) :=
  breaks_cons (by decide) (by decide) (by decide) cs

theorem ends_cons {c : Char} (h : isNameChar c = false) (cs : List Char) : Ends (c :: cs) := by
  simp [Ends, h]

theorem isNameChar_of_isNameStart {c : Char} (h : isNameStart c = true) : isNameChar c = true := by
  simp [isNameChar, h]

theorem ne_of_isNameChar {c d : Char} (h : isNameChar c = true)
    (hd : isNameChar d = false := by decide) : c ≠ d := by
  rintro rfl
  simp [h] at hd

theorem isNameChar_eq_false_of_isBlank {c : Char} (h : Text.isBlank c = true) :
    isNameChar c = false := by
  have hn : ∀ n ∈ [0x9, 0xA, 0xB, 0xC, 0xD, 0x20, 0x85, 0xA0, 0x1680, 0x2000, 0x2001, 0x2002,
      0x2003, 0x2004, 0x2005, 0x2006, 0x2007, 0x2008, 0x2009, 0x200A, 0x2028, 0x2029, 0x202F,
      0x205F, 0x3000], isNameChar (Char.ofNat n) = false := by decide +kernel
  have := hn c.toNat (by
    simp only [Text.isBlank, Bool.or_eq_true, Bool.and_eq_true, beq_iff_eq, decide_eq_true_eq] at h
    simp only [List.mem_cons, List.not_mem_nil, or_false]
    omega)
  rwa [Char.ofNat_toNat] at this

theorem isBlank_eq_false_of_isNameChar {c : Char} (h : isNameChar c = true) :
    Text.isBlank c = false := by
  cases hb : Text.isBlank c with
  | false => rfl
  | true => simp [isNameChar_eq_false_of_isBlank hb] at h

theorem isQuote_eq_false_of_isNameChar {c : Char} (h : isNameChar c = true) :
    isQuote c = false := by
  have h₁ : c ≠ '\'' := ne_of_isNameChar h
  have h₂ : c ≠ '"' := ne_of_isNameChar h
  simp [isQuote, h₁, h₂]

theorem Gap.breaks {filler : Char → Bool}
    (hf : ∀ c, filler c = true → isNameChar c = false ∧ c ≠ '.' ∧ isQuote c = false)
    {u rest : List Char} (h : Gap filler u) (hr : Breaks rest) : Breaks (u ++ rest) :=
  h.head_append hf (by decide) hr

theorem isQuote_cases {q : Char} (h : isQuote q = true) : q = '\'' ∨ q = '"' := by
  simpa [isQuote] using h

theorem isBlank_breaks {c : Char} (h : Text.isBlank c = true) :
    isNameChar c = false ∧ c ≠ '.' ∧ isQuote c = false := by
  refine ⟨isNameChar_eq_false_of_isBlank h, ?_, ?_⟩
  · rintro rfl
    simp [Text.isBlank] at h
  · cases hq : isQuote c with
    | false => rfl
    | true =>
      obtain rfl | rfl := isQuote_cases hq <;> simp [Text.isBlank] at h

theorem Trivia.breaks {u rest : List Char} (h : Trivia u) (hr : Breaks rest) :
    Breaks (u ++ rest) :=
  Gap.breaks (fun _ => isBlank_breaks) h hr

theorem breaks_call {gap : List Char} (h : Trivia gap) (cs rest : List Char) :
    Breaks (gap ++ '(' :: cs ++ rest) := by
  rw [List.append_assoc]
  exact h.breaks (breaks_parenthesis _)

theorem takeWhile_append_eq {p : Char → Bool} {u rest : List Char} (h : ∀ c ∈ u, p c = true)
    (hr : ∀ c ∈ rest.head?, p c = false) : (u ++ rest).takeWhile p = u := by
  rw [List.takeWhile_append_of_pos h]
  cases rest with
  | nil => simp
  | cons c rest => simp [hr c rfl]

namespace IsName

variable {u rest : List Char}

theorem ne_nil (h : IsName u) : u ≠ [] := by
  rintro rfl
  exact h

theorem isNameChar (h : IsName u) : ∀ c ∈ u, isNameChar c = true := by
  cases u with
  | nil => exact absurd h id
  | cons c u =>
    intro d hd
    rcases List.mem_cons.mp hd with rfl | hd
    · exact isNameChar_of_isNameStart h.1
    · exact h.2 d hd

theorem solid (h : IsName u) {filler : Char → Bool}
    (hf : ∀ c, Expression.isNameChar c = true → filler c = false) : Solid filler (u ++ rest) := by
  cases u with
  | nil => exact absurd h id
  | cons c u =>
    have hc := isNameChar_of_isNameStart h.1
    exact solid_cons (hf c hc) (ne_of_isNameChar hc) _

theorem nameLength_eq (h : IsName u) (hr : Ends rest) : nameLength (u ++ rest) = u.length := by
  cases u with
  | nil => exact absurd h id
  | cons c u => simp [nameLength, h.1, takeWhile_append_eq h.2 hr]

end IsName

theorem nameLength_le (cs : List Char) : nameLength cs ≤ cs.length := by
  cases cs with
  | nil => simp [nameLength]
  | cons c cs =>
    have := (List.takeWhile_sublist isNameChar (l := cs)).length_le
    simp only [nameLength, List.length_cons]
    split <;> omega

theorem take_length_takeWhile {α : Type} (p : α → Bool) (l : List α) :
    l.take (l.takeWhile p).length = l.takeWhile p :=
  (List.prefix_iff_eq_take.mp (List.takeWhile_prefix p)).symm

theorem isName_take {cs : List Char} (h : nameLength cs ≠ 0) : IsName (cs.take (nameLength cs)) := by
  cases cs with
  | nil => simp [nameLength] at h
  | cons c cs =>
    by_cases hc : isNameStart c = true
    · simp only [nameLength, hc, if_true, List.take_succ_cons, take_length_takeWhile]
      exact ⟨hc, fun d hd => List.mem_takeWhile_imp hd⟩
    · simp [nameLength, hc] at h

end WidgetJsx.Expression
