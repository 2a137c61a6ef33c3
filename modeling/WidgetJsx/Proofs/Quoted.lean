import WidgetJsx.Proofs.Crossing
import WidgetJsx.Style.Basic

/-! A quoted text is a string literal that stands for the text. So it is known from the start of what
follows where it ends, and what it was. -/

namespace WidgetJsx.Style

open Expression

/-- Single quotes, and backslashes for escapes. -/
def quotation : Delimiter := ⟨'\'', false, false⟩

/-- A character as it is written between the quotes. -/
def escaped (c : Char) : List Char :=
  if c = '\\' ∨ c = '\'' then ['\\', c] else [c]

theorem toList_quoted (s : String) :
    (quoted s).toList = quotation.opener ++ s.toList.flatMap escaped ++ quotation.closer := by
  have ho : quotation.opener = ['\''] := rfl
  have hc : quotation.closer = ['\''] := rfl
  simp only [quoted, String.toList_append, String.toList_ofList, ho, hc]
  rfl

theorem quoted_append (s : String) (rest : List Char) :
    (quoted s).toList ++ rest = '\'' :: (s.toList.flatMap escaped ++ '\'' :: rest) := by
  have ho : quotation.opener = ['\''] := rfl
  have hc : quotation.closer = ['\''] := rfl
  rw [toList_quoted, ho, hc]
  simp

theorem encodes_escaped (text : List Char) : quotation.Encodes (text.flatMap escaped) text := by
  induction text with
  | nil => exact .nil
  | cons c text ih =>
    rw [List.flatMap_cons]
    by_cases hc : c = '\\' ∨ c = '\''
    · rw [escaped, if_pos hc]
      exact .escaped rfl ih
    · rw [escaped, if_neg hc]
      have hquote : ¬ quotation.closer <+: c :: (text.flatMap escaped ++ quotation.closer) := by
        intro hp
        exact hc (.inr (List.cons_prefix_cons.mp hp).1.symm)
      exact .plain (fun he => absurd (.inl he) hc) hquote ih

theorem literalOf_quoted (s : String) : quotation.LiteralOf s.toList (quoted s).toList :=
  ⟨by decide, _, toList_quoted s, encodes_escaped _⟩

theorem quoted_append_inj {s t : String} {rest rest' : List Char} (hr : Breaks rest)
    (hr' : Breaks rest') (h : (quoted s).toList ++ rest = (quoted t).toList ++ rest') :
    s = t ∧ rest = rest' := by
  have hn : isNameChar '\n' = false := by decide
  obtain ⟨-, hls, hts⟩ := (literalOf_quoted s).reads hn hr
  obtain ⟨-, hlt, htt⟩ := (literalOf_quoted t).reads hn hr'
  have hlength : (quoted s).toList.length = (quoted t).toList.length := by
    rw [h, hlt] at hls
    exact (Option.some.inj hls).symm
  refine ⟨?_, List.append_inj_right h hlength⟩
  rw [h, hlength, htt, String.ofList_toList, String.ofList_toList] at hts
  exact hts.symm

end WidgetJsx.Style
