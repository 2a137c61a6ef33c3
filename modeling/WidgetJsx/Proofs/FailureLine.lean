import WidgetJsx.Proofs.Display
import WidgetJsx.Proofs.NumberText
import WidgetJsx.Proofs.Threshold

/-! The output where no conversion is made. It is a comment of one line, whatever the source holds: besides
numbers and fixed words, it shows only dotted paths, and white space ends a path. -/

namespace WidgetJsx

open Expression Text

/-- The characters that end a line, and with it a comment. -/
def Text.isLineEnd (c : Char) : Bool :=
  c == '\n' || c == '\r' || c == '\u2028' || c == '\u2029'

def Text.OneLine (s : String) : Prop := ∀ c ∈ s.toList, isLineEnd c = false

instance (s : String) : Decidable (OneLine s) :=
  decidable_of_iff (s.toList.all (!isLineEnd ·) = true) (by simp [OneLine])

section

variable {c : Char} {s t : String}

theorem Text.isLineEnd_iff : isLineEnd c = true ↔ c = '\n' ∨ c = '\r' ∨ c = '\u2028' ∨ c = '\u2029' := by
  simp [isLineEnd, or_assoc]

theorem Text.isBlank_of_isLineEnd (h : isLineEnd c = true) : isBlank c = true := by
  rcases isLineEnd_iff.mp h with rfl | rfl | rfl | rfl <;> decide

theorem Text.isLineEnd_eq_false_of_isNameChar (h : isNameChar c = true) : isLineEnd c = false := by
  rw [Bool.eq_false_iff]
  intro he
  rw [isNameChar_eq_false_of_isBlank (isBlank_of_isLineEnd he)] at h
  cases h

theorem Text.OneLine.append (hs : OneLine s) (ht : OneLine t) : OneLine (s ++ t) := by
  rw [OneLine, String.toList_append, List.forall_mem_append]
  exact ⟨hs, ht⟩

theorem Text.oneLine_toString (n : Nat) : OneLine (toString n) := by
  intro c hc
  rw [Nat.toString_eq_repr, Nat.toList_repr] at hc
  have hdigit := Binary64.Layout.isDigit_of_mem_toDigits c hc
  exact isLineEnd_eq_false_of_isNameChar (isNameChar_of_isHexDigit (isHexDigit_of_isDigit hdigit))

theorem Expression.PathOf.oneLine {names : List (List Char)} (h : PathOf names s.toList) : OneLine s := by
  intro c hc
  rcases h.isNameChar_or_dot c hc with hn | rfl
  · exact isLineEnd_eq_false_of_isNameChar hn
  · decide

end

theorem Expression.Cause.oneLine_message {cause : Cause} (h : cause.OfText ∨ cause.Bounding) :
    OneLine cause.message := by
  have quoted {name : String} {before after : String} (hn : ∃ names, PathOf names name.toList)
      (hb : OneLine before) (ha : OneLine after) : OneLine (before ++ name ++ after) := by
    obtain ⟨names, hpath⟩ := hn
    exact (hb.append hpath.oneLine).append ha
  cases cause with
  | openingExpected name =>
    exact quoted (h.resolve_right id) (by decide +kernel) (by decide +kernel)
  | unclosedCall name => exact quoted (h.resolve_right id) (by decide +kernel) (by decide +kernel)
  | notWidget name => exact quoted (h.resolve_right id) (by decide +kernel) (by decide +kernel)
  | callExpected | unclosedList | unclosedString | trailingText => decide +kernel
  | tooLong bytes limit =>
    have hbytes : OneLine ("input is " ++ toString bytes) := .append (by decide) (oneLine_toString bytes)
    exact (hbytes.append (by decide +kernel)).append (oneLine_toString limit)
  | tooDeep levels =>
    exact (OneLine.append (by decide +kernel) (oneLine_toString levels)).append (by decide +kernel)

theorem Expression.Fault.oneLine_message {fault : Fault} (h : OneLine fault.cause.message) :
    OneLine fault.message := by
  have hline : OneLine ("dart parse error at " ++ toString fault.position.line) :=
    .append (by decide +kernel) (oneLine_toString _)
  have hplace := (hline.append (by decide : OneLine ":")).append (oneLine_toString fault.position.column)
  exact (hplace.append (by decide : OneLine ": ")).append h

theorem Element.exists_markup_framed (e : Element) (unit : Nat) :
    ∃ inner, e.markup unit 0 = "<" ++ inner ++ "\n" := by
  have hindent : indent unit 0 = "" := by rw [indent, Nat.zero_mul]; rfl
  by_cases hc : e.children = []
  · by_cases ht : e.shownText = ""
    · refine ⟨e.component.name ++ styleText e.style ++ " />", ?_⟩
      rw [markup_empty unit 0 hc ht, hindent, opening]
      simp [String.append_assoc]
    · refine ⟨e.component.name ++ styleText e.style ++ ">" ++ e.shownText ++ closing e.component, ?_⟩
      rw [markup_text unit 0 hc ht, hindent, opening]
      simp [String.append_assoc]
  · refine ⟨e.component.name ++ styleText e.style ++ ">\n" ++
      String.join (e.children.map (markup unit 1)) ++ closing e.component, ?_⟩
    rw [markup_children unit 0 hc, hindent, opening]
    simp [String.append_assoc]

theorem Expression.Fault.exists_message_eq (fault : Fault) : ∃ rest,
    "// Error during conversion: " ++ fault.message =
      "// Error during conversion: dart parse error at " ++ rest := by
  have hlead : "// Error during conversion: dart parse error at " =
      "// Error during conversion: " ++ "dart parse error at " := by decide +kernel
  have hmessage : fault.message = "dart parse error at " ++ toString fault.position.line ++ ":" ++
    toString fault.position.column ++ ": " ++ fault.cause.message := rfl
  refine ⟨toString fault.position.line ++ ":" ++ toString fault.position.column ++ ": " ++
    fault.cause.message, ?_⟩
  rw [hlead, hmessage]
  simp only [String.append_assoc]

/-- Every source text is converted to the markup of the tree that it is read as, or to a comment of one
line, which nothing in the source can end before its last character. -/
theorem convert_confined (source : String) :
    (∃ root inner, Widget.read .standard source = .ok root ∧
      convert source = (Element.ofWidget root).markup Element.standardUnit 0 ∧
        convert source = "<" ++ inner ++ "\n") ∨
      ∃ fault line, Widget.read .standard source = .error fault ∧ convert source = line ++ "\n" ∧
        OneLine line ∧ ∃ rest, line = "// Error during conversion: dart parse error at " ++ rest := by
  rw [convert, Conversion.read_eq]
  cases h : Widget.read .standard source with
  | ok root =>
    obtain ⟨inner, hinner⟩ := Element.exists_markup_framed (.ofWidget root) Element.standardUnit
    exact .inl ⟨root, inner, rfl, rfl, hinner⟩
  | error fault =>
    have hcause : fault.cause.OfText ∨ fault.cause.Bounding := by
      rcases Widget.cause_of_read h with ht | hd | hl
      · exact .inl ht
      · exact .inr (by rw [hd]; trivial)
      · exact .inr (by rw [hl]; trivial)
    have hmessage := fault.oneLine_message (Cause.oneLine_message hcause)
    exact .inr ⟨fault, "// Error during conversion: " ++ fault.message, rfl, rfl,
      OneLine.append (by decide +kernel) hmessage, fault.exists_message_eq⟩

set_option maxRecDepth 4000 in
example : Widget.read .standard "Te\u2028xt('a')" = .error ⟨⟨1, 4⟩, .openingExpected "Te"⟩ := by cbv

end WidgetJsx
