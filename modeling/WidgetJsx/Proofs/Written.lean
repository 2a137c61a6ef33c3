import WidgetJsx.Proofs.Recognition

/-! The ways to write a text as a string literal: in one quote or in three, with escapes or raw. Each is
read back to the text, up to the closing quotes and no further. -/

namespace WidgetJsx.Expression

open Text (Cursor)

/-- `Escaped q text content`: in `content` the backslashes and the quotes `q` of the text stand behind a
backslash. Any other character may. -/
inductive Escaped (q : Char) : List Char → List Char → Prop
  | nil : Escaped q [] []
  | plain {c : Char} {text content : List Char} : c ≠ '\\' → c ≠ q → Escaped q text content →
      Escaped q (c :: text) (c :: content)
  | escaped {c : Char} {text content : List Char} : Escaped q text content →
      Escaped q (c :: text) ('\\' :: c :: content)

/-- `Written d text rest literal`: the literal is the text, written as `d` says, in front of `rest`. Two
quotes of an empty text must not meet a third. -/
inductive Written : Delimiter → List Char → List Char → List Char → Prop
  | plain {q : Char} {text content rest : List Char} : Escaped q text content →
      (text = [] → rest.head? ≠ some q) → Written ⟨q, false, false⟩ text rest (q :: (content ++ [q]))
  | triple {q : Char} {text content rest : List Char} : Escaped q text content →
      Written ⟨q, true, false⟩ text rest ([q, q, q] ++ content ++ [q, q, q])
  | raw {q : Char} {text rest : List Char} : q ∉ text → (text = [] → rest.head? ≠ some q) →
      Written ⟨q, false, true⟩ text rest ('r' :: q :: (text ++ [q]))
  | rawTriple {q : Char} {text rest : List Char} : ¬ [q, q, q] <:+: text →
      text.getLast? ≠ some q → Written ⟨q, true, true⟩ text rest ('r' :: ([q, q, q] ++ text ++ [q, q, q]))

variable {q : Char} {d : Delimiter} {text content rest literal : List Char}

theorem Escaped.text_eq_nil (h : Escaped q text []) : text = [] := by
  cases h
  rfl

theorem Escaped.encodes (h : Escaped q text content) (triple : Bool) :
    Delimiter.Encodes ⟨q, triple, false⟩ content text := by
  induction h with
  | nil => exact .nil
  | plain hb hc _ ih =>
    apply Delimiter.Encodes.plain (fun he => absurd he hb) _ ih
    rw [Delimiter.closer_eq, List.cons_prefix_cons]
    exact fun hp => hc hp.1.symm
  | escaped _ ih => exact .escaped rfl ih

theorem encodes_raw (h : q ∉ text) : Delimiter.Encodes ⟨q, false, true⟩ text text := by
  induction text with
  | nil => exact .nil
  | cons c text ih =>
    obtain ⟨hc, ht⟩ := not_or.mp (mt List.mem_cons.mpr h)
    apply Delimiter.Encodes.plain (fun _ => rfl) _ (ih ht)
    rw [Delimiter.closer_eq, List.cons_prefix_cons]
    exact fun hp => hc hp.1

/-- Three quotes at the start of a text that goes on are quotes of the text, unless it ends in one. -/
theorem not_quotes_in_front (h : ¬ [q, q, q] <:+: text) (hlast : text.getLast? ≠ some q)
    (hne : text ≠ []) (more : List Char) : ¬ [q, q, q] <+: text ++ more := by
  intro hp
  match text with
  | [] => exact hne rfl
  | [a] =>
    have ha := (List.cons_prefix_cons.mp hp).1
    exact hlast (by rw [ha]; rfl)
  | [a, b] =>
    have hb := (List.cons_prefix_cons.mp (List.cons_prefix_cons.mp hp).2).1
    exact hlast (by rw [hb]; rfl)
  | a :: b :: c :: text =>
    have hl : [q, q, q] <+: [a, b, c] ++ (text ++ more) := hp
    have hq : [q, q, q] <+: [a, b, c] :=
      List.prefix_of_prefix_length_le hl (List.prefix_append _ _) (Nat.le_refl 3)
    exact h ((hq.trans (List.prefix_append _ text)).isInfix)

theorem encodes_rawTriple (h : ¬ [q, q, q] <:+: text) (hlast : text.getLast? ≠ some q) :
    Delimiter.Encodes ⟨q, true, true⟩ text text := by
  induction text with
  | nil => exact .nil
  | cons c text ih =>
    have ht : ¬ [q, q, q] <:+: text := fun hi => h (hi.trans (List.suffix_cons c text).isInfix)
    have hl : text.getLast? ≠ some q := by
      intro hl
      apply hlast
      rw [List.getLast?_cons, hl]
      rfl
    exact .plain (fun _ => rfl) (not_quotes_in_front h hlast (List.cons_ne_nil _ _) _) (ih ht hl)

theorem Written.encodes (h : Written d text rest literal) :
    ∃ content, literal = d.opener ++ content ++ d.closer ∧ d.Encodes content text ∧
      d.Apart content rest := by
  cases h with
  | plain he hr =>
    refine ⟨_, ?_, he.encodes false, fun _ hc => hr (Escaped.text_eq_nil (hc ▸ he))⟩
    simp [Delimiter.opener_eq, Delimiter.closer_eq]
  | triple he =>
    refine ⟨_, ?_, he.encodes true, fun ht => nomatch ht⟩
    simp [Delimiter.opener_eq, Delimiter.closer_eq]
  | raw hq hr =>
    refine ⟨text, ?_, encodes_raw hq, fun _ => hr⟩
    simp [Delimiter.opener_eq, Delimiter.closer_eq]
  | rawTriple hq hl =>
    refine ⟨text, ?_, encodes_rawTriple hq hl, fun ht => nomatch ht⟩
    simp [Delimiter.opener_eq, Delimiter.closer_eq]

/-- A literal in front of `rest` starts a string, is measured to its last quote, and stands for its
text. The `r` of a raw one must not end a name. -/
theorem Written.decoded (h : Written d text rest literal) (hq : isQuote d.quote = true)
    (behind : List Char) (hr : d.raw = true → isNameChar (behind.headD '\n') = false) :
    startsString (behind.headD '\n') (literal ++ rest) = true ∧
      stringLength? (literal ++ rest) = some literal.length ∧
      stringText literal.length (literal ++ rest) = String.ofList text ∧
      readForm ⟨behind, literal ++ rest⟩ = .ok (.string (String.ofList text), literal.length) := by
  obtain ⟨content, rfl, he, ha⟩ := h.encodes
  have hs := startsString_opener hq hr (content ++ (d.closer ++ rest))
  have hl := stringLength?_eq hq he ha
  have ht := stringText_eq hq he ha
  rw [← List.append_assoc, ← List.append_assoc] at hs hl ht
  rw [← List.length_append, ← List.length_append] at hl ht
  refine ⟨hs, hl, ht, ?_⟩
  simp only [readForm, Cursor.previous, hs, if_true, hl, ht]
  rfl

theorem readForm_quotes_inside :
    Written ⟨'"', true, true⟩ "a\"\"b".toList ['"'] "r\"\"\"a\"\"b\"\"\"".toList ∧
      readForm ⟨['('], "r\"\"\"a\"\"b\"\"\"".toList ++ ['"']⟩ =
        .ok (.string (String.ofList "a\"\"b".toList), 11) := by
  have hw : Written ⟨'"', true, true⟩ "a\"\"b".toList ['"'] "r\"\"\"a\"\"b\"\"\"".toList :=
    .rawTriple (by decide) (by decide)
  exact ⟨hw, (hw.decoded (by decide) ['('] (by decide)).2.2.2⟩

end WidgetJsx.Expression
