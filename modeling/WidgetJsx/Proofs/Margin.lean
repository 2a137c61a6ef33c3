import WidgetJsx.Proofs.Literal
import WidgetJsx.Proofs.Keyword
import WidgetJsx.Proofs.Number
import WidgetJsx.Proofs.Path
import WidgetJsx.Proofs.Nesting

/-! What the parts of an expression start with, and what may stand behind them. -/

namespace WidgetJsx.Expression

/-- The text starts with something that neither a gap nor a separator nor a colon starts with. -/
def Firm (u : List Char) : Prop := ∃ c cs, u = c :: cs ∧ Text.isBlank c = false ∧ c ∉ [',', '/', ':']

section

variable {u next k : List Char} {c : Char} {names : List (List Char)}

theorem Firm.append (h : Firm u) (rest : List Char) : Firm (u ++ rest) := by
  obtain ⟨c, cs, rfl, hc⟩ := h
  exact ⟨c, cs ++ rest, rfl, hc⟩

theorem Firm.ne_nil (h : Firm u) : u ≠ [] := by
  obtain ⟨c, cs, rfl, -⟩ := h
  exact List.cons_ne_nil c cs

theorem Firm.solid (h : Firm u) : Solid Text.isBlank u := by
  obtain ⟨c, cs, rfl, hb, hc⟩ := h
  exact solid_cons hb (fun he => hc (by simp [he])) cs

theorem Firm.solid_separators (h : Firm u) : Solid (fun c => Text.isBlank c || c == ',') u := by
  obtain ⟨c, cs, rfl, hb, hc⟩ := h
  refine solid_cons ?_ (fun he => hc (by simp [he])) cs
  have hcomma : c ≠ ',' := fun he => hc (by simp [he])
  simp [hb, hcomma]

theorem Firm.head?_ne (h : Firm u) : u.head? ≠ some ':' := by
  obtain ⟨c, cs, rfl, -, hc⟩ := h
  intro he
  obtain rfl : c = ':' := by simpa using he
  exact hc (by simp)

theorem firm_of_isNameChar (h : isNameChar c = true) (cs : List Char) : Firm (c :: cs) := by
  have h₁ : c ≠ ',' := ne_of_isNameChar h
  have h₂ : c ≠ '/' := ne_of_isNameChar h
  have h₃ : c ≠ ':' := ne_of_isNameChar h
  exact ⟨c, cs, rfl, isBlank_eq_false_of_isNameChar h, by simp [h₁, h₂, h₃]⟩

theorem IsName.firm (h : IsName u) : Firm u := by
  cases u with
  | nil => exact absurd h id
  | cons c u => exact firm_of_isNameChar (isNameChar_of_isNameStart h.1) u

theorem PathOf.firm (h : PathOf names u) : Firm u := by
  obtain ⟨name, more, -, hn, he, -⟩ := h.head_append breaks_nil.ends
  rw [List.append_nil] at he
  rw [he]
  exact hn.firm.append more

theorem IsNumber.firm (h : IsNumber u) : Firm u := by
  have hdigit : ∀ {p : Char → Bool} {ds : List Char}, (∀ c, p c = true → isHexDigit c = true) →
      DigitsOf p ds → Firm ds := by
    intro p ds hp hd
    cases ds with
    | nil => exact absurd rfl hd.ne_nil
    | cons d ds => exact firm_of_isNameChar (isNameChar_of_isHexDigit (hp d (hd.all d (by simp)))) ds
  have hsign : ∀ {sign v : List Char}, sign = [] ∨ sign = ['-'] → Firm v → Firm (sign ++ v) := by
    rintro sign v (rfl | rfl) hv
    · exact hv
    · exact ⟨'-', v, rfl, by decide, by decide⟩
  cases h with
  | whole hs hd => exact hsign hs (hdigit (fun _ => isHexDigit_of_isDigit) hd)
  | decimal hs hd he => exact hsign hs ((hdigit (fun _ => isHexDigit_of_isDigit) hd).append _)
  | hex hx hd => exact firm_of_isNameChar (by decide) _

theorem Delimiter.LiteralOf.firm {d : Delimiter} {text : List Char} (h : d.LiteralOf text u) : Firm u := by
  obtain ⟨hq, content, rfl, -⟩ := h
  have hquote : ∀ cs, Firm (d.quote :: cs) := by
    intro cs
    rcases (Bool.or_eq_true _ _).mp hq with hq | hq <;> rw [beq_iff_eq.mp hq] <;>
      exact ⟨_, cs, rfl, by decide, by decide⟩
  rw [Delimiter.opener_eq]
  cases d.raw with
  | true => exact firm_of_isNameChar (by decide) _
  | false => exact hquote _

theorem Keyword.firm (h : Keyword next k) (hn : Firm next) : Firm (k ++ next) := by
  cases h with
  | none => exact hn
  | word hw _ _ =>
    rw [List.append_assoc]
    exact (isName_of_mem_keywords _ hw).firm.append _

end

theorem Gap.previous {filler : Char → Bool} (hf : ∀ c, filler c = true → isNameChar c = false)
    {gap behind : List Char} (h : Gap filler gap) (hb : isNameChar (behind.headD '\n') = false) :
    isNameChar ((gap.reverse ++ behind).headD '\n') = false := by
  induction h generalizing behind with
  | nil => exact hb
  | @fill c cs hc _ ih =>
    rw [List.reverse_cons, List.append_assoc]
    exact ih (hf c hc)
  | @line body cs _ _ ih =>
    have hn : isNameChar '\n' = false := by decide
    simpa using @ih ('\n' :: (body.reverse ++ '/' :: '/' :: behind)) hn
  | @block body cs _ _ ih =>
    have hs : isNameChar '/' = false := by decide
    simpa using @ih ('/' :: '*' :: (body.reverse ++ '*' :: '/' :: behind)) hs

theorem Trivia.previous {gap behind : List Char} (h : Trivia gap)
    (hb : isNameChar (behind.headD '\n') = false) :
    isNameChar ((gap.reverse ++ behind).headD '\n') = false :=
  Gap.previous (fun _ => isNameChar_eq_false_of_isBlank) h hb

theorem Separators.previous {gap behind : List Char} (h : Separators gap)
    (hb : isNameChar (behind.headD '\n') = false) :
    isNameChar ((gap.reverse ++ behind).headD '\n') = false := by
  refine Gap.previous (fun c hc => ?_) h hb
  rcases (Bool.or_eq_true _ _).mp hc with hc | hc
  · exact isNameChar_eq_false_of_isBlank hc
  · rw [beq_iff_eq.mp hc]
    decide

/-- A gap, and then a comma, a closing bracket or the end. -/
def Follows (rest : List Char) : Prop :=
  ∃ gap more, rest = gap ++ more ∧ Trivia gap ∧ ∀ c ∈ more.head?, c = ',' ∨ isCloser c = true

/-- A closing bracket or the end. -/
def Shut (rest : List Char) : Prop := ∀ c ∈ rest.head?, isCloser c = true

section

variable {rest : List Char} {c k : Char}

theorem shut_nil : Shut [] := by simp [Shut]

theorem shut_cons (hk : closerOf? c = some k) (cs : List Char) : Shut (k :: cs) := by
  intro d hd
  obtain rfl : k = d := by simpa using hd
  exact (isCloser_of_closerOf? hk).1

theorem breaks_of_separator (h : ∀ c ∈ rest.head?, c = ',' ∨ isCloser c = true) : Breaks rest := by
  intro c hc
  rcases h c hc with rfl | hc
  · decide
  · rcases isCloser_cases hc with rfl | rfl | rfl <;> decide

theorem solid_of_separator (h : ∀ c ∈ rest.head?, c = ',' ∨ isCloser c = true) :
    Solid Text.isBlank rest := by
  cases rest with
  | nil => exact solid_nil
  | cons c rest =>
    have hc : Text.isBlank c = false ∧ c ≠ '/' := by
      rcases h c rfl with rfl | hc
      · decide
      · rcases isCloser_cases hc with rfl | rfl | rfl <;> decide
    exact solid_cons hc.1 hc.2 rest

theorem Follows.breaks (h : Follows rest) : Breaks rest := by
  obtain ⟨gap, more, rfl, hg, hm⟩ := h
  exact hg.breaks (breaks_of_separator hm)

theorem Shut.solid (h : Shut rest) : Solid Text.isBlank rest :=
  solid_of_separator fun c hc => .inr (h c hc)

theorem Shut.solid_separators (h : Shut rest) : Solid (fun c => Text.isBlank c || c == ',') rest := by
  cases rest with
  | nil => exact solid_nil
  | cons c rest =>
    rcases isCloser_cases (h c rfl) with rfl | rfl | rfl <;> exact solid_cons (by decide) (by decide) _

end

/-- Words that do not start a path. -/
def reserved : List String := ["const", "new", "true", "false"]

def Unreserved (names : List (List Char)) : Prop :=
  ∀ word ∈ reserved, names.head? ≠ some word.toList

theorem mem_reserved_of_mem_keywords {word : String} (h : word ∈ keywords) : word ∈ reserved := by
  rcases mem_keywords h with rfl | rfl <;> decide

theorem not_mem_reserved {name : String} (h : Widget.isWidgetName name = true) :
    name ∉ reserved := by
  have hr : ∀ word ∈ reserved, Widget.isWidgetName word = false := by decide
  intro hm
  simp [hr name hm] at h

theorem PathOf.keywordLength_eq {names : List (List Char)} {path rest : List Char}
    (hp : PathOf names path) (h : ∀ word ∈ keywords, names.head? ≠ some word.toList)
    (hr : Ends rest) : keywordLength (path ++ rest) = 0 := by
  obtain ⟨name, more, hhead, hname, he, hm⟩ := hp.head_append hr
  rw [he]
  refine hname.keywordLength_eq_zero hm fun word hw hn => h word hw ?_
  rw [hhead, hn]

theorem Unreserved.keywordLength_eq {names : List (List Char)} {path rest : List Char}
    (h : Unreserved names) (hp : PathOf names path) (hr : Ends rest) :
    keywordLength (path ++ rest) = 0 :=
  hp.keywordLength_eq (fun word hw => h word (mem_reserved_of_mem_keywords hw)) hr

end WidgetJsx.Expression
