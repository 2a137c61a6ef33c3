import WidgetJsx.Proofs.Name

/-! Words that are not part of longer ones, and the keywords that may stand in front of a
constructor. -/

namespace WidgetJsx.Expression

theorem startsWithWord_iff {word : String} {cs : List Char} :
    startsWithWord word cs = true ↔ ∃ rest, cs = word.toList ++ rest ∧ Ends rest := by
  simp only [startsWithWord, Bool.and_eq_true, List.isPrefixOf_iff_prefix, Bool.not_eq_true']
  constructor
  · rintro ⟨⟨rest, rfl⟩, he⟩
    refine ⟨rest, rfl, fun c hc => ?_⟩
    rw [← String.length_toList, List.drop_left, hc] at he
    simpa using he
  · rintro ⟨rest, rfl, he⟩
    refine ⟨⟨rest, rfl⟩, ?_⟩
    rw [← String.length_toList, List.drop_left]
    cases hr : rest.head? with
    | none => rfl
    | some c => simpa using he c hr

theorem IsName.startsWithWord_iff {u rest : List Char} (h : IsName u) (hr : Ends rest)
    {word : String} (hw : IsName word.toList) :
    startsWithWord word (u ++ rest) = true ↔ u = word.toList := by
  rw [Expression.startsWithWord_iff]
  constructor
  · rintro ⟨more, he, hm⟩
    have := congrArg (List.takeWhile Expression.isNameChar) he
    rwa [takeWhile_append_eq h.isNameChar hr, takeWhile_append_eq hw.isNameChar hm] at this
  · rintro rfl
    exact ⟨rest, rfl, hr⟩

def keywords : List String := ["const", "new"]

theorem isName_of_mem_keywords : ∀ word ∈ keywords, IsName word.toList := by decide

/-- What may stand in front of `next`: nothing, or a keyword that does not run into it. -/
inductive Keyword (next : List Char) : List Char → Prop
  | none : Keyword next []
  | word {word : String} {gap : List Char} : word ∈ keywords → Trivia gap → Ends (gap ++ next) →
      Keyword next (word.toList ++ gap)

/-- Only the first character behind a keyword could make a longer word of it. -/
theorem Keyword.congr {next next' k : List Char} (h : Keyword next k) (hh : next'.head? = next.head?) :
    Keyword next' k := by
  cases h with
  | none => exact .none
  | @word word gap hw hg he =>
    refine .word hw hg fun c hc => he c ?_
    cases gap with
    | cons d gap => exact hc
    | nil => rwa [List.nil_append, hh] at hc

theorem Keyword.append {next k : List Char} (h : Keyword next k) (hne : next ≠ []) (rest : List Char) :
    Keyword (next ++ rest) k := by
  obtain ⟨c, cs, rfl⟩ := List.exists_cons_of_ne_nil hne
  exact h.congr rfl

theorem keyword_split (cs : List Char) : keywordLength cs = 0 ∨
    ∃ word ∈ keywords, ∃ rest, cs = word.toList ++ rest ∧ Ends rest ∧
      keywordLength cs = word.toList.length + triviaLength rest := by
  by_cases hc : startsWithWord "const" cs = true
  · obtain ⟨rest, rfl, hr⟩ := startsWithWord_iff.mp hc
    exact .inr ⟨"const", by decide, rest, rfl, hr, by simp only [keywordLength, hc]; rfl⟩
  · by_cases hn : startsWithWord "new" cs = true
    · obtain ⟨rest, rfl, hr⟩ := startsWithWord_iff.mp hn
      exact .inr ⟨"new", by decide, rest, rfl, hr, by simp only [keywordLength, hc, hn]; rfl⟩
    · exact .inl (by simp [keywordLength, hc, hn])

theorem keyword_prefix (cs : List Char) : ∃ k next, cs = k ++ next ∧ keywordLength cs = k.length ∧
    (next ≠ [] → Keyword next k) := by
  rcases keyword_split cs with hz | ⟨word, hw, rest, rfl, he, hl⟩
  · exact ⟨[], cs, rfl, hz, fun _ => .none⟩
  · obtain ⟨gap, next, rfl, ht, -, hg⟩ := gap_split Text.isBlank rest
    refine ⟨word.toList ++ gap, next, by rw [List.append_assoc], ?_, fun hne => .word hw (hg hne) he⟩
    rw [hl, List.length_append, triviaLength, ht]

theorem keywordLength_eq_zero {cs : List Char}
    (h : ∀ word ∈ keywords, startsWithWord word cs = false) : keywordLength cs = 0 := by
  simp [keywordLength, h "const" (by decide), h "new" (by decide)]

theorem IsName.keywordLength_eq_zero {u rest : List Char} (h : IsName u) (hr : Ends rest)
    (hu : ∀ word ∈ keywords, u ≠ word.toList) : keywordLength (u ++ rest) = 0 := by
  apply Expression.keywordLength_eq_zero
  intro word hw
  apply Bool.eq_false_iff.mpr
  intro hs
  exact hu word hw ((h.startsWithWord_iff hr (isName_of_mem_keywords word hw)).mp hs)

theorem mem_keywords {word : String} (h : word ∈ keywords) : word = "const" ∨ word = "new" := by
  simpa [keywords] using h

theorem keywordLength_cons {c : Char} (hc : isNameChar c = false) (cs : List Char) :
    keywordLength (c :: cs) = 0 := by
  apply keywordLength_eq_zero
  intro word hw
  apply Bool.eq_false_iff.mpr
  intro hs
  obtain ⟨rest, he, -⟩ := startsWithWord_iff.mp hs
  rcases mem_keywords hw with rfl | rfl
  · obtain rfl : c = 'c' := (List.cons.inj he).1
    exact absurd hc (by decide)
  · obtain rfl : c = 'n' := (List.cons.inj he).1
    exact absurd hc (by decide)

theorem Keyword.keywordLength_eq {k next : List Char} (h : Keyword next k)
    (hs : Solid Text.isBlank next) (hn : keywordLength next = 0) :
    keywordLength (k ++ next) = k.length := by
  cases h with
  | none => exact hn
  | @word word gap hw hg he =>
    have hg := hg.gapLength_eq (by decide) hs
    have hstart : startsWithWord word (word.toList ++ gap ++ next) = true :=
      startsWithWord_iff.mpr ⟨gap ++ next, by rw [List.append_assoc], he⟩
    rcases mem_keywords hw with rfl | rfl
    · rw [keywordLength, if_pos hstart, List.append_assoc, triviaLength]
      exact congrArg (5 + ·) hg |>.trans (by rw [List.length_append]; rfl)
    · have hc : startsWithWord "const" ("new".toList ++ gap ++ next) = false := rfl
      rw [keywordLength, if_neg (Bool.eq_false_iff.mp hc), if_pos hstart, List.append_assoc, triviaLength]
      exact congrArg (3 + ·) hg |>.trans (by rw [List.length_append]; rfl)

end WidgetJsx.Expression
