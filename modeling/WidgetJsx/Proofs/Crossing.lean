import WidgetJsx.Proofs.Passage

/-! Texts that the matching scan crosses as a whole, whatever brackets are open around them. Texts that
are crossed one behind the other are crossed together, and a bracket is matched with the one behind a
text that is crossed. -/

namespace WidgetJsx.Expression

open Text (Cursor)

/-- Between `behind` and `rest`, a scan comes to the end of `u` with no other brackets open. -/
def Crosses (behind u rest : List Char) : Prop :=
  ∀ awaited ≠ [], Scans matchStep awaited ⟨behind, u ++ rest⟩ u.length awaited

variable {behind u v rest : List Char} {c k : Char}

theorem crosses_nil (behind rest : List Char) : Crosses behind [] rest :=
  fun _ _ => .here _ _

theorem Crosses.append (hu : Crosses behind u (v ++ rest)) (hv : Crosses (u.reverse ++ behind) v rest) :
    Crosses behind (u ++ v) rest := by
  intro awaited hne
  have hs := hu awaited hne
  have ht := hv awaited hne
  rw [← Cursor.forward_append behind u (v ++ rest)] at ht
  rw [List.append_assoc, List.length_append]
  exact hs.trans ht

theorem Crosses.cons (hc : Crosses behind [c] (u ++ rest)) (hu : Crosses (c :: behind) u rest) :
    Crosses behind (c :: u) rest :=
  hc.append hu

theorem Mark.crosses (h : Mark c) (behind rest : List Char) : Crosses behind [c] rest :=
  fun awaited _ => h.scans rfl awaited

theorem crosses_word (hu : ∀ d ∈ u, isNameChar d = true ∨ d = '.') (hr : Breaks rest)
    (behind : List Char) : Crosses behind u rest :=
  fun awaited _ => scans_word hu (hr.clear u) behind awaited

theorem IsName.crosses (h : IsName u) (hr : Breaks rest) (behind : List Char) :
    Crosses behind u rest :=
  crosses_word (fun d hd => .inl (h.isNameChar d hd)) hr behind

theorem IsNumber.crosses (h : IsNumber u) (behind rest : List Char) : Crosses behind u rest :=
  fun awaited _ => h.scans behind rest awaited

theorem Trivia.crosses (h : Trivia u) (hr : Solid Text.isBlank rest) (behind : List Char) :
    Crosses behind u rest := by
  intro awaited _
  have hl : triviaLength (u ++ rest) = u.length := h.gapLength_eq (by decide) hr
  have hs := scans_trivia ⟨behind, u ++ rest⟩ awaited
  rwa [hl] at hs

theorem Separators.crosses (h : Separators u) (hr : Solid (fun c => Text.isBlank c || c == ',') rest)
    (behind : List Char) : Crosses behind u rest := by
  intro awaited _
  have hl : separatorsLength (u ++ rest) = u.length := h.gapLength_eq (by decide) hr
  have hs := scans_separators ⟨behind, u ++ rest⟩ awaited
  rwa [hl] at hs

theorem Keyword.crosses {next : List Char} (h : Keyword next u) (hs : Solid Text.isBlank next)
    (hn : keywordLength next = 0) (behind : List Char) : Crosses behind u next := by
  intro awaited _
  have hk := scans_keyword ⟨behind, u ++ next⟩ awaited
  rwa [h.keywordLength_eq hs hn] at hk

theorem Delimiter.LiteralOf.reads {d : Delimiter} {text : List Char} (h : d.LiteralOf text u)
    {previous : Char} (hp : isNameChar previous = false) (hr : Breaks rest) :
    startsString previous (u ++ rest) = true ∧ stringLength? (u ++ rest) = some u.length ∧
      stringText u.length (u ++ rest) = String.ofList text := by
  obtain ⟨hq, content, rfl, he⟩ := h
  have ha : d.Apart content rest := by
    intro _ _ hq'
    have := (hr d.quote hq').2.2
    simp [hq] at this
  have hl : (d.opener ++ content ++ d.closer).length =
      d.opener.length + content.length + d.closer.length := by
    simp only [List.length_append]
  rw [hl, List.append_assoc, List.append_assoc]
  exact ⟨startsString_opener hq (fun _ => hp) _, stringLength?_eq hq he ha, stringText_eq hq he ha⟩

theorem Delimiter.LiteralOf.crosses {d : Delimiter} {text : List Char} (h : d.LiteralOf text u)
    (hp : isNameChar (behind.headD '\n') = false) (hr : Breaks rest) : Crosses behind u rest := by
  intro awaited _
  obtain ⟨hs, hl, -⟩ := h.reads hp hr
  exact scans_string (s := ⟨behind, u ++ rest⟩) hs hl awaited

section

variable (hk : closerOf? c = some k)
include hk

theorem Crosses.closing? (h : Crosses (c :: behind) u (k :: rest)) (previous : Char) :
    Expression.closing? previous (c :: (u ++ k :: rest)) = some (u.length + 1) := by
  have hs := h [k] (by simp)
  have ha : ((Cursor.mk behind (c :: (u ++ k :: rest))).forward (1 + u.length)).ahead = k :: rest := by
    rw [Cursor.forward_ahead, Nat.add_comm, List.drop_succ_cons, List.drop_left]
  have hc := closing?_eq_of_scans (s := ⟨behind, c :: (u ++ k :: rest)⟩) rfl hk hs ha
  rw [closing?_previous hk previous, Nat.add_comm]
  exact hc

theorem Crosses.brackets (h : Crosses (c :: behind) u (k :: rest)) :
    Crosses behind (c :: (u ++ [k])) rest := by
  intro awaited hne
  have hc := h.closing? hk (behind.headD '\n')
  have hs := scans_brackets (s := ⟨behind, c :: (u ++ k :: rest)⟩) rfl hk hc hne
  simpa using hs

/-- What brackets enclose in one text they enclose in any other. -/
theorem crosses_of_closing? {previous : Char}
    (h : Expression.closing? previous (c :: (u ++ [k])) = some (u.length + 1))
    (behind rest : List Char) : Crosses (c :: behind) u (k :: rest) := by
  intro awaited hne
  rw [closing?_previous hk previous (behind.headD '\n')] at h
  obtain ⟨-, -, hs⟩ := scans_of_closing? (s := ⟨behind, c :: (u ++ [k])⟩) rfl hk h
  exact (hs awaited hne).congr (Nat.le_refl _)
    (.inr ⟨k, [], rest, (isCloser_of_closerOf? hk).1, rfl, rfl⟩)

end

end WidgetJsx.Expression
