import Mathlib
import WidgetJsx.Proofs.Display
import WidgetJsx.Proofs.KeptText
import WidgetJsx.Proofs.Lowered

/-! White space at the ends of a source text. Without it the same is read, and what is not read fails of the
same cause: in front it is passed like any other gap, and behind it lengthens a gap at most, since every
reader halts at a character that is not white space. -/

namespace WidgetJsx

open Expression Text

/-- An outcome without the place of its fault. -/
def told {α : Type} (x : Except Fault α) : Except Cause α := x.mapError Fault.cause

section

variable {α α' β : Type}

theorem told_bind {x : Except Fault α} {x' : Except Fault α'} {f : α → Except Fault β}
    {f' : α' → Except Fault β} {g : α → α'} (hx : told x' = (told x).map g)
    (hf : ∀ a, x = .ok a → told (f' (g a)) = told (f a)) : told (x' >>= f') = told (x >>= f) := by
  cases x with
  | ok a =>
    cases x' with
    | ok a' =>
      cases hx
      exact hf a rfl
    | error fault' => cases hx
  | error fault =>
    cases x' with
    | ok a' => cases hx
    | error fault' =>
      have hcause : fault'.cause = fault.cause := Except.error.inj hx
      exact congrArg Except.error hcause

theorem told_shifted (earlier : List Char) (g : α → β) (x : Except Fault α) :
    told (shifted earlier g x) = (told x).map g := by
  cases x <;> rfl

/-- Such outcomes are equal just when both are the same result, or faults of the same cause. -/
theorem told_eq_iff {x y : Except Fault α} : told x = told y ↔
    (∃ a, x = .ok a ∧ y = .ok a) ∨
      ∃ cause p q, x = .error ⟨p, cause⟩ ∧ y = .error ⟨q, cause⟩ := by
  constructor
  · intro h
    cases x with
    | ok a =>
      cases y with
      | ok b =>
        cases h
        exact .inl ⟨a, rfl, rfl⟩
      | error fault => cases h
    | error fault =>
      obtain ⟨p, cause⟩ := fault
      cases y with
      | ok b => cases h
      | error fault' =>
        obtain ⟨q, cause'⟩ := fault'
        cases h
        exact .inr ⟨cause, p, q, rfl, rfl⟩
  · rintro (⟨a, rfl, rfl⟩ | ⟨cause, p, q, rfl, rfl⟩) <;> rfl

end

/-- The same cursor, with more text at the end of its source. -/
def Text.Cursor.before (later : List Char) (s : Cursor) : Cursor := { s with ahead := s.ahead ++ later }

theorem Text.Cursor.before_forward {later : List Char} {n : Nat} {s : Cursor} (h : n ≤ s.ahead.length) :
    (s.before later).forward n = (s.forward n).before later := by
  ext1
  · simp [before, List.take_append_of_le_length h]
  · simp [before, List.drop_append_of_le_length h]

namespace Expression

variable {f : Char → Bool} {later : List Char}

/-- White space behind a text is left alone by its gap, or the text is a gap and with the white space it is
a longer one. -/
theorem gapLength_append_blanks (hf : Filler f) (hl : ∀ d ∈ later, isBlank d = true) (cs : List Char) :
    gapLength f cs < cs.length ∧ gapLength f (cs ++ later) = gapLength f cs ∨
      gapLength f cs = cs.length ∧ gapLength f (cs ++ later) = (cs ++ later).length := by
  obtain ⟨u, rest, rfl, hu, hsolid, hgap⟩ := gap_split f cs
  cases rest with
  | cons c rest =>
    left
    rw [hu, List.append_assoc]
    exact ⟨by simp, (hgap (List.cons_ne_nil c rest)).gapLength_eq hf.slash (hsolid.append_blanks hl)⟩
  | nil =>
    rw [List.append_nil] at hu ⊢
    refine .inr ⟨hu, ?_⟩
    obtain ⟨v, rest, he, hv, hsolid, -⟩ := gap_split f (u ++ later)
    cases rest with
    | nil => rw [hv, he, List.append_nil]
    | cons c rest =>
      -- the gap would end in front of a character of the text, and it is all of the text
      exfalso
      have hc : c ∉ later := by
        intro hm
        have hfill := hf.blank c (hl c hm)
        rw [(solid_cons_iff.mp hsolid).1] at hfill
        cases hfill
      have hlt : v.length < u.length := by
        by_contra hge
        have hdrop := congrArg (List.drop u.length) he
        rw [List.drop_left, List.drop_append_of_le_length (by omega)] at hdrop
        exact hc (hdrop ▸ by simp)
      have hcut := @gapLength_of_append f u later (by omega)
      omega

theorem loose_of_blanks (hl : ∀ d ∈ later, isBlank d = true) : Loose later :=
  fun c hc => .inl (hl c (List.mem_of_mem_head? hc))

/-- Two places that correspond: the second has white space behind what lies ahead of the first, or there is
nothing ahead of either. -/
def Padded (later : List Char) (s t : Cursor) : Prop :=
  t = s.before later ∨ s.ahead = [] ∧ t.ahead = []

namespace Padded

variable {s t : Cursor}

theorem of_nil (hs : s.ahead = []) (ht : t.ahead = []) (m n : Nat) :
    Padded later (s.forward m) (t.forward n) :=
  .inr ⟨by rw [Cursor.forward_ahead, hs, List.drop_nil], by rw [Cursor.forward_ahead, ht, List.drop_nil]⟩

/-- Behind their gaps, the places still correspond. -/
theorem gap (h : Padded later s t) (hf : Filler f) (hl : ∀ d ∈ later, isBlank d = true) :
    Padded later (s.forward (gapLength f s.ahead)) (t.forward (gapLength f t.ahead)) := by
  rcases h with rfl | ⟨hs, ht⟩
  · rcases gapLength_append_blanks hf hl s.ahead with ⟨hlt, he⟩ | ⟨hall, hlong⟩
    · refine .inl ?_
      rw [Cursor.before, he]
      exact Cursor.before_forward (Nat.le_of_lt hlt)
    · refine .inr ⟨?_, ?_⟩
      · rw [Cursor.forward_ahead, hall, List.drop_length]
      · rw [Cursor.before, Cursor.forward_ahead, hlong, List.drop_length]
  · exact of_nil hs ht _ _

theorem unworded (h : Padded later s t) (hl : ∀ d ∈ later, isBlank d = true) :
    Padded later (unworded s) (unworded t) := by
  rcases h with rfl | ⟨hs, ht⟩
  · have hword {word : String} (hw : startsWithWord word s.ahead = true) :
        Padded later (s.forward (word.toList.length + triviaLength (s.ahead.drop word.toList.length)))
          ((s.before later).forward (word.toList.length +
            triviaLength ((s.ahead ++ later).drop word.toList.length))) := by
      obtain ⟨rest, hrest, -⟩ := startsWithWord_iff.mp hw
      have hle : word.toList.length ≤ s.ahead.length := by rw [hrest, List.length_append]; omega
      have hstep := gap (.inl (Cursor.before_forward hle)) filler_isBlank hl
      rwa [Cursor.forward_ahead, Cursor.forward_ahead, Cursor.forward_forward,
        Cursor.forward_forward] at hstep
    have hloose := loose_of_blanks hl
    simp only [Expression.unworded, Cursor.before, keywordLength,
      hloose.startsWithWord s.ahead (isName_of_mem_keywords "const" (by decide)),
      hloose.startsWithWord s.ahead (isName_of_mem_keywords "new" (by decide))]
    split
    · exact hword ‹_›
    split
    · exact hword ‹_›
    · exact .inl (by rw [Cursor.forward_zero, Cursor.forward_zero]; rfl)
  · exact of_nil hs ht _ _

/-- The paths ahead are the same, and behind them and their gaps the places still correspond. -/
theorem opening (h : Padded later s t) (hl : ∀ d ∈ later, isBlank d = true) :
    pathLength t.ahead = pathLength s.ahead ∧ t.text (pathLength s.ahead) = s.text (pathLength s.ahead) ∧
      Padded later (opening s) (opening t) := by
  rcases h with rfl | ⟨hs, ht⟩
  · have hpath := (loose_of_blanks hl).pathLength s.ahead
    have hle := pathLength_le s.ahead
    refine ⟨hpath, ?_, ?_⟩
    · rw [Cursor.text, Cursor.text, Cursor.before, List.take_append_of_le_length hle]
    · have hstep := gap (.inl (Cursor.before_forward hle)) filler_isBlank hl
      rw [Cursor.forward_ahead, Cursor.forward_ahead, Cursor.forward_forward,
        Cursor.forward_forward] at hstep
      rw [Expression.opening, Expression.opening, Cursor.before, hpath]
      exact hstep
  · refine ⟨by rw [hs, ht], by rw [Cursor.text, Cursor.text, hs, ht], of_nil hs ht _ _⟩

/-- The same character of an expression stands ahead of both places, or of neither. -/
theorem next?_iff (h : Padded later s t) (hl : ∀ d ∈ later, isBlank d = true) {c : Char}
    (hc : isBlank c = false) : t.next? = some c ↔ s.next? = some c ∧ t = s.before later := by
  rcases h with rfl | ⟨hs, ht⟩
  · rw [and_iff_left rfl, Cursor.next?, Cursor.next?, Cursor.before]
    cases s.ahead with
    | cons d cs => rfl
    | nil =>
      refine ⟨fun h => ?_, fun h => by cases h⟩
      rw [hl c (List.mem_of_mem_head? h)] at hc
      cases hc
  · rw [Cursor.next?, Cursor.next?, hs, ht]
    simp

end Padded

/-- A scan up to a closing bracket does not look at what stands behind that. -/
theorem Scans.before {σ α : Type} {step : σ → Char → Except α σ} {state final : σ} {s : Cursor} {n : Nat}
    {k : Char} {rest : List Char} (h : Scans step state s n final)
    (hr : (s.forward n).ahead = k :: rest) (hk : isCloser k = true) (later : List Char) :
    Scans step state (s.before later) n final := by
  have hle := h.le_length
  obtain ⟨behind, ahead⟩ := s
  have hsplit : ahead = ahead.take n ++ k :: rest := by
    rw [← hr, Cursor.forward_ahead, List.take_append_drop]
  have hbefore : (Cursor.mk behind ahead).before later = ⟨behind, ahead.take n ++ k :: (rest ++ later)⟩ := by
    rw [Cursor.before, Cursor.mk.injEq, ← List.cons_append, ← List.append_assoc, ← hsplit]
    exact ⟨rfl, rfl⟩
  rw [hsplit] at h
  rw [hbefore]
  exact h.congr (by simpa using hle) (.inr ⟨k, rest, rest ++ later, hk, rfl, rfl⟩)

section

variable {s : Cursor} {c k : Char} {cs : List Char}

/-- White space behind a text closes no bracket. -/
theorem closing?_before (ha : s.ahead = c :: cs) (hk : closerOf? c = some k)
    (hl : ∀ d ∈ later, isBlank d = true) :
    closing? (s.before later).previous (s.before later).ahead = closing? s.previous s.ahead := by
  have ha' : (s.before later).ahead = c :: (cs ++ later) := by rw [Cursor.before, ha, List.cons_append]
  have hcloser := (isCloser_of_closerOf? hk).1
  ext n
  constructor
  · intro h
    obtain ⟨-, ⟨rest, hr⟩, -⟩ := scans_of_closing? ha' hk h
    have hlt : n < s.ahead.length := by
      by_contra hge
      rw [Cursor.forward_ahead, Cursor.before, List.drop_append,
        List.drop_eq_nil_of_le (Nat.le_of_not_lt hge), List.nil_append] at hr
      have hblank := hl k (List.mem_of_mem_drop (hr ▸ List.mem_cons_self))
      rcases isCloser_cases hcloser with rfl | rfl | rfl <;> exact absurd hblank (by decide)
    have hcut := closing?_within ha' hk h hlt
    rwa [show (s.before later).within s.ahead.length = s by
      rw [Cursor.within, Cursor.before, List.take_left]] at hcut
  · intro h
    obtain ⟨hn, ⟨rest, hr⟩, hb⟩ := scans_of_closing? ha hk h
    have hlt := Cursor.lt_length_of_forward hr
    have hone : (s.before later).forward 1 = (s.forward 1).before later :=
      Cursor.before_forward (by omega)
    have hscan := (hb [k] (by simp)).before (by rwa [Cursor.forward_forward, Nat.add_sub_cancel' hn])
      hcloser later
    rw [← hone] at hscan
    have hend : ((s.before later).forward (1 + (n - 1))).ahead = k :: (rest ++ later) := by
      rw [Nat.add_sub_cancel' hn, Cursor.before_forward hlt.le, Cursor.before, hr, List.cons_append]
    rw [closing?_eq_of_scans ha' hk hscan hend, Nat.add_sub_cancel' hn]

theorem bracketed_before (cause : Cause) (ha : s.ahead = c :: cs) (hk : closerOf? c = some k)
    (hl : ∀ d ∈ later, isBlank d = true) : bracketed cause (s.before later) = bracketed cause s := by
  unfold bracketed
  rw [closing?_before ha hk hl]
  cases hm : closing? s.previous s.ahead with
  | none => rfl
  | some n =>
    obtain ⟨hn, ⟨rest, hr⟩, -⟩ := scans_of_closing? ha hk hm
    have hlt := Cursor.lt_length_of_forward hr
    have hinside : ((s.before later).forward 1).within (n - 1) = (s.forward 1).within (n - 1) := by
      rw [Cursor.before_forward (by omega), Cursor.before, Cursor.within, Cursor.within,
        List.take_append_of_le_length (by rw [Cursor.forward_ahead, List.length_drop]; omega)]
    simp only [hinside]

end

theorem readCall_before {s : Cursor} (hl : ∀ d ∈ later, isBlank d = true) :
    told (readCall (s.before later)) =
      (told (readCall s)).map fun (call, rest) => (call, rest.before later) := by
  have hstart : Padded later (callStart s) (callStart (s.before later)) :=
    Padded.unworded (Padded.gap (.inl rfl) filler_isBlank hl) hl
  obtain ⟨hpath, htext, hopening⟩ := hstart.opening hl
  rw [readCall_eq, readCall_eq, hpath, htext]
  split
  · rfl
  have hnext := hopening.next?_iff hl (c := '(') (by decide)
  -- With a bracket ahead the call lies in the text; without one both readings end in one fault.
  by_cases hn : (opening (callStart s)).next? = some '('
  · obtain ⟨cs, hcs⟩ := List.head?_eq_some_iff.mp hn
    have hbefore : opening (callStart (s.before later)) = (opening (callStart s)).before later := by
      rcases hopening with h | ⟨hnil, -⟩
      · exact h
      · rw [hnil] at hcs
        cases hcs
    have hnext' := hnext.mpr ⟨hn, hbefore⟩
    rw [if_neg (not_not.mpr hn), if_neg (not_not.mpr hnext'), hbefore,
      bracketed_before _ hcs (k := ')') rfl hl]
    cases hb : bracketed (.unclosedCall ((callStart s).text (pathLength (callStart s).ahead)))
        (opening (callStart s)) with
    | error fault => rfl
    | ok found =>
      obtain ⟨arguments, n⟩ := found
      have hle : n ≤ (opening (callStart s)).ahead.length := by
        obtain ⟨-, hn, rest, hrest⟩ := (bracketed_eq_ok_iff.mp hb).ahead_eq hcs (k := ')') rfl
        rw [hn, hrest]
        simp
      change Except.ok (_, ((opening (callStart s)).before later).forward n) = _
      rw [Cursor.before_forward hle]
      rfl
  · rw [if_pos hn, if_pos (mt (fun h => (hnext.mp h).1) hn)]
    rfl

theorem told_expectEnd (s : Cursor) : told (expectEnd s) =
    if s.ahead.length ≤ terminatorsLength s.ahead then .ok () else .error .trailingText := by
  by_cases h : s.ahead.length ≤ terminatorsLength s.ahead
  · rw [if_pos h, expectEnd_eq_ok_iff.mpr h]
    rfl
  · have hrest : (s.forward (terminatorsLength s.ahead)).atEnd = false := by
      simpa [Cursor.atEnd] using h
    rw [if_neg h, expectEnd, hrest]
    rfl

theorem expectEnd_before (s : Cursor) (hl : ∀ d ∈ later, isBlank d = true) :
    told (expectEnd (s.before later)) = told (expectEnd s) := by
  rw [told_expectEnd, told_expectEnd]
  have hiff : (s.ahead ++ later).length ≤ terminatorsLength (s.ahead ++ later) ↔
      s.ahead.length ≤ terminatorsLength s.ahead := by
    rw [terminatorsLength, terminatorsLength]
    rcases gapLength_append_blanks filler_terminators hl s.ahead with ⟨hlt, he⟩ | ⟨hall, hlong⟩
    · rw [he, List.length_append]
      omega
    · rw [hall, hlong]
      exact iff_of_true le_rfl le_rfl
  exact if_congr hiff rfl rfl

end Expression

section

variable {limits : Limits} {source : String}

theorem Widget.told_read_below {lead : String} (hl : Trivia lead.toList)
    (hb : (lead ++ source).utf8ByteSize ≤ limits.bytes) :
    told (Widget.read limits (lead ++ source)) = told (Widget.read limits source) := by
  have hsize : source.utf8ByteSize ≤ limits.bytes := by
    rw [String.utf8ByteSize_append] at hb
    omega
  rw [read_bind hb, read_bind hsize, readCall_below hl]
  refine told_bind (told_shifted _ _ _) ?_
  rintro ⟨call, rest⟩ hc
  obtain ⟨n, hat, -⟩ := readCall_eq_ok_iff.mp hc
  have hread := readWidget_after lead.toList.reverse limits.depth limits.depth call (hat.settled _)
  dsimp only [Call.after] at hread ⊢
  rw [hread, expectEnd_after]
  split
  · rfl
  · exact told_bind (told_shifted _ _ _) fun w _ => told_bind (told_shifted _ _ _) fun _ _ => rfl

theorem Widget.told_read_before {later : String} (hl : ∀ c ∈ later.toList, isBlank c = true)
    (hb : (source ++ later).utf8ByteSize ≤ limits.bytes) :
    told (Widget.read limits (source ++ later)) = told (Widget.read limits source) := by
  have hsize : source.utf8ByteSize ≤ limits.bytes := by
    rw [String.utf8ByteSize_append] at hb
    omega
  have hcursor : Cursor.ofList (source ++ later).toList =
      (Cursor.ofList source.toList).before later.toList := by
    rw [String.toList_append]
    rfl
  rw [read_bind hb, read_bind hsize, hcursor]
  refine told_bind (readCall_before hl) ?_
  rintro ⟨call, rest⟩ -
  dsimp only
  split
  · rfl
  · have hend := (expectEnd_before rest hl).trans (congrFun Except.map_id _).symm
    exact told_bind (congrFun Except.map_id _).symm fun w _ => told_bind hend fun _ _ => rfl

end

namespace Text

theorem exists_trimmed (source : String) : ∃ lead later : String, source = lead ++ trimmed source ++ later ∧
    (∀ c ∈ lead.toList, isBlank c = true) ∧ ∀ c ∈ later.toList, isBlank c = true := by
  obtain ⟨blanks, hstart, hb⟩ := trimEnd_split (trimStart source.toList)
  refine ⟨String.ofList (source.toList.takeWhile isBlank), String.ofList blanks, ?_, ?_, ?_⟩
  · apply String.toList_inj.mp
    rw [trimmed, trim, String.toList_append, String.toList_append, String.toList_ofList,
      String.toList_ofList, String.toList_ofList, List.append_assoc, ← hstart, trimStart,
      List.takeWhile_append_dropWhile]
  · rw [String.toList_ofList]
    exact fun c hc => List.mem_takeWhile_imp hc
  · rwa [String.toList_ofList]

end Text

/-- White space around a source text makes no difference: without it the same conversion is made, or none
for the same cause. -/
theorem Conversion.read_trimmed {limits : Limits} {source : String}
    (hb : source.utf8ByteSize ≤ limits.bytes) :
    (∃ c, read limits (trimmed source) = .ok c ∧ read limits source = .ok c) ∨
      ∃ cause p q, read limits (trimmed source) = .error ⟨p, cause⟩ ∧
        read limits source = .error ⟨q, cause⟩ := by
  obtain ⟨lead, later, hsource, hlead, hlater⟩ := exists_trimmed source
  have hsize : (lead ++ trimmed source ++ later).utf8ByteSize ≤ limits.bytes := hsource ▸ hb
  have hfront : (lead ++ trimmed source).utf8ByteSize ≤ limits.bytes := by
    rw [String.utf8ByteSize_append] at hsize
    omega
  have hwidget : told (Widget.read limits (trimmed source)) = told (Widget.read limits source) := by
    conv_rhs => rw [hsource]
    rw [Widget.told_read_before hlater hsize, Widget.told_read_below (trivia_of_blanks hlead) hfront]
  rw [read_eq, read_eq]
  rcases told_eq_iff.mp hwidget with ⟨w, h, h'⟩ | ⟨cause, p, q, h, h'⟩
  · exact .inl ⟨ofWidget w, by rw [h]; rfl, by rw [h']; rfl⟩
  · exact .inr ⟨cause, p, q, by rw [h]; rfl, by rw [h']; rfl⟩

theorem Conversion.read_trimmed_rest :
    trimmed "\n Row(\n) x \n" = "Row(\n) x" ∧
      ∃ p q, read .standard "Row(\n) x" = .error ⟨p, .trailingText⟩ ∧
        read .standard "\n Row(\n) x \n" = .error ⟨q, .trailingText⟩ := by
  have htrim : trimmed "\n Row(\n) x \n" = "Row(\n) x" := by cbv
  have hrow : Widget.read .standard "Row(\n) x" = .error ⟨⟨2, 3⟩, .trailingText⟩ := by cbv
  have hread := @read_trimmed .standard "\n Row(\n) x \n" (by decide)
  rw [htrim, read_eq .standard "Row(\n) x", hrow] at hread
  refine ⟨htrim, ?_⟩
  rcases hread with ⟨c, h, -⟩ | ⟨cause, p, q, h, h'⟩
  · cases h
  · cases h
    exact ⟨_, q, by rw [read_eq, hrow]; rfl, h'⟩

end WidgetJsx
