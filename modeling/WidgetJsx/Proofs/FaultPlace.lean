import Mathlib
import WidgetJsx.Proofs.FaultCause

/-! Where faults lie. A line and a column name one place of a text, and what stands at the place of a
fault is what its cause speaks of: the bracket or the quote that is not closed, a character that may not
stand there, or the first place inside the argument list that is too deep. -/

namespace WidgetJsx

open Expression Text

/-- The line and the column of the place behind `n` characters of a text. Both count from one: lines by
the line breaks in front of the place, columns by the characters behind the last of them. -/
def Text.Position.Names (p : Position) (cs : List Char) (n : Nat) : Prop :=
  n ≤ cs.length ∧ (cs.take n).count '\n' = p.line - 1 ∧ 1 ≤ p.line ∧
    ((cs.take n).reverse.takeWhile (· ≠ '\n')).length = p.column - 1 ∧ 1 ≤ p.column

theorem Text.Position.names_behind (before after : List Char) :
    (Position.behind before.reverse).Names (before ++ after) before.length := by
  simp [Position.Names, Position.behind]

/-- A place further on lies on a later line or, if no line break is between the two, further right. -/
theorem Text.Position.Names.unique {p : Position} {cs : List Char} {m n : Nat} (hm : p.Names cs m)
    (hn : p.Names cs n) : m = n := by
  -- No line break stands between two places on one line, so the columns tell how far apart they are.
  wlog hle : m ≤ n generalizing m n
  · exact (this hn hm (by omega)).symm
  obtain ⟨-, hline, -, hcolumn, -⟩ := hm
  obtain ⟨hlength, hline', -, hcolumn', -⟩ := hn
  obtain ⟨u, hu⟩ : ∃ u, cs.take n = cs.take m ++ u :=
    ⟨_, (List.take_append_drop m (cs.take n)).symm.trans (by rw [List.take_take, min_eq_left hle])⟩
  have hbreak : '\n' ∉ u := by
    rw [hu, List.count_append] at hline'
    exact List.count_eq_zero.mp (by omega)
  have hall : ∀ c ∈ u.reverse, decide (c ≠ '\n') = true := by
    intro c hc
    have hne : c ≠ '\n' := fun h => hbreak (h ▸ List.mem_reverse.mp hc)
    simpa using hne
  rw [hu, List.reverse_append, List.takeWhile_append_of_pos hall, List.length_append,
    List.length_reverse] at hcolumn'
  have hlengths := congrArg List.length hu
  rw [List.length_append, List.length_take, List.length_take] at hlengths
  omega

/-- What stands before and behind the place of a fault, by its cause. -/
def Expression.Cause.Marks (before after : List Char) : Cause → Prop
  | .callExpected => ∀ c ∈ after.head?, isNameStart c = false
  | .openingExpected _ => after.head? ≠ some '('
  | .unclosedCall _ => after.head? = some '('
  | .unclosedList => after.head? = some '['
  | .unclosedString => ∃ q, isQuote q = true ∧ ([q] <+: after ∨ ['r', q] <+: after)
  | .notWidget _ => before = []
  | .tooDeep _ => before.getLast? = some '('
  | .trailingText => ∃ c, after.head? = some c ∧ isBlank c = false ∧ c ≠ ',' ∧ c ≠ ';'
  | .tooLong _ _ => False

/-- The fault lies between two parts of the text that its cause speaks of. -/
def Expression.Fault.LiesIn (cs : List Char) (fault : Fault) : Prop :=
  ∃ before after, cs = before ++ after ∧ fault.position = .behind before.reverse ∧
    fault.cause.Marks before after

/-- The cursor stands in the text, and sees up to the end or to a bound. -/
def Text.Cursor.StandsIn (cs : List Char) (s : Cursor) : Prop := s.behind.reverse ++ s.ahead <+: cs

namespace Text.Cursor.StandsIn

variable {cs : List Char} {s : Cursor}

theorem forward (h : s.StandsIn cs) (n : Nat) : (s.forward n).StandsIn cs := by
  simpa [StandsIn] using h

theorem within (h : s.StandsIn cs) (n : Nat) : (s.within n).StandsIn cs :=
  (List.prefix_append_right_inj _ |>.mpr (List.take_prefix n _)).trans h

theorem liesIn (h : s.StandsIn cs) {cause : Cause}
    (hc : ∀ rest, cause.Marks s.behind.reverse (s.ahead ++ rest)) :
    Fault.LiesIn cs ⟨s.position, cause⟩ := by
  obtain ⟨rest, rfl⟩ := h
  exact ⟨s.behind.reverse, s.ahead ++ rest, List.append_assoc _ _ _, by simp [position], hc rest⟩

end Text.Cursor.StandsIn

section

variable {cs : List Char} {s : Cursor}

theorem Expression.CallAt.standsIn {call : Call} {n : Nat} (h : CallAt s call n) (hs : s.StandsIn cs) :
    call.arguments.StandsIn cs ∧ call.arguments.behind.head? = some '(' := by
  obtain ⟨m, he, -⟩ := h.encloses
  obtain ⟨ds, hd⟩ := List.head?_eq_some_iff.mp h.opens
  refine ⟨?_, by rw [(he.ahead_eq hd (k := ')') rfl).1]; rfl⟩
  obtain ⟨k, -, hinside, -⟩ := he
  rw [hinside]
  exact ((hs.forward _).forward 1).within _

theorem Expression.Encloses.standsIn {inside : Cursor} {n : Nat} (h : Encloses s inside n)
    (hs : s.StandsIn cs) : inside.StandsIn cs := by
  obtain ⟨m, -, rfl, -⟩ := h
  exact (hs.forward 1).within _

end

/-- Every fault that reading can end in lies in the text. -/
def Blames {α : Type} (cs : List Char) (x : Except Fault α) : Prop :=
  ∀ fault, x = .error fault → fault.LiesIn cs

section

variable {α β : Type} {cs : List Char}

theorem blames_ok (a : α) : Blames cs (.ok a : Except Fault α) := faults_ok a

theorem blames_error {fault : Fault} (h : fault.LiesIn cs) :
    Blames cs (.error fault : Except Fault α) := faults_error h

theorem Blames.bind {x : Except Fault α} {f : α → Except Fault β} (hx : Blames cs x)
    (hf : ∀ a, x = .ok a → Blames cs (f a)) : Blames cs (x >>= f) := Faults.bind hx hf

theorem blames_readAll {item : Cursor → Except Fault (α × Nat)}
    (hi : ∀ t : Cursor, t.StandsIn cs → Blames cs (item t)) {s : Cursor} (h : s.StandsIn cs)
    (found : List α) : Blames cs (readAll item found s) := by
  fun_induction readAll item found s with
  | case1 => exact blames_ok _
  | case2 found s s' c ds hs fault hf => exact blames_error (hi _ (h.forward _) fault hf)
  | case3 found s s' c ds hs a n hf ih => exact ih ((h.forward _).forward _)

end

section

variable {cs : List Char} {s : Cursor}

theorem blames_bracketed {cause : Cause} {c : Char} (h : s.StandsIn cs) (hn : s.next? = some c)
    (hc : ∀ before after, after.head? = some c → cause.Marks before after) :
    Blames cs (bracketed cause s) := by
  obtain ⟨ds, hd⟩ := List.head?_eq_some_iff.mp hn
  unfold bracketed
  split
  · exact blames_ok _
  · exact blames_error (h.liesIn fun rest => hc _ _ (by simp [hd]))

theorem blames_listForm (h : s.StandsIn cs) (hn : s.next? = some '[') : Blames cs (listForm s) :=
  (blames_bracketed h hn fun _ _ => id).bind fun _ _ => blames_ok _

theorem blames_compoundForm (h : s.StandsIn cs) (lead : Nat) : Blames cs (compoundForm s lead) := by
  unfold compoundForm
  dsimp only
  split
  · rename_i hc
    exact (blames_bracketed ((h.forward _).forward _) hc.2 fun _ _ => id).bind fun _ _ => blames_ok _
  split
  · exact blames_ok _
  split
  · rename_i hn
    exact (blames_listForm (h.forward _) hn).bind fun _ _ => blames_ok _
  split
  · split
    · rename_i list gap ht
      obtain ⟨rfl, hn⟩ := typedList?_cases ht
      exact (blames_listForm ((h.forward _).forward _) hn).bind fun _ _ => blames_ok _
    · exact blames_ok _
  · exact blames_ok _

theorem marks_of_startsString {before : List Char} {previous : Char} {ds : List Char}
    (h : startsString previous ds = true) (rest : List Char) :
    Cause.unclosedString.Marks before (ds ++ rest) := by
  cases ds with
  | nil => cases h
  | cons c ds =>
    rw [startsString_cons, Bool.or_eq_true] at h
    rcases h with hq | hr
    · exact ⟨c, hq, .inl ⟨ds ++ rest, rfl⟩⟩
    · simp only [Bool.and_eq_true, beq_iff_eq, Option.any_eq_true] at hr
      obtain ⟨⟨rfl, q, hd, hq⟩, -⟩ := hr
      obtain ⟨es, rfl⟩ := List.head?_eq_some_iff.mp hd
      exact ⟨q, hq, .inr ⟨es ++ rest, rfl⟩⟩

theorem blames_readForm (h : s.StandsIn cs) : Blames cs (readForm s) := by
  unfold readForm
  split
  · rename_i hs
    split
    · exact blames_ok _
    · exact blames_error (h.liesIn (marks_of_startsString hs))
  split
  · exact blames_ok _
  split
  · exact blames_ok _
  split
  · exact blames_ok _
  · exact blames_compoundForm h _

theorem blames_readItem (h : s.StandsIn cs) : Blames cs (readItem s) := by
  unfold readItem
  dsimp only
  split
  · rename_i hc
    exact (blames_bracketed ((h.forward _).forward _) hc.1 fun _ _ => id).bind fun _ _ => blames_ok _
  · exact blames_ok _

end

section

variable {cs : List Char} {descend : Call → Except Fault Widget}

/-- A reader of calls in the text that blames no place but of the text. -/
def BlamesCalls (cs : List Char) (descend : Call → Except Fault Widget) : Prop :=
  ∀ call : Call, call.arguments.StandsIn cs → call.arguments.behind.head? = some '(' →
    Blames cs (descend call)

theorem blames_readWidgets (hd : BlamesCalls cs descend) {items : Cursor} (h : items.StandsIn cs) :
    Blames cs (readWidgets descend items) := by
  refine (blames_readAll (fun t ht => (blames_readItem ht).bind ?_) h []).bind fun _ _ => blames_ok _
  rintro ⟨call?, n⟩ hr
  cases call? with
  | none => exact blames_ok _
  | some call =>
    obtain ⟨-, m, hc, -⟩ := callAt_of_readItem hr
    obtain ⟨hin, hopen⟩ := hc.standsIn (ht.forward _)
    exact (hd call hin hopen).bind fun _ _ => blames_ok _

theorem blames_readArgument (hd : BlamesCalls cs descend) {s : Cursor} (h : s.StandsIn cs)
    {form : Form} {n : Nat} (hf : FormAt s form n) : Blames cs (readArgument descend form) := by
  cases hf with
  | widget hc _ =>
    obtain ⟨hin, hopen⟩ := hc.standsIn (h.forward _)
    exact (hd _ hin hopen).bind fun _ _ => blames_ok _
  | list _ he => exact (blames_readWidgets hd (he.standsIn (h.forward _))).bind fun _ _ => blames_ok _
  | typed _ ht =>
    obtain ⟨list, ht, he⟩ := ht
    obtain ⟨rfl, -⟩ := typedList?_cases ht
    exact (blames_readWidgets hd (he.standsIn ((h.forward _).forward _))).bind fun _ _ => blames_ok _
  | string | number | boolean | construction | reference | raw => exact blames_ok _

theorem blames_readEntries (hd : BlamesCalls cs descend) {s : Cursor} (h : s.StandsIn cs) :
    Blames cs (readEntries descend s) := by
  refine blames_readAll (fun t ht => ?_) h []
  rw [readEntry_eq]
  refine (blames_readForm (ht.forward _)).bind ?_
  rintro ⟨form, n⟩ hf
  exact (blames_readArgument hd (ht.forward _) (formAt_of_readForm hf)).bind fun _ _ => blames_ok _

theorem blames_readLeadingText? {call : Call} (h : call.arguments.StandsIn cs) :
    Blames cs (readLeadingText? call) := by
  unfold readLeadingText?
  dsimp only
  split
  · rename_i hs
    rw [Bool.and_eq_true] at hs
    split
    · exact blames_ok _
    · exact blames_error ((h.forward _).liesIn (marks_of_startsString hs.2))
  · exact blames_ok _

theorem blames_readBody (hd : BlamesCalls cs descend) : BlamesCalls cs (readBody descend) := by
  intro call h _
  cases hl : readLeadingText? call with
  | error fault =>
    rw [readBody_error hl]
    exact blames_error (blames_readLeadingText? h fault hl)
  | ok leading? =>
    cases leading? with
    | none =>
      rw [readBody_split hl]
      exact (blames_readEntries hd h).bind fun _ _ => blames_ok _
    | some leading =>
      obtain ⟨text, rest⟩ := leading
      rw [readBody_text hl]
      obtain ⟨-, k, rfl⟩ := readLeadingText?_cases hl
      refine Blames.bind ?_ fun _ _ => blames_ok _
      split
      · exact blames_readEntries hd ((h.forward k).forward 1)
      · exact blames_ok _

theorem blamesCalls_readWidget (cs : List Char) (allowed left : Nat) :
    BlamesCalls cs (readWidget allowed left) := by
  induction left with
  | zero =>
    intro call h hopen
    refine blames_error (h.liesIn fun rest => ?_)
    rw [Cause.Marks, List.getLast?_reverse]
    exact hopen
  | succ left ih => exact blames_readBody ih

end

section

variable {cs : List Char} {s : Cursor}

/-- The cursor stands in the text and sees all that follows. -/
def Text.Cursor.Spans (cs : List Char) (s : Cursor) : Prop := s.behind.reverse ++ s.ahead = cs

theorem Text.Cursor.Spans.forward (h : s.Spans cs) (n : Nat) : (s.forward n).Spans cs := by
  simpa [Spans] using h

theorem Text.Cursor.Spans.callStart (h : s.Spans cs) : (callStart s).Spans cs :=
  (h.forward _).forward _

theorem Text.Cursor.Spans.standsIn (h : s.Spans cs) : s.StandsIn cs :=
  h ▸ List.prefix_refl _

theorem Text.Cursor.Spans.liesIn (h : s.Spans cs) {cause : Cause}
    (hc : cause.Marks s.behind.reverse s.ahead) : Fault.LiesIn cs ⟨s.position, cause⟩ :=
  ⟨_, _, h.symm, by simp [Cursor.position], hc⟩

theorem isNameStart_eq_false_of_pathLength {ds : List Char} (h : pathLength ds = 0) :
    ∀ c ∈ ds.head?, isNameStart c = false := by
  intro c hc
  obtain ⟨es, rfl⟩ := List.head?_eq_some_iff.mp hc
  by_contra hs
  have hgo : pathLength (c :: es) = pathLength.go (1 + 0) es := by simp [pathLength, hs]
  rw [pathLength_go_add] at hgo
  omega

theorem blames_readCall (h : s.Spans cs) : Blames cs (readCall s) := by
  unfold readCall
  dsimp only
  split
  · rename_i hp
    exact blames_error (((h.forward _).forward _).liesIn (isNameStart_eq_false_of_pathLength hp))
  split
  · rename_i hn
    exact blames_error (((((h.forward _).forward _).forward _).forward _).liesIn hn)
  · rename_i hn
    exact (blames_bracketed ((((h.forward _).forward _).forward _).forward _).standsIn
      (not_not.mp hn) fun _ _ => id).bind fun _ _ => blames_ok _

theorem blames_expectEnd (h : s.Spans cs) : Blames cs (expectEnd s) := by
  unfold expectEnd
  dsimp only
  split
  · exact blames_ok _
  · rename_i hn
    refine blames_error ((h.forward _).liesIn ?_)
    have hsolid := solid_drop (f := fun c => isBlank c || c == ',' || c == ';') s.ahead
    rw [Cursor.atEnd, Cursor.forward_ahead] at hn
    rw [Cursor.forward_ahead]
    change Solid _ (s.ahead.drop (terminatorsLength s.ahead)) at hsolid
    cases hd : s.ahead.drop (terminatorsLength s.ahead) with
    | nil => simp [hd] at hn
    | cons c ds =>
      rw [hd, solid_cons_iff] at hsolid
      have hc := hsolid.1
      simp only [Bool.or_eq_false_iff, beq_eq_false_iff_ne] at hc
      exact ⟨c, rfl, hc.1.1, hc.1.2, hc.2⟩

end

theorem Widget.blames_read {limits : Limits} {source : String}
    (hb : source.utf8ByteSize ≤ limits.bytes) : Blames source.toList (Widget.read limits source) := by
  have hs : (Cursor.ofList source.toList).Spans source.toList := rfl
  rw [read_bind hb]
  refine (blames_readCall hs).bind fun (call, rest) hc => ?_
  obtain ⟨n, hat, rfl⟩ := readCall_eq_ok_iff.mp hc
  obtain ⟨hin, hopen⟩ := hat.standsIn hs.callStart.standsIn
  dsimp only
  split
  · exact blames_error ⟨[], source.toList, rfl, rfl, rfl⟩
  · exact (blamesCalls_readWidget _ _ _ call hin hopen).bind fun _ _ =>
      (blames_expectEnd (hs.callStart.forward n)).bind fun _ _ => blames_ok _

theorem Construction.blames_read {source : String}
    (hb : source.utf8ByteSize ≤ Limits.standard.bytes) :
    Blames source.toList (Construction.read source) := by
  have hs : (Cursor.ofList source.toList).Spans source.toList := rfl
  rw [read_bind hb]
  refine (blames_readCall hs).bind fun (call, rest) hc => ?_
  obtain ⟨n, hat, rfl⟩ := readCall_eq_ok_iff.mp hc
  obtain ⟨hin, -⟩ := hat.standsIn hs.callStart.standsIn
  exact (blames_readEntries (blamesCalls_readWidget _ _ _) hin).bind fun _ _ =>
    (blames_expectEnd (hs.callStart.forward n)).bind fun _ _ => blames_ok _

/-- A fault has one place in the source text, whichever reader it is of, and what its cause speaks of
stands there. Only a source that is too long has none. -/
theorem Expression.Fault.exists_unique_place {source : String} {fault : Fault}
    (h : (∃ limits, Widget.read limits source = .error fault) ∨
      Construction.read source = .error fault)
    (hn : ∀ bytes limit, fault.cause ≠ .tooLong bytes limit) :
    ∃ n, fault.position.Names source.toList n ∧
      (∀ m, fault.position.Names source.toList m → m = n) ∧
      fault.cause.Marks (source.toList.take n) (source.toList.drop n) := by
  have hlies : fault.LiesIn source.toList := by
    rcases h with ⟨limits, h⟩ | h
    · by_cases hb : source.utf8ByteSize ≤ limits.bytes
      · exact Widget.blames_read hb fault h
      · have ho : limits.open source = .error ⟨.start, .tooLong source.utf8ByteSize limits.bytes⟩ :=
          if_pos (Nat.lt_of_not_le hb)
        rw [Widget.read, ho] at h
        cases h
        exact absurd rfl (hn _ _)
    · by_cases hb : source.utf8ByteSize ≤ Limits.standard.bytes
      · exact Construction.blames_read hb fault h
      · have ho : Limits.standard.open source =
            .error ⟨.start, .tooLong source.utf8ByteSize Limits.standard.bytes⟩ :=
          if_pos (Nat.lt_of_not_le hb)
        simp only [Construction.read, ho] at h
        cases h
        exact absurd rfl (hn _ _)
  obtain ⟨before, after, hsource, hposition, hmarks⟩ := hlies
  have hnames : fault.position.Names source.toList before.length := by
    rw [hsource, hposition]
    exact Position.names_behind before after
  refine ⟨before.length, hnames, fun m hm => hm.unique hnames, ?_⟩
  rw [hsource, List.take_left, List.drop_left]
  exact hmarks

theorem Expression.Fault.exists_unique_place_deep :
    let source := "Row(\n  child: Text('a'))"
    let fault : Fault := ⟨⟨2, 15⟩, .tooDeep 1⟩
    Widget.read ⟨1, 100⟩ source = .error fault ∧
      ∃ n, fault.position.Names source.toList n ∧
        (∀ m, fault.position.Names source.toList m → m = n) ∧
        fault.cause.Marks (source.toList.take n) (source.toList.drop n) := by
  have h : Widget.read ⟨1, 100⟩ "Row(\n  child: Text('a'))" = .error ⟨⟨2, 15⟩, .tooDeep 1⟩ := by cbv
  exact ⟨h, Fault.exists_unique_place (.inl ⟨_, h⟩) fun _ _ hc => by cases hc⟩

end WidgetJsx
