import WidgetJsx.Proofs.Passage
import WidgetJsx.Proofs.Respaced
import WidgetJsx.Proofs.Visits

/-! The readers keep within the text that is ahead of their cursor, and the loops that read arguments and items
of a list take at least one character at a time. -/

namespace WidgetJsx

open Expression Text

namespace Expression

variable {s : Cursor} {n : Nat}

theorem Encloses.le_length {inside : Cursor} (h : Encloses s inside n) : n ≤ s.ahead.length := by
  obtain ⟨m, hm, -, rfl⟩ := h
  obtain ⟨_, c, cs, -, ha, -⟩ := scans_of_scanFrom (closing?_eq_some_iff.mp hm)
  exact Cursor.lt_length_of_forward ha

theorem Encloses.covers {inside : Cursor} (h : Encloses s inside n) : Covers s inside := by
  obtain ⟨m, -, rfl, -⟩ := h
  exact (covers_forward s 1).trans (covers_within _ _)

theorem add_triviaLength_le (h : n ≤ s.ahead.length) : n + triviaLength (s.ahead.drop n) ≤ s.ahead.length := by
  rw [← Cursor.forward_ahead]
  exact Cursor.add_le_length h (gapLength_le _)

theorem opening_le (s : Cursor) :
    pathLength s.ahead + triviaLength (s.ahead.drop (pathLength s.ahead)) ≤ s.ahead.length :=
  add_triviaLength_le (pathLength_le _)

theorem startsWithWord_le {word : String} {cs : List Char} (h : startsWithWord word cs = true) :
    word.toList.length ≤ cs.length := by
  obtain ⟨rest, rfl, -⟩ := startsWithWord_iff.mp h
  simp

theorem keywordLength_le (cs : List Char) : keywordLength cs ≤ cs.length := by
  rcases keyword_split cs with h | ⟨word, -, rest, rfl, -, h⟩
  · omega
  · have hgap : triviaLength rest ≤ rest.length := gapLength_le rest
    rw [h, List.length_append]
    omega

theorem CallAt.le_length {call : Call} (h : CallAt s call n) : n ≤ s.ahead.length ∧ Covers s call.arguments := by
  obtain ⟨-, -, -, m, he, rfl⟩ := h
  exact ⟨Cursor.add_le_length (opening_le s) he.le_length, (covers_forward s _).trans he.covers⟩

theorem add_le_of_unworded (h : n ≤ (unworded s).ahead.length) : keywordLength s.ahead + n ≤ s.ahead.length :=
  Cursor.add_le_length (keywordLength_le _) h

end Expression

section

variable {s : Cursor} {n : Nat}

theorem traces_matching (s : Cursor) : Traces s (Run.matching s) (.ok ()) where
  outcome := rfl
  within := by
    rintro p ⟨n, awaited, hs, hp, hle⟩
    refine ⟨hp, ?_⟩
    rcases hle with hle | hle
    · exact hle.trans (Nat.add_le_add_left hs.le_length _)
    · exact hle.1

theorem traces_passesString (hs : startsString s.previous s.ahead = true) :
    Traces s (Run.passesString s) (.ok ()) := by
  refine .passes ?_
  cases hl : stringLength? s.ahead with
  | none => exact Nat.le_refl _
  | some n => exact (two_le_of_stringLength? hs hl).2

theorem traces_bracketed (cause : Cause) (s : Cursor) :
    Traces s (Run.bracketed cause s) (bracketed cause s) := by
  refine (traces_matching s).behind ?_
  cases h : bracketed cause s with
  | error fault => exact Traces.still s (.error fault)
  | ok outcome =>
    refine (Traces.still s (.ok outcome)).bind (g := .ok) fun (inside, n) ho => ?_
    cases ho
    exact (Traces.passes (bracketed_eq_ok_iff.mp h).le_length).behind (.pure s (inside, n))

theorem traces_listForm (s : Cursor) : Traces s (Run.listForm s) (listForm s) :=
  (traces_bracketed .unclosedList s).bind fun _ _ => .pure s _

theorem traces_rawForm (s : Cursor) : Traces s (Run.rawForm s) (rawForm s) :=
  (Traces.passes (rawLength_le s)).behind (.still s _)

theorem traces_typedList? (s : Cursor) : Traces s (Run.typedList? s) (.ok (typedList? s)) := by
  unfold Run.typedList?
  cases h : angleClosing? s.ahead with
  | none =>
    have hnone : typedList? s = none := by simp only [typedList?, h]
    rw [hnone]
    exact .pure s none
  | some n =>
    exact (Traces.passes (add_triviaLength_le (angleClosing?_lt h))).behind (.pure s _)

theorem traces_compoundForm {lead : Nat} (h : lead ≤ s.ahead.length) :
    Traces s (Run.compoundForm s lead) (compoundForm s lead) := by
  have hlead := covers_forward s lead
  refine (Traces.passes h).behind (.behind (.of_covers (.passes (opening_le _)) hlead) ?_)
  refine .ite (fun _ => ?_) fun _ => .ite (fun _ => .pure s _) fun _ => .ite (fun _ => ?_) fun _ =>
    .ite (fun _ => ?_) fun _ => ?_
  · refine (Traces.of_covers (traces_bracketed _ _) ?_).bind fun _ _ => .pure s _
    exact hlead.trans (covers_forward _ _)
  · exact ((traces_listForm _).of_covers hlead).bind fun _ _ => .pure s _
  · -- What the types stand in front of is read only if they do.
    have htypes := (traces_typedList? (s.forward lead)).of_covers hlead
    cases h : typedList? (s.forward lead) with
    | none =>
      rw [h] at htypes
      refine htypes.bind (g := fun _ => rawForm s) fun _ ho => ?_
      cases ho
      exact traces_rawForm s
    | some typed =>
      rw [h] at htypes
      have hlist : typed.1 = (s.forward lead).forward typed.2 := (typedList?_cases h).1
      have hcovers := hlead.trans (hlist ▸ covers_forward (s.forward lead) typed.2)
      have hform : Traces s (Run.listForm typed.1) (listForm typed.1) := (traces_listForm _).of_covers hcovers
      refine htypes.bind (g := fun _ => listForm typed.1 >>= fun outcome =>
        .ok (outcome.1, lead + typed.2 + outcome.2)) fun _ ho => ?_
      cases ho
      exact hform.bind fun _ _ => .pure s _
  · exact ((traces_rawForm _).of_covers hlead).bind fun _ _ => .pure s _

theorem traces_readForm (s : Cursor) : Traces s (Run.readForm s) (readForm s) := by
  refine .ite (fun hs => (traces_passesString hs).behind ?_) fun _ => (Traces.passes ?_).behind ?_
  · cases stringLength? s.ahead with
    | none => exact .still s _
    | some n => exact .pure s _
  · refine Nat.max_le.mpr ⟨numberLength_le _, ?_⟩
    split
    next h =>
      obtain ⟨cs, ha⟩ := List.head?_eq_some_iff.mp h
      rw [ha]
      exact Nat.succ_pos _
    next => exact Nat.zero_le _
  · exact .ite (fun _ => .pure s _) fun _ => .ite (fun h => (Traces.passes (startsWithWord_le h)).behind (.pure s _))
      fun _ => .ite (fun h => (Traces.passes (startsWithWord_le h)).behind (.pure s _))
        fun _ => traces_compoundForm (keywordLength_le _)

theorem readKey?_le {key : String} (h : readKey? s = some (key, n)) : n ≤ s.ahead.length := by
  simp only [readKey?] at h
  split at h
  next cs ha =>
    split at h
    · cases h
    · cases h
      have hcolon := congrArg List.length ha
      have hgap : triviaLength cs ≤ cs.length := gapLength_le cs
      rw [List.length_drop, List.length_cons] at hcolon
      omega
  next => cases h

theorem traces_readKey? (s : Cursor) : Traces s (Run.readKey? s) (.ok (readKey? s)) := by
  refine (Traces.passes (add_triviaLength_le (nameLength_le _))).behind ?_
  cases h : readKey? s with
  | none => exact .pure s none
  | some found => exact (Traces.passes (readKey?_le h)).behind (.pure s _)

theorem traces_readItem (s : Cursor) : Traces s (Run.readItem s) (readItem s) := by
  have hlead := covers_forward s (keywordLength s.ahead)
  refine (Traces.passes (keywordLength_le _)).behind (.behind (.of_covers (.passes (opening_le _)) hlead) ?_)
  refine .ite (fun _ => ?_) fun _ => (Traces.passes (rawLength_le s)).behind (.pure s _)
  refine (Traces.of_covers (traces_bracketed _ _) ?_).bind fun _ _ => .pure s _
  exact hlead.trans (covers_forward _ _)

end

/-! ### What is taken is ahead -/

/-- The cursors of a form keep within what is ahead of the reader. -/
def Expression.Form.Inside (s : Cursor) : Form → Prop
  | .widget call => Covers s call.arguments
  | .widgets items => Covers s items
  | _ => True

section

variable {s : Cursor} {n : Nat}

theorem Expression.FormAt.le_length {form : Form} (h : FormAt s form n) : n ≤ s.ahead.length ∧ form.Inside s := by
  have hword := covers_forward s (keywordLength s.ahead)
  cases h with
  | string hs hl => exact ⟨(two_le_of_stringLength? hs hl).2, trivial⟩
  | number _ => exact ⟨numberLength_le _, trivial⟩
  | boolean value hw =>
    have hlength := startsWithWord_le hw
    rw [String.length_toList] at hlength
    exact ⟨hlength, trivial⟩
  | widget hc _ => exact ⟨add_le_of_unworded hc.le_length.1, hword.trans hc.le_length.2⟩
  | construction hc _ => exact ⟨add_le_of_unworded hc.le_length.1, trivial⟩
  | reference _ => exact ⟨add_le_of_unworded (pathLength_le _), trivial⟩
  | list _ he => exact ⟨add_le_of_unworded he.le_length, hword.trans he.covers⟩
  | @typed items m n _ he =>
    obtain ⟨list, ht, he⟩ := he
    obtain ⟨rfl, hnext⟩ := typedList?_cases ht
    obtain ⟨cs, ha⟩ := List.head?_eq_some_iff.mp hnext
    have hm := (Cursor.lt_length_of_forward ha).le
    rw [Nat.add_assoc]
    exact ⟨add_le_of_unworded (Cursor.add_le_length hm he.le_length),
      hword.trans ((covers_forward _ m).trans he.covers)⟩
  | @raw m hm =>
    have hlead : m ≤ s.ahead.length := by
      rcases hm with rfl | rfl
      · exact Nat.zero_le _
      · exact keywordLength_le _
    exact ⟨Cursor.add_le_length hlead (rawLength_le _), trivial⟩

theorem readItem_le {call? : Option Call} (h : readItem s = .ok (call?, n)) : n ≤ s.ahead.length := by
  cases call? with
  | some call =>
    obtain ⟨-, m, hc, rfl⟩ := callAt_of_readItem h
    exact add_le_of_unworded hc.le_length.1
  | none =>
    simp only [readItem] at h
    split at h
    · obtain ⟨_, -, h⟩ := exists_of_bind_eq_ok h
      cases h
    · cases h
      exact rawLength_le s

theorem entryLead_le (s : Cursor) : (entryLead s).2 ≤ s.ahead.length := by
  unfold entryLead
  split
  next key n h => exact readKey?_le h
  next => exact Nat.zero_le _

theorem entryForm_le {form : Form} (h : entryForm s = .ok (form, n)) : n ≤ s.ahead.length := by
  obtain ⟨⟨form, m⟩, hf, h⟩ := exists_of_bind_eq_ok h
  cases h
  exact Cursor.add_le_length (entryLead_le s) (formAt_of_readForm hf).le_length.1

end

theorem readMember_le {descend : Call → Except Fault Widget} (s : Cursor) (w? : Option Widget) (n : Nat)
    (h : readMember descend s = .ok (w?, n)) : n ≤ s.ahead.length := by
  obtain ⟨call?, hi⟩ := keeps_readMember descend s w? n h
  exact readItem_le hi

theorem readEntry_le {descend : Call → Except Fault Widget} (s : Cursor) (entry : Entry) (n : Nat)
    (h : readEntry descend s = .ok (entry, n)) : n ≤ s.ahead.length := by
  obtain ⟨form, hf⟩ := keeps_readEntry descend s entry n h
  exact entryForm_le hf

theorem traces_readAll {α : Type} {item : Cursor → Run (α × Nat)} {item' : Cursor → Except Fault (α × Nat)}
    (h : ∀ t, Traces t (item t) (item' t)) (hle : ∀ t a n, item' t = .ok (a, n) → n ≤ t.ahead.length)
    (found : List α) (s : Cursor) : Traces s (Run.readAll item found s) (readAll item' found s) := by
  have hgap : ∀ s : Cursor, separatorsLength s.ahead ≤ s.ahead.length := fun _ => gapLength_le _
  fun_induction readAll item' found s with
  | case1 found s t ht =>
    rw [Run.readAll_end ht]
    exact (Traces.passes (hgap s)).behind (.pure s _)
  | case2 found s t c cs ht fault hi =>
    rw [Run.readAll_step (ht ▸ List.cons_ne_nil c cs)]
    have hitem := (h t).of_covers (covers_forward s _)
    rw [hi] at hitem
    exact (Traces.passes (hgap s)).behind (hitem.bind (g := fun _ => .error fault) fun _ ho => by cases ho)
  | case3 found s t c cs ht a n hi ih =>
    rw [Run.readAll_step (ht ▸ List.cons_ne_nil c cs)]
    have hitem := (h t).of_covers (covers_forward s _)
    rw [hi] at hitem
    have hn : max 1 n ≤ t.ahead.length := by
      have hpos := List.length_pos_of_ne_nil (ht ▸ List.cons_ne_nil c cs : t.ahead ≠ [])
      exact Nat.max_le.mpr ⟨hpos, hle t a n hi⟩
    have hrest := (Traces.passes hn).behind (ih.of_covers (covers_forward t _))
    refine (Traces.passes (hgap s)).behind (hitem.bind (g := fun _ => readAll item' _ _) fun o ho => ?_)
    cases ho
    exact hrest.of_covers (covers_forward s _)

theorem traces_readLeadingText? (call : Call) :
    Traces call.arguments (Run.readLeadingText? call) (readLeadingText? call) := by
  refine (Traces.passes (gapLength_le _)).behind (.ite (fun hs => ?_) fun _ => .pure _ _)
  have hcovers := covers_forward call.arguments (triviaLength call.arguments.ahead)
  refine ((traces_passesString (Bool.and_eq_true _ _ ▸ hs).2).of_covers hcovers).behind ?_
  cases stringLength? (call.arguments.forward (triviaLength call.arguments.ahead)).ahead with
  | none => exact .still _ _
  | some n =>
    have hrest := hcovers.trans (covers_forward _ n)
    exact (Traces.of_covers (.passes (gapLength_le _)) hrest).behind (.pure _ _)

section

variable {descend : Call → Run Widget} {descend' : Call → Except Fault Widget}
  (h : ∀ call, Traces call.arguments (descend call) (descend' call))
include h

theorem traces_readMember (s : Cursor) : Traces s (Run.readMember descend s) (readMember descend' s) := by
  refine (traces_readItem s).bind fun (call?, n) hi => ?_
  cases call? with
  | none => exact .pure s _
  | some call =>
    obtain ⟨-, m, hc, -⟩ := callAt_of_readItem hi
    exact ((h call).of_covers ((covers_forward s _).trans hc.le_length.2)).bind fun _ _ => .pure s _

theorem traces_readWidgets (s : Cursor) : Traces s (Run.readWidgets descend s) (readWidgets descend' s) :=
  (traces_readAll (traces_readMember h) readMember_le [] s).bind fun _ _ => .pure s _

theorem traces_readArgument {form : Form} {s : Cursor} (hf : form.Inside s) :
    Traces s (Run.readArgument descend form) (readArgument descend' form) := by
  cases form with
  | widget call => exact ((h call).of_covers hf).bind fun _ _ => .pure s _
  | widgets items => exact ((traces_readWidgets h items).of_covers hf).bind fun _ _ => .pure s _
  | string | number | boolean | reference | construction | raw => exact .pure s _

theorem traces_readList (s : Cursor) : Traces s (Run.readList descend s)
    (listForm s >>= fun (form, _) => readArgument descend' form) := by
  refine (traces_listForm s).bind fun (form, n) hf => traces_readArgument h ?_
  obtain ⟨items, rfl, he⟩ := listForm_cases hf
  exact he.covers

theorem traces_readEntry (s : Cursor) : Traces s (Run.readEntry descend s) (readEntry descend' s) := by
  have hvalue : ∀ (key? : Option String) (lead : Nat), Traces s
      (Run.readForm (s.forward lead) >>= fun (form, n) => Run.readArgument descend form >>= fun value =>
        pure ((⟨key?, value⟩ : Entry), lead + n))
      (readForm (s.forward lead) >>= fun (form, n) => readArgument descend' form >>= fun value =>
        .ok ((⟨key?, value⟩ : Entry), lead + n)) := by
    intro key? lead
    have hlead := covers_forward s lead
    refine ((traces_readForm _).of_covers hlead).bind fun (form, n) hf => ?_
    have hform := (formAt_of_readForm hf).le_length.2
    exact ((traces_readArgument h hform).of_covers hlead).bind fun _ _ => .pure s _
  have hentry : readEntry descend' s = (.ok (readKey? s) : Except Fault _) >>= fun found =>
      readForm (s.forward (found.elim 0 Prod.snd)) >>= fun (form, n) =>
        readArgument descend' form >>= fun value =>
          .ok (⟨found.map Prod.fst, value⟩, found.elim 0 Prod.snd + n) := by
    rw [readEntry_eq, entryLead]
    cases readKey? s <;> rfl
  rw [hentry]
  refine (traces_readKey? s).bind fun found _ => ?_
  cases found with
  | none => exact hvalue none 0
  | some found => exact hvalue (some found.1) found.2

theorem traces_readEntries (s : Cursor) : Traces s (Run.readEntries descend s) (readEntries descend' s) :=
  traces_readAll (traces_readEntry h) readEntry_le [] s

theorem traces_readBody (call : Call) :
    Traces call.arguments (Run.readBody descend call) (readBody descend' call) := by
  refine (traces_readLeadingText? call).bind fun leading? hl => ?_
  cases leading? with
  | none => exact (traces_readEntries h _).bind fun _ _ => .pure _ _
  | some leading =>
    obtain ⟨text, rest⟩ := leading
    obtain ⟨-, k, rfl⟩ := readLeadingText?_cases hl
    have hrest := covers_forward call.arguments k
    refine .ite (fun hc => ?_) fun _ => (Traces.pure _ []).bind fun _ _ => .pure _ _
    have hcomma : 1 ≤ (call.arguments.forward k).ahead.length := by
      obtain ⟨cs, ha⟩ := List.head?_eq_some_iff.mp hc
      rw [ha]
      exact Nat.succ_pos _
    have hentries := (traces_readEntries h _).of_covers (hrest.trans (covers_forward _ 1))
    exact ((Traces.passes hcomma).of_covers hrest).behind (hentries.bind fun _ _ => .pure _ _)

end

theorem traces_readWidget (allowed left : Nat) (call : Call) :
    Traces call.arguments (Run.readWidget allowed left call) (readWidget allowed left call) := by
  induction left generalizing call with
  | zero => exact .still _ _
  | succ left ih => exact traces_readBody ih call

/-! ### The loops advance -/

section

variable {α : Type} (item : Cursor → Except Fault (α × Nat))

/-- A loop that reads items has come to one at the first cursor, has read it and goes on at the second. -/
def Iterates (s t : Cursor) : Prop :=
  (separated s).ahead ≠ [] ∧ ∃ a n, item (separated s) = .ok (a, n) ∧ t = (separated s).forward (max 1 n)

inductive Iterations : Nat → Cursor → Cursor → Prop
  | none (s : Cursor) : Iterations 0 s s
  | more {k : Nat} {s t u : Cursor} : Iterates item s t → Iterations k t u → Iterations (k + 1) s u

/-- Each iteration ends further on than it began, and there are no more of them than characters, after which the
loop has come to the bound or to an item that cannot be read. -/
structure Advances (s : Cursor) : Prop where
  further : ∀ k t u, Iterations item k s t → Iterates item t u → t.start < u.start ∧ u.start ≤ s.stop
  ends : ∀ found, ∃ k t, Iterations item k s t ∧ k ≤ s.ahead.length ∧
    ((separated t).ahead = [] ∧ (∃ as, readAll item found s = .ok as) ∨
      k < s.ahead.length ∧ ∃ fault, item (separated t) = .error fault ∧ readAll item found s = .error fault)

end

section

variable {α : Type} {item : Cursor → Except Fault (α × Nat)} {s t : Cursor} {k n : Nat}

theorem stop_forward (s : Cursor) (n : Nat) : (s.forward n).stop = s.stop := by
  simp only [Cursor.stop, Cursor.forward_behind, Cursor.forward_ahead, List.length_append, List.length_reverse,
    List.length_take, List.length_drop]
  omega

theorem start_forward (h : n ≤ s.ahead.length) : (s.forward n).start = s.start + n := by
  simp only [Cursor.start, Cursor.forward_behind, List.length_append, List.length_reverse,
    List.length_take_of_le h]
  omega

theorem start_le_stop (s : Cursor) : s.start ≤ s.stop := Nat.le_add_right _ _

theorem start_lt_stop (h : (separated s).ahead ≠ []) : s.start < s.stop := by
  have hlength := List.length_pos_of_ne_nil h
  rw [separated, Cursor.forward_ahead, List.length_drop] at hlength
  rw [Cursor.start, Cursor.stop]
  omega

theorem Iterates.advances (hle : ∀ t a n, item t = .ok (a, n) → n ≤ t.ahead.length) (h : Iterates item s t) :
    s.start < t.start ∧ t.stop = s.stop := by
  obtain ⟨hne, a, n, hi, rfl⟩ := h
  have hn : max 1 n ≤ (separated s).ahead.length :=
    Nat.max_le.mpr ⟨List.length_pos_of_ne_nil hne, hle _ a n hi⟩
  have hgap : separatorsLength s.ahead ≤ s.ahead.length := gapLength_le _
  rw [start_forward hn, stop_forward, separated, start_forward hgap, stop_forward]
  omega

theorem Iterations.advances (hle : ∀ t a n, item t = .ok (a, n) → n ≤ t.ahead.length)
    (h : Iterations item k s t) : s.start + k ≤ t.start ∧ t.stop = s.stop := by
  induction h with
  | none s => exact ⟨Nat.le_refl _, rfl⟩
  | more h _ ih =>
    obtain ⟨hstart, hstop⟩ := h.advances hle
    exact ⟨by omega, ih.2.trans hstop⟩

/-- The loop goes on until it comes to the bound or to an item that cannot be read. -/
theorem exists_iterations (item : Cursor → Except Fault (α × Nat)) (found : List α) (s : Cursor) :
    ∃ k t, Iterations item k s t ∧
      ((separated t).ahead = [] ∧ (∃ as, readAll item found s = .ok as) ∨
        (separated t).ahead ≠ [] ∧
          ∃ fault, item (separated t) = .error fault ∧ readAll item found s = .error fault) := by
  fun_induction readAll item found s with
  | case1 found s t ht => exact ⟨0, s, .none s, .inl ⟨ht, _, rfl⟩⟩
  | case2 found s t c cs ht fault hi =>
    exact ⟨0, s, .none s, .inr ⟨ht ▸ List.cons_ne_nil c cs, fault, hi, rfl⟩⟩
  | case3 found s t c cs ht a n hi ih =>
    obtain ⟨k, u, hk, hu⟩ := ih
    exact ⟨k + 1, u, .more ⟨ht ▸ List.cons_ne_nil c cs, a, n, hi, rfl⟩ hk, hu⟩

theorem advances_of_le (hle : ∀ t a n, item t = .ok (a, n) → n ≤ t.ahead.length) (s : Cursor) :
    Advances item s where
  further k t u hk h := by
    obtain ⟨-, hstop⟩ := hk.advances hle
    obtain ⟨hstart, hstop'⟩ := h.advances hle
    exact ⟨hstart, (start_le_stop u).trans_eq (hstop'.trans hstop)⟩
  ends found := by
    obtain ⟨k, t, hk, ht⟩ := exists_iterations item found s
    obtain ⟨hstart, hstop⟩ := hk.advances hle
    have hlength : s.stop = s.start + s.ahead.length := rfl
    have hle := start_le_stop t
    refine ⟨k, t, hk, by omega, ht.imp_right fun ⟨hne, hfault⟩ => ⟨?_, hfault⟩⟩
    have hlt := start_lt_stop hne
    omega

end

/-- Whatever stands in a range, the readers of arguments, of lists and of their items come by no place outside it,
a value does not end in front of where it starts, and the loops end after no more iterations than there are
characters. -/
theorem reading_progress (allowed left : Nat) (s : Cursor) :
    Traces s (Run.readEntries (Run.readWidget allowed left) s) (readEntries (readWidget allowed left) s) ∧
    Traces s (Run.readWidgets (Run.readWidget allowed left) s) (readWidgets (readWidget allowed left) s) ∧
    Traces s (Run.readList (Run.readWidget allowed left) s)
      (listForm s >>= fun (form, _) => readArgument (readWidget allowed left) form) ∧
    (∀ form n, readForm s = .ok (form, n) →
      s.start ≤ (s.forward n).start ∧ (s.forward n).start = s.start + n ∧ (s.forward n).start ≤ s.stop) ∧
    Advances (readEntry (readWidget allowed left)) s ∧ Advances (readMember (readWidget allowed left)) s := by
  have hwidget := traces_readWidget allowed left
  refine ⟨traces_readEntries hwidget s, traces_readWidgets hwidget s, traces_readList hwidget s, ?_,
    advances_of_le readEntry_le s, advances_of_le readMember_le s⟩
  intro form n h
  have hn := (formAt_of_readForm h).le_length.1
  have hstart := start_forward hn
  have hstop := start_le_stop (s.forward n)
  rw [stop_forward] at hstop
  exact ⟨by omega, hstart, hstop⟩

theorem reading_progress_malformed :
    readForm (.ofList "12 ], (".toList) = .ok (.number "12", 2) ∧
      ((Cursor.ofList "12 ], (".toList).forward 2).start = 0 + 2 ∧
        Advances (readEntry (readWidget 1 1)) (.ofList "12 ], (".toList) :=
  have h := reading_progress 1 1 (.ofList "12 ], (".toList)
  ⟨rfl, (h.2.2.2.1 _ 2 rfl).2.1, h.2.2.2.2.1⟩

end WidgetJsx
