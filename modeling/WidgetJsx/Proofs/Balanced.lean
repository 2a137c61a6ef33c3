import Mathlib
import WidgetJsx.Proofs.Body
import WidgetJsx.Proofs.Passage

/-! Below a call whose brackets match, no reader finds a bracket or a string literal unclosed. Every
place where a reader stands is one that the matching scan comes by with the same brackets open, so
that whatever a reader opens is closed ahead. Only the bound on the depth can stop the reading. -/

namespace WidgetJsx

open Expression Text

/-- A place that the matching scan comes by, in a text without `<` and without an `r` between a dot
and a quote. -/
structure Tame (s : Cursor) : Prop where
  level : Level s
  no_angle : '<' ∉ s.ahead
  no_raw : ∀ q, isQuote q = true → ¬ ['.', 'r', q] <:+: s.ahead

/-- The scan passes `n` characters, at least one unless a comma or the end is near. -/
structure Passes (s : Cursor) (n : Nat) : Prop where
  scans : Scans matchStep [')'] s n [')']
  pos : s.ahead ≠ [] → s.next? ≠ some ',' → 0 < n

theorem Passes.of_pos {s : Cursor} {n : Nat} (h : Scans matchStep [')'] s n [')']) (hn : 0 < n) :
    Passes s n := ⟨h, fun _ _ => hn⟩

namespace Tame

variable {s t inside : Cursor} {n : Nat}

theorem of_infix (h : Tame s) (hi : t.ahead <:+: s.ahead) (hl : Level t) : Tame t :=
  ⟨hl, fun hm => h.no_angle (hi.subset hm), fun q hq hr => h.no_raw q hq (hr.trans hi)⟩

theorem forward (h : Tame s) (hs : Scans matchStep [')'] s n [')']) : Tame (s.forward n) :=
  h.of_infix (s.forward_suffix n).isInfix (h.level.forward hs)

theorem exists_bracketed (h : Tame s) {c k : Char} (hc : s.next? = some c)
    (hk : closerOf? c = some k) (cause : Cause) :
    ∃ inside n, bracketed cause s = .ok (inside, n) ∧ Tame inside ∧
      Scans matchStep [')'] s n [')'] ∧ 0 < n := by
  obtain ⟨cs, ha⟩ := List.head?_eq_some_iff.mp hc
  obtain ⟨m, hm, hl, -⟩ := h.level.exists_closing ha hk
  have he : Encloses s ((s.forward 1).within (m - 1)) (m + 1) := ⟨m, hm, rfl, rfl⟩
  exact ⟨_, _, bracketed_eq_ok_iff.mpr he, h.of_infix he.isInfix hl,
    scans_brackets ha hk hm (by simp), Nat.succ_pos m⟩

theorem exists_stringLength (h : Tame s) (hs : startsString s.previous s.ahead = true) :
    ∃ n, stringLength? s.ahead = some n := by
  have hl := h.level [')'] (by simp)
  cases ha : s.ahead with
  | nil => simp [ha, startsString] at hs
  | cons c cs =>
    rw [ha] at hs
    have hpos : s.ahead.length ≠ 0 := by simp [ha]
    generalize s.ahead.length = l at hl hpos
    cases hl with
    | here => exact absurd rfl hpos
    | code ha' hi =>
      obtain ⟨rfl, rfl⟩ := List.cons.inj (ha.symm.trans ha')
      simp [(Item.at_eq_code_iff.mp hi).1] at hs
    | inert ha' hi =>
      obtain ⟨rfl, rfl⟩ := List.cons.inj (ha.symm.trans ha')
      rcases Item.at_eq_inert_iff.mp hi with ⟨-, hn⟩ | ⟨hf, -⟩
      · exact ⟨_, hn⟩
      · simp [hf] at hs

end Tame

/-- Whatever a scan counts, it passes a path and the gap behind it, if no quote follows. -/
theorem Expression.Indifferent.opening {σ α : Type} {step : σ → Char → Except α σ} {state : σ}
    (hi : Indifferent step state) {s : Cursor} {c : Char} (h : (opening s).next? = some c)
    (hc : isQuote c = false) : Scans step state s
      (pathLength s.ahead + triviaLength (s.ahead.drop (pathLength s.ahead))) state := by
  rw [Cursor.next?, Expression.opening, Cursor.forward_ahead, ← List.drop_drop] at h
  refine (hi.path (clear_of_gap h hc _)).trans ?_
  have := hi.trivia (s.forward (pathLength s.ahead))
  rwa [Cursor.forward_ahead] at this

theorem scans_opening {s : Cursor} {c : Char} (h : (opening s).next? = some c)
    (hc : isQuote c = false) (awaited : List Char) : Scans matchStep awaited s
      (pathLength s.ahead + triviaLength (s.ahead.drop (pathLength s.ahead))) awaited :=
  (indifferent_matchStep awaited).opening h hc

/-- What a form leaves to be read is tame. -/
def FormTame : Form → Prop
  | .widget call => Tame call.arguments
  | .widgets items => Tame items
  | _ => True

/-- A form is read, and what it leaves to be read is tame. -/
def ReadsForm (s : Cursor) (x : Except Fault (Form × Nat)) : Prop :=
  ∃ form n, x = .ok (form, n) ∧ FormTame form ∧ Passes s n

namespace Tame

variable {s : Cursor} {n : Nat}

theorem readsForm_list (h : Tame s) (hn : s.next? = some '[') : ReadsForm s (listForm s) := by
  obtain ⟨items, n, hb, ht, hs, hp⟩ := h.exists_bracketed hn (k := ']') rfl .unclosedList
  refine ⟨.widgets items, n, ?_, ht, .of_pos hs hp⟩
  rw [listForm, hb]
  rfl

theorem readsForm_raw (h : Tame s) : ReadsForm s (rawForm s) := by
  obtain ⟨hs, hr⟩ := h.level.scans_raw (List.cons_ne_nil ')' [])
  refine ⟨_, _, rfl, trivial, hs, fun hne hc => Nat.pos_of_ne_zero fun hz => ?_⟩
  rw [hz, Cursor.forward_zero] at hr
  rcases hr with hr | hr
  · exact hne (List.length_eq_zero_iff.mp hr.symm)
  · exact hc hr

theorem readsForm_unworded {x : Except Fault (Form × Nat)} (h : ReadsForm (unworded s) x) :
    ReadsForm s (x >>= fun (form, n) => .ok (form, keywordLength s.ahead + n)) := by
  obtain ⟨form, n, rfl, ht, hp⟩ := h
  refine ⟨form, keywordLength s.ahead + n, rfl, ht, (scans_keyword s _).trans hp.scans, fun hne hc => ?_⟩
  rcases Nat.eq_zero_or_pos (keywordLength s.ahead) with hz | hpos
  · have := hp.pos
    rw [unworded, hz, Cursor.forward_zero] at this
    have := this hne hc
    omega
  · omega

theorem exists_call (h : Tame s) (ho : (opening s).next? = some '(') (cause : Cause) :
    ∃ arguments n, bracketed cause (opening s) = .ok (arguments, n) ∧ Tame arguments ∧
      Scans matchStep [')'] s
        (pathLength s.ahead + triviaLength (s.ahead.drop (pathLength s.ahead)) + n) [')'] ∧ 0 < n := by
  have hs := scans_opening ho (by decide) [')']
  obtain ⟨arguments, n, hb, ht, hn, hp⟩ := (h.forward hs).exists_bracketed ho (k := ')') rfl cause
  exact ⟨arguments, n, hb, ht, hs.trans hn, hp⟩

theorem readsForm_compound (h : Tame s) :
    ReadsForm s (compoundForm s (keywordLength s.ahead)) := by
  have hu : Tame (unworded s) := h.forward (scans_keyword s _)
  simp only [compoundForm, show s.forward (keywordLength s.ahead) = unworded s from rfl, opening_eq]
  split
  · rename_i hc
    obtain ⟨arguments, n, hb, ht, hs, hp⟩ := hu.exists_call hc.2
      (.unclosedCall ((unworded s).text (pathLength (unworded s).ahead)))
    rw [hb]
    refine ⟨_, _, rfl, ?_, .of_pos ((scans_keyword s _).trans hs) (by omega)⟩
    split
    · exact ht
    · trivial
  split
  · rename_i hd
    have hd : '.' ∈ (unworded s).ahead.take (pathLength (unworded s).ahead) := by simpa using hd
    have hp : 0 < pathLength (unworded s).ahead := by
      apply Nat.pos_of_ne_zero
      intro hz
      rw [hz] at hd
      exact absurd hd List.not_mem_nil
    exact ⟨_, _, rfl, trivial, .of_pos
      ((scans_keyword s _).trans (scans_path (clear_of_dot hu.no_raw hd) _)) (by omega)⟩
  split
  · rename_i hn
    exact readsForm_unworded (hu.readsForm_list hn)
  split
  · rename_i hn
    exact absurd (List.mem_of_mem_head? hn) hu.no_angle
  · exact readsForm_unworded hu.readsForm_raw

theorem readsForm (h : Tame s) : ReadsForm s (readForm s) := by
  unfold readForm
  split
  · rename_i hs
    obtain ⟨n, hn⟩ := h.exists_stringLength hs
    rw [hn]
    have := (two_le_of_stringLength? hs hn).1
    exact ⟨_, n, rfl, trivial, .of_pos (scans_string hs hn _) (by omega)⟩
  split
  · rename_i hn
    exact ⟨_, _, rfl, trivial, .of_pos (scans_number hn _) hn⟩
  split
  · rename_i hw
    exact ⟨_, _, rfl, trivial, .of_pos (scans_startsWithWord hw (by decide) (by decide) _) (by decide)⟩
  split
  · rename_i hw
    exact ⟨_, _, rfl, trivial, .of_pos (scans_startsWithWord hw (by decide) (by decide) _) (by decide)⟩
  exact h.readsForm_compound

theorem readItem (h : Tame s) : ∃ call? n, readItem s = .ok (call?, n) ∧
    (∀ call, call? = some call → Tame call.arguments) ∧ Passes s n := by
  have hu : Tame (unworded s) := h.forward (scans_keyword s _)
  simp only [Expression.readItem, show s.forward (keywordLength s.ahead) = unworded s from rfl,
    opening_eq]
  split
  · rename_i hc
    obtain ⟨arguments, n, hb, ht, hs, hp⟩ := hu.exists_call hc.1
      (.unclosedCall ((unworded s).text (pathLength (unworded s).ahead)))
    rw [hb]
    refine ⟨_, _, rfl, ?_, .of_pos ?_ (by omega)⟩
    · rintro call ⟨rfl⟩
      exact ht
    · rw [Nat.add_assoc, Nat.add_assoc]
      rw [Nat.add_assoc] at hs
      exact (scans_keyword s _).trans hs
  · obtain ⟨_, _, hr, -, hp⟩ := h.readsForm_raw
    cases hr
    exact ⟨none, _, rfl, by simp, hp⟩

end Tame

/-- Whatever a scan counts, it passes the key of an entry. -/
theorem Expression.Indifferent.entryLead {σ α : Type} {step : σ → Char → Except α σ} {state : σ}
    (hi : Indifferent step state) (s : Cursor) :
    Scans step state s (WidgetJsx.entryLead s).2 state := by
  unfold WidgetJsx.entryLead
  split
  · rename_i key n hk
    simp only [readKey?] at hk
    split at hk
    · rename_i cs hcs
      split at hk
      · cases hk
      · rename_i hn
        cases hk
        have hname := isName_take fun hz => hn (.inl hz)
        have hclear := clear_of_gap (by rw [List.drop_drop, hcs]; rfl) (by decide)
          (s.ahead.take (nameLength s.ahead))
        have hword := hi.word (fun c hc => .inl (hname.isNameChar c hc)) hclear s.behind
        rw [List.take_append_drop, List.length_take, Nat.min_eq_left (nameLength_le _)] at hword
        have hgap := hi.trivia (s.forward (nameLength s.ahead))
        rw [Cursor.forward_ahead] at hgap
        have hcolon : (s.forward (nameLength s.ahead +
            triviaLength (s.ahead.drop (nameLength s.ahead)))).ahead = ':' :: cs := by
          rw [Cursor.forward_ahead, hcs]
        have hmark := scans_code hcolon ((mark_of_mem (by simp)).item _ _)
          (hi ':' (by decide) (by decide) (by decide))
        have hlast := hi.trivia ((s.forward (nameLength s.ahead +
          triviaLength (s.ahead.drop (nameLength s.ahead)))).forward 1)
        rw [Cursor.forward_ahead _ (s.forward _), hcolon, List.drop_one, List.tail_cons] at hlast
        have := (hword.trans hgap).trans (hmark.trans hlast)
        rwa [← Nat.add_assoc] at this
    · cases hk
  · exact .here _ _

theorem scans_entryLead (s : Cursor) (awaited : List Char) :
    Scans matchStep awaited s (entryLead s).2 awaited :=
  (indifferent_matchStep awaited).entryLead s

/-- An outcome is fine, or the bound on the depth is met. -/
def Sound {α : Type} (allowed : Nat) (x : Except Fault α) : Prop :=
  (∃ a, x = .ok a) ∨ ∃ position, x = .error ⟨position, .tooDeep allowed⟩

section

variable {allowed : Nat}

theorem Sound.bind {α β : Type} {x : Except Fault α} {f : α → Except Fault β} (h : Sound allowed x)
    (hf : ∀ a, x = .ok a → Sound allowed (f a)) : Sound allowed (x >>= f) := by
  rcases h with ⟨a, rfl⟩ | ⟨position, rfl⟩
  · exact hf a rfl
  · exact .inr ⟨position, rfl⟩

theorem sound_ok {α : Type} (a : α) : Sound allowed (.ok a : Except Fault α) := .inl ⟨a, rfl⟩

theorem solid_separated (s : Cursor) : (separated s).next? ≠ some ',' := by
  intro h
  obtain ⟨cs, ha⟩ := List.head?_eq_some_iff.mp h
  have hs : Solid (fun c => isBlank c || c == ',') (separated s).ahead := by
    rw [separated, Cursor.forward_ahead]
    exact solid_drop s.ahead
  rw [ha, solid_cons_iff] at hs
  exact absurd hs.1 (by decide)

theorem Tame.readAll {α : Type} {item : Cursor → Except Fault (α × Nat)}
    (hi : ∀ t, Tame t → Sound allowed (item t) ∧ ∀ a n, item t = .ok (a, n) → Passes t n)
    {s : Cursor} (h : Tame s) (found : List α) : Sound allowed (readAll item found s) := by
  fun_induction Expression.readAll item found s with
  | case1 found s s' hs => exact sound_ok _
  | case2 found s s' c cs hs fault hf =>
    obtain ⟨hsound, -⟩ := hi s' (h.forward (scans_separators s _))
    rw [hf] at hsound
    rcases hsound with ⟨a, ha⟩ | ⟨position, hp⟩
    · cases ha
    · cases hp
      exact .inr ⟨position, rfl⟩
  | case3 found s s' c cs hs b n hf ih =>
    have hs' : Tame s' := h.forward (scans_separators s _)
    have hp := (hi s' hs').2 b n hf
    have hpos := hp.pos (by simp [hs]) (solid_separated s)
    refine ih (hs'.forward ?_)
    rw [Nat.max_eq_right hpos]
    exact hp.scans

variable {descend : Call → Except Fault Widget}

/-- A reader of widgets that nothing but the depth can stop at a tame place. -/
def SoundOnTame (allowed : Nat) (descend : Call → Except Fault Widget) : Prop :=
  ∀ call : Call, Tame call.arguments → Sound allowed (descend call)

theorem Tame.readWidgets (hd : SoundOnTame allowed descend) {items : Cursor} (h : Tame items) :
    Sound allowed (readWidgets descend items) := by
  refine Sound.bind (Tame.readAll (fun t ht => ?_) h []) fun _ _ => sound_ok _
  obtain ⟨call?, n, hr, hc, hp⟩ := ht.readItem
  rw [hr]
  cases call? with
  | none =>
    refine ⟨sound_ok _, fun _ _ hi => ?_⟩
    cases hi
    exact hp
  | some call =>
    refine ⟨(hd call (hc call rfl)).bind fun _ _ => sound_ok _, fun _ _ hi => ?_⟩
    obtain ⟨_, ⟨⟩, hi⟩ := exists_of_bind_eq_ok hi
    obtain ⟨w, -, hi⟩ := exists_of_bind_eq_ok hi
    cases hi
    exact hp

theorem Tame.readArgument (hd : SoundOnTame allowed descend) {form : Form} (h : FormTame form) :
    Sound allowed (readArgument descend form) := by
  cases form with
  | widget call => exact (hd call h).bind fun _ _ => sound_ok _
  | widgets items => exact (Tame.readWidgets hd h).bind fun _ _ => sound_ok _
  | string | number | boolean | reference | construction | raw => exact sound_ok _

theorem Tame.readEntries (hd : SoundOnTame allowed descend) {s : Cursor} (h : Tame s) :
    Sound allowed (readEntries descend s) := by
  refine Tame.readAll (fun t ht => ?_) h []
  have hlead := scans_entryLead t [')']
  obtain ⟨form, n, hf, hform, hp⟩ := (ht.forward hlead).readsForm
  rw [readEntry_eq, hf]
  refine ⟨(Tame.readArgument hd hform).bind fun _ _ => sound_ok _, fun _ _ hi => ?_⟩
  obtain ⟨_, ⟨⟩, hi⟩ := exists_of_bind_eq_ok hi
  obtain ⟨value, -, hi⟩ := exists_of_bind_eq_ok hi
  cases hi
  refine ⟨hlead.trans hp.scans, fun hne hc => ?_⟩
  rcases Nat.eq_zero_or_pos (entryLead t).2 with hz | hpos
  · have := hp.pos
    rw [hz, Cursor.forward_zero] at this
    have := this hne hc
    omega
  · omega

theorem Tame.readLeadingText? {call : Call} (h : Tame call.arguments) :
    ∃ leading?, readLeadingText? call = .ok leading? ∧
      ∀ text rest, leading? = some (text, rest) → Tame rest := by
  simp only [WidgetJsx.readLeadingText?]
  have ht := h.forward (scans_trivia call.arguments _)
  split
  · rename_i hs
    have hs := ((Bool.and_eq_true _ _).mp hs).2
    obtain ⟨n, hn⟩ := ht.exists_stringLength hs
    rw [hn]
    refine ⟨_, rfl, ?_⟩
    rintro text rest ⟨rfl⟩
    have hn := ht.forward (scans_string hs hn _)
    exact hn.forward (scans_trivia _ _)
  · exact ⟨none, rfl, by simp⟩

theorem Tame.readBody (hd : SoundOnTame allowed descend) :
    SoundOnTame allowed (readBody descend) := by
  intro call h
  obtain ⟨leading?, hl, ht⟩ := h.readLeadingText?
  cases leading? with
  | none =>
    rw [readBody_split hl]
    exact (Tame.readEntries hd h).bind fun _ _ => sound_ok _
  | some leading =>
    obtain ⟨text, rest⟩ := leading
    have hrest := ht text rest rfl
    rw [readBody_text hl]
    refine Sound.bind ?_ fun _ _ => sound_ok _
    split
    · rename_i hc
      obtain ⟨cs, ha⟩ := List.head?_eq_some_iff.mp hc
      exact Tame.readEntries hd (hrest.forward ((mark_of_mem (by simp)).scans ha _))
    · exact sound_ok _

end

theorem soundOnTame_readWidget (allowed left : Nat) :
    SoundOnTame allowed (readWidget allowed left) := by
  induction left with
  | zero => exact fun call _ => .inr ⟨_, rfl⟩
  | succ left ih => exact Tame.readBody ih

/-- A source text that is a gap, a keyword or none, a name, a gap and an argument list, with nothing
but what may follow behind the bracket that closes the list, `n` characters on. -/
structure RootCall (source lead keyword name gap rest : List Char) (n : Nat) : Prop where
  eq : source = lead ++ (keyword ++ (name ++ (gap ++ '(' :: rest)))
  isLead : Trivia lead
  isKeyword : Keyword (name ++ (gap ++ '(' :: rest)) keyword
  isName : IsName name
  not_keyword : ∀ word ∈ keywords, name ≠ word.toList
  isGap : Trivia gap
  closes : closing? ((name ++ gap).getLastD '\n') ('(' :: rest) = some n
  ends : Terminators (rest.drop n)

/-- The place behind the bracket of a root call. -/
def rootArguments (lead keyword name gap rest : List Char) (n : Nat) : Cursor :=
  ⟨'(' :: (gap.reverse ++ (name.reverse ++ (lead ++ keyword).reverse)), rest.take (n - 1)⟩

theorem RootCall.readCall_eq {source lead keyword name gap rest : List Char} {n : Nat}
    (h : RootCall source lead keyword name gap rest n) :
    ∃ rest', readCall (.ofList source) =
      .ok (⟨String.ofList name, rootArguments lead keyword name gap rest n⟩, rest') ∧
        expectEnd rest' = .ok () := by
  have hends : Breaks (gap ++ '(' :: rest) :=
    Trivia.breaks h.isGap (breaks_cons (by decide) (by decide) (by decide) rest)
  have hstart := callStart_eq h.isLead h.isKeyword
    (h.isName.solid fun _ => isBlank_eq_false_of_isNameChar)
    (h.isName.keywordLength_eq_zero hends.ends h.not_keyword) []
  rw [List.append_nil, ← h.eq] at hstart
  have hcall : CallAt (callStart (.ofList source))
      ⟨String.ofList name, rootArguments lead keyword name gap rest n⟩
      (name.length + gap.length + (n + 1)) := by
    rw [Cursor.ofList, hstart]
    exact callAt_append (pathOf_singleton h.isName) h.isGap h.closes (lead ++ keyword).reverse
  refine ⟨_, readCall_eq_ok_iff.mpr ⟨_, hcall, rfl⟩, ?_⟩
  have hd : (name ++ (gap ++ '(' :: rest)).drop (name.length + gap.length + (n + 1)) =
      rest.drop n := by
    rw [← List.append_assoc, ← List.length_append, ← List.drop_drop, List.drop_left,
      List.drop_succ_cons]
  rw [Cursor.ofList, hstart, expectEnd_eq_ok_iff, Cursor.forward_ahead, hd, terminatorsLength,
    h.ends.gapLength_eq (by decide)]

theorem Widget.isDotted_eq_false {name : String} (h : IsName name.toList) : isDotted name = false := by
  simp only [isDotted, List.contains_eq_mem, decide_eq_false_iff_not]
  exact fun hm => ne_of_isNameChar (d := '.') (h.isNameChar _ hm) (by decide) rfl

/-- A root call whose brackets match is read, unless it is nested too deep. -/
theorem Widget.read_balanced {limits : Limits} {source : String}
    {lead keyword name gap rest : List Char} {n : Nat}
    (h : RootCall source.toList lead keyword name gap rest n) (hangle : '<' ∉ source.toList)
    (hraw : ∀ q, isQuote q = true → ¬ ['.', 'r', q] <:+: source.toList)
    (hbytes : source.utf8ByteSize ≤ limits.bytes) :
    (∃ w, Widget.read limits source = .ok w) ∨
      ∃ position, Widget.read limits source = .error ⟨position, .tooDeep limits.depth⟩ := by
  obtain ⟨rest', hc, he⟩ := h.readCall_eq
  have hi : (rootArguments lead keyword name gap rest n).ahead <:+: source.toList := by
    rw [h.eq]
    refine (List.take_prefix _ _).isInfix.trans ⟨lead ++ (keyword ++ (name ++ (gap ++ ['(']))), [], ?_⟩
    simp
  have hl : Level (rootArguments lead keyword name gap rest n) := by
    refine level_within (s := ⟨gap.reverse ++ (name.reverse ++ (lead ++ keyword).reverse), '(' :: rest⟩)
      rfl (k := ')') rfl ?_
    exact (closing?_previous (k := ')') rfl _ _ _).trans h.closes
  have ht : Tame (rootArguments lead keyword name gap rest n) :=
    ⟨hl, fun hm => hangle (hi.subset hm), fun q hq hr => hraw q hq (hr.trans hi)⟩
  have hd : isDotted (String.ofList name) = false := isDotted_eq_false (by simpa using h.isName)
  rw [read_of_readCall hbytes hc hd]
  refine Sound.bind (soundOnTame_readWidget limits.depth limits.depth _ ht) fun w _ => ?_
  rw [he]
  exact sound_ok w

theorem Widget.read_balanced_row :
    RootCall "new Row (a: ['('], b: c) ;".toList [] "new ".toList "Row".toList " ".toList
      "a: ['('], b: c) ;".toList 15 ∧
    ((∃ w, Widget.read .standard "new Row (a: ['('], b: c) ;" = .ok w) ∨
      ∃ position, Widget.read .standard "new Row (a: ['('], b: c) ;" =
        .error ⟨position, .tooDeep Limits.standard.depth⟩) := by
  have h : RootCall "new Row (a: ['('], b: c) ;".toList [] "new ".toList "Row".toList " ".toList
      "a: ['('], b: c) ;".toList 15 :=
    { eq := by decide
      isLead := .nil
      isKeyword := @Keyword.word _ "new" [' '] (by decide) (.fill (by decide) .nil) (ends_cons (by decide) _)
      isName := by decide
      not_keyword := by decide
      isGap := .fill (by decide) .nil
      closes := by cbv
      ends := .closed (.fill (by decide) (.fill (by decide) .nil)) }
  have hdot : '.' ∉ "new Row (a: ['('], b: c) ;".toList := by decide
  exact ⟨h, read_balanced h (by decide) (fun _ _ hi => hdot (hi.subset (by simp))) (by cbv)⟩

end WidgetJsx
