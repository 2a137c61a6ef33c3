import WidgetJsx.Expression.Form
import WidgetJsx.Proofs.Keyword
import WidgetJsx.Proofs.Nesting
import WidgetJsx.Proofs.Number
import WidgetJsx.Proofs.Path

/-! What the readers of forms, items and calls find, said once for all that follows. -/

namespace WidgetJsx.Expression

open Text (Cursor)

/-- `inside` is what the bracket at `s` and its closing one enclose, `n` characters with both. -/
def Encloses (s inside : Cursor) (n : Nat) : Prop :=
  ∃ m, closing? s.previous s.ahead = some m ∧ inside = (s.forward 1).within (m - 1) ∧ n = m + 1

theorem bracketed_eq_ok_iff {cause : Cause} {s inside : Cursor} {n : Nat} :
    bracketed cause s = .ok (inside, n) ↔ Encloses s inside n := by
  unfold bracketed Encloses
  cases closing? s.previous s.ahead with
  | none => simp
  | some m => simp [eq_comm]

theorem Encloses.ahead_eq {s inside : Cursor} {n : Nat} (h : Encloses s inside n) {c k : Char}
    {cs : List Char} (ha : s.ahead = c :: cs) (hk : closerOf? c = some k) :
    inside.behind = c :: s.behind ∧ n = inside.ahead.length + 2 ∧
      ∃ rest, s.ahead = c :: (inside.ahead ++ k :: rest) := by
  obtain ⟨m, hm, rfl, rfl⟩ := h
  obtain ⟨hpos, ⟨rest, hr⟩, -⟩ := scans_of_closing? ha hk hm
  obtain ⟨m, rfl⟩ : ∃ l, m = l + 1 := ⟨m - 1, by omega⟩
  simp only [Cursor.forward_ahead, ha, List.drop_succ_cons] at hr
  have hl : m ≤ cs.length := by
    have := congrArg List.length hr
    simp only [List.length_drop, List.length_cons] at this
    omega
  refine ⟨by simp [ha], by simp [ha, Nat.min_eq_left hl], rest, ?_⟩
  simp [ha, ← hr]

theorem Encloses.isInfix {s inside : Cursor} {n : Nat} (h : Encloses s inside n) :
    inside.ahead <:+: s.ahead := by
  obtain ⟨m, -, rfl, -⟩ := h
  rw [Cursor.within_ahead, Cursor.forward_ahead]
  exact (List.take_prefix _ _).isInfix.trans (List.drop_suffix _ _).isInfix

theorem typedList?_cases {s list : Cursor} {m : Nat} (h : typedList? s = some (list, m)) :
    list = s.forward m ∧ list.next? = some '[' := by
  simp only [typedList?] at h
  split at h
  · cases h
  · split at h
    · rename_i hn
      cases h
      exact ⟨rfl, hn⟩
    · cases h

/-- The place behind a path and the gap that follows it. -/
def opening (s : Cursor) : Cursor :=
  s.forward (pathLength s.ahead + triviaLength (s.ahead.drop (pathLength s.ahead)))

/-- A path, a gap and an argument list, of `n` characters in all. -/
structure CallAt (s : Cursor) (call : Call) (n : Nat) : Prop where
  path_pos : 0 < pathLength s.ahead
  name_eq : call.name = s.text (pathLength s.ahead)
  opens : (opening s).next? = some '('
  encloses : ∃ m, Encloses (opening s) call.arguments m ∧
    n = pathLength s.ahead + triviaLength (s.ahead.drop (pathLength s.ahead)) + m

/-- The expression behind the keyword, if there is one. -/
def unworded (s : Cursor) : Cursor := s.forward (keywordLength s.ahead)

/-- No string, number or truth value stands here. -/
structure Compound (s : Cursor) : Prop where
  not_string : startsString s.previous s.ahead = false
  not_number : numberLength s.ahead = 0
  not_true : startsWithWord "true" s.ahead = false
  not_false : startsWithWord "false" s.ahead = false

/-- What may stand at a place, and its length. -/
inductive FormAt (s : Cursor) : Form → Nat → Prop
  | string {n : Nat} : startsString s.previous s.ahead = true → stringLength? s.ahead = some n →
      FormAt s (.string (stringText n s.ahead)) n
  | number : 0 < numberLength s.ahead →
      FormAt s (.number (s.text (numberLength s.ahead))) (numberLength s.ahead)
  | boolean (value : Bool) : startsWithWord (toString value) s.ahead = true →
      FormAt s (.boolean value) (toString value).length
  | widget {call : Call} {n : Nat} : CallAt (unworded s) call n →
      Widget.isWidgetName call.name = true → FormAt s (.widget call) (keywordLength s.ahead + n)
  | construction {call : Call} {n : Nat} : CallAt (unworded s) call n →
      Widget.isWidgetName call.name = false →
      FormAt s (.construction ((unworded s).text n)) (keywordLength s.ahead + n)
  | reference : '.' ∈ (unworded s).ahead.take (pathLength (unworded s).ahead) →
      FormAt s (.reference ((unworded s).text (pathLength (unworded s).ahead)))
        (keywordLength s.ahead + pathLength (unworded s).ahead)
  | list {items : Cursor} {n : Nat} : (unworded s).next? = some '[' →
      Encloses (unworded s) items n → FormAt s (.widgets items) (keywordLength s.ahead + n)
  | typed {items : Cursor} {m n : Nat} : (unworded s).next? = some '<' →
      (∃ list, typedList? (unworded s) = some (list, m) ∧ Encloses list items n) →
      FormAt s (.widgets items) (keywordLength s.ahead + m + n)
  | raw {m : Nat} : m = 0 ∨ m = keywordLength s.ahead → FormAt s
      (.raw (String.ofList (Text.trim ((s.forward m).ahead.take
        (rawLength (s.forward m).previous (s.forward m).ahead)))))
      (m + rawLength (s.forward m).previous (s.forward m).ahead)

theorem exists_of_bind_eq_ok {ε α β : Type} {x : Except ε α} {f : α → Except ε β} {b : β}
    (h : (x >>= f) = .ok b) : ∃ a, x = .ok a ∧ f a = .ok b := by
  cases x with
  | error e => cases h
  | ok a => exact ⟨a, rfl, h⟩

theorem listForm_cases {s : Cursor} {form : Form} {n : Nat} (h : listForm s = .ok (form, n)) :
    ∃ items, form = .widgets items ∧ Encloses s items n := by
  obtain ⟨⟨items, m⟩, hb, h⟩ := exists_of_bind_eq_ok h
  cases h
  exact ⟨items, rfl, bracketed_eq_ok_iff.mp hb⟩

theorem formAt_of_compoundForm {s : Cursor} {form : Form} {n : Nat}
    (h : compoundForm s (keywordLength s.ahead) = .ok (form, n)) : FormAt s form n := by
  have ho : ∀ s : Cursor, s.forward (pathLength s.ahead +
    triviaLength (s.ahead.drop (pathLength s.ahead))) = opening s := fun _ => rfl
  simp only [compoundForm, show s.forward (keywordLength s.ahead) = unworded s from rfl, ho] at h
  split at h
  · rename_i hc
    obtain ⟨⟨arguments, m⟩, hb, h⟩ := exists_of_bind_eq_ok h
    have hcall : CallAt (unworded s) ⟨(unworded s).text (pathLength (unworded s).ahead), arguments⟩ _ :=
      ⟨hc.1, rfl, hc.2, m, bracketed_eq_ok_iff.mp hb, rfl⟩
    cases h
    split
    · rename_i hw
      exact .widget hcall hw
    · rename_i hw
      exact .construction hcall (Bool.eq_false_iff.mpr hw)
  split at h
  · rename_i hd
    cases h
    exact .reference (by simpa using hd)
  split at h
  · rename_i hn
    obtain ⟨⟨form', m⟩, hl, h⟩ := exists_of_bind_eq_ok h
    obtain ⟨items, rfl, he⟩ := listForm_cases hl
    cases h
    exact .list hn he
  split at h
  · rename_i hn
    split at h
    · rename_i list m ht
      obtain ⟨⟨form', k⟩, hl, h⟩ := exists_of_bind_eq_ok h
      obtain ⟨items, rfl, he⟩ := listForm_cases hl
      cases h
      exact .typed hn ⟨list, ht, he⟩
    · cases h
      simpa only [Cursor.forward_zero, Nat.zero_add] using FormAt.raw (s := s) (.inl rfl)
  · cases h
    exact .raw (.inr rfl)

theorem formAt_of_readForm {s : Cursor} {form : Form} {n : Nat} (h : readForm s = .ok (form, n)) :
    FormAt s form n := by
  unfold readForm at h
  split at h
  · rename_i hs
    split at h
    · rename_i m hm
      cases h
      exact .string hs hm
    · cases h
  split at h
  · cases h
    exact .number ‹_›
  split at h
  · cases h
    exact .boolean true ‹_›
  split at h
  · cases h
    exact .boolean false ‹_›
  exact formAt_of_compoundForm h

theorem opening_eq (s : Cursor) : s.forward (pathLength s.ahead +
    triviaLength (s.ahead.drop (pathLength s.ahead))) = opening s := rfl

theorem pathLength_pos_of_isWidgetName {s : Cursor}
    (h : Widget.isWidgetName (s.text (pathLength s.ahead)) = true) : 0 < pathLength s.ahead := by
  apply Nat.pos_of_ne_zero
  intro hz
  rw [hz] at h
  exact absurd (show Widget.isWidgetName "" = true from h) (by decide)

theorem callAt_of_readItem {s : Cursor} {call : Call} {n : Nat}
    (h : readItem s = .ok (some call, n)) : Widget.isWidgetName call.name = true ∧
      ∃ m, CallAt (unworded s) call m ∧ n = keywordLength s.ahead + m := by
  simp only [readItem, show s.forward (keywordLength s.ahead) = unworded s from rfl, opening_eq] at h
  split at h
  · rename_i hc
    obtain ⟨⟨arguments, m⟩, hb, h⟩ := exists_of_bind_eq_ok h
    have hp := pathLength_pos_of_isWidgetName hc.2
    cases h
    refine ⟨hc.2, _, ⟨hp, rfl, hc.1, m, bracketed_eq_ok_iff.mp hb, rfl⟩, ?_⟩
    simp only [Nat.add_assoc]
  · cases h

theorem unworded_append {k next : List Char} (hk : Keyword next k) (hs : Solid Text.isBlank next)
    (hz : keywordLength next = 0) (behind : List Char) : keywordLength (k ++ next) = k.length ∧
      unworded ⟨behind, k ++ next⟩ = ⟨k.reverse ++ behind, next⟩ := by
  have hl := hk.keywordLength_eq hs hz
  refine ⟨hl, ?_⟩
  simp only [unworded, hl]
  exact Cursor.forward_append _ _ _

/-- The place of the call that a whole text is. -/
def callStart (s : Cursor) : Cursor := unworded (s.forward (triviaLength s.ahead))

theorem callStart_eq {lead k next : List Char} (hl : Trivia lead) (hk : Keyword next k)
    (hs : Solid Text.isBlank next) (hn : keywordLength next = 0) (behind : List Char) :
    callStart ⟨behind, lead ++ (k ++ next)⟩ = ⟨(lead ++ k).reverse ++ behind, next⟩ := by
  have hsk : Solid Text.isBlank (k ++ next) := by
    cases hk with
    | none => exact hs
    | @word word gap hw _ _ =>
      rw [List.append_assoc]
      exact (isName_of_mem_keywords word hw).solid fun _ => isBlank_eq_false_of_isNameChar
  have ht : triviaLength (lead ++ (k ++ next)) = lead.length := hl.gapLength_eq (by decide) hsk
  rw [callStart, ht, Cursor.forward_append, (unworded_append hk hs hn _).2, List.reverse_append,
    List.append_assoc]

theorem readCall_eq (s : Cursor) : readCall s =
    if pathLength (callStart s).ahead = 0 then .error ⟨(callStart s).position, .callExpected⟩
    else if (opening (callStart s)).next? ≠ some '(' then
      .error ⟨(opening (callStart s)).position,
        .openingExpected ((callStart s).text (pathLength (callStart s).ahead))⟩
    else
      bracketed (.unclosedCall ((callStart s).text (pathLength (callStart s).ahead)))
        (opening (callStart s)) >>= fun (arguments, n) =>
          .ok (⟨(callStart s).text (pathLength (callStart s).ahead), arguments⟩,
            (opening (callStart s)).forward n) := by
  have ht : (s.forward (triviaLength s.ahead)).forward
    (keywordLength (s.forward (triviaLength s.ahead)).ahead) = callStart s := rfl
  have ho : ((callStart s).forward (pathLength (callStart s).ahead)).forward (triviaLength
      ((callStart s).forward (pathLength (callStart s).ahead)).ahead) = opening (callStart s) := by
    rw [Cursor.forward_forward, Cursor.forward_ahead, opening]
  unfold readCall
  simp only [ht, ho]
  split
  · rfl
  split <;> rfl

theorem readCall_eq_ok_iff {s rest : Cursor} {call : Call} : readCall s = .ok (call, rest) ↔
    ∃ n, CallAt (callStart s) call n ∧ rest = (callStart s).forward n := by
  rw [readCall_eq]
  generalize callStart s = s
  constructor
  · intro h
    split at h
    · cases h
    · split at h
      · cases h
      · rename_i hp hn
        obtain ⟨⟨arguments, m⟩, hb, h⟩ := exists_of_bind_eq_ok h
        cases h
        refine ⟨_, ⟨Nat.pos_of_ne_zero hp, rfl, not_not.mp hn, m, bracketed_eq_ok_iff.mp hb, rfl⟩, ?_⟩
        rw [opening, Cursor.forward_forward]
  · rintro ⟨n, ⟨hp, hname, ho, m, he, rfl⟩, rfl⟩
    obtain ⟨name, arguments⟩ := call
    rw [if_neg hp.ne', if_neg (not_not.mpr ho), bracketed_eq_ok_iff.mpr he, ← Cursor.forward_forward,
      ← opening, ← show name = _ from hname]
    rfl

theorem expectEnd_eq_ok_iff {s : Cursor} :
    expectEnd s = .ok () ↔ s.ahead.length ≤ terminatorsLength s.ahead := by
  simp [expectEnd, Cursor.atEnd]

theorem opening_split {s : Cursor} (hp : 0 < pathLength s.ahead) (ho : (opening s).next? = some '(') :
    ∃ names path gap rest, s.ahead = path ++ (gap ++ '(' :: rest) ∧ PathOf names path ∧ Trivia gap ∧
      pathLength s.ahead = path.length ∧
        triviaLength (s.ahead.drop (pathLength s.ahead)) = gap.length ∧
          opening s = ⟨gap.reverse ++ (path.reverse ++ s.behind), '(' :: rest⟩ := by
  obtain ⟨names, path, more, ha, hl, hpath, -⟩ := path_split hp
  obtain ⟨behind, ahead⟩ := s
  subst ha
  rw [opening, hl, List.drop_left, ← Cursor.forward_forward, Cursor.forward_append] at ho ⊢
  obtain ⟨gap, rest, rfl, ht, -, hg⟩ := gap_split Text.isBlank more
  rw [triviaLength, ht, Cursor.forward_append] at ho ⊢
  obtain ⟨rest, rfl⟩ := List.head?_eq_some_iff.mp ho
  exact ⟨names, path, gap, rest, rfl, hpath, hg (List.cons_ne_nil _ _), rfl, rfl, rfl⟩

namespace CallAt

variable {s : Cursor} {call : Call} {n : Nat}

theorem opening_ahead (s : Cursor) : (opening s).ahead =
    (s.ahead.drop (pathLength s.ahead)).drop (triviaLength (s.ahead.drop (pathLength s.ahead))) := by
  simp [opening]

theorem text_eq (h : CallAt s call n) : ∃ names path gap rest,
    s.ahead = path ++ (gap ++ '(' :: (call.arguments.ahead ++ ')' :: rest)) ∧ PathOf names path ∧
      Trivia gap ∧ call.name = String.ofList path ∧
        n = (path ++ (gap ++ '(' :: (call.arguments.ahead ++ [')']))).length := by
  obtain ⟨hp, hname, ho, m, he, rfl⟩ := h
  obtain ⟨names, path, gap, rest, ha, hpath, hg, hl, ht, hopening⟩ := opening_split hp ho
  obtain ⟨-, rfl, after, hr⟩ := he.ahead_eq (congrArg Cursor.ahead hopening) (k := ')') rfl
  rw [hopening] at hr
  obtain rfl := (List.cons.inj hr).2
  refine ⟨names, path, gap, after, ha, hpath, hg, ?_, ?_⟩
  · rw [hname, Cursor.text, hl, ha, List.take_left]
  · rw [ht, hl]
    simp only [List.length_append, List.length_cons, List.length_nil]
    omega

theorem level (h : CallAt s call n) : Level call.arguments := by
  obtain ⟨-, -, ho, -, ⟨m, hm, ha, -⟩, -⟩ := h
  obtain ⟨cs, hc⟩ := List.head?_eq_some_iff.mp ho
  rw [ha]
  exact level_within hc (k := ')') rfl hm

theorem isName (h : CallAt s call n) (hd : Widget.isDotted call.name = false) :
    IsName call.name.toList := by
  obtain ⟨names, path, gap, rest, -, hpath, -, hname, -⟩ := h.text_eq
  rw [hname, String.toList_ofList]
  apply hpath.isName_of_undotted
  intro hm
  simp [Widget.isDotted, hname, hm] at hd

theorem isName_of_isWidgetName (h : CallAt s call n) (hw : Widget.isWidgetName call.name = true) :
    IsName call.name.toList := by
  simp only [Widget.isWidgetName, Bool.and_eq_true, Bool.not_eq_true'] at hw
  exact h.isName hw.1.2

end CallAt

theorem opening_append {names : List (List Char)} {path gap rest : List Char} (hp : PathOf names path)
    (hg : Trivia gap) (hr : Breaks rest) (hs : Solid Text.isBlank rest) (behind : List Char) :
    pathLength (path ++ (gap ++ rest)) = path.length ∧
      triviaLength ((path ++ (gap ++ rest)).drop path.length) = gap.length ∧
      opening ⟨behind, path ++ (gap ++ rest)⟩ = ⟨gap.reverse ++ (path.reverse ++ behind), rest⟩ := by
  have hpath : pathLength (path ++ (gap ++ rest)) = path.length :=
    hp.pathLength_eq (hg.breaks hr).pathStops
  have hgap : triviaLength ((path ++ (gap ++ rest)).drop path.length) = gap.length := by
    rw [List.drop_left]
    exact hg.gapLength_eq (by decide) hs
  refine ⟨hpath, hgap, ?_⟩
  rw [opening]
  simp only [hpath, hgap]
  rw [← Cursor.forward_forward, Cursor.forward_append, Cursor.forward_append]

theorem callAt_append {names : List (List Char)} {path gap rest : List Char} (hp : PathOf names path)
    (hg : Trivia gap) {p : Char} {n : Nat} (hc : closing? p ('(' :: rest) = some n)
    (behind : List Char) : CallAt ⟨behind, path ++ (gap ++ '(' :: rest)⟩
      ⟨String.ofList path, ⟨'(' :: (gap.reverse ++ (path.reverse ++ behind)), rest.take (n - 1)⟩⟩
      (path.length + gap.length + (n + 1)) := by
  have hbreaks : Breaks ('(' :: rest) := breaks_cons (by decide) (by decide) (by decide) rest
  have hsolid : Solid Text.isBlank ('(' :: rest) := solid_cons (by decide) (by decide) rest
  obtain ⟨hpath, hgap, ho⟩ := opening_append hp hg hbreaks hsolid behind
  have hpos : 0 < path.length := List.length_pos_iff.mpr fun hnil => by
    obtain ⟨name, more, -, hname, he, -⟩ := hp.head_append breaks_nil.ends
    simp only [hnil, List.append_nil, List.nil_eq, List.append_eq_nil_iff] at he
    exact hname.ne_nil he.1
  refine ⟨by rwa [hpath], ?_, by rw [ho]; rfl, n + 1, ⟨n, ?_, ?_, rfl⟩, ?_⟩
  · rw [Cursor.text, hpath, List.take_left]
  · rw [ho, ← hc]
    exact closing?_previous (k := ')') rfl _ _ _
  · rw [ho]
    rfl
  · rw [hpath, hgap]

theorem isName_of_readKey? {s : Cursor} {key : String} {n : Nat}
    (h : readKey? s = some (key, n)) : IsName key.toList := by
  simp only [readKey?] at h
  split at h
  · split at h
    · cases h
    · rename_i hn
      cases h
      rw [Cursor.text, String.toList_ofList]
      exact isName_take fun hz => hn (.inl hz)
  · cases h

section

variable {α : Type} {item : Cursor → Except Fault (α × Nat)} {found as : List α} {s : Cursor}

/-- The place behind the separators. -/
def separated (s : Cursor) : Cursor := s.forward (separatorsLength s.ahead)

theorem separated_append {gap : List Char} (hg : Separators gap) (behind rest : List Char) :
    separated ⟨behind, gap ++ rest⟩ = separated ⟨gap.reverse ++ behind, rest⟩ := by
  have hl : separatorsLength (gap ++ rest) = gap.length + separatorsLength rest :=
    hg.gapLength_append (by decide) rest
  simp only [separated, hl]
  rw [← Cursor.forward_forward, Cursor.forward_append]

theorem separated_of_solid {rest : List Char} (h : Solid (fun c => Text.isBlank c || c == ',') rest)
    (behind : List Char) :
    separated ⟨behind, rest⟩ = ⟨behind, rest⟩ := by
  have hl : separatorsLength rest = 0 := h
  simp only [separated, hl, Cursor.forward_zero]

/-- White space and comments in front of the separators are passed with them. -/
theorem separated_forward_trivia (s : Cursor) :
    separated (s.forward (triviaLength s.ahead)) = separated s := by
  have hadd : separatorsLength s.ahead =
      triviaLength s.ahead + separatorsLength (s.ahead.drop (triviaLength s.ahead)) :=
    gapLength_eq_add (fun c hc => by simp [hc]) (by decide) s.ahead
  rw [separated, separated, Cursor.forward_forward, Cursor.forward_ahead, hadd]

theorem separated_forward_comma {s : Cursor} (h : s.next? = some ',') :
    separated (s.forward 1) = separated s := by
  obtain ⟨behind, ahead⟩ := s
  obtain ⟨cs, rfl⟩ := List.head?_eq_some_iff.mp h
  exact (@separated_append [','] (.fill (by decide) .nil) behind cs).symm

theorem readAll_end (h : (separated s).ahead = []) : readAll item found s = .ok found.reverse := by
  rw [readAll]
  split
  · rfl
  · rename_i hc
    exact absurd (h.symm.trans hc) (List.cons_ne_nil _ _).symm

theorem readAll_error (h : (separated s).ahead ≠ []) {fault : Fault}
    (hi : item (separated s) = .error fault) : readAll item found s = .error fault := by
  rw [readAll]
  split
  · exact absurd ‹_› h
  · rw [show item (s.forward _) = _ from hi]

theorem readAll_step (h : (separated s).ahead ≠ []) {a : α} {n : Nat}
    (hi : item (separated s) = .ok (a, n)) :
    readAll item found s = readAll item (a :: found) ((separated s).forward (max 1 n)) := by
  rw [readAll]
  split
  · exact absurd ‹_› h
  · rw [show item (s.forward _) = _ from hi]
    rfl

theorem readAll_congr {t : Cursor}
    (h : separated s = separated t) (found : List α) : readAll item found s = readAll item found t := by
  by_cases hs : (separated s).ahead = []
  · rw [readAll_end hs, readAll_end (h ▸ hs)]
  · cases hi : item (separated s) with
    | error fault => rw [readAll_error hs hi, readAll_error (h ▸ hs) (h ▸ hi)]
    | ok outcome =>
      obtain ⟨a, n⟩ := outcome
      rw [readAll_step hs hi, h]
      exact (readAll_step (h ▸ hs) (h ▸ hi)).symm

theorem readAll_append (found more : List α) (s : Cursor) : readAll item (found ++ more) s =
    readAll item found s >>= fun as => .ok (more.reverse ++ as) := by
  fun_induction readAll item found s with
  | case1 found s s' hs =>
    rw [readAll_end hs, List.reverse_append]
    rfl
  | case2 found s s' c cs hs fault hi =>
    rw [readAll_error (hs ▸ List.cons_ne_nil c cs) hi]
    rfl
  | case3 found s s' c cs hs b n hi ih =>
    rw [readAll_step (hs ▸ List.cons_ne_nil c cs) hi, ← List.cons_append]
    exact ih

theorem exists_of_mem_readAll (h : readAll item found s = .ok as) {a : α} (ha : a ∈ as) :
    a ∈ found ∨ ∃ k n, item (s.forward k) = .ok (a, n) := by
  fun_induction readAll item found s with
  | case1 found s s' hs =>
    cases h
    exact .inl (List.mem_reverse.mp ha)
  | case2 found s s' c cs hs fault hi => cases h
  | case3 found s s' c cs hs b n hi ih =>
    rcases ih h with hm | ⟨k, m, hk⟩
    · rcases List.mem_cons.mp hm with rfl | hm
      · exact .inr ⟨_, n, hi⟩
      · exact .inl hm
    · rw [Cursor.forward_forward, Cursor.forward_forward] at hk
      exact .inr ⟨_, m, hk⟩

end

end WidgetJsx.Expression
