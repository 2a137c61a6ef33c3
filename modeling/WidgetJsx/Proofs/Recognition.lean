import WidgetJsx.Proofs.Crossing
import WidgetJsx.Proofs.Form
import WidgetJsx.Proofs.TypeArguments

/-! What is written is recognised. Where the readers of forms, items and keys stand at the start of a
text of one kind, they take all of that text, and for what it is. -/

namespace WidgetJsx.Expression

open Text (Cursor)

section

variable {s list items : Cursor} {call : Call} {m n : Nat}

theorem readForm_compound (h : Compound s) : readForm s = compoundForm s (keywordLength s.ahead) := by
  rw [readForm, h.not_string, h.not_number, h.not_true, h.not_false]
  rfl

theorem compoundForm_call (h : CallAt (unworded s) call n) :
    compoundForm s (keywordLength s.ahead) =
      .ok (if Widget.isWidgetName call.name then .widget call
        else .construction ((unworded s).text n), keywordLength s.ahead + n) := by
  obtain ⟨hp, hname, ho, m, he, rfl⟩ := h
  obtain ⟨name, arguments⟩ := call
  simp only [compoundForm, show s.forward (keywordLength s.ahead) = unworded s from rfl, opening_eq]
  rw [if_pos ⟨hp, ho⟩, bracketed_eq_ok_iff.mpr he, ← show name = _ from hname]
  rfl

theorem compoundForm_reference (ho : (opening (unworded s)).next? ≠ some '(')
    (hd : '.' ∈ (unworded s).ahead.take (pathLength (unworded s).ahead)) :
    compoundForm s (keywordLength s.ahead) =
      .ok (.reference ((unworded s).text (pathLength (unworded s).ahead)),
        keywordLength s.ahead + pathLength (unworded s).ahead) := by
  simp only [compoundForm, show s.forward (keywordLength s.ahead) = unworded s from rfl, opening_eq]
  rw [if_neg fun h => ho h.2, if_pos (by simpa using hd)]
  rfl

theorem pathLength_cons {c : Char} (hc : isNameStart c = false) (cs : List Char) :
    pathLength (c :: cs) = 0 := by
  rw [pathLength, if_neg (by simp [hc])]

theorem compoundForm_list (hn : (unworded s).next? = some '[') (he : Encloses (unworded s) items n) :
    compoundForm s (keywordLength s.ahead) = .ok (.widgets items, keywordLength s.ahead + n) := by
  obtain ⟨cs, hc⟩ := List.head?_eq_some_iff.mp hn
  have hz : pathLength (unworded s).ahead = 0 := by rw [hc, pathLength_cons (by decide)]
  simp only [compoundForm, show s.forward (keywordLength s.ahead) = unworded s from rfl, hz]
  rw [if_neg (by simp), if_neg (by simp), if_pos hn, listForm, bracketed_eq_ok_iff.mpr he]
  rfl

theorem compoundForm_typed (hn : (unworded s).next? = some '<')
    (ht : typedList? (unworded s) = some (list, m)) (he : Encloses list items n) :
    compoundForm s (keywordLength s.ahead) = .ok (.widgets items, keywordLength s.ahead + m + n) := by
  obtain ⟨cs, hc⟩ := List.head?_eq_some_iff.mp hn
  have hz : pathLength (unworded s).ahead = 0 := by rw [hc, pathLength_cons (by decide)]
  simp only [compoundForm, show s.forward (keywordLength s.ahead) = unworded s from rfl, hz]
  rw [if_neg (by simp), if_neg (by simp), if_neg (by simp [hn]), if_pos hn, ht]
  simp only [listForm, bracketed_eq_ok_iff.mpr he]
  rfl

theorem readItem_call (h : CallAt (unworded s) call n) (hw : Widget.isWidgetName call.name = true) :
    readItem s = .ok (some call, keywordLength s.ahead + n) := by
  obtain ⟨-, hname, ho, m, he, rfl⟩ := h
  obtain ⟨name, arguments⟩ := call
  have hname : name = (unworded s).text (pathLength (unworded s).ahead) := hname
  simp only [readItem, show s.forward (keywordLength s.ahead) = unworded s from rfl, opening_eq]
  rw [← hname, if_pos ⟨ho, hw⟩, bracketed_eq_ok_iff.mpr he]
  simp only [Nat.add_assoc]
  rfl

end

section

variable {behind u k next rest : List Char} {names : List (List Char)}

theorem numberLength_eq_zero {c : Char} (hd : c.isDigit = false) (hm : c ≠ '-') (cs : List Char) :
    numberLength (c :: cs) = 0 := by
  have hh : hexLength (c :: cs) = 0 := hexLength_eq_zero fun he => by simp [he] at hd
  have hl : digitsLength (c :: cs) = 0 := by simp [digitsLength, hd]
  rw [numberLength_unsigned hh (by simpa using hm), decimalLength_eq, if_pos hl]

theorem IsName.numberLength_eq_zero (h : IsName u) (rest : List Char) : numberLength (u ++ rest) = 0 := by
  cases u with
  | nil => exact absurd h id
  | cons c u =>
    refine Expression.numberLength_eq_zero ?_ ?_ _
    · apply Bool.eq_false_iff.mpr
      intro hd
      have := isNameStart_eq_false_of_isDigit hd
      simp [h.1] at this
    · exact ne_of_isNameChar (isNameChar_of_isNameStart h.1)

theorem IsName.startsString_eq_false (h : IsName u)
    (hq : u = ['r'] → ∀ q ∈ rest.head?, isQuote q = false) (previous : Char) :
    startsString previous (u ++ rest) = false := by
  cases u with
  | nil => exact absurd h id
  | cons c u =>
    have hc := isQuote_eq_false_of_isNameChar (isNameChar_of_isNameStart h.1)
    rw [List.cons_append, startsString_cons, hc, Bool.false_or]
    by_cases hr : c = 'r'
    · subst hr
      have hany : (u ++ rest).head?.any isQuote = false := by
        cases u with
        | nil =>
          cases rest with
          | nil => rfl
          | cons q rest => exact hq rfl q rfl
        | cons d u => exact isQuote_eq_false_of_isNameChar (h.2 d (by simp))
      rw [hany]
      simp
    · simp [hr]

theorem compound_of_isName (h : IsName u) (he : Ends rest)
    (hq : u = ['r'] → ∀ q ∈ rest.head?, isQuote q = false)
    (hu : ∀ word ∈ ["true", "false"], u ≠ word.toList) (behind : List Char) :
    Compound ⟨behind, u ++ rest⟩ := by
  have hwords : ∀ word ∈ ["true", "false"], IsName word.toList := by decide
  have hword : ∀ word ∈ ["true", "false"], startsWithWord word (u ++ rest) = false := by
    intro word hw
    apply Bool.eq_false_iff.mpr
    intro hs
    exact hu word hw ((h.startsWithWord_iff he (hwords word hw)).mp hs)
  exact ⟨h.startsString_eq_false hq _, h.numberLength_eq_zero rest, hword _ (by simp), hword _ (by simp)⟩

theorem Keyword.compound (hk : Keyword next k) (h : Compound ⟨behind, next⟩) :
    Compound ⟨behind, k ++ next⟩ := by
  cases hk with
  | none => exact h
  | @word word gap hw _ he =>
    have hwords : ∀ word ∈ keywords, word.toList ≠ ['r'] ∧
        ∀ other ∈ ["true", "false"], word.toList ≠ other.toList := by decide
    obtain ⟨hr, hother⟩ := hwords word hw
    rw [List.append_assoc]
    exact compound_of_isName (isName_of_mem_keywords word hw) he (fun heq => absurd heq hr) hother behind

theorem TypesInFront.compound (h : TypesInFront u) (behind cs : List Char) :
    Compound ⟨behind, u ++ '[' :: cs⟩ := by
  have hmark : ∀ c ∈ ['[', '<'], ∀ cs, Compound ⟨behind, c :: cs⟩ := by
    intro c hc cs
    have hc : isQuote c = false ∧ c ≠ 'r' ∧ c.isDigit = false ∧ c ≠ '-' ∧ c ≠ 't' ∧ c ≠ 'f' := by
      simp only [List.mem_cons, List.not_mem_nil, or_false] at hc
      rcases hc with rfl | rfl <;> decide
    obtain ⟨hq, hr, hd, hm, ht, hf⟩ := hc
    refine ⟨startsString_eq_false hq hr _ _, numberLength_eq_zero hd hm _, ?_, ?_⟩
    · apply Bool.eq_false_iff.mpr
      intro hs
      obtain ⟨rest, he, -⟩ := startsWithWord_iff.mp hs
      exact ht (List.cons.inj he).1
    · apply Bool.eq_false_iff.mpr
      intro hs
      obtain ⟨rest, he, -⟩ := startsWithWord_iff.mp hs
      exact hf (List.cons.inj he).1
  cases h with
  | none => exact hmark '[' (by simp) _
  | angles _ _ => exact hmark '<' (by simp) _

theorem Delimiter.LiteralOf.readForm_eq {d : Delimiter} {text : List Char} (h : d.LiteralOf text u)
    (hb : isNameChar (behind.headD '\n') = false) (hr : Breaks rest) :
    readForm ⟨behind, u ++ rest⟩ = .ok (.string (String.ofList text), u.length) := by
  obtain ⟨hs, hl, ht⟩ := h.reads hb hr
  have hs : startsString (Cursor.mk behind (u ++ rest)).previous (u ++ rest) = true := hs
  rw [readForm, if_pos hs]
  simp only [hl, ht]
  rfl

theorem IsNumber.startsString_eq_false (h : IsNumber u) (previous : Char) :
    startsString previous (u ++ rest) = false := by
  have hmarks : ∀ c ∈ ['-', '.', 'x', 'X'], isQuote c = false ∧ c ≠ 'r' := by
    intro c hc
    simp only [List.mem_cons, List.not_mem_nil, or_false] at hc
    rcases hc with rfl | rfl | rfl | rfl <;> decide
  have hhex : ∀ c, isHexDigit c = true → c ≠ 'r' := by
    rintro _ h rfl
    exact absurd h (by decide)
  cases u with
  | nil => exact absurd rfl h.firm.ne_nil
  | cons c u =>
    rcases h.mem c (by simp) with hc | hc
    · exact Expression.startsString_eq_false
        (isQuote_eq_false_of_isNameChar (isNameChar_of_isHexDigit hc)) (hhex c hc) _ _
    · exact Expression.startsString_eq_false (hmarks c hc).1 (hmarks c hc).2 _ _

theorem IsNumber.readForm_eq (h : IsNumber u) (hr : Breaks rest) (behind : List Char) :
    readForm ⟨behind, u ++ rest⟩ = .ok (.number (String.ofList u), u.length) := by
  have hl : numberLength (u ++ rest) = u.length := h.numberLength_eq hr
  have hpos : 0 < u.length := List.length_pos_iff.mpr h.firm.ne_nil
  have hs : startsString (Cursor.mk behind (u ++ rest)).previous (u ++ rest) = false :=
    h.startsString_eq_false _
  rw [readForm, hs]
  simp only [hl, hpos, Cursor.text, List.take_left]
  rfl

theorem readForm_boolean (value : Bool) (hr : Breaks rest) (behind : List Char) :
    readForm ⟨behind, (toString value).toList ++ rest⟩ =
      .ok (.boolean value, (toString value).toList.length) := by
  have hword : ∀ value : Bool, IsName (toString value).toList ∧ (toString value).toList ≠ ['r'] := by
    decide
  obtain ⟨hn, hne⟩ := hword value
  have hs : startsString (Cursor.mk behind ((toString value).toList ++ rest)).previous
      ((toString value).toList ++ rest) = false :=
    hn.startsString_eq_false (fun he => absurd he hne) _
  have hz : numberLength ((toString value).toList ++ rest) = 0 := by
    cases value <;> exact numberLength_eq_zero (by decide) (by decide) _
  have hstart : startsWithWord (toString value) ((toString value).toList ++ rest) = true :=
    startsWithWord_iff.mpr ⟨rest, rfl, hr.ends⟩
  rw [readForm, if_neg (Bool.eq_false_iff.mp hs), if_neg (by simp [hz])]
  cases value with
  | true =>
    have hstart : startsWithWord "true" ((toString true).toList ++ rest) = true := hstart
    rw [if_pos hstart]
    rfl
  | false =>
    have hno : startsWithWord "true" ((toString false).toList ++ rest) = false := rfl
    have hstart : startsWithWord "false" ((toString false).toList ++ rest) = true := hstart
    rw [if_neg (Bool.eq_false_iff.mp hno), if_pos hstart]
    rfl

theorem PathOf.compound (hp : PathOf names u) (hu : Unreserved names) (hr : Breaks rest)
    (behind : List Char) : Compound ⟨behind, u ++ rest⟩ := by
  obtain ⟨name, more, hhead, hname, rfl, hdot⟩ := hp.head_eq
  have hbreaks : ∀ c ∈ (more ++ rest).head?, isNameChar c = false ∧ isQuote c = false := by
    cases more with
    | nil => exact fun c hc => ⟨(hr c hc).1, (hr c hc).2.2⟩
    | cons c more =>
      obtain rfl := hdot c rfl
      simp [isQuote]
      decide
  have hwords : ∀ word ∈ ["true", "false"], word ∈ reserved := by decide
  rw [List.append_assoc]
  refine compound_of_isName hname (fun c hc => (hbreaks c hc).1) (fun _ q hq => (hbreaks q hq).2) ?_ behind
  intro word hw he
  exact hu word (hwords word hw) (by rw [hhead, he])

theorem readForm_reference (hk : Keyword u k) (hp : PathOf names u) (hu : Unreserved names)
    (hl : 2 ≤ names.length) (hr : Follows rest) (behind : List Char) :
    readForm ⟨behind, k ++ (u ++ rest)⟩ = .ok (.reference (String.ofList u), (k ++ u).length) := by
  obtain ⟨gap, more, rfl, hg, hm⟩ := hr
  have hbreaks : Breaks (gap ++ more) := hg.breaks (breaks_of_separator hm)
  obtain ⟨hkeyword, hunworded⟩ := unworded_append (hk.append hp.firm.ne_nil (gap ++ more))
    (hp.firm.append _).solid (hu.keywordLength_eq hp hbreaks.ends) behind
  obtain ⟨hpath, -, ho⟩ := opening_append hp hg (breaks_of_separator hm) (solid_of_separator hm)
    (k.reverse ++ behind)
  have hno : more.head? ≠ some '(' := by
    intro he
    rcases hm '(' he with hc | hc <;> exact absurd hc (by decide)
  have hcompound := (hk.append hp.firm.ne_nil _).compound (hp.compound hu hbreaks behind)
  have hform := compoundForm_reference (s := ⟨behind, k ++ (u ++ (gap ++ more))⟩)
  rw [hunworded, ho] at hform
  simp only [hkeyword, hpath, List.take_left, Cursor.text] at hform
  rw [readForm_compound hcompound, List.length_append]
  simp only [hkeyword]
  exact hform hno (hp.dot_mem_iff.mpr hl)

theorem encloses_append {c k p : Char} (hk : closerOf? c = some k)
    (hc : closing? p (c :: (u ++ k :: rest)) = some (u.length + 1)) (behind : List Char) :
    Encloses ⟨behind, c :: (u ++ k :: rest)⟩ ⟨c :: behind, u⟩ (u.length + 2) := by
  refine ⟨u.length + 1, ?_, ?_, rfl⟩
  · rw [← hc]
    exact closing?_previous hk _ _ _
  · ext1 <;> simp

section

variable {gap body : List Char} {p : Char}

theorem callAt_written (hp : PathOf names u) (hg : Trivia gap)
    (hc : closing? p ('(' :: (body ++ ')' :: rest)) = some (body.length + 1)) (behind : List Char) :
    CallAt ⟨behind, u ++ (gap ++ '(' :: (body ++ [')'])) ++ rest⟩
      ⟨String.ofList u, ⟨'(' :: (gap.reverse ++ (u.reverse ++ behind)), body⟩⟩
      (u ++ (gap ++ '(' :: (body ++ [')']))).length := by
  have h := callAt_append hp hg hc behind
  rw [Nat.add_sub_cancel, List.take_left] at h
  have ha : u ++ (gap ++ '(' :: (body ++ [')'])) ++ rest = u ++ (gap ++ '(' :: (body ++ ')' :: rest)) := by
    simp
  have hl : (u ++ (gap ++ '(' :: (body ++ [')']))).length =
      u.length + gap.length + (body.length + 1 + 1) := by
    simp only [List.length_append, List.length_cons, List.length_nil]
    omega
  rwa [ha, hl]

/-- A call that is written is read up to its closing bracket, and what may stand at the end follows. -/
theorem readCall_written {lead trail : List Char} (hp : PathOf names u)
    (hn : ∀ word ∈ keywords, names.head? ≠ some word.toList) (hl : Trivia lead)
    (hk : Keyword (u ++ (gap ++ '(' :: (body ++ [')']))) k) (hg : Trivia gap)
    (hc : closing? p ('(' :: (body ++ ')' :: trail)) = some (body.length + 1)) (ht : Terminators trail) :
    ∃ rest, readCall (.ofList (lead ++ (k ++ (u ++ (gap ++ '(' :: (body ++ [')'])) ++ trail)))) =
      .ok (⟨String.ofList u, ⟨'(' :: (gap.reverse ++ (u.reverse ++ (lead ++ k).reverse)), body⟩⟩, rest) ∧
        expectEnd rest = .ok () := by
  have hfirm : Firm (u ++ (gap ++ '(' :: (body ++ [')']))) := hp.firm.append _
  have hz : keywordLength (u ++ (gap ++ '(' :: (body ++ [')'])) ++ trail) = 0 := by
    rw [List.append_assoc]
    exact hp.keywordLength_eq hn (breaks_call hg _ _).ends
  have hstart := callStart_eq hl (hk.append hfirm.ne_nil trail) (hfirm.append trail).solid hz []
  have hcall := callAt_written hp hg hc ((lead ++ k).reverse ++ [])
  rw [← hstart, List.append_nil] at hcall
  refine ⟨_, readCall_eq_ok_iff.mpr ⟨_, hcall, rfl⟩, ?_⟩
  rw [Cursor.ofList, hstart, Cursor.forward_append, expectEnd_eq_ok_iff, terminatorsLength,
    ht.gapLength_eq (by decide)]

variable (hp : PathOf names u) (hu : Unreserved names) (hg : Trivia gap)
  (hk : Keyword (u ++ (gap ++ '(' :: (body ++ [')']))) k)
  (hc : closing? p ('(' :: (body ++ ')' :: rest)) = some (body.length + 1))
include hp hu hg hk hc

theorem unworded_call (behind : List Char) :
    keywordLength (k ++ (u ++ (gap ++ '(' :: (body ++ [')'])) ++ rest)) = k.length ∧
      unworded ⟨behind, k ++ (u ++ (gap ++ '(' :: (body ++ [')'])) ++ rest)⟩ =
        ⟨k.reverse ++ behind, u ++ (gap ++ '(' :: (body ++ [')'])) ++ rest⟩ ∧
      CallAt (unworded ⟨behind, k ++ (u ++ (gap ++ '(' :: (body ++ [')'])) ++ rest)⟩)
        ⟨String.ofList u, ⟨'(' :: (gap.reverse ++ (u.reverse ++ (k.reverse ++ behind))), body⟩⟩
        (u ++ (gap ++ '(' :: (body ++ [')']))).length := by
  have hbreaks : Breaks (gap ++ '(' :: (body ++ [')']) ++ rest) := breaks_call hg _ _
  have hz : keywordLength (u ++ (gap ++ '(' :: (body ++ [')'])) ++ rest) = 0 := by
    rw [List.append_assoc]
    exact hu.keywordLength_eq hp hbreaks.ends
  have hfirm : Firm (u ++ (gap ++ '(' :: (body ++ [')']))) := hp.firm.append _
  obtain ⟨hkeyword, hunworded⟩ := unworded_append (hk.append hfirm.ne_nil rest)
    (hfirm.append rest).solid hz behind
  refine ⟨hkeyword, hunworded, ?_⟩
  rw [hunworded]
  exact callAt_written hp hg hc _

theorem readForm_call (behind : List Char) :
    readForm ⟨behind, k ++ (u ++ (gap ++ '(' :: (body ++ [')'])) ++ rest)⟩ =
      .ok (if Widget.isWidgetName (String.ofList u) then
          .widget ⟨String.ofList u,
            ⟨'(' :: (gap.reverse ++ (u.reverse ++ (k.reverse ++ behind))), body⟩⟩
        else .construction (String.ofList (u ++ (gap ++ '(' :: (body ++ [')'])))),
        (k ++ (u ++ (gap ++ '(' :: (body ++ [')'])))).length) := by
  have hbreaks : Breaks (gap ++ '(' :: (body ++ [')']) ++ rest) := breaks_call hg _ _
  have hnext : Compound ⟨behind, u ++ (gap ++ '(' :: (body ++ [')'])) ++ rest⟩ := by
    rw [List.append_assoc]
    exact hp.compound hu hbreaks behind
  have hcompound := (hk.append (hp.firm.append _).ne_nil rest).compound hnext
  obtain ⟨hkeyword, hunworded, hcall⟩ := unworded_call hp hu hg hk hc behind
  rw [readForm_compound hcompound, compoundForm_call hcall, hkeyword, hunworded, Cursor.text,
    List.take_left, @List.length_append _ k]

theorem readItem_written (hw : Widget.isWidgetName (String.ofList u) = true) (behind : List Char) :
    readItem ⟨behind, k ++ (u ++ (gap ++ '(' :: (body ++ [')'])) ++ rest)⟩ =
      .ok (some ⟨String.ofList u,
          ⟨'(' :: (gap.reverse ++ (u.reverse ++ (k.reverse ++ behind))), body⟩⟩,
        (k ++ (u ++ (gap ++ '(' :: (body ++ [')'])))).length) := by
  obtain ⟨hkeyword, -, hcall⟩ := unworded_call hp hu hg hk hc behind
  rw [readItem_call hcall hw, hkeyword, @List.length_append _ k]

end

theorem readForm_list {types items : List Char} {p : Char} (ht : TypesInFront types)
    (hk : Keyword (types ++ '[' :: (items ++ [']'])) k)
    (hc : closing? p ('[' :: (items ++ ']' :: rest)) = some (items.length + 1)) (behind : List Char) :
    readForm ⟨behind, k ++ (types ++ '[' :: (items ++ [']']) ++ rest)⟩ =
      .ok (.widgets ⟨'[' :: (types.reverse ++ (k.reverse ++ behind)), items⟩,
        (k ++ (types ++ '[' :: (items ++ [']']))).length) := by
  have ha : types ++ '[' :: (items ++ [']']) ++ rest = types ++ '[' :: (items ++ ']' :: rest) := by simp
  have hkey : Keyword (types ++ '[' :: (items ++ ']' :: rest)) k :=
    ha ▸ hk.append (ht.firm _).ne_nil rest
  obtain ⟨hkeyword, hunworded⟩ := unworded_append hkey (ht.firm _).solid (ht.keywordLength_eq _) behind
  have hlist := encloses_append (c := '[') rfl hc (types.reverse ++ (k.reverse ++ behind))
  have hl : (types ++ '[' :: (items ++ [']'])).length = types.length + (items.length + 2) := by
    simp only [List.length_append, List.length_cons, List.length_nil]
  rw [ha, readForm_compound (hkey.compound (ht.compound behind _)), @List.length_append _ k, hl]
  by_cases hne : types = []
  · subst hne
    have hform := compoundForm_list (s := ⟨behind, k ++ ([] ++ '[' :: (items ++ ']' :: rest))⟩)
      (by rw [hunworded]; rfl) (hunworded ▸ hlist)
    rw [hform, hkeyword, List.length_nil, Nat.zero_add]
  · have htyped := ht.typedList?_eq hne (k.reverse ++ behind) (items ++ ']' :: rest)
    have hform := compoundForm_typed (s := ⟨behind, k ++ (types ++ '[' :: (items ++ ']' :: rest))⟩)
      (by rw [hunworded]; exact ht.head?_eq hne _) (hunworded ▸ htyped) hlist
    rw [hform, hkeyword, Nat.add_assoc]

theorem readKey?_written {key before after : List Char} (hk : IsName key) (hb : Trivia before)
    (ha : Trivia after) (hn : Firm next) (behind : List Char) :
    readKey? ⟨behind, key ++ (before ++ ':' :: (after ++ next))⟩ =
      some (String.ofList key, (key ++ (before ++ ':' :: after)).length) := by
  have hcolon : Breaks (before ++ ':' :: (after ++ next)) :=
    hb.breaks (breaks_cons (by decide) (by decide) (by decide) _)
  have hname : nameLength (key ++ (before ++ ':' :: (after ++ next))) = key.length :=
    hk.nameLength_eq hcolon.ends
  have hbefore : triviaLength (before ++ ':' :: (after ++ next)) = before.length :=
    hb.gapLength_eq (by decide) (solid_cons (by decide) (by decide) _)
  have hafter : triviaLength (after ++ next) = after.length := ha.gapLength_eq (by decide) hn.solid
  have hhead : (after ++ next).head? ≠ some ':' := by
    have hd : ∀ c ∈ (after ++ next).head?, c ≠ ':' := by
      refine ha.head_append (fun c hc he => ?_) (by decide) fun c hc he => hn.head?_ne (he ▸ hc)
      exact absurd (he ▸ hc) (by decide)
    exact fun he => hd ':' he rfl
  have hdrop : (key ++ (before ++ ':' :: (after ++ next))).drop (key.length + before.length) =
      ':' :: (after ++ next) := by
    rw [← List.drop_drop, List.drop_left, List.drop_left]
  simp only [readKey?, hname, List.drop_left, hbefore, hdrop, hafter, Cursor.text, List.take_left]
  rw [if_neg]
  · simp only [List.length_append, List.length_cons]
    congr 2
    omega
  · rintro (hz | hc)
    · exact hk.ne_nil (List.length_eq_zero_iff.mp hz)
    · exact hhead hc

end

/-- The text does not start with a name that a colon follows. -/
def Keyless (u : List Char) : Prop :=
  (u.drop (nameLength u + triviaLength (u.drop (nameLength u)))).head? ≠ some ':'

section

variable {gap k more next rest u : List Char} {c : Char} {names : List (List Char)}

theorem Keyless.readKey?_eq_none (h : Keyless u) (behind : List Char) : readKey? ⟨behind, u⟩ = none := by
  simp only [readKey?]
  split
  · rename_i cs hcs
    rw [Keyless, hcs] at h
    exact absurd rfl h
  · rfl

theorem keyless_cons (hc : isNameStart c = false) {cs : List Char} (h : Firm (c :: cs)) :
    Keyless (c :: cs) := by
  have hname : nameLength (c :: cs) = 0 := by simp [nameLength, hc]
  have hgap : triviaLength (c :: cs) = 0 := h.solid
  rw [Keyless, hname, List.drop_zero, hgap]
  exact h.head?_ne

theorem IsName.keyless (hn : IsName u) (hg : Trivia gap) (he : Ends (gap ++ more))
    (hs : Solid Text.isBlank more) (hm : more.head? ≠ some ':') : Keyless (u ++ (gap ++ more)) := by
  have hname : nameLength (u ++ (gap ++ more)) = u.length := hn.nameLength_eq he
  have hgap : triviaLength (gap ++ more) = gap.length := hg.gapLength_eq (by decide) hs
  rw [Keyless, hname, List.drop_left, hgap, ← List.drop_drop, List.drop_left, List.drop_left]
  exact hm

theorem PathOf.keyless (hp : PathOf names u) (hg : Trivia gap) (he : Ends (gap ++ more))
    (hs : Solid Text.isBlank more) (hm : more.head? ≠ some ':') : Keyless (u ++ (gap ++ more)) := by
  obtain ⟨name, tail, -, hname, rfl, hdot⟩ := hp.head_eq
  cases tail with
  | nil =>
    rw [List.append_nil]
    exact IsName.keyless hname hg he hs hm
  | cons c tail =>
    obtain rfl := hdot c rfl
    rw [List.append_assoc]
    have hnone : Trivia [] := .nil
    have hends : Ends ([] ++ '.' :: (tail ++ (gap ++ more))) := ends_cons (by decide) _
    have hkeyless := hname.keyless hnone hends (solid_cons (by decide) (by decide) _) (by simp)
    exact hkeyless

theorem PathOf.keyless_call (hp : PathOf names u) (hg : Trivia gap) (cs : List Char) :
    Keyless (u ++ (gap ++ '(' :: cs)) :=
  hp.keyless hg (hg.breaks (breaks_parenthesis cs)).ends (solid_cons (by decide) (by decide) cs) (by simp)

theorem Keyword.keyless (hk : Keyword next k) (hn : Firm next) (h : Keyless (next ++ rest)) :
    Keyless (k ++ next ++ rest) := by
  rw [List.append_assoc]
  cases hk.append hn.ne_nil rest with
  | none => exact h
  | @word word gap hw hg he =>
    have hfirm := hn.append rest
    rw [List.append_assoc]
    exact IsName.keyless (isName_of_mem_keywords word hw) hg he hfirm.solid hfirm.head?_ne

theorem IsNumber.keyless (h : IsNumber u) (hr : Breaks rest) : Keyless (u ++ rest) := by
  have hlength := h.numberLength_eq hr
  have hfirm := h.firm
  cases u with
  | nil => exact absurd rfl hfirm.ne_nil
  | cons c u =>
    refine keyless_cons (Bool.eq_false_iff.mpr fun hc => ?_) (hfirm.append rest)
    have hdigit : c.isDigit = false := by
      refine Bool.eq_false_iff.mpr fun hd => ?_
      simp [isNameStart_eq_false_of_isDigit hd] at hc
    rw [List.cons_append,
      numberLength_eq_zero hdigit (ne_of_isNameChar (isNameChar_of_isNameStart hc))] at hlength
    simp at hlength

theorem TypesInFront.keyless {types : List Char} (h : TypesInFront types) (cs : List Char) :
    Keyless (types ++ '[' :: cs) := by
  have hfirm := h.firm cs
  cases h with
  | none => exact keyless_cons (by decide) hfirm
  | angles _ _ => exact keyless_cons (by decide) hfirm

theorem keyless_of_startsString {previous : Char} (h : startsString previous u = true) : Keyless u := by
  have hfirm : ∀ {q : Char} (ds : List Char), isQuote q = true → Firm (q :: ds) := by
    intro q ds hq
    rcases isQuote_cases hq with rfl | rfl <;> exact ⟨_, ds, rfl, by decide, by decide⟩
  rcases startsString_cases h with ⟨q, ds, rfl, hq, -⟩ | ⟨q, ds, rfl, hq⟩
  · have hends : Ends (q :: ds) := by
      rcases isQuote_cases hq with rfl | rfl <;> exact ends_cons (by decide) ds
    have hname : IsName ['r'] := by decide
    have hnone : Trivia [] := .nil
    exact hname.keyless hnone hends (hfirm ds hq).solid (hfirm ds hq).head?_ne
  · have hstart : isNameStart q = false := by
      rcases isQuote_cases hq with rfl | rfl <;> decide
    exact keyless_cons hstart (hfirm ds hq)

end

end WidgetJsx.Expression
