import WidgetJsx.Proofs.NumberValue

/-! Which number is read from a text: of all the places in it where a decimal stands, with a minus sign or
without, the leftmost, and of the decimals that begin there the longest. -/

namespace WidgetJsx

/-- A word at a place in a text. -/
structure Occurrence (text : List Char) where
  before : List Char
  word : List Char
  behind : List Char
  eq : text = before ++ (word ++ behind)

namespace Occurrence

variable {text : List Char} {P : List Char → Prop} {m m' : Occurrence text}

/-- No word of the language begins further to the left, and none that begins at this place is longer. -/
structure Leftmost (P : List Char → Prop) (m : Occurrence text) : Prop where
  accepted : P m.word
  first : ∀ m' : Occurrence text, P m'.word → m.before.length ≤ m'.before.length
  longest : ∀ m' : Occurrence text, P m'.word → m'.before = m.before → m'.word.length ≤ m.word.length

theorem before_eq (h : m.before.length = m'.before.length) :
    m.before = m'.before ∧ m.word ++ m.behind = m'.word ++ m'.behind :=
  List.append_inj (m.eq.symm.trans m'.eq) h

theorem Leftmost.unique (h : m.Leftmost P) (h' : m'.Leftmost P) : m = m' := by
  obtain ⟨hbefore, hrest⟩ := before_eq (Nat.le_antisymm (h.first m' h'.accepted) (h'.first m h.accepted))
  have hle := h'.longest m h.accepted hbefore
  have hge := h.longest m' h'.accepted hbefore.symm
  obtain ⟨hword, hbehind⟩ := List.append_inj hrest (Nat.le_antisymm hle hge)
  cases m
  cases m'
  simp_all

end Occurrence

namespace Expression

/-- A decimal with a minus sign in front, or without. -/
def IsSigned (cs : List Char) : Prop :=
  ∃ (negative : Bool) (u : List Char), IsDecimal u ∧ cs = (if negative then ['-'] else []) ++ u

theorem isDecimal_take {cs : List Char} (h : decimalLength cs ≠ 0) :
    IsDecimal (cs.take (decimalLength cs)) := by
  obtain ⟨u, rest, rfl, hl, hnumber⟩ := decimal_split h
  rw [hl, List.take_left]
  -- with a sign in front, so that it cannot be in base sixteen
  rcases (hnumber ['-'] (.inr rfl)).cases with ⟨negative, v, hv, he⟩ | ⟨x, ds, -, -, he⟩
  · cases negative with
    | true =>
      obtain rfl := (List.cons.inj he).2
      exact hv
    | false =>
      have hv' : '-' ∈ v := by
        rw [show v = '-' :: u from he.symm]
        exact List.mem_cons_self
      exact absurd hv' (hv.not_mem (by decide) (by decide))
  · exact absurd (List.cons.inj he).1 (by decide)

theorem length_le_digitsLength {ds : List Char} (h : ∀ c ∈ ds, c.isDigit = true) (rest : List Char) :
    ds.length ≤ digitsLength (ds ++ rest) := by
  rw [digitsLength, List.takeWhile_append_of_pos h, List.length_append]
  exact Nat.le_add_right _ _

/-- Whatever follows a decimal, one that is at least as long is found. -/
theorem IsDecimal.length_le_decimalLength {u : List Char} (h : IsDecimal u) (rest : List Char) :
    u.length ≤ decimalLength (u ++ rest) := by
  cases h with
  | whole hd =>
    have hle := length_le_digitsLength hd.all rest
    have hpos := hd.length_pos
    rw [Expression.decimalLength_eq, if_neg (by omega)]
    exact hle.trans (Nat.le_add_right _ _)
  | @point ds es hd he =>
    have hle := length_le_digitsLength he.all rest
    have hpos := he.length_pos
    have hfraction : fractionLength ('.' :: (es ++ rest)) = digitsLength (es ++ rest) + 1 :=
      if_neg (by omega)
    rw [List.append_assoc, List.cons_append, hd.decimalLength_eq (by simp), hfraction, List.length_append,
      List.length_cons]
    omega

theorem length_le_of_isDigit {front rest before rest' : List Char} {d : Char}
    (hfront : ∀ c ∈ front, c.isDigit = false) (hd : d.isDigit = true)
    (h : front ++ rest = before ++ d :: rest') : front.length ≤ before.length := by
  rcases List.append_eq_append_iff.mp h with ⟨more, rfl, -⟩ | ⟨more, rfl, he⟩
  · rw [List.length_append]
    exact Nat.le_add_right _ _
  · cases more with
    | nil => rw [List.append_nil]
    | cons c more =>
      obtain ⟨rfl, -⟩ := List.cons.inj he
      rw [hfront d (by simp)] at hd
      exact absurd hd Bool.false_ne_true

/-- The sign belongs to the word that a decimal begins with. -/
theorem IsDecimal.signed_inj {u v r t : List Char} {n k : Bool} (hu : IsDecimal u) (hv : IsDecimal v)
    (h : (if n then ['-'] else []) ++ (u ++ r) = (if k then ['-'] else []) ++ (v ++ t)) :
    n = k ∧ u ++ r = v ++ t := by
  obtain ⟨d, ds, rfl, hd⟩ := hu.exists_cons
  obtain ⟨e, es, rfl, he⟩ := hv.exists_cons
  have hdigit : ∀ {c : Char}, c.isDigit = true → c ≠ '-' := by
    rintro c hc rfl
    exact absurd hc (by decide)
  cases n with
  | true =>
    cases k with
    | true => exact ⟨rfl, (List.cons.inj h).2⟩
    | false => exact absurd (List.cons.inj h).1.symm (hdigit he)
  | false =>
    cases k with
    | true => exact absurd (List.cons.inj h).1 (hdigit hd)
    | false => exact ⟨rfl, h⟩

end Expression

namespace Style

open Binary64 Expression

/-- What the search for a number comes by: no digits, a minus sign perhaps, and the number itself. -/
theorem leftmostNumber?_split {cs u : List Char} {before negative : Bool}
    (h : leftmostNumber? before cs = some (negative, u)) : ∃ front behind, cs = front ++ (u ++ behind) ∧
      (∀ c ∈ front, c.isDigit = false) ∧ negative = front.getLast?.elim before (· == '-') ∧
        IsDecimal u ∧ decimalLength (u ++ behind) = u.length := by
  induction cs generalizing before with
  | nil => cases h
  | cons c cs ih =>
    rw [leftmostNumber?] at h
    by_cases hc : c.isDigit = true
    · rw [if_pos hc] at h
      obtain ⟨rfl, rfl⟩ := Prod.mk.inj (Option.some.inj h)
      have hdigits : digitsLength (c :: cs) ≠ 0 := by simp [digitsLength, hc]
      have hpos : decimalLength (c :: cs) ≠ 0 := by
        rw [decimalLength_eq, if_neg hdigits]
        omega
      have hu := isDecimal_take hpos
      refine ⟨[], (c :: cs).drop (decimalLength (c :: cs)), (List.take_append_drop _ _).symm, by simp, rfl,
        hu, ?_⟩
      have hle := hu.length_le_decimalLength ((c :: cs).drop (decimalLength (c :: cs)))
      rw [List.take_append_drop] at hle ⊢
      obtain ⟨v, rest, he, hl, -⟩ := decimal_split hpos
      rw [hl, he, List.take_left]
    · rw [if_neg hc] at h
      obtain ⟨front, behind, rfl, hfront, hsign, hu, hl⟩ := ih h
      refine ⟨c :: front, behind, rfl, ?_, ?_, hu, hl⟩
      · intro d hd
        rcases List.mem_cons.mp hd with rfl | hd
        · exact Bool.eq_false_iff.mpr hc
        · exact hfront d hd
      · rw [hsign]
        cases front using List.reverseRecOn with
        | nil => rfl
        | append_singleton front d =>
          rw [← List.cons_append, List.getLast?_concat, List.getLast?_concat]
          rfl

/-- The minus sign that counts stands right in front of the digits. -/
theorem exists_before_sign {front : List Char} {negative : Bool}
    (h : negative = front.getLast?.elim false (· == '-')) :
    ∃ before, front = before ++ if negative then ['-'] else [] := by
  cases negative with
  | true =>
    cases hlast : front.getLast? with
    | none => simp [hlast] at h
    | some c =>
      obtain rfl : c = '-' := by simpa [hlast] using h
      exact List.getLast?_eq_some_iff.mp hlast
  | false => exact ⟨front, (List.append_nil front).symm⟩

/-- Behind a front without digits no signed decimal begins earlier than the one that follows it. -/
theorem length_le_of_signed {before front rest before' v rest' : List Char} {negative negative' : Bool}
    (hfront : ∀ c ∈ front, c.isDigit = false) (hsign : negative = front.getLast?.elim false (· == '-'))
    (hbefore : front = before ++ if negative then ['-'] else []) (hv : IsDecimal v)
    (h : front ++ rest = before' ++ ((if negative' then ['-'] else []) ++ (v ++ rest'))) :
    before.length ≤ before'.length := by
  obtain ⟨d, ds, rfl, hd⟩ := hv.exists_cons
  rw [← List.append_assoc, List.cons_append] at h
  have hle := length_le_of_isDigit hfront hd h
  rw [hbefore, List.length_append, List.length_append] at hle
  cases negative' with
  | false => exact (Nat.le_add_right _ _).trans hle
  | true =>
    cases negative with
    | true => exact Nat.le_of_add_le_add_right hle
    | false =>
      -- a minus sign right in front of the digits would have been found with them
      have hne : front.length ≠ (before' ++ ['-']).length := by
        intro hsame
        have hlast := (List.append_inj h hsame).1
        rw [hlast, if_pos rfl, List.getLast?_concat] at hsign
        exact absurd hsign (by decide)
      rw [hbefore, List.length_append, List.length_append] at hne
      exact Nat.lt_succ_iff.mp (Nat.lt_of_le_of_ne hle hne)

/-- The number that is found is the leftmost decimal with its sign. -/
theorem exists_leftmost {text u : List Char} {negative : Bool}
    (h : leftmostNumber? false text = some (negative, u)) : IsDecimal u ∧
      ∃ m : Occurrence text, m.Leftmost IsSigned ∧ m.word = (if negative then ['-'] else []) ++ u := by
  obtain ⟨front, behind, htext, hfront, hsign, hu, hl⟩ := leftmostNumber?_split h
  obtain ⟨before, hbefore⟩ := exists_before_sign hsign
  refine ⟨hu, ⟨before, (if negative then ['-'] else []) ++ u, behind, ?_⟩, ⟨⟨negative, u, hu, rfl⟩, ?_, ?_⟩, rfl⟩
  · rw [htext, hbefore, List.append_assoc, List.append_assoc]
  · rintro ⟨before', word', behind', he⟩ ⟨negative', v, hv, rfl⟩
    rw [List.append_assoc] at he
    exact length_le_of_signed hfront hsign hbefore hv (htext.symm.trans he)
  · rintro ⟨before', word', behind', he⟩ ⟨negative', v, hv, rfl⟩ rfl
    have hrest : (if negative' then ['-'] else []) ++ (v ++ behind') =
        (if negative then ['-'] else []) ++ (u ++ behind) := by
      rw [he, hbefore, List.append_assoc, List.append_assoc] at htext
      exact List.append_cancel_left htext
    obtain ⟨rfl, hsame⟩ := hv.signed_inj hu hrest
    have hle := hv.length_le_decimalLength behind'
    rw [hsame, hl] at hle
    simpa using hle

theorem exists_leftmostNumber? {cs : List Char} (h : ∃ c ∈ cs, c.isDigit = true) (negative : Bool) :
    ∃ found, leftmostNumber? negative cs = some found := by
  induction cs generalizing negative with
  | nil =>
    obtain ⟨c, hc, -⟩ := h
    exact absurd hc List.not_mem_nil
  | cons c cs ih =>
    rw [leftmostNumber?]
    by_cases hc : c.isDigit = true
    · rw [if_pos hc]
      exact ⟨_, rfl⟩
    · rw [if_neg hc]
      obtain ⟨d, hd, hdigit⟩ := h
      rcases List.mem_cons.mp hd with rfl | hd
      · exact absurd hdigit hc
      · exact ih ⟨d, hd, hdigit⟩ _

/-- No number is found in a text without digits. In any other there is one leftmost match of `-?d+(.d+)?`, as
long as can be, and what is found is the number nearest to its value, unless that is too large for any. -/
theorem numberIn?_leftmost (text : String) :
    ((∀ c ∈ text.toList, c.isDigit = false) → numberIn? text = none) ∧
      ((∃ c ∈ text.toList, c.isDigit = true) →
        (∃! m : Occurrence text.toList, m.Leftmost IsSigned) ∧
          ∀ m : Occurrence text.toList, m.Leftmost IsSigned →
            Rounds (numberIn? text) (numberValue m.word) (m.word.head? == some '-')) := by
  constructor
  · intro hnone
    rw [numberIn?, leftmostNumber?_eq_none hnone]
    rfl
  · intro hdigit
    obtain ⟨⟨negative, u⟩, hfound⟩ := exists_leftmostNumber? hdigit false
    obtain ⟨hu, m, hm, hword⟩ := exists_leftmost hfound
    refine ⟨⟨m, hm, fun m' hm' => hm'.unique hm⟩, fun m' hm' => ?_⟩
    rw [hm'.unique hm, hword, hu.numberValue_signed, Argument.head?_signed hu]
    exact rounds_numberIn? hu hfound

/-- A minus sign and a point that no digit follows are not part of the match. -/
theorem numberIn?_leftmost_stray_marks :
    (∃ c ∈ "a-b 12. -8".toList, c.isDigit = true) ∧
      (∃! m : Occurrence "a-b 12. -8".toList, m.Leftmost IsSigned) ∧
        leftmostNumber? false "a-b 12. -8".toList = some (false, "12".toList) :=
  have hdigit : ∃ c ∈ "a-b 12. -8".toList, c.isDigit = true := ⟨'1', by decide, by decide⟩
  ⟨hdigit, ((numberIn?_leftmost "a-b 12. -8").2 hdigit).1, by decide⟩

end Style

end WidgetJsx
