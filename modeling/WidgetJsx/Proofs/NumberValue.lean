import Mathlib.Data.List.Induction
import Mathlib.Data.Nat.Digits.Defs
import WidgetJsx.Proofs.Nearest
import WidgetJsx.Proofs.Number
import WidgetJsx.Style.Dimension

/-! What number literals stand for, and what is made of them. A decimal becomes the number nearest to it, or
stays a text where it is too large; digits in base sixteen are not read, so that their literal becomes
zero. -/

namespace WidgetJsx

namespace Expression

/-- What a digit stands for, in base ten or sixteen. -/
def digitValue (c : Char) : Nat :=
  if c.isDigit then c.toNat - '0'.toNat
  else if c.isLower then c.toNat - 'a'.toNat + 10
  else c.toNat - 'A'.toNat + 10

def digitsValue (base : Nat) (ds : List Char) : Nat :=
  Nat.ofDigits base (ds.map digitValue).reverse

/-- The value of digits in base ten that may have a point among them. -/
def decimalValue (cs : List Char) : ℚ :=
  let fraction := (cs.dropWhile Char.isDigit).drop 1
  digitsValue 10 (cs.takeWhile Char.isDigit) + digitsValue 10 fraction / 10 ^ fraction.length

/-- The exact value of a number literal. -/
def numberValue (cs : List Char) : ℚ :=
  match cs with
  | '0' :: 'x' :: ds => digitsValue 16 ds
  | '0' :: 'X' :: ds => digitsValue 16 ds
  | '-' :: cs => -decimalValue cs
  | cs => decimalValue cs

theorem digitsValue_concat (base : Nat) (ds : List Char) (d : Char) :
    digitsValue base (ds ++ [d]) = base * digitsValue base ds + digitValue d := by
  rw [digitsValue, List.map_append, List.reverse_append, List.map_singleton, List.reverse_singleton,
    List.singleton_append, Nat.ofDigits_cons, digitsValue, Nat.add_comm]

theorem digitsValue_eq {ds : List Char} (h : ∀ c ∈ ds, c.isDigit = true) :
    digitsValue 10 ds = Decimal.ofDigits ds := by
  rw [Decimal.ofDigits_eq]
  induction ds using List.reverseRecOn with
  | nil => rfl
  | append_singleton ds d ih =>
    have hd : digitValue d = d.toNat - '0'.toNat := if_pos (h d (by simp))
    rw [digitsValue_concat, ih fun c hc => h c (List.mem_append_left _ hc), hd, Decimal.foldDigits_append]
    rfl

/-- Digits in base ten, or two runs of them with a point between. -/
inductive IsDecimal : List Char → Prop
  | whole {ds : List Char} : DigitsOf Char.isDigit ds → IsDecimal ds
  | point {ds es : List Char} : DigitsOf Char.isDigit ds → DigitsOf Char.isDigit es →
      IsDecimal (ds ++ '.' :: es)

/-- A number is a decimal, with a minus sign or without, or it is in base sixteen. -/
theorem IsNumber.cases {cs : List Char} (h : IsNumber cs) :
    (∃ (negative : Bool) (u : List Char), IsDecimal u ∧ cs = (if negative then ['-'] else []) ++ u) ∨
      ∃ x ds, (x = 'x' ∨ x = 'X') ∧ DigitsOf isHexDigit ds ∧ cs = '0' :: x :: ds := by
  have hsign {sign : List Char} (hs : sign = [] ∨ sign = ['-']) :
      ∃ negative : Bool, sign = if negative then ['-'] else [] := by
    rcases hs with rfl | rfl
    · exact ⟨false, rfl⟩
    · exact ⟨true, rfl⟩
  cases h with
  | whole hs hd =>
    obtain ⟨negative, rfl⟩ := hsign hs
    exact .inl ⟨negative, _, .whole hd, rfl⟩
  | decimal hs hd he =>
    obtain ⟨negative, rfl⟩ := hsign hs
    exact .inl ⟨negative, _, .point hd he, rfl⟩
  | hex hx hd => exact .inr ⟨_, _, hx, hd, rfl⟩

namespace IsDecimal

variable {u : List Char}

theorem exists_cons (h : IsDecimal u) : ∃ d ds, u = d :: ds ∧ d.isDigit = true := by
  have hdigits {ds : List Char} (rest : List Char) (hd : DigitsOf Char.isDigit ds) :
      ∃ d more, ds ++ rest = d :: more ∧ d.isDigit = true := by
    cases ds with
    | nil => exact absurd rfl hd.ne_nil
    | cons d ds => exact ⟨d, ds ++ rest, rfl, hd.all d List.mem_cons_self⟩
  cases h with
  | whole hd => simpa using hdigits [] hd
  | point hd he => exact hdigits _ hd

theorem decimalLength_eq (h : IsDecimal u) : decimalLength u = u.length := by
  cases h with
  | whole hd =>
    have hl := hd.decimalLength_eq (r := []) (by simp)
    rwa [List.append_nil, breaks_nil.fractionLength_eq] at hl
  | @point ds es hd he =>
    have hl := hd.decimalLength_eq (r := '.' :: es) (by simp)
    have hf := he.fractionLength_eq breaks_nil
    rw [List.append_nil] at hf
    rw [hl, hf, List.length_append, List.length_cons]

theorem decimalValue_eq (h : IsDecimal u) :
    decimalValue u = (Decimal.ofList u).ratio.1 / (Decimal.ofList u).ratio.2 := by
  have hpow (n : Nat) : ((Decimal.pow10 n : Nat) : ℚ) = 10 ^ n := Nat.cast_pow 10 n
  cases h with
  | whole hd =>
    have hw : u.takeWhile Char.isDigit = u := List.takeWhile_eq_self_iff.mpr hd.all
    have hf : u.dropWhile Char.isDigit = [] := List.dropWhile_eq_nil_iff.mpr hd.all
    have hr : Decimal.ratio ⟨Decimal.ofDigits u, 0⟩ = (Decimal.ofDigits u, Decimal.pow10 0) :=
      Decimal.ratio_places _ 0
    rw [decimalValue, hw, hf, digitsValue_eq hd.all, Decimal.ofList_whole hd.all, hr, hpow]
    simp [digitsValue]
  | @point ds es hd he =>
    have hp : Char.isDigit '.' = false := by decide
    have hw : (ds ++ '.' :: es).takeWhile Char.isDigit = ds := takeWhile_append_eq hd.all (by simp [hp])
    have hf : (ds ++ '.' :: es).dropWhile Char.isDigit = '.' :: es := by
      rw [List.dropWhile_append_of_pos hd.all, List.dropWhile_cons_of_neg (by simp [hp])]
    have hsum : Decimal.ofDigits (ds ++ es) =
        Decimal.ofDigits ds * Decimal.pow10 es.length + Decimal.ofDigits es := by
      simp only [Decimal.ofDigits_eq, Decimal.foldDigits_append]
      exact Decimal.foldDigits_eq _ _
    have hne : (10 : ℚ) ^ es.length ≠ 0 := pow_ne_zero _ (by norm_num)
    rw [decimalValue, hw, hf, Decimal.ofList_point hd.all, Decimal.ratio_places]
    simp only [List.drop_one, List.tail_cons]
    rw [digitsValue_eq hd.all, digitsValue_eq he.all, hsum, Nat.cast_add, Nat.cast_mul, hpow,
      add_div, mul_div_cancel_right₀ _ hne]

/-- Where a decimal begins, it is the leftmost number. -/
theorem leftmostNumber?_eq (h : IsDecimal u) (negative : Bool) :
    Style.leftmostNumber? negative u = some (negative, u) := by
  obtain ⟨d, ds, hu, hd⟩ := h.exists_cons
  have hl := h.decimalLength_eq
  rw [hu] at hl ⊢
  rw [Style.leftmostNumber?, if_pos hd, hl, List.take_length]

theorem mem (h : IsDecimal u) : ∀ c ∈ u, c.isDigit = true ∨ c = '.' := by
  intro c hc
  cases h with
  | whole hd => exact .inl (hd.all c hc)
  | point hd he =>
    rcases List.mem_append.mp hc with hc | hc
    · exact .inl (hd.all c hc)
    · rcases List.mem_cons.mp hc with rfl | hc
      · exact .inr rfl
      · exact .inl (he.all c hc)

theorem not_mem (h : IsDecimal u) {c : Char} (hd : c.isDigit = false) (hp : c ≠ '.') : c ∉ u := by
  intro hc
  rcases h.mem c hc with hm | hm
  · exact absurd hm (by simp [hd])
  · exact hp hm

theorem hexLength_eq_zero (h : IsDecimal u) : hexLength u = 0 := by
  obtain ⟨d, ds, rfl, -⟩ := h.exists_cons
  refine Expression.hexLength_eq_zero fun _ x hx => ?_
  have hm : x ∈ d :: ds := List.mem_cons_of_mem d (List.mem_of_mem_head? hx)
  constructor
  · rintro rfl
    exact h.not_mem (by decide) (by decide) hm
  · rintro rfl
    exact h.not_mem (by decide) (by decide) hm

theorem hexLength_signed (h : IsDecimal u) (negative : Bool) :
    hexLength ((if negative then ['-'] else []) ++ u) = 0 := by
  cases negative with
  | false => exact h.hexLength_eq_zero
  | true => exact Expression.hexLength_eq_zero fun he => absurd he (by decide)

theorem numberValue_signed (h : IsDecimal u) (negative : Bool) :
    numberValue ((if negative then ['-'] else []) ++ u) = Binary64.signed negative (decimalValue u) := by
  cases negative with
  | true => rfl
  | false =>
    change numberValue u = decimalValue u
    unfold numberValue
    split
    · exact absurd (by simp) (h.not_mem (c := 'x') (by decide) (by decide))
    · exact absurd (by simp) (h.not_mem (c := 'X') (by decide) (by decide))
    · exact absurd (by simp) (h.not_mem (c := '-') (by decide) (by decide))
    · rfl

end IsDecimal

end Expression

namespace Binary64

/-- The number nearest to a value, with the sign that is given, or none where the value is too large for any. -/
structure Rounds (x? : Option Binary64) (q : ℚ) (negative : Bool) : Prop where
  inRange : |q| < overflow → ∃ x, x? = some x ∧ x.Nearest q ∧ x.isNegative = negative
  beyond : overflow ≤ |q| → x? = none

end Binary64

namespace Style

open Binary64 Expression

theorem numberIn?_of_leftmost {text : String} {negative : Bool} {u : List Char}
    (h : leftmostNumber? false text.toList = some (negative, u)) : numberIn? text =
      if ((Decimal.ofList u).nearest negative).isFinite then some ((Decimal.ofList u).nearest negative)
      else none := by
  rw [numberIn?, h]
  rfl

theorem rounds_numberIn? {text : String} {negative : Bool} {u : List Char} (hu : IsDecimal u)
    (h : leftmostNumber? false text.toList = some (negative, u)) :
    Rounds (numberIn? text) (signed negative (decimalValue u)) negative := by
  obtain ⟨num, den, hratio⟩ : ∃ num den, (Decimal.ofList u).ratio = (num, den) := ⟨_, _, rfl⟩
  have hden : 0 < den := by
    have := (Decimal.ofList u).ratio_snd_pos
    rwa [hratio] at this
  have hvalue : decimalValue u = num / den := by rw [hu.decimalValue_eq, hratio]
  have hread := numberIn?_of_leftmost h
  rw [Decimal.nearest_eq_ofRatio, hratio] at hread
  have hrange : |signed negative (decimalValue u)| < overflow ↔ num < overflow * den := by
    have hpos : (0 : ℚ) < den := Nat.cast_pos.mpr hden
    rw [hvalue, abs_signed, abs_of_nonneg (div_nonneg (Nat.cast_nonneg _) (Nat.cast_nonneg _)),
      div_lt_iff₀ hpos]
    exact_mod_cast Iff.rfl
  constructor
  · intro hin
    obtain ⟨hnearest, hsign⟩ := nearest_ofRatio hden (hrange.mp hin) negative
    rw [if_pos hnearest.finite] at hread
    rw [hvalue]
    exact ⟨_, hread, hnearest, hsign⟩
  · intro hout
    have hlarge : overflow * den ≤ num := Nat.not_lt.mp fun hlt => absurd (hrange.mpr hlt) (not_lt.mpr hout)
    rwa [ofRatio_of_overflow hden negative hlarge, if_neg (show ¬ (infinite negative).isFinite = true from
      Bool.false_ne_true)] at hread

theorem leftmostNumber?_eq_none {cs : List Char} (h : ∀ c ∈ cs, c.isDigit = false) (negative : Bool) :
    leftmostNumber? negative cs = none := by
  induction cs generalizing negative with
  | nil => rfl
  | cons c cs ih =>
    rw [leftmostNumber?, if_neg (by simp [h c List.mem_cons_self])]
    exact ih (fun d hd => h d (List.mem_cons_of_mem c hd)) _

theorem leftmostNumber?_signed {u : List Char} (h : IsDecimal u) (negative : Bool) :
    leftmostNumber? false ((if negative then ['-'] else []) ++ u) = some (negative, u) := by
  cases negative with
  | false => exact h.leftmostNumber?_eq false
  | true =>
    have hminus : leftmostNumber? false ('-' :: u) = leftmostNumber? true u := by
      simp [leftmostNumber?]
    exact hminus.trans (h.leftmostNumber?_eq true)

/-- Of digits in base sixteen only the zero in front of them is read. -/
theorem numberIn?_hex {text : String} {x : Char} {ds : List Char} (hx : x = 'x' ∨ x = 'X')
    (h : text.toList = '0' :: x :: ds) : numberIn? text = some .zero := by
  have hzero : DigitsOf Char.isDigit ['0'] := ⟨by simp, by simp⟩
  have hdigit : x.isDigit = false ∧ x ≠ '.' := by rcases hx with rfl | rfl <;> decide
  have hl : decimalLength ('0' :: x :: ds) = 1 := by
    have hfraction : fractionLength (x :: ds) = 0 := by
      unfold fractionLength
      split
      · rename_i he
        exact absurd (List.cons.inj he).1 hdigit.2
      · rfl
    have hlength := hzero.decimalLength_eq (r := x :: ds) (by simp [hdigit.1])
    rw [hfraction] at hlength
    exact hlength
  have hleft : leftmostNumber? false text.toList = some (false, ['0']) := by
    rw [h, leftmostNumber?, if_pos (by decide), hl]
    rfl
  have hnearest : (Decimal.ofList ['0']).nearest false = .zero := by
    rw [Decimal.ofList_whole hzero.all, Decimal.ofDigits_eq]
    rfl
  rw [numberIn?_of_leftmost hleft, hnearest]
  rfl

end Style

namespace Argument

open Binary64 Expression

/-- What is made of a number literal with a given value: the number nearest to it, with the sign that is
written, or no number but the text, where the value is too large for any. -/
structure Agrees (text : String) (q : ℚ) : Prop where
  inRange : |q| < overflow → ∃ x : Binary64, x.Nearest q ∧
    x.isNegative = (text.toList.head? == some '-') ∧
    (number text : Argument Widget).literal? = some x ∧
    (number text : Argument Widget).dimension? = some (.number x)
  beyond : overflow ≤ |q| → (number text : Argument Widget).literal? = none ∧
    (number text : Argument Widget).dimension? = some (.text text)

theorem read_of_numberIn? {text : String} {x : Binary64} (h : Style.numberIn? text = some x) :
    (number text : Argument Widget).literal? = some x ∧
      (number text : Argument Widget).dimension? = some (.number x) := by
  simp [literal?, dimension?, h]

theorem head?_signed {u : List Char} (hu : IsDecimal u) (negative : Bool) :
    (((if negative then ['-'] else []) ++ u).head? == some '-') = negative := by
  cases negative with
  | true => rfl
  | false =>
    obtain ⟨d, ds, rfl, hd⟩ := hu.exists_cons
    have hne : d ≠ '-' := by
      rintro rfl
      exact absurd hd (by decide)
    simpa using hne

theorem agrees_decimal {text : String} {negative : Bool} {u : List Char} (hu : IsDecimal u)
    (h : text.toList = (if negative then ['-'] else []) ++ u) : Agrees text (numberValue text.toList) := by
  have hrounds := Style.rounds_numberIn? hu (h ▸ Style.leftmostNumber?_signed hu negative)
  rw [h, hu.numberValue_signed]
  constructor
  · intro hin
    obtain ⟨x, hread, hnearest, hsign⟩ := hrounds.inRange hin
    rw [h, head?_signed hu]
    exact ⟨x, hnearest, hsign, read_of_numberIn? hread⟩
  · intro hout
    simp [literal?, dimension?, hrounds.beyond hout]

/-- A literal of no value agrees with being read as zero. -/
theorem agrees_zero {text : String} (h : Style.numberIn? text = some .zero)
    (hs : text.toList.head? ≠ some '-') : Agrees text 0 := by
  have hrange : (0 : ℚ) < overflow := Nat.cast_pos.mpr (by decide +kernel)
  constructor
  · intro _
    exact ⟨.zero, nearest_zero, (beq_eq_false_iff_ne.mpr hs).symm, read_of_numberIn? h⟩
  · intro hout
    rw [abs_zero] at hout
    exact absurd hrange (not_lt.mpr hout)

/-- A literal in base sixteen is read as zero, which is not nearest to any other whole number. -/
theorem not_agrees_hex {text : String} {x : Char} {ds : List Char} (hx : x = 'x' ∨ x = 'X')
    (h : text.toList = '0' :: x :: ds) (hne : numberValue text.toList ≠ 0) :
    ¬ Agrees text (numberValue text.toList) := by
  intro hagrees
  have hread := (read_of_numberIn? (Style.numberIn?_hex hx h)).1
  have hvalue : numberValue text.toList = digitsValue 16 ds := by
    rw [h]
    rcases hx with rfl | rfl <;> rfl
  rw [hvalue] at hagrees hne
  have hone : (1 : ℚ) ≤ digitsValue 16 ds :=
    Nat.one_le_cast.mpr (Nat.one_le_iff_ne_zero.mpr (Nat.cast_ne_zero.mp hne))
  rcases lt_or_ge |(digitsValue 16 ds : ℚ)| overflow with hin | hout
  · obtain ⟨y, hnearest, -, hliteral, -⟩ := hagrees.inRange hin
    obtain rfl : Binary64.zero = y := Option.some.inj (hread.symm.trans hliteral)
    have hfinite : (ofRatio false 1 1).isFinite = true := by
      rw [ofRatio_of_lt false (nearestRank_whole_lt (by decide))]
      rfl
    have hleast := hnearest.least (ofRatio false 1 1) hfinite
    have hzero : Binary64.zero.value = 0 := magnitude_zero
    have hunit : (ofRatio false 1 1).value = 1 := by
      rw [value_ofRatio_whole (by decide) false, Nat.cast_one]
      rfl
    rw [hzero, hunit, zero_sub, abs_neg, abs_of_nonneg (by linarith), abs_sub_comm,
      abs_of_nonneg (sub_nonneg.mpr hone)] at hleast
    linarith
  · rw [(hagrees.beyond hout).1] at hread
    cases hread

/-- What a whole literal is read as agrees with its value just when it is not in base sixteen or is zero:
of digits in base sixteen nothing is read but the zero in front of them. -/
theorem number_agrees {text : String} (hne : text ≠ "")
    (h : numberLength text.toList = text.toList.length) :
    (Agrees text (numberValue text.toList) ↔ hexLength text.toList = 0 ∨ numberValue text.toList = 0) ∧
      (hexLength text.toList ≠ 0 → (number text : Argument Widget).literal? = some .zero ∧
        (number text : Argument Widget).dimension? = some (.number .zero)) := by
  have hpos : 0 < numberLength text.toList := by
    rw [h]
    exact List.length_pos_iff.mpr fun hn => hne (String.toList_eq_nil_iff.mp hn)
  obtain ⟨u, rest, hu, hl, hnumber⟩ := number_split hpos
  obtain rfl : rest = [] := by
    rw [h, hu, List.length_append] at hl
    exact List.length_eq_zero_iff.mp (by omega)
  rw [List.append_nil] at hu
  rw [← hu] at hnumber
  rcases hnumber.cases with ⟨negative, v, hv, he⟩ | ⟨x, ds, hx, hd, he⟩
  · have hhex : hexLength text.toList = 0 := by rw [he, hv.hexLength_signed]
    exact ⟨iff_of_true (agrees_decimal hv he) (.inl hhex), fun hne => absurd hhex hne⟩
  · have hread := Style.numberIn?_hex hx he
    have hhex : hexLength text.toList ≠ 0 := by
      rw [he, hexLength_cons hx ds, List.takeWhile_eq_self_iff.mpr hd.all, if_neg hd.length_pos.ne']
      omega
    refine ⟨⟨fun hagrees => ?_, fun hz => ?_⟩, fun _ => read_of_numberIn? hread⟩
    · by_contra hnot
      exact not_agrees_hex hx he (fun hv => hnot (.inr hv)) hagrees
    · rw [hz.resolve_left hhex]
      exact agrees_zero hread (by simp [he])

/-- A decimal with a minus sign and a fraction agrees with its value. -/
theorem number_agrees_decimal : numberValue "-12.5".toList = -25 / 2 ∧ Agrees "-12.5" (-25 / 2) := by
  have hvalue : numberValue "-12.5".toList = -25 / 2 := by
    have hdecimal : decimalValue "12.5".toList = 12 + 5 / 10 ^ 1 := rfl
    have hsign : numberValue "-12.5".toList = -decimalValue "12.5".toList := rfl
    rw [hsign, hdecimal]
    norm_num
  have hagrees := (@number_agrees "-12.5" (by decide) (by decide)).1.mpr (.inl (by decide))
  rw [hvalue] at hagrees
  exact ⟨hvalue, hagrees⟩

/-- Sixteen, in base sixteen, is not read as sixteen. -/
theorem hex_not_agrees : numberLength "0x10".toList = 4 ∧ numberValue "0x10".toList = 16 ∧
    ¬ Agrees "0x10" 16 := by
  have hvalue : numberValue "0x10".toList = 16 := rfl
  have hnot := @not_agrees_hex "0x10" 'x' ['1', '0'] (.inl rfl) rfl (by rw [hvalue]; norm_num)
  rw [hvalue] at hnot
  exact ⟨by decide, hvalue, hnot⟩

end Argument

end WidgetJsx
