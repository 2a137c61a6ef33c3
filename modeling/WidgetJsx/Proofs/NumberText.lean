import WidgetJsx.Proofs.Name
import WidgetJsx.Proofs.Rounding
import WidgetJsx.Style.Basic

/-! The decimal that is found for a magnitude reads back as that magnitude, and so does the text in
which it is written without an exponent. So no two finite numbers have the same text. -/

namespace WidgetJsx

namespace Decimal

open Binary64

/-- The rank of the magnitude nearest to a decimal. -/
def rank (d : Decimal) : Nat := nearestRank d.ratio.1 d.ratio.2

theorem pow10_pos (n : Nat) : 0 < pow10 n := Nat.pow_pos (by decide)

theorem rank_ten (e : Int) : rank ⟨1, e + 1⟩ = rank ⟨10, e⟩ := by
  by_cases he : 0 ≤ e
  · have hs : (e + 1).toNat = e.toNat + 1 := by omega
    have hn : (-(e + 1)).toNat = (-e).toNat := by omega
    have hp : 1 * pow10 (e.toNat + 1) = 10 * pow10 e.toNat := by
      change 1 * (pow10 e.toNat * 10) = _
      omega
    simp only [rank, ratio, hs, hn, hp]
  · have hz : (e + 1).toNat = e.toNat := by omega
    have hn : (-e).toNat = (-(e + 1)).toNat + 1 := by omega
    have hp : 10 * pow10 e.toNat = 1 * pow10 e.toNat * 10 := by omega
    simp only [rank, ratio, hz, hn, hp]
    exact (nearestRank_mul_right (by omega)).symm

theorem ratio_places (n places : Nat) : ratio ⟨n, -places⟩ = (n, pow10 places) := by
  have hwhole : (-(places : Int)).toNat = 0 := by omega
  have hplaces : (- -(places : Int)).toNat = places := by omega
  have hone : n * pow10 0 = n := Nat.mul_one n
  rw [ratio, hwhole, hplaces, hone]

theorem rank_places (n places : Nat) : rank ⟨n, -places⟩ = nearestRank n (pow10 places) := by
  rw [rank, ratio_places]

section

variable {whole fraction digits : List Char}

theorem ofList_whole (h : ∀ c ∈ digits, c.isDigit = true) :
    ofList digits = ⟨ofDigits digits, 0⟩ := by
  have hd : digits.dropWhile Char.isDigit = [] := by
    have := @List.dropWhile_append_of_pos _ Char.isDigit digits [] h
    rwa [List.append_nil] at this
  rw [ofList, ofParts, hd, List.takeWhile_eq_self_iff.mpr h]
  simp

theorem ofList_point (h : ∀ c ∈ whole, c.isDigit = true) :
    ofList (whole ++ '.' :: fraction) = ⟨ofDigits (whole ++ fraction), -fraction.length⟩ := by
  have hp : Char.isDigit '.' = false := by decide
  have ht : (whole ++ '.' :: fraction).takeWhile Char.isDigit = whole :=
    Expression.takeWhile_append_eq h (by simp [hp])
  have hd : (whole ++ '.' :: fraction).dropWhile Char.isDigit = '.' :: fraction := by
    rw [List.dropWhile_append_of_pos h, List.dropWhile_cons, hp]
    rfl
  rw [ofList, ofParts, ht, hd, List.drop_one, List.tail_cons]

theorem ofDigits_toDigits (n : Nat) : ofDigits (Nat.toDigits 10 n) = n := by
  rw [ofDigits_eq]
  exact Nat.ofDigitChars_toDigits (by decide) (by decide)

theorem foldDigits_zeros (n count : Nat) :
    foldDigits n (zeros count) = n * pow10 count := by
  induction count generalizing n with
  | zero => simp [zeros, foldDigits, pow10]
  | succ count ih =>
    have hs : foldDigits n (zeros (count + 1)) = foldDigits (10 * n + 0) (zeros count) := rfl
    have hp : pow10 (count + 1) = pow10 count * 10 := rfl
    rw [hs, ih, hp, Nat.add_zero, Nat.mul_comm 10, Nat.mul_assoc, Nat.mul_comm 10]

theorem ofDigits_zeros_append (count : Nat) (digits : List Char) :
    ofDigits (zeros count ++ digits) = ofDigits digits := by
  rw [ofDigits_eq, ofDigits_eq, foldDigits_append, foldDigits_zeros, Nat.zero_mul]

theorem ofDigits_append_zeros (digits : List Char) (count : Nat) :
    ofDigits (digits ++ zeros count) = ofDigits digits * pow10 count := by
  rw [ofDigits_eq, ofDigits_eq, foldDigits_append, foldDigits_zeros]

theorem isDigit_of_mem_zeros {c : Char} {count : Nat} (h : c ∈ zeros count) : c.isDigit = true := by
  rw [List.eq_of_mem_replicate h]
  decide

/-- Wherever the point is placed, the digits keep the value that its place gives them. -/
theorem ratio_placePoint (h : ∀ c ∈ digits, c.isDigit = true) (exponent : Int) :
    (ofList (placePoint false digits (digits.length + exponent))).ratio =
      ratio ⟨ofDigits digits, exponent⟩ := by
  unfold placePoint
  by_cases hfront : digits.length + exponent ≤ 0
  · have hzero : ['0', '.'] ++ zeros (-(digits.length + exponent)).toNat ++ digits =
        zeros 1 ++ '.' :: (zeros (-(digits.length + exponent)).toNat ++ digits) := rfl
    have hlength : -((zeros (-(digits.length + exponent)).toNat ++ digits).length : Int) =
        exponent := by
      rw [List.length_append, zeros, List.length_replicate]
      omega
    rw [if_pos hfront, hzero, ofList_point fun c => isDigit_of_mem_zeros, hlength,
      ofDigits_zeros_append, ofDigits_zeros_append]
  rw [if_neg hfront]
  by_cases hinside : (digits.length : Int) + exponent < digits.length
  · have hlength : -((digits.drop (digits.length + exponent).toNat).length : Int) = exponent := by
      rw [List.length_drop]
      omega
    rw [if_pos hinside, ofList_point fun c hc => h c (List.mem_of_mem_take hc), hlength,
      List.take_append_drop]
  · have hcount : ((digits.length : Int) + exponent).toNat - digits.length = exponent.toNat := by
      omega
    have hdigits : ∀ c ∈ digits ++ zeros exponent.toNat, c.isDigit = true := by
      intro c hc
      rcases List.mem_append.mp hc with hc | hc
      · exact h c hc
      · exact isDigit_of_mem_zeros hc
    have hnegative : (-exponent).toNat = 0 := by omega
    rw [if_neg hinside, hcount, if_neg Bool.false_ne_true, List.append_nil, ofList_whole hdigits,
      ofDigits_append_zeros, ratio, ratio, hnegative]
    exact congrArg (·, pow10 0) (Nat.mul_one _)

end

end Decimal

namespace Binary64

section

variable {tie : Tie} {rank length n : Nat} {d : Decimal}

theorem readsBack_of_candidate (h : candidate? tie rank length n = some d) :
    readsBack rank d = true := by
  simp only [candidate?] at h
  split at h
  · rename_i hdown
    obtain rfl := Option.some.inj h
    split
    · rename_i hup
      exact (Bool.and_eq_true_iff.mp hup).1
    · exact hdown
  · split at h
    · rename_i hup
      obtain rfl := Option.some.inj h
      exact hup
    · cases h

theorem rank_of_candidate (h : candidate? tie rank length n = some d) : d.rank = rank :=
  beq_iff_eq.mp (readsBack_of_candidate h)

/-- The expansion differs from the magnitude by less than half a smallest step. -/
theorem nearestRank_expansion (rank : Nat) :
    nearestRank (expansion rank) (Decimal.pow10 400) = rank := by
  -- A unit in the last of the four hundred places is less than half the smallest step.
  have hbound : 2 * one < Decimal.pow10 400 := by decide +kernel
  unfold expansion
  apply nearestRank_eq_of_near (Decimal.pow10_pos 400)
  generalize Decimal.pow10 400 = p at hbound ⊢
  have hdiv := Nat.div_add_mod (steps rank * p) one
  have hmod := Nat.mod_lt (steps rank * p) one_pos
  rw [Nat.mul_comm _ one]
  unfold Nat.dist
  omega

theorem rank_carry (d : Decimal) : (carry d).rank = d.rank := by
  unfold carry
  by_cases hten : d.digits = 10
  · rw [if_pos hten, Decimal.rank_ten, ← hten]
  · rw [if_neg hten]

theorem rank_shortest (tie : Tie) (rank : Nat) : (shortest tie rank).rank = rank := by
  rw [shortest]
  cases h : (List.range' 1 17).findSome?
      (candidate? tie rank (Nat.toDigits 10 (expansion rank)).length) with
  | none =>
    -- does not happen, as seventeen digits are enough, but that need not be known here
    have hplaces := Decimal.rank_places (expansion rank) 400
    rw [Nat.cast_ofNat] at hplaces
    rw [Option.map_none, Option.getD_none, hplaces, nearestRank_expansion]
  | some d =>
    obtain ⟨n, -, hn⟩ := List.exists_of_findSome?_eq_some h
    rw [Option.map_some, Option.getD_some, rank_carry]
    exact rank_of_candidate hn

end

namespace Layout

theorem digits_plain (d : Decimal) : plain.digits d =
    placePoint false (Nat.toDigits 10 d.digits) ((Nat.toDigits 10 d.digits).length + d.exponent) := rfl

theorem isDigit_of_mem_toDigits {n : Nat} : ∀ c ∈ Nat.toDigits 10 n, c.isDigit = true :=
  fun _ => Nat.isDigit_of_mem_toDigits (by decide) (by decide)

theorem rank_digits (d : Decimal) : (Decimal.ofList (plain.digits d)).rank = d.rank := by
  obtain ⟨digits, exponent⟩ := d
  have hd := Decimal.ratio_placePoint (@isDigit_of_mem_toDigits digits) exponent
  rw [Decimal.ofDigits_toDigits] at hd
  rw [digits_plain, Decimal.rank, hd, Decimal.rank]

theorem magnitude_zero : plain.magnitude 0 = ['0'] := rfl

theorem magnitude_plain {rank : Nat} (h : rank ≠ 0) :
    plain.magnitude rank = plain.digits (shortest .up rank) := by
  rw [magnitude, if_neg h]
  rfl

/-- What is written for a magnitude reads back as that magnitude. -/
theorem rank_magnitude (rank : Nat) : (Decimal.ofList (plain.magnitude rank)).rank = rank := by
  by_cases hz : rank = 0
  · have hdigits : Decimal.ofDigits ['0'] = 0 := by
      rw [Decimal.ofDigits_eq]
      rfl
    have hplaces := Decimal.rank_places 0 0
    rw [Nat.cast_zero, Int.neg_zero] at hplaces
    have hzero : steps 0 = 0 := if_pos (by decide)
    have hdigit : ∀ c ∈ ['0'], c.isDigit = true := fun c => @Decimal.isDigit_of_mem_zeros c 1
    rw [hz, magnitude_zero, Decimal.ofList_whole hdigit, hdigits, hplaces]
    apply nearestRank_eq_of_near (Decimal.pow10_pos 0)
    rw [hzero, Nat.zero_mul, Nat.zero_mul, Nat.dist_self]
    exact Decimal.pow10_pos 0
  · rw [magnitude_plain hz, rank_digits, rank_shortest]

theorem mem_placePoint {digits : List Char} (hd : ∀ c ∈ digits, c.isDigit = true) {place : Int}
    {c : Char} (h : c ∈ placePoint false digits place) : c.isDigit = true ∨ c = '.' := by
  have hzero : Char.isDigit '0' = true := by decide
  unfold placePoint at h
  split at h
  · simp only [List.mem_append, List.mem_cons, List.not_mem_nil, or_false] at h
    rcases h with ((rfl | rfl) | h) | h
    · exact .inl hzero
    · exact .inr rfl
    · exact .inl (Decimal.isDigit_of_mem_zeros h)
    · exact .inl (hd c h)
  · split at h
    · rcases List.mem_append.mp h with h | h
      · exact .inl (hd c (List.mem_of_mem_take h))
      · rcases List.mem_cons.mp h with rfl | h
        · exact .inr rfl
        · exact .inl (hd c (List.mem_of_mem_drop h))
    · rw [if_neg Bool.false_ne_true, List.append_nil] at h
      rcases List.mem_append.mp h with h | h
      · exact .inl (hd c h)
      · exact .inl (Decimal.isDigit_of_mem_zeros h)

theorem mem_magnitude {rank : Nat} {c : Char} (h : c ∈ plain.magnitude rank) :
    c.isDigit = true ∨ c = '.' := by
  by_cases hz : rank = 0
  · rw [hz, magnitude_zero] at h
    obtain rfl := List.mem_singleton.mp h
    exact .inl (by decide)
  · rw [magnitude_plain hz, digits_plain] at h
    exact mem_placePoint isDigit_of_mem_toDigits h

end Layout

end Binary64

namespace Style

open Binary64

variable {x y : Binary64}

theorem toList_numberText (negative : Bool) (rank : Fin Binary64.ranks) :
    (numberText (.finite negative rank)).toList =
      (if negative then ['-'] else []) ++ Layout.plain.magnitude rank := by
  have hw : numberText (.finite negative rank) =
      sign negative ++ String.ofList (Layout.plain.magnitude rank) := rfl
  rw [hw, String.toList_append, String.toList_ofList]
  cases negative with
  | true => rfl
  | false => rfl

/-- The text of a finite number has digits in it and no signs but a minus and a point. -/
theorem mem_numberText (hx : x.isFinite = true) {c : Char} (h : c ∈ (numberText x).toList) :
    c.isDigit = true ∨ c = '-' ∨ c = '.' := by
  cases x with
  | nan => cases hx
  | infinite negative => cases hx
  | finite negative rank =>
    rw [toList_numberText] at h
    rcases List.mem_append.mp h with h | h
    · cases negative with
      | true => exact .inr (.inl (List.mem_singleton.mp h))
      | false => exact absurd h List.not_mem_nil
    · exact (Layout.mem_magnitude h).imp_right .inr

theorem minus_mem_numberText {negative : Bool} {rank : Fin Binary64.ranks} :
    '-' ∈ (numberText (.finite negative rank)).toList ↔ negative = true := by
  rw [toList_numberText, List.mem_append]
  constructor
  · rintro (h | h)
    · cases negative with
      | true => rfl
      | false => exact absurd h List.not_mem_nil
    · rcases Layout.mem_magnitude h with h | h
      · exact absurd h (by decide)
      · exact absurd h (by decide)
  · rintro rfl
    exact .inl (List.mem_singleton.mpr rfl)

/-- Finite numbers with the same text are the same. -/
theorem numberText_inj (hx : x.isFinite = true) (hy : y.isFinite = true)
    (h : numberText x = numberText y) : x = y := by
  cases x with
  | nan => cases hx
  | infinite negative => cases hx
  | finite negative rank =>
  cases y with
  | nan => cases hy
  | infinite negative => cases hy
  | finite negative' rank' =>
  have hsign : negative = negative' := by
    apply Bool.eq_iff_iff.mpr
    rw [← @minus_mem_numberText negative rank, h, minus_mem_numberText]
  have hl := congrArg String.toList h
  rw [toList_numberText, toList_numberText] at hl
  subst hsign
  have hm := List.append_cancel_left hl
  have hr : rank.val = rank'.val := by
    rw [← Layout.rank_magnitude rank, hm, Layout.rank_magnitude]
  rw [Fin.ext hr]

end Style

end WidgetJsx
