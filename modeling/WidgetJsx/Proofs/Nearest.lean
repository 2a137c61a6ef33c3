import Mathlib.Algebra.Order.Field.Rat
import Mathlib.Data.Nat.Cast.Order.Field
import Mathlib.Tactic.FieldSimp
import Mathlib.Tactic.Linarith
import Mathlib.Tactic.NormNum
import WidgetJsx.Proofs.NumberText

/-! What it means that a number is the nearest to a quotient: no finite number is nearer, one that is as near
leaves the number found even, and from the middle between the largest number and the next power of two on
there is none. -/

namespace WidgetJsx

namespace Binary64

section

variable {num den : Nat}

/-- Where another whole number is as near to a quotient, the one found is even. -/
theorem even_roundHalfEven (hd : 0 < den) {k : Nat} (hne : k ≠ roundHalfEven num den)
    (h : Nat.dist num (k * den) = Nat.dist num (roundHalfEven num den * den)) :
    roundHalfEven num den % 2 = 0 := by
  have hdiv := Nat.div_add_mod num den
  have hmod := Nat.mod_lt num hd
  have hsucc : (num / den + 1) * den = den * (num / den) + den := by ring
  -- A number other than the two around the quotient is off by a whole denominator or more.
  have hk : k * den + den ≤ den * (num / den) ∨ k = num / den ∨ k = num / den + 1 ∨
      den * (num / den) + 2 * den ≤ k * den := by
    rcases Nat.lt_trichotomy k (num / den) with hlt | he | hgt
    · have hmul := Nat.mul_le_mul_right den hlt
      rw [Nat.succ_mul, Nat.mul_comm (num / den)] at hmul
      exact .inl hmul
    · exact .inr (.inl he)
    · by_cases hs : k = num / den + 1
      · exact .inr (.inr (.inl hs))
      · have hmul := Nat.mul_le_mul_right den (show num / den + 2 ≤ k by omega)
        rw [Nat.add_mul, Nat.mul_comm (num / den)] at hmul
        exact .inr (.inr (.inr hmul))
  unfold Nat.dist at h
  by_cases hup : den < 2 * (num % den) ∨ (den = 2 * (num % den) ∧ num / den % 2 = 1)
  · have hr : roundHalfEven num den = num / den + 1 := if_pos hup
    rw [hr] at h hne ⊢
    rw [hsucc] at h
    rcases hk with hk | rfl | rfl | hk
    · omega
    · rw [Nat.mul_comm (num / den)] at h
      omega
    · exact absurd rfl hne
    · omega
  · have hr : roundHalfEven num den = num / den := if_neg hup
    rw [hr] at h hne ⊢
    rw [Nat.mul_comm (num / den)] at h
    rcases hk with hk | rfl | rfl | hk
    · omega
    · exact absurd rfl hne
    · rw [hsucc] at h
      omega
    · omega

theorem even_nearestRank (hd : 0 < den) {rank : Nat} (hne : rank ≠ nearestRank num den)
    (h : Nat.dist (num * one) (steps rank * den) =
      Nat.dist (num * one) (steps (nearestRank num den) * den)) : nearestRank num den % 2 = 0 := by
  obtain ⟨d, hn, hfound, hlow⟩ := @exists_step num den hd
  have hstep : 0 < den * 2 ^ d := Nat.mul_pos hd (Nat.two_pow_pos d)
  have hperiod : period % 2 = 0 := by decide +kernel
  rcases steps_mul_cases d rank hd with ⟨k, hk⟩ | ⟨hz, hlt⟩
  · have hk' : k ≠ roundHalfEven (num * one) (den * 2 ^ d) := by
      rintro rfl
      rw [← hfound] at hk
      exact hne (strictMono_steps.injective (Nat.eq_of_mul_eq_mul_right hd hk))
    rw [hk, hfound] at h
    have heven := even_roundHalfEven hstep hk' h
    rw [hn, Nat.add_mod, Nat.mul_mod, hperiod, heven]
    simp
  · -- a magnitude with smaller steps is not as near: one with these steps lies between
    have hbelow := hlow.resolve_left hz
    have hbest := @dist_roundHalfEven_le (num * one) (den * 2 ^ d) hstep period
    rw [hfound] at h
    unfold Nat.dist at h hbest
    omega

/-- The middle between the largest magnitude and the next power of two. -/
def overflow : Nat := 2 ^ 1024 - 2 ^ 970

theorem steps_largest : steps (ranks - 1) + steps ranks = 2 * overflow * one := by decide +kernel

/-- There is a number for a quotient just when it lies below that middle. -/
theorem nearestRank_lt_ranks_iff (hd : 0 < den) : nearestRank num den < ranks ↔ num < overflow * den := by
  have hsum : steps (ranks - 1) * den + steps ranks * den = 2 * (overflow * den * one) := by
    rw [← Nat.add_mul, steps_largest]
    ring
  have hstep : steps (ranks - 1) * den < steps ranks * den :=
    Nat.mul_lt_mul_of_pos_right (strictMono_steps (by decide)) hd
  have hone : num < overflow * den ↔ num * one < overflow * den * one :=
    (Nat.mul_lt_mul_right one_pos).symm
  rw [hone]
  constructor
  · intro hlt
    by_contra hge
    have hle : steps (nearestRank num den) * den ≤ steps (ranks - 1) * den :=
      Nat.mul_le_mul_right den (strictMono_steps.monotone (by omega))
    have hbest := @dist_nearestRank_le num den hd ranks
    have htie : Nat.dist (num * one) (steps ranks * den) =
        Nat.dist (num * one) (steps (nearestRank num den) * den) := by
      unfold Nat.dist at hbest ⊢
      omega
    have hlast : steps (nearestRank num den) * den = steps (ranks - 1) * den := by
      unfold Nat.dist at htie
      omega
    have hrank := strictMono_steps.injective (Nat.eq_of_mul_eq_mul_right hd hlast)
    -- A tie goes to an even rank, and that of the largest magnitude is odd.
    have heven := even_nearestRank hd (by omega) htie
    rw [hrank] at heven
    exact absurd heven (by decide)
  · intro hlt
    by_contra hge
    have hle : steps ranks * den ≤ steps (nearestRank num den) * den :=
      Nat.mul_le_mul_right den (strictMono_steps.monotone (by omega))
    have hbest := @dist_nearestRank_le num den hd (ranks - 1)
    unfold Nat.dist at hbest
    omega

end

/-- The magnitude with a given rank. -/
def magnitude (rank : Nat) : ℚ := steps rank / one

def signed (negative : Bool) (q : ℚ) : ℚ := if negative then -q else q

/-- The value of a finite number; what is not finite has none, and zero stands for it. -/
def value : Binary64 → ℚ
  | finite negative rank => signed negative (magnitude rank)
  | _ => 0

def rank : Binary64 → Nat
  | finite _ rank => rank
  | _ => 0

def isNegative : Binary64 → Bool
  | finite negative _ | infinite negative => negative
  | nan => false

/-- No finite number is nearer, and if another one is as near, the rank of this one is even. -/
structure Nearest (x : Binary64) (q : ℚ) : Prop where
  finite : x.isFinite = true
  least : ∀ y : Binary64, y.isFinite = true → |x.value - q| ≤ |y.value - q|
  even : ∀ y : Binary64, y.isFinite = true → y.value ≠ x.value → |y.value - q| = |x.value - q| →
    x.rank % 2 = 0

section

variable {a b q : ℚ}

theorem value_finite (negative : Bool) (rank : Fin ranks) :
    (finite negative rank).value = signed negative (magnitude rank) := rfl

theorem magnitude_nonneg (rank : Nat) : 0 ≤ magnitude rank :=
  div_nonneg (Nat.cast_nonneg _) (Nat.cast_nonneg _)

theorem magnitude_zero : magnitude 0 = 0 := by
  simp [magnitude, steps, period_pos]

theorem abs_signed_sub_signed (negative : Bool) : |signed negative a - signed negative q| = |a - q| := by
  cases negative with
  | false => rfl
  | true =>
    have hneg : signed true a - signed true q = -(a - q) := by
      simp only [signed, if_true]
      ring
    rw [hneg, abs_neg]

theorem abs_signed (negative : Bool) (q : ℚ) : |signed negative q| = |q| := by
  cases negative with
  | false => rfl
  | true => exact abs_neg q

theorem abs_signed_sub_not (negative : Bool) (ha : 0 ≤ a) (hq : 0 ≤ q) :
    |signed (!negative) a - signed negative q| = a + q := by
  cases negative with
  | false =>
    have hneg : signed (!false) a - signed false q = -(a + q) := by
      simp only [signed, Bool.not_false, if_true, Bool.false_eq_true, if_false]
      ring
    rw [hneg, abs_neg, abs_of_nonneg (add_nonneg ha hq)]
  | true =>
    have hpos : signed (!true) a - signed true q = a + q := by
      simp only [signed, Bool.not_true, if_true, Bool.false_eq_true, if_false]
      ring
    rw [hpos, abs_of_nonneg (add_nonneg ha hq)]

theorem abs_sub_le_add (ha : 0 ≤ a) (hq : 0 ≤ q) : |a - q| ≤ a + q :=
  abs_le.mpr ⟨by linarith, by linarith⟩

end

section

variable {num den : Nat}

theorem abs_cast_sub (m n : Nat) : |(m : ℚ) - n| = Nat.dist m n := by
  rcases Nat.le_total m n with h | h
  · have hd : Nat.dist m n = n - m := Nat.dist_eq_sub_of_le h
    rw [hd, Nat.cast_sub h, abs_sub_comm, abs_of_nonneg (sub_nonneg.mpr (Nat.cast_le.mpr h))]
  · have hd : Nat.dist m n = m - n := Nat.dist_eq_sub_of_le_right h
    rw [hd, Nat.cast_sub h, abs_of_nonneg (sub_nonneg.mpr (Nat.cast_le.mpr h))]

theorem abs_magnitude_sub (hd : 0 < den) (rank : Nat) : |magnitude rank - (num : ℚ) / den| =
    (Nat.dist (num * one) (steps rank * den) : ℚ) / (one * den) := by
  have hone : (0 : ℚ) < one := Nat.cast_pos.mpr one_pos
  have hden : (0 : ℚ) < den := Nat.cast_pos.mpr hd
  rw [magnitude, div_sub_div _ _ hone.ne' hden.ne', abs_div, abs_of_pos (mul_pos hone hden),
    Nat.dist_comm, ← abs_cast_sub, Nat.cast_mul, Nat.cast_mul, mul_comm (num : ℚ)]

theorem abs_magnitude_sub_le (hd : 0 < den) (rank : Nat) :
    |magnitude (nearestRank num den) - (num : ℚ) / den| ≤ |magnitude rank - (num : ℚ) / den| := by
  rw [abs_magnitude_sub hd, abs_magnitude_sub hd]
  exact div_le_div_of_nonneg_right (Nat.cast_le.mpr (dist_nearestRank_le hd rank))
    (mul_nonneg (Nat.cast_nonneg _) (Nat.cast_nonneg _))

theorem even_of_abs_magnitude_sub (hd : 0 < den) {rank : Nat} (hne : rank ≠ nearestRank num den)
    (h : |magnitude rank - (num : ℚ) / den| = |magnitude (nearestRank num den) - (num : ℚ) / den|) :
    nearestRank num den % 2 = 0 := by
  have hpos : (0 : ℚ) < one * den := mul_pos (Nat.cast_pos.mpr one_pos) (Nat.cast_pos.mpr hd)
  rw [abs_magnitude_sub hd, abs_magnitude_sub hd, div_left_inj' hpos.ne', Nat.cast_inj] at h
  exact even_nearestRank hd hne h

theorem ofRatio_of_lt (negative : Bool) (h : nearestRank num den < ranks) :
    ofRatio negative num den = .finite negative ⟨nearestRank num den, h⟩ := dif_pos h

/-- A number is no nearer to a quotient with a sign than its magnitude is to the quotient. -/
theorem le_abs_value_sub {y : Binary64} (hy : y.isFinite = true) {q : ℚ} (hq : 0 ≤ q) (negative : Bool) :
    |magnitude y.rank - q| ≤ |y.value - signed negative q| := by
  cases y with
  | nan => cases hy
  | infinite => cases hy
  | finite negative' rank =>
    simp only [value, Binary64.rank]
    by_cases hn : negative' = negative
    · rw [hn, abs_signed_sub_signed]
    · rw [Bool.eq_not_of_ne hn, abs_signed_sub_not negative (magnitude_nonneg rank) hq]
      exact abs_sub_le_add (magnitude_nonneg rank) hq

/-- Of the two signs of a magnitude only that of the quotient comes as near, unless the magnitude is
zero. -/
theorem value_eq_of_abs_sub {y : Binary64} (hy : y.isFinite = true) {q : ℚ} (hq : 0 ≤ q) {negative : Bool}
    (hzero : |magnitude y.rank - q| ≤ |magnitude 0 - q|)
    (h : |y.value - signed negative q| = |magnitude y.rank - q|) :
    y.value = signed negative (magnitude y.rank) := by
  cases y with
  | nan => cases hy
  | infinite => cases hy
  | finite negative' rank =>
    simp only [value, Binary64.rank] at hzero h ⊢
    by_cases hn : negative' = negative
    · rw [hn]
    · rw [Bool.eq_not_of_ne hn, abs_signed_sub_not negative (magnitude_nonneg rank) hq] at h
      rw [← h, magnitude_zero, zero_sub, abs_neg, abs_of_nonneg hq] at hzero
      have hm : magnitude rank = 0 := le_antisymm (by linarith) (magnitude_nonneg rank)
      rw [hm]
      cases negative' <;> cases negative <;> simp [signed]

/-- The number for a quotient with a sign is nearest to it, and has its sign. -/
theorem nearest_ofRatio (hd : 0 < den) (h : num < overflow * den) (negative : Bool) :
    Nearest (ofRatio negative num den) (signed negative (num / den)) ∧
      (ofRatio negative num den).isNegative = negative := by
  have hlt := (nearestRank_lt_ranks_iff hd).mpr h
  have hq : (0 : ℚ) ≤ num / den := div_nonneg (Nat.cast_nonneg _) (Nat.cast_nonneg _)
  have hleast := @abs_magnitude_sub_le num den hd
  have hself := abs_signed_sub_signed (a := magnitude (nearestRank num den)) (q := num / den) negative
  rw [ofRatio_of_lt negative hlt]
  refine ⟨⟨rfl, fun y hy => ?_, fun y hy hne htie => ?_⟩, rfl⟩
  · rw [value_finite, hself]
    exact (hleast y.rank).trans (le_abs_value_sub hy hq negative)
  · have hle := le_abs_value_sub hy hq negative
    rw [value_finite, hself] at htie
    rw [htie] at hle
    have heq := le_antisymm hle (hleast y.rank)
    refine even_of_abs_magnitude_sub hd (fun hr => hne ?_) heq
    rw [value_eq_of_abs_sub hy hq (heq.trans_le (hleast 0)) (htie.trans heq.symm), hr, value_finite]

theorem ofRatio_of_overflow (hd : 0 < den) (negative : Bool) (h : overflow * den ≤ num) :
    ofRatio negative num den = .infinite negative :=
  dif_neg fun hlt => absurd ((nearestRank_lt_ranks_iff hd).mp hlt) (Nat.not_lt.mpr h)

theorem ofRatio_of_small (hd : 0 < den) (negative : Bool) (h : 2 * (num * one) < den) :
    ofRatio negative num den = .signedZero negative := by
  have hsteps : steps 0 * den = 0 := by simp [steps, period_pos]
  have hrank : nearestRank num den = 0 := by
    apply nearestRank_eq_of_near hd
    rw [hsteps, Nat.dist_zero_right]
    exact h
  have hlt : nearestRank num den < ranks := by
    rw [hrank]
    decide
  rw [ofRatio_of_lt negative hlt, signedZero]
  simp only [hrank]

theorem nearest_zero : Nearest .zero 0 := by
  have hsmall : 2 * (0 * one) < 1 := by
    rw [Nat.zero_mul]
    decide
  obtain ⟨h, -⟩ := @nearest_ofRatio 0 1 (by decide) (by decide +kernel) false
  rwa [ofRatio_of_small (by decide) false hsmall, Nat.cast_zero, zero_div] at h

end

section

variable {x : Binary64} {negative : Bool} {rank n : Nat}

theorem steps_eq_zero_iff : steps rank = 0 ↔ rank = 0 := by
  have hzero : steps 0 = 0 := if_pos (by decide +kernel)
  exact ⟨fun h => strictMono_steps.injective (h.trans hzero.symm), fun h => h ▸ hzero⟩

theorem magnitude_eq_zero_iff : magnitude rank = 0 ↔ rank = 0 := by
  have hone : (one : ℚ) ≠ 0 := Nat.cast_ne_zero.mpr one_pos.ne'
  rw [magnitude, div_eq_zero_iff, or_iff_left hone, Nat.cast_eq_zero, steps_eq_zero_iff]

theorem signed_eq_zero_iff {q : ℚ} : signed negative q = 0 ↔ q = 0 := by
  cases negative <;> simp [signed]

theorem magnitude_eq_iff : magnitude rank = n ↔ steps rank = n * one := by
  have hone : (one : ℚ) ≠ 0 := Nat.cast_ne_zero.mpr one_pos.ne'
  rw [magnitude, div_eq_iff hone]
  norm_cast

/-- Zero has two signs. -/
theorem isZero_iff : x.isZero = true ↔ x.isFinite = true ∧ x.value = 0 := by
  cases x with
  | finite negative rank =>
    rw [value_finite, signed_eq_zero_iff, magnitude_eq_zero_iff]
    simp [isZero, isFinite]
  | nan | infinite => simp [isZero, isFinite]

theorem signed_magnitude_eq_iff :
    signed negative (magnitude rank) = n ↔ steps rank = n * one ∧ (negative = true → rank = 0) := by
  cases negative with
  | false => simp [signed, magnitude_eq_iff]
  | true =>
    have hn : (0 : ℚ) ≤ n := Nat.cast_nonneg n
    have hm := magnitude_nonneg rank
    constructor
    · intro h
      have h : -magnitude rank = n := h
      have hz : magnitude rank = 0 := by linarith
      have hr := magnitude_eq_zero_iff.mp hz
      refine ⟨magnitude_eq_iff.mp ?_, fun _ => hr⟩
      linarith
    · rintro ⟨hs, hr⟩
      have hz := magnitude_eq_zero_iff.mpr (hr rfl)
      rw [← magnitude_eq_iff.mpr hs, hz]
      simp [signed]

theorem toNat?_eq_some_iff :
    x.toNat? = some n ↔ x.isFinite = true ∧ x.value = n := by
  cases x with
  | nan | infinite => simp [toNat?, isFinite]
  | finite negative rank =>
    rw [value_finite, signed_magnitude_eq_iff]
    have hdvd : steps rank = n * one ↔ steps rank % one = 0 ∧ steps rank / one = n := by
      rw [← Nat.dvd_iff_mod_eq_zero]
      constructor
      · intro h
        rw [h]
        exact ⟨Dvd.intro_left n rfl, Nat.mul_div_cancel n one_pos⟩
      · rintro ⟨hd, rfl⟩
        exact (Nat.div_mul_cancel hd).symm
    rw [hdvd, toNat?]
    cases negative <;> by_cases hr : rank.val = 0 <;> simp [isFinite, hr]

end

section

variable {n : Nat}

theorem steps_nearestRank_whole (hn : n < 2 * period) : steps (nearestRank n 1) = n * one := by
  obtain ⟨rank, hrank⟩ := exists_steps_eq hn
  have hfound : nearestRank n 1 = rank := by
    apply nearestRank_eq_of_near Nat.one_pos
    rw [hrank, Nat.mul_one, Nat.dist_self]
    exact Nat.one_pos
  rw [hfound, hrank]

theorem nearestRank_whole_lt (hn : n < 2 * period) : nearestRank n 1 < ranks := by
  rw [nearestRank_lt_ranks_iff Nat.one_pos, Nat.mul_one]
  exact hn.trans (by decide +kernel)

theorem value_ofRatio_whole (hn : n < 2 * period) (negative : Bool) :
    (ofRatio negative n 1).value = signed negative n := by
  have hone : (one : ℚ) ≠ 0 := Nat.cast_ne_zero.mpr one_pos.ne'
  rw [ofRatio_of_lt negative (nearestRank_whole_lt hn), value, magnitude, steps_nearestRank_whole hn,
    Nat.cast_mul, mul_div_cancel_right₀ _ hone]

theorem toNat?_ofInt (hn : n < 2 * period) : (ofInt n).toNat? = some n := by
  have hrank := steps_nearestRank_whole hn
  rw [ofInt, Int.natAbs_natCast, ofRatio_of_lt _ (nearestRank_whole_lt hn), toNat?]
  simp [hrank, one_pos]

end

end Binary64

namespace Decimal

open Binary64

theorem ratio_snd_pos (d : Decimal) : 0 < d.ratio.2 := pow10_pos _

theorem pow10_add (m n : Nat) : pow10 (m + n) = pow10 m * pow10 n := Nat.pow_add 10 m n

theorem pow10_mono {m n : Nat} (h : m ≤ n) : pow10 m ≤ pow10 n :=
  Nat.pow_le_pow_right (by decide) h

/-- Digits have no more places in base ten than in base two. -/
theorem ratio_small {d : Decimal} (h : d.exponent + (Nat.log2 d.digits + 1) < -400) :
    2 * (d.ratio.1 * one) < d.ratio.2 := by
  obtain ⟨k, hk⟩ : ∃ k : Nat, (-d.exponent).toNat = Nat.log2 d.digits + 1 + 400 + k :=
    ⟨(-d.exponent).toNat - (Nat.log2 d.digits + 1 + 400), by omega⟩
  have hz : d.exponent.toNat = 0 := by omega
  have hdigits : d.digits < pow10 (Nat.log2 d.digits + 1) :=
    Nat.lt_of_lt_of_le Nat.lt_log2_self (Nat.pow_le_pow_left (by decide) _)
  have hone : 2 * one ≤ pow10 400 := by decide +kernel
  have hnum : d.ratio.1 = d.digits := by
    rw [ratio, hz]
    exact Nat.mul_one _
  rw [hnum, ratio, hk, pow10_add, pow10_add]
  calc 2 * (d.digits * one) = d.digits * (2 * one) := by ring
    _ < pow10 (Nat.log2 d.digits + 1) * pow10 400 :=
        Nat.mul_lt_mul_of_lt_of_le hdigits hone (pow10_pos 400)
    _ ≤ pow10 (Nat.log2 d.digits + 1) * pow10 400 * pow10 k :=
        Nat.le_mul_of_pos_right _ (pow10_pos k)

theorem ratio_large {d : Decimal} (hd : d.digits ≠ 0) (h : 400 < d.exponent) :
    overflow * d.ratio.2 ≤ d.ratio.1 := by
  have hz : (-d.exponent).toNat = 0 := by omega
  have hoverflow : overflow ≤ pow10 400 := by decide +kernel
  have hpow : pow10 400 ≤ pow10 d.exponent.toNat := pow10_mono (by omega)
  have hden : d.ratio.2 = 1 := by
    rw [ratio, hz]
    rfl
  rw [hden, Nat.mul_one]
  calc overflow ≤ pow10 d.exponent.toNat := hoverflow.trans hpow
    _ ≤ d.digits * pow10 d.exponent.toNat := Nat.le_mul_of_pos_left _ (Nat.pos_of_ne_zero hd)

/-- Where the exponent alone decides, it decides as the quotient would. -/
theorem nearest_eq_ofRatio (negative : Bool) (d : Decimal) :
    d.nearest negative = ofRatio negative d.ratio.1 d.ratio.2 := by
  unfold nearest
  by_cases hzero : d.digits = 0
  · rw [if_pos (.inl hzero), ofRatio_of_small d.ratio_snd_pos]
    simp only [ratio, hzero, Nat.zero_mul, Nat.mul_zero]
    exact d.ratio_snd_pos
  by_cases hsmall : d.exponent + (Nat.log2 d.digits + 1) < -400
  · rw [if_pos (.inr hsmall), ofRatio_of_small d.ratio_snd_pos negative (ratio_small hsmall)]
  rw [if_neg (not_or.mpr ⟨hzero, hsmall⟩)]
  split
  · rename_i hlarge
    exact (ofRatio_of_overflow d.ratio_snd_pos negative (ratio_large hzero hlarge)).symm
  · rfl

end Decimal

end WidgetJsx
