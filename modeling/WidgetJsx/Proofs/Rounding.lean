import Mathlib.Data.Nat.Dist
import Mathlib.Order.Monotone.Basic
import Mathlib.Tactic.Ring
import WidgetJsx.Binary64.Basic

/-! The magnitudes grow with their ranks, and the one found for a quotient is nearest to it. Both are
multiplied by the divisor, so that distances are between natural numbers. -/

namespace WidgetJsx.Binary64

theorem period_eq : period = 2 ^ 52 := Nat.one_shiftLeft 52

theorem period_pos : 0 < period := by
  rw [period_eq]
  exact Nat.two_pow_pos 52

theorem one_pos : 0 < one := by decide +kernel

section

variable {d m rank : Nat}

/-- The steps are `2 ^ d` wide from rank `d * period` on, for two periods. -/
theorem steps_eq (hm : m ≤ 2 * period) (hd : d = 0 ∨ period ≤ m) :
    steps (d * period + m) = m * 2 ^ d := by
  have hp := period_pos
  by_cases hr : d * period + m < 2 * period
  · have hz : d = 0 := by
      rcases hd with hd | hd
      · exact hd
      · by_contra hne
        have := Nat.le_mul_of_pos_left period (Nat.pos_of_ne_zero hne)
        omega
    rw [steps, if_pos hr, hz]
    simp
  · rw [steps, if_neg hr, Nat.shiftLeft_eq]
    rcases Nat.lt_or_ge m (2 * period) with hlt | hge
    · have hm' : period ≤ m := by
        rcases hd with rfl | hd
        · omega
        · exact hd
      obtain ⟨k, rfl⟩ := Nat.exists_eq_add_of_le hm'
      have hk : k < period := by omega
      have he : d * period + (period + k) = k + (d + 1) * period := by ring
      rw [he, Nat.add_mul_mod_self_right, Nat.add_mul_div_right _ _ hp, Nat.mod_eq_of_lt hk,
        Nat.div_eq_of_lt hk]
      simp
    · obtain rfl : m = 2 * period := by omega
      have he : d * period + 2 * period = (d + 2) * period := by ring
      have hs : d + 2 - 1 = d + 1 := rfl
      rw [he, Nat.mul_mod_left, Nat.mul_div_cancel _ hp, hs]
      ring

theorem exists_parts (rank : Nat) :
    ∃ d m, rank = d * period + m ∧ m < 2 * period ∧ (d = 0 ∨ period ≤ m) := by
  have hp := period_pos
  by_cases hr : rank < 2 * period
  · exact ⟨0, rank, by simp, hr, .inl rfl⟩
  · refine ⟨rank / period - 1, period + rank % period, ?_, ?_, .inr (by omega)⟩
    · have hq : 2 ≤ rank / period := (Nat.le_div_iff_mul_le hp).mpr (by omega)
      obtain ⟨q, hq⟩ := Nat.exists_eq_add_of_le hq
      have hdiv := Nat.div_add_mod rank period
      have hs : 2 + q - 1 = q + 1 := by omega
      have hc : (q + 1) * period + period = period * (2 + q) := by ring
      rw [hq] at hdiv ⊢
      rw [hs]
      omega
    · have := Nat.mod_lt rank hp
      omega

theorem strictMono_steps : StrictMono steps := by
  apply strictMono_nat_of_lt_succ
  intro rank
  obtain ⟨d, m, rfl, hm, hd⟩ := exists_parts rank
  rw [Nat.add_assoc, steps_eq (by omega) hd, steps_eq (by omega) (by omega)]
  exact Nat.mul_lt_mul_of_pos_right (by omega) (Nat.two_pow_pos d)

/-- Only magnitudes below two periods of a step can lie between its multiples. -/
theorem steps_lt_or_dvd (d rank : Nat) : steps rank < period * 2 ^ d ∨ 2 ^ d ∣ steps rank := by
  obtain ⟨e, m, rfl, hm, he⟩ := exists_parts rank
  rw [steps_eq (by omega) he]
  by_cases hde : d ≤ e
  · exact .inr (Dvd.dvd.mul_left (pow_dvd_pow 2 hde) m)
  · refine .inl ?_
    have hpow : 2 ^ (e + 1) ≤ 2 ^ d := Nat.pow_le_pow_right (by omega) (by omega)
    have hlt : m * 2 ^ e < 2 * period * 2 ^ e :=
      Nat.mul_lt_mul_of_pos_right hm (Nat.two_pow_pos e)
    have hle : period * 2 ^ (e + 1) ≤ period * 2 ^ d := Nat.mul_le_mul_left period hpow
    have hdouble : period * 2 ^ (e + 1) = 2 * period * 2 ^ e := by ring
    omega

/-- Whole numbers with as many binary digits as a magnitude can have are magnitudes. -/
theorem exists_steps_eq {n : Nat} (hn : n < 2 * period) : ∃ rank, steps rank = n * one := by
  by_cases hz : n = 0
  · exact ⟨0, by simp [hz, steps, period_pos]⟩
  have hlow := Nat.log2_self_le hz
  have hhigh : n < 2 ^ (Nat.log2 n + 1) := Nat.lt_log2_self
  have hdouble : 2 * period = 2 ^ 53 := by
    rw [period_eq]
    ring
  have hlog : Nat.log2 n < 53 := (Nat.pow_lt_pow_iff_right (by decide)).mp (hlow.trans_lt (hdouble ▸ hn))
  obtain ⟨j, hj⟩ := Nat.exists_eq_add_of_le (show Nat.log2 n ≤ 52 by omega)
  obtain ⟨d, hd⟩ := Nat.exists_eq_add_of_le (show j ≤ 1074 by omega)
  have hone : one = 2 ^ j * 2 ^ d := by
    rw [one, hd, Nat.one_shiftLeft, Nat.pow_add]
  have hm : period ≤ n * 2 ^ j ∧ n * 2 ^ j < 2 * period := by
    rw [hdouble, period_eq, hj, show 53 = Nat.log2 n + 1 + j by omega, Nat.pow_add, Nat.pow_add _ _ j]
    exact ⟨Nat.mul_le_mul_right _ hlow, Nat.mul_lt_mul_of_pos_right hhigh (Nat.two_pow_pos j)⟩
  refine ⟨d * period + n * 2 ^ j, ?_⟩
  rw [steps_eq (by omega) (.inr hm.1), hone, Nat.mul_assoc]

end

section

variable {num den : Nat}

theorem roundHalfEven_cases (num den : Nat) :
    (roundHalfEven num den = num / den ∧ 2 * (num % den) ≤ den) ∨
      (roundHalfEven num den = num / den + 1 ∧ den ≤ 2 * (num % den)) := by
  by_cases hup : den < 2 * (num % den) ∨ (den = 2 * (num % den) ∧ num / den % 2 = 1)
  · exact .inr ⟨if_pos hup, by omega⟩
  · exact .inl ⟨if_neg hup, by omega⟩

theorem dist_roundHalfEven_le (hd : 0 < den) (k : Nat) :
    Nat.dist num (roundHalfEven num den * den) ≤ Nat.dist num (k * den) := by
  have hdiv := Nat.div_add_mod num den
  have hmod := Nat.mod_lt num hd
  have hsucc : (num / den + 1) * den = den * (num / den) + den := by ring
  have hk : k * den ≤ den * (num / den) ∨ den * (num / den) + den ≤ k * den := by
    rcases Nat.lt_or_ge (num / den) k with hlt | hge
    · have := Nat.mul_le_mul_right den hlt
      exact .inr (by rwa [← hsucc])
    · exact .inl (by simpa only [Nat.mul_comm den] using Nat.mul_le_mul_right den hge)
  unfold Nat.dist
  rcases roundHalfEven_cases num den with ⟨he, hr⟩ | ⟨he, hr⟩
  · rw [he, Nat.mul_comm (num / den)]
    omega
  · rw [he, hsucc]
    omega

/-- The width of the steps is chosen so that the quotient, in such steps, has as many binary digits as
a magnitude can have. -/
theorem nearestRank_parts (num den : Nat) : ∃ d, nearestRank num den =
    d * period + roundHalfEven (num * one) (den * 2 ^ d) ∧
      (d = 0 ∨ period * 2 ^ d ≤ num * one / den) ∧ num * one / den < 2 * period * 2 ^ d := by
  refine ⟨Nat.log2 (num * one / den) - 52, ?_, ?_, ?_⟩
  · simp only [nearestRank, Nat.shiftLeft_eq]
  · by_cases hl : Nat.log2 (num * one / den) ≤ 52
    · exact .inl (by omega)
    · have hne : num * one / den ≠ 0 := by
        intro hz
        rw [hz] at hl
        exact hl (by simp)
      have hself := Nat.log2_self_le hne
      have hsum : 52 + (Nat.log2 (num * one / den) - 52) = Nat.log2 (num * one / den) := by omega
      refine .inr ?_
      rwa [period_eq, ← Nat.pow_add, hsum]
  · have hlt : num * one / den < 2 ^ (Nat.log2 (num * one / den) + 1) := Nat.lt_log2_self
    have hle : 2 ^ (Nat.log2 (num * one / den) + 1) ≤
        2 ^ (53 + (Nat.log2 (num * one / den) - 52)) :=
      Nat.pow_le_pow_right (by omega) (by omega)
    have hpow : 2 * period = 2 ^ 53 := by
      rw [period_eq]
      ring
    rw [hpow, ← Nat.pow_add]
    omega

/-- The magnitude that is found is a multiple of a step: the multiple nearest to the quotient. All
magnitudes with smaller steps lie below the quotient. -/
theorem exists_step (hd : 0 < den) : ∃ d, nearestRank num den =
    d * period + roundHalfEven (num * one) (den * 2 ^ d) ∧
      steps (nearestRank num den) * den = roundHalfEven (num * one) (den * 2 ^ d) * (den * 2 ^ d) ∧
      (d = 0 ∨ period * (den * 2 ^ d) ≤ num * one) := by
  obtain ⟨d, hn, hlow, hhigh⟩ := nearestRank_parts num den
  have hquotient : num * one / (den * 2 ^ d) < 2 * period := by
    rw [← Nat.div_div_eq_div_mul]
    exact (Nat.div_lt_iff_lt_mul (Nat.two_pow_pos d)).mpr hhigh
  have hround := roundHalfEven_cases (num * one) (den * 2 ^ d)
  have hsteps : steps (nearestRank num den) = roundHalfEven (num * one) (den * 2 ^ d) * 2 ^ d := by
    rw [hn, steps_eq (by omega)]
    refine hlow.imp_right fun hlow => ?_
    have : period ≤ num * one / (den * 2 ^ d) := by
      rw [← Nat.div_div_eq_div_mul]
      exact (Nat.le_div_iff_mul_le (Nat.two_pow_pos d)).mpr hlow
    omega
  refine ⟨d, hn, ?_, hlow.imp_right fun hlow => ?_⟩
  · rw [hsteps]
    ring
  · have hcomm : period * (den * 2 ^ d) = period * 2 ^ d * den := by ring
    rw [hcomm]
    exact (Nat.le_div_iff_mul_le hd).mp hlow

/-- A magnitude is a multiple of the step, or lies below all those in such steps. -/
theorem steps_mul_cases (d rank : Nat) (hd : 0 < den) :
    (∃ k, steps rank * den = k * (den * 2 ^ d)) ∨
      (d ≠ 0 ∧ steps rank * den < period * (den * 2 ^ d)) := by
  rcases steps_lt_or_dvd d rank with hlt | ⟨k, hk⟩
  · by_cases hz : d = 0
    · exact .inl ⟨steps rank, by rw [hz, Nat.pow_zero, Nat.mul_one]⟩
    · have hcomm : period * (den * 2 ^ d) = period * 2 ^ d * den := by ring
      refine .inr ⟨hz, ?_⟩
      rw [hcomm]
      exact Nat.mul_lt_mul_of_pos_right hlt hd
  · exact .inl ⟨k, by rw [hk]; ring⟩

/-- No magnitude is nearer to a quotient than the one that is found. -/
theorem dist_nearestRank_le (hd : 0 < den) (rank : Nat) :
    Nat.dist (num * one) (steps (nearestRank num den) * den) ≤
      Nat.dist (num * one) (steps rank * den) := by
  obtain ⟨d, -, hfound, hlow⟩ := @exists_step num den hd
  have hstep : 0 < den * 2 ^ d := Nat.mul_pos hd (Nat.two_pow_pos d)
  rw [hfound]
  rcases steps_mul_cases d rank hd with ⟨k, hk⟩ | ⟨hz, hlt⟩
  · rw [hk]
    exact dist_roundHalfEven_le hstep k
  · -- a magnitude with smaller steps lies below one with these steps, which is below the quotient
    have hbelow := hlow.resolve_left hz
    refine (@dist_roundHalfEven_le (num * one) (den * 2 ^ d) hstep period).trans ?_
    unfold Nat.dist
    omega

/-- What lies within half a smallest step of a magnitude is rounded to it. -/
theorem nearestRank_eq_of_near {rank : Nat} (hd : 0 < den)
    (h : 2 * Nat.dist (num * one) (steps rank * den) < den) : nearestRank num den = rank := by
  have hnear := @dist_nearestRank_le num den hd rank
  have htriangle := Nat.dist.triangle_inequality (steps (nearestRank num den) * den) (num * one)
    (steps rank * den)
  rw [Nat.dist_mul_right, Nat.dist_comm _ (num * one)] at htriangle
  have hlt : Nat.dist (steps (nearestRank num den)) (steps rank) * den < 1 * den := by omega
  have hzero : Nat.dist (steps (nearestRank num den)) (steps rank) = 0 :=
    Nat.lt_one_iff.mp (Nat.lt_of_mul_lt_mul_right hlt)
  exact strictMono_steps.injective (Nat.eq_of_dist_eq_zero hzero)

theorem nearestRank_mul_right {k : Nat} (hk : 0 < k) :
    nearestRank (num * k) (den * k) = nearestRank num den := by
  have hround (a b : Nat) : roundHalfEven (a * k) (b * k) = roundHalfEven a b := by
    have hcomm : 2 * (a % b * k) = 2 * (a % b) * k := by ring
    simp only [roundHalfEven, Nat.mul_div_mul_right a b hk, Nat.mul_mod_mul_right, hcomm,
      Nat.mul_lt_mul_right hk, Nat.mul_left_inj hk.ne']
  have hscaled : num * k * one = num * one * k := by ring
  have hwidth (d : Nat) : (den * k) <<< d = den <<< d * k := by
    rw [Nat.shiftLeft_eq, Nat.shiftLeft_eq]
    ring
  simp only [nearestRank, hscaled, Nat.mul_div_mul_right _ _ hk, hwidth, hround]

end

end WidgetJsx.Binary64
