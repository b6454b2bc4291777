import Flagship.Stats.Distributions
import Mathlib.Analysis.SpecialFunctions.Pow.Continuity

/-! # Tails of the Student distribution

The continued fraction of the incomplete beta function is cut off where a step changes it little, so
its p-value is not known to fall with the statistic at every point. It is one at zero and vanishes
far out: near the ends of the unit interval every step of the fraction multiplies it by almost one.
-/

namespace Flagship.Stats

open Filter Topology Lib

noncomputable section

/-! ## The continued fraction near zero -/

theorem TINY_le : TINY ≤ 1 / 2 := by
  have hRational : (1e-300 : ℚ) ≤ 1 / 2 := by decide +kernel
  have hCast : ((1e-300 : ℚ) : ℝ) ≤ ((1 / 2 : ℚ) : ℝ) := Rat.cast_le.mpr hRational
  rwa [Rat.cast_ofScientific, Rat.cast_div, Rat.cast_one, Rat.cast_ofNat] at hCast

theorem awayFromZero_of_le {x : ℝ} (h : 1 / 2 ≤ x) : awayFromZero x = x := by
  rw [awayFromZero, if_neg]
  rw [abs_of_nonneg (one_half_pos.le.trans h), not_lt]
  exact TINY_le.trans h

/-- What every step keeps while the numerators are small. -/
structure Fraction.Steady (fraction : Fraction) : Prop where
  c_low : 1 / 2 ≤ fraction.c
  d_low : 0 ≤ fraction.d
  d_high : fraction.d ≤ 2
  result : 0 ≤ fraction.result

theorem Fraction.Steady.advance {fraction : Fraction} (h : fraction.Steady) {numerator bound : ℝ}
    (hNumerator : |numerator| ≤ bound) (hBound : bound ≤ 1 / 8) :
    (fraction.advance numerator).1.Steady ∧
      (fraction.advance numerator).1.result ≤ fraction.result * (1 + 8 * bound) := by
  have hNonneg : 0 ≤ bound := (abs_nonneg numerator).trans hNumerator
  have hQuotient : |numerator / fraction.c| ≤ 2 * bound := by
    rw [abs_div, abs_of_pos (one_half_pos.trans_le h.c_low), div_le_iff₀ (one_half_pos.trans_le h.c_low)]
    nlinarith [h.c_low]
  have hProduct : |numerator * fraction.d| ≤ 2 * bound := by
    rw [abs_mul, abs_of_nonneg h.d_low, mul_comm 2 bound]
    exact mul_le_mul hNumerator h.d_high h.d_low hNonneg
  obtain ⟨hQuotientLow, hQuotientHigh⟩ := abs_le.mp hQuotient
  obtain ⟨hProductLow, hProductHigh⟩ := abs_le.mp hProduct
  have hC : awayFromZero (1 + numerator / fraction.c) = 1 + numerator / fraction.c :=
    awayFromZero_of_le (by linarith)
  have hD : awayFromZero (1 + numerator * fraction.d) = 1 + numerator * fraction.d :=
    awayFromZero_of_le (by linarith)
  have hPositive : 0 < 1 + numerator * fraction.d := by linarith
  have hFactor : 1 / (1 + numerator * fraction.d) * (1 + numerator / fraction.c) ≤ 1 + 8 * bound := by
    rw [one_div_mul_eq_div, div_le_iff₀ hPositive]
    nlinarith
  have hFactorNonneg : 0 ≤ 1 / (1 + numerator * fraction.d) * (1 + numerator / fraction.c) :=
    mul_nonneg (one_div_nonneg.mpr hPositive.le) (by linarith)
  simp only [Fraction.advance, hC, hD]
  refine ⟨⟨?_, ?_, ?_, mul_nonneg h.result hFactorNonneg⟩, mul_le_mul_of_nonneg_left hFactor h.result⟩
  · change 1 / 2 ≤ 1 + numerator / fraction.c
    linarith
  · exact one_div_nonneg.mpr hPositive.le
  · change 1 / (1 + numerator * fraction.d) ≤ 2
    rw [div_le_iff₀ hPositive]
    linarith

variable {x a b : ℝ}

theorem evenNumerator_le (hx : 0 ≤ x) (ha : 0 < a) (hb : 0 < b) {m : ℕ} (hm : 1 ≤ m) :
    |m * (b - m) * x / ((a - 1 + 2 * m) * (a + 2 * m))| ≤ (1 + b) * x := by
  have hReal : (1 : ℝ) ≤ m := by exact_mod_cast hm
  have hDenominator : 0 < (a - 1 + 2 * m) * (a + 2 * m) := mul_pos (by linarith) (by linarith)
  have hDistance : |b - m| ≤ b + m := by
    rw [abs_le]
    constructor <;> linarith
  rw [abs_div, abs_of_pos hDenominator, div_le_iff₀ hDenominator, abs_mul, abs_mul, abs_of_nonneg hx,
    abs_of_nonneg (zero_le_one.trans hReal), mul_right_comm (1 + b)]
  apply mul_le_mul_of_nonneg_right _ hx
  have hFirst : m * |b - m| ≤ m * (b + m) := mul_le_mul_of_nonneg_left hDistance (zero_le_one.trans hReal)
  nlinarith [mul_pos ha hb, mul_nonneg hb.le (sub_nonneg.mpr hReal), mul_nonneg ha.le (sub_nonneg.mpr hReal)]

theorem oddNumerator_le (hx : 0 ≤ x) (ha : 0 < a) (hb : 0 < b) (m : ℕ) :
    |-(a + m) * (a + b + m) * x / ((a + 2 * m) * (a + 1 + 2 * m))| ≤ (1 + b) * x := by
  have hReal : (0 : ℝ) ≤ m := m.cast_nonneg
  have hDenominator : 0 < (a + 2 * m) * (a + 1 + 2 * m) := mul_pos (by linarith) (by linarith)
  rw [neg_mul, neg_mul, neg_div, abs_neg, abs_of_nonneg (by positivity), div_le_iff₀ hDenominator,
    mul_right_comm (1 + b)]
  apply mul_le_mul_of_nonneg_right _ hx
  have hFirst : a + m ≤ a + 2 * m := by linarith
  have hSecond : a + b + m ≤ (1 + b) * (a + 1 + 2 * m) := by nlinarith
  calc (a + m) * (a + b + m) ≤ (a + 2 * m) * ((1 + b) * (a + 1 + 2 * m)) :=
        mul_le_mul hFirst hSecond (by linarith) (by linarith)
    _ = (1 + b) * ((a + 2 * m) * (a + 1 + 2 * m)) := by ring

/-- Two factors an iteration, whether or not the loop is left early. -/
theorem fractionFrom_le (hx : 0 ≤ x) (ha : 0 < a) (hb : 0 < b) (hSmall : (1 + b) * x ≤ 1 / 8) (remaining : ℕ) :
    ∀ {m : ℕ} {fraction : Fraction}, 1 ≤ m → fraction.Steady →
      fractionFrom x a b m fraction remaining ≤ fraction.result * (1 + 8 * ((1 + b) * x)) ^ (2 * remaining) ∧
        0 ≤ fractionFrom x a b m fraction remaining := by
  have hFactor : 1 ≤ 1 + 8 * ((1 + b) * x) := by
    have hNonneg : 0 ≤ (1 + b) * x := by positivity
    linarith
  induction remaining with
  | zero =>
    intro m fraction _ hSteady
    rw [fractionFrom, mul_zero, pow_zero, mul_one]
    exact ⟨le_rfl, hSteady.result⟩
  | succ remaining ih =>
    intro m fraction hm hSteady
    obtain ⟨hEven, hEvenResult⟩ := hSteady.advance (evenNumerator_le hx ha hb hm) hSmall
    obtain ⟨hOdd, hOddResult⟩ := hEven.advance (oddNumerator_le hx ha hb m) hSmall
    have hTwo := hOddResult.trans (mul_le_mul_of_nonneg_right hEvenResult (zero_le_one.trans hFactor))
    have hPower : fraction.result * (1 + 8 * ((1 + b) * x)) ^ (2 * (remaining + 1)) =
        fraction.result * (1 + 8 * ((1 + b) * x)) * (1 + 8 * ((1 + b) * x)) *
          (1 + 8 * ((1 + b) * x)) ^ (2 * remaining) := by
      rw [mul_add, mul_one, pow_add]
      ring
    have hRest : (1 : ℝ) ≤ (1 + 8 * ((1 + b) * x)) ^ (2 * remaining) := one_le_pow₀ hFactor
    rw [fractionFrom, hPower]
    dsimp only
    split
    · refine ⟨?_, hOdd.result⟩
      exact hTwo.trans (le_mul_of_one_le_right (hOdd.result.trans hTwo) hRest)
    · obtain ⟨hLater, hLaterNonneg⟩ := ih (Nat.le_add_left 1 m) hOdd
      exact ⟨hLater.trans (mul_le_mul_of_nonneg_right hTwo (zero_le_one.trans hRest)), hLaterNonneg⟩

theorem betaContinuedFraction_le (hx : 0 ≤ x) (ha : 0 < a) (hb : 0 < b) (hSmall : (1 + b) * x ≤ 1 / 8) :
    betaContinuedFraction x a b ≤ 2 * (1 + 8 * ((1 + b) * x)) ^ (2 * MAX_ITERATIONS) ∧
      0 ≤ betaContinuedFraction x a b := by
  have hQuotient : (a + b) * x / (a + 1) ≤ 1 / 8 := by
    have hLess : (a + b) * x ≤ (1 + b) * x * (a + 1) := by nlinarith [mul_nonneg (mul_pos ha hb).le hx]
    rw [div_le_iff₀ (by linarith)]
    nlinarith
  have hPositive : 0 < 1 - (a + b) * x / (a + 1) := by linarith
  have hStart : 1 / (1 - (a + b) * x / (a + 1)) ≤ 2 := by
    rw [div_le_iff₀ hPositive]
    linarith
  have hStartNonneg : 0 ≤ 1 / (1 - (a + b) * x / (a + 1)) := one_div_nonneg.mpr hPositive.le
  rw [betaContinuedFraction, awayFromZero_of_le (by linarith)]
  have hSteady : Fraction.Steady
      { c := 1
        d := 1 / (1 - (a + b) * x / (a + 1))
        result := 1 / (1 - (a + b) * x / (a + 1)) } :=
    ⟨one_half_lt_one.le, hStartNonneg, hStart, hStartNonneg⟩
  obtain ⟨hBound, hNonneg⟩ := fractionFrom_le hx ha hb hSmall MAX_ITERATIONS le_rfl hSteady
  refine ⟨hBound.trans ?_, hNonneg⟩
  exact mul_le_mul_of_nonneg_right hStart (by positivity)

/-! ## The incomplete beta function near zero and one -/

/-- The factor of `incompleteBeta` that its argument does not change. -/
def betaScale (a b : ℝ) : ℝ := Real.exp (logGamma (a + b) - logGamma a - logGamma b)

/-- A bound of the smaller of the two parts. -/
def betaBound (x a b : ℝ) : ℝ := betaScale a b * x ^ a * (2 * (1 + 8 * ((1 + b) * x)) ^ (2 * MAX_ITERATIONS)) / a

theorem front_mul_le (hLow : 0 < x) (hHigh : x < 1) (ha : 0 < a) (hb : 0 < b) (hSmall : (1 + b) * x ≤ 1 / 8) :
    Real.exp (logGamma (a + b) - logGamma a - logGamma b + a * Real.log x + b * Real.log (1 - x)) *
      betaContinuedFraction x a b / a ≤ betaBound x a b := by
  obtain ⟨hFraction, hNonneg⟩ := betaContinuedFraction_le hLow.le ha hb hSmall
  have hLog : b * Real.log (1 - x) ≤ 0 :=
    mul_nonpos_of_nonneg_of_nonpos hb.le (Real.log_nonpos (by linarith) (by linarith))
  have hFront : Real.exp (logGamma (a + b) - logGamma a - logGamma b + a * Real.log x + b * Real.log (1 - x)) ≤
      betaScale a b * x ^ a := by
    rw [betaScale, Real.rpow_def_of_pos hLow, mul_comm (Real.log x), ← Real.exp_add, Real.exp_le_exp]
    linarith
  apply div_le_div_of_nonneg_right _ ha.le
  exact mul_le_mul hFront hFraction hNonneg ((Real.exp_pos _).le.trans hFront)

theorem below_switch (hx : 0 < x) (ha : 0 < a) (hb : 0 < b) (hSmall : (1 + b) * x ≤ 1 / 8) :
    x < (a + 1) / (a + b + 2) := by
  rw [lt_div_iff₀ (by linarith)]
  nlinarith [mul_pos ha hb, mul_pos hx ha, mul_pos hx hb, mul_pos (mul_pos hx hb) ha]

theorem incompleteBeta_le (hx : 0 < x) (ha : 0 < a) (hb : 0 < b) (hSmall : (1 + b) * x ≤ 1 / 8) :
    incompleteBeta x a b ≤ betaBound x a b := by
  have hHigh : x < 1 := by nlinarith
  rw [incompleteBeta, if_neg (not_le.mpr hx), if_neg (not_le.mpr hHigh)]
  dsimp only
  rw [if_pos (below_switch hx ha hb hSmall)]
  exact front_mul_le hx hHigh ha hb hSmall

theorem le_incompleteBeta (hx : x < 1) (ha : 0 < a) (hb : 0 < b) (hSmall : (1 + a) * (1 - x) ≤ 1 / 8) :
    1 - betaBound (1 - x) b a ≤ incompleteBeta x a b := by
  have hRest : 0 < 1 - x := sub_pos.mpr hx
  have hHigh : 1 - x < 1 := by nlinarith
  have hSwitch := below_switch hRest hb ha hSmall
  have hOther : ¬ x < (a + 1) / (a + b + 2) := by
    have hSum : (a + 1) / (a + b + 2) + (b + 1) / (b + a + 2) = 1 := by
      rw [add_comm b a, ← add_div, div_eq_one_iff_eq (by linarith)]
      ring
    linarith
  have hBound := front_mul_le hRest hHigh hb ha hSmall
  rw [incompleteBeta, if_neg (by linarith), if_neg (not_le.mpr hx)]
  dsimp only
  rw [if_neg hOther]
  have hExponent : logGamma (a + b) - logGamma a - logGamma b + a * Real.log x + b * Real.log (1 - x) =
      logGamma (b + a) - logGamma b - logGamma a + b * Real.log (1 - x) + a * Real.log (1 - (1 - x)) := by
    rw [add_comm b a, sub_sub_cancel]
    ring
  rw [hExponent]
  linarith

theorem tendsto_betaBound (ha : 0 < a) (b : ℝ) : Tendsto (fun x => betaBound x a b) (𝓝 0) (𝓝 0) := by
  have hPower : ContinuousAt (fun x : ℝ => x ^ a) 0 := Real.continuousAt_rpow_const 0 a (Or.inr ha.le)
  have hContinuous : ContinuousAt (fun x => betaBound x a b) 0 :=
    ((continuousAt_const.mul hPower).mul (by fun_prop)).div_const a
  have hZero : betaBound 0 a b = 0 := by rw [betaBound, Real.zero_rpow ha.ne', mul_zero, zero_mul, zero_div]
  have hLimit := hContinuous.tendsto
  rwa [hZero] at hLimit

/-! ## The p-value near zero and far out -/

variable {alpha df : ℝ}

theorem studentTTwoSidedPValue_abs (t df : ℝ) : studentTTwoSidedPValue |t| df = studentTTwoSidedPValue t df := by
  rw [studentTTwoSidedPValue, studentTTwoSidedPValue, abs_mul_abs_self]

theorem studentTTwoSidedPValue_of_pos (hDf : 0 < df) (t : ℝ) :
    studentTTwoSidedPValue t df = incompleteBeta (df / (df + t * t)) (df / 2) 0.5 :=
  if_neg (not_le.mpr hDf)

theorem studentTTwoSidedPValue_far (hDf : 0 < df) (hAlpha : 0 < alpha) :
    ∃ far, ∀ t, far < t → studentTTwoSidedPValue t df < alpha := by
  have hArgument : Tendsto (fun t : ℝ => df / (df + t * t)) atTop (𝓝 0) :=
    tendsto_const_nhds.div_atTop (tendsto_atTop_add_const_left _ _ (tendsto_id.atTop_mul_atTop₀ tendsto_id))
  have hScaled : Tendsto (fun t : ℝ => (1 + 0.5) * (df / (df + t * t))) atTop (𝓝 0) := by
    simpa using hArgument.const_mul (1 + 0.5)
  have hBound := (tendsto_betaBound (half_pos hDf) 0.5).comp hArgument
  have hFar := (hBound.eventually_lt_const hAlpha).and (hScaled.eventually_le_const (by norm_num : (0 : ℝ) < 1 / 8))
  obtain ⟨far, hFar⟩ := eventually_atTop.mp hFar
  refine ⟨far, fun t ht => ?_⟩
  obtain ⟨hSmall, hNear⟩ := hFar t ht.le
  have hPositive : 0 < df / (df + t * t) := div_pos hDf (add_pos_of_pos_of_nonneg hDf (mul_self_nonneg t))
  rw [studentTTwoSidedPValue_of_pos hDf]
  exact (incompleteBeta_le hPositive (half_pos hDf) (by norm_num) hNear).trans_lt hSmall

theorem studentTTwoSidedPValue_near (df : ℝ) (hAlpha : alpha < 1) :
    ∃ near, 0 < near ∧ ∀ t, |t| < near → alpha ≤ studentTTwoSidedPValue t df := by
  obtain hDf | hDf := le_or_gt df 0
  · refine ⟨1, one_pos, fun t _ => ?_⟩
    rw [studentTTwoSidedPValue, if_pos hDf]
    exact hAlpha.le
  have hDenominator (t : ℝ) : 0 < df + t * t := add_pos_of_pos_of_nonneg hDf (mul_self_nonneg t)
  have hRest : Tendsto (fun t : ℝ => 1 - df / (df + t * t)) (𝓝 0) (𝓝 0) := by
    have hContinuous : Continuous fun t : ℝ => 1 - df / (df + t * t) :=
      continuous_const.sub (continuous_const.div (by fun_prop) fun t => (hDenominator t).ne')
    have hLimit := hContinuous.tendsto 0
    rwa [mul_zero, add_zero, div_self hDf.ne', sub_self] at hLimit
  have hScaled : Tendsto (fun t : ℝ => (1 + df / 2) * (1 - df / (df + t * t))) (𝓝 0) (𝓝 0) := by
    simpa using hRest.const_mul (1 + df / 2)
  have hBound := (tendsto_betaBound (by norm_num : (0 : ℝ) < 0.5) (df / 2)).comp hRest
  have hNear := (hBound.eventually_lt_const (sub_pos.mpr hAlpha)).and
    (hScaled.eventually_le_const (by norm_num : (0 : ℝ) < 1 / 8))
  obtain ⟨near, hPositive, hNear⟩ := Metric.eventually_nhds_iff.mp hNear
  refine ⟨near, hPositive, fun t ht => ?_⟩
  rw [studentTTwoSidedPValue_of_pos hDf]
  obtain rfl | hMoved := eq_or_ne t 0
  · rw [mul_zero, add_zero, div_self hDf.ne', incompleteBeta, if_neg (not_le.mpr one_pos), if_pos le_rfl]
    exact hAlpha.le
  obtain ⟨hSmall, hClose⟩ := hNear (by rwa [Real.dist_eq, sub_zero])
  have hBelow : df / (df + t * t) < 1 := by
    rw [div_lt_one (hDenominator t)]
    exact lt_add_of_pos_right df (mul_self_pos.mpr hMoved)
  have hLower := le_incompleteBeta hBelow (half_pos hDf) (by norm_num : (0 : ℝ) < 0.5) hClose
  have hLess : betaBound (1 - df / (df + t * t)) 0.5 (df / 2) < 1 - alpha := hSmall
  linarith

end

end Flagship.Stats
