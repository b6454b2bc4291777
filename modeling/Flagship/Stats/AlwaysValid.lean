import Flagship.Stats.Sequential

/-! # Inversion of the sequential test

The half-width of the always-valid interval is where the likelihood ratio reaches `1 / alpha`, so
the test and its interval decide alike.
-/

namespace Flagship.Stats

noncomputable section

def halfWidth (interval : ℝ × ℝ) : ℝ := (interval.2 - interval.1) / 2

/-- `inner` of `alwaysValidInterval`, the square of the half-width. -/
def inner (variance tau alpha : ℝ) : ℝ :=
  2 * variance * (variance + tau * tau) * Real.log (√((variance + tau * tau) / variance) / alpha) / (tau * tau)

variable {variance tau alpha : ℝ}

theorem log_ratio (hVariance : 0 < variance) (hAlpha : 0 < alpha) :
    Real.log (√((variance + tau * tau) / variance) / alpha) =
      Real.log (1 / alpha) - Real.log √(variance / (variance + tau * tau)) := by
  have hSum : 0 < variance + tau * tau := add_pos_of_pos_of_nonneg hVariance (mul_self_nonneg tau)
  have hScale : 0 < √(variance / (variance + tau * tau)) := Real.sqrt_pos.mpr (div_pos hVariance hSum)
  have hInverse : √((variance + tau * tau) / variance) = (√(variance / (variance + tau * tau)))⁻¹ := by
    rw [← Real.sqrt_inv, inv_div]
  rw [hInverse, ← Real.log_div (one_div_pos.mpr hAlpha).ne' hScale.ne']
  congr 1
  field_simp

/-- The likelihood ratio passes `1 / alpha` where the effect passes the half-width. -/
theorem ratio_iff (effect : ℝ) (hVariance : 0 < variance) (hTau : 0 < tau) (hAlpha : 0 < alpha) :
    1 / alpha ≤ mixtureLikelihoodRatio effect variance tau ↔ inner variance tau alpha ≤ effect ^ 2 := by
  have hSquare : 0 < tau * tau := mul_pos hTau hTau
  have hSum : 0 < variance + tau * tau := add_pos hVariance hSquare
  have hScale : 0 < √(variance / (variance + tau * tau)) := Real.sqrt_pos.mpr (div_pos hVariance hSum)
  have hFactor : 0 < 2 * variance * (variance + tau * tau) := by positivity
  rw [mixtureLikelihoodRatio, if_neg (not_le.mpr hVariance), inner, log_ratio hVariance hAlpha]
  dsimp only
  rw [← Real.log_le_log_iff (one_div_pos.mpr hAlpha) (mul_pos hScale (Real.exp_pos _)),
    Real.log_mul hScale.ne' (Real.exp_pos _).ne', Real.log_exp, ← sub_le_iff_le_add', le_div_iff₀ hFactor,
    div_le_iff₀ hSquare]
  have hLeft : (Real.log (1 / alpha) - Real.log √(variance / (variance + tau * tau))) *
      (2 * variance * (variance + tau * tau)) = 2 * variance * (variance + tau * tau) *
        (Real.log (1 / alpha) - Real.log √(variance / (variance + tau * tau))) := mul_comm _ _
  have hRight : tau * tau * effect * effect = effect ^ 2 * (tau * tau) := by ring
  rw [hLeft, hRight]

theorem inner_pos (hVariance : 0 < variance) (hTau : 0 < tau) (hAlpha : 0 < alpha) (hBelow : alpha < 1) :
    0 < inner variance tau alpha := by
  have hSquare : 0 < tau * tau := mul_pos hTau hTau
  have hRatio : 1 ≤ √((variance + tau * tau) / variance) := by
    rw [Real.one_le_sqrt, one_le_div hVariance]
    linarith
  have hLog : 0 < Real.log (√((variance + tau * tau) / variance) / alpha) := by
    apply Real.log_pos
    rw [one_lt_div hAlpha]
    exact hBelow.trans_le hRatio
  unfold inner
  positivity

theorem alwaysValidInterval_eq (effect : ℝ) (hVariance : 0 < variance) (hTau : 0 < tau) (hAlpha : 0 < alpha)
    (hBelow : alpha < 1) : alwaysValidInterval effect variance tau alpha =
      (effect - √(inner variance tau alpha), effect + √(inner variance tau alpha)) := by
  have hNeither : ¬ (variance ≤ 0 ∨ tau * tau ≤ 0) := by
    rw [not_or, not_le, not_le]
    exact ⟨hVariance, mul_pos hTau hTau⟩
  have hInner : ¬ inner variance tau alpha ≤ 0 := not_le.mpr (inner_pos hVariance hTau hAlpha hBelow)
  rw [alwaysValidInterval]
  dsimp only
  rw [if_neg hNeither]
  exact if_neg hInner

theorem pValue_iff {ratio : ℝ} (hRatio : 0 < ratio) (hAlpha : 0 < alpha) (hBelow : alpha < 1) :
    min 1 (if 0 < ratio then 1 / ratio else 1) ≤ alpha ↔ 1 / alpha ≤ ratio := by
  rw [if_pos hRatio, min_le_iff, or_iff_right (not_le.mpr hBelow), one_div_le hRatio hAlpha]

theorem mixtureLikelihoodRatio_pos (effect : ℝ) (hVariance : 0 < variance) :
    0 < mixtureLikelihoodRatio effect variance tau := by
  have hSum : 0 < variance + tau * tau := add_pos_of_pos_of_nonneg hVariance (mul_self_nonneg tau)
  rw [mixtureLikelihoodRatio, if_neg (not_le.mpr hVariance)]
  exact mul_pos (Real.sqrt_pos.mpr (div_pos hVariance hSum)) (Real.exp_pos _)

/-- What the test, its p-value and its interval say of an effect. -/
structure Inverted (alpha : ℝ) (result : SequentialResult) : Prop where
  pValue : result.significant = true ↔ result.alwaysValidPValue ≤ alpha
  width : result.significant = true ↔ halfWidth result.confidenceInterval ≤ |result.effect|
  outside : ¬ (result.confidenceInterval.1 ≤ 0 ∧ 0 ≤ result.confidenceInterval.2) → result.significant = true
  interior : result.significant = true → ¬ (result.confidenceInterval.1 < 0 ∧ 0 < result.confidenceInterval.2)

theorem interval_inverts_test (effect : ℝ) (hVariance : 0 < variance) {options : SequentialOptions}
    (hTau : ∀ tau, options.tau = some tau → 0 < tau)
    (hAlpha : ∀ alpha, options.alpha = some alpha → 0 < alpha ∧ alpha < 1) :
    Inverted (options.alpha.getD 0.05) (build effect variance options) := by
  obtain ⟨hPositive, hBelow⟩ : 0 < options.alpha.getD 0.05 ∧ options.alpha.getD 0.05 < 1 := by
    cases hGiven : options.alpha with
    | none => norm_num
    | some alpha => exact hAlpha alpha hGiven
  have hPrior : 0 < options.tau.getD √(max variance EPSILON) := by
    cases hGiven : options.tau with
    | none => exact Real.sqrt_pos.mpr (lt_max_of_lt_left hVariance)
    | some tau => exact hTau tau hGiven
  rw [build]
  generalize options.alpha.getD 0.05 = alpha at hPositive hBelow
  generalize options.tau.getD √(max variance EPSILON) = tau at hPrior
  have hInterval := alwaysValidInterval_eq effect hVariance hPrior hPositive hBelow
  have hRatio := ratio_iff effect hVariance hPrior hPositive
  have hRoot : √(inner variance tau alpha) ≤ |effect| ↔ inner variance tau alpha ≤ effect ^ 2 := by
    rw [Real.sqrt_le_iff, sq_abs]
    exact and_iff_right (abs_nonneg effect)
  have hWidth : decide (1 / alpha ≤ mixtureLikelihoodRatio effect variance tau) = true ↔
      √(inner variance tau alpha) ≤ |effect| := by
    rw [decide_eq_true_iff, hRatio, hRoot]
  constructor
  case pValue => rw [decide_eq_true_iff, pValue_iff (mixtureLikelihoodRatio_pos effect hVariance) hPositive hBelow]
  case width =>
    rw [hWidth, hInterval, halfWidth]
    ring_nf
  case outside =>
    intro hOutside
    rw [hWidth]
    by_contra hShort
    rw [hInterval] at hOutside
    obtain ⟨hLow, hHigh⟩ := abs_lt.mp (not_le.mp hShort)
    exact hOutside ⟨by linarith, by linarith⟩
  case interior =>
    rw [hWidth, hInterval]
    rintro hWide ⟨hLow, hHigh⟩
    apply absurd hWide
    rw [not_le, abs_lt]
    exact ⟨by linarith, by linarith⟩

/-- A tenth of a standard error, at one half. -/
theorem small_effect_inverts : Inverted 0.5 (build 0.1 1 { alpha := some 0.5, tau := some 2 }) := by
  apply @interval_inverts_test 1 0.1 one_pos { alpha := some 0.5, tau := some 2 }
  · intro tau hTau
    cases hTau
    exact two_pos
  · intro alpha hAlpha
    cases hAlpha
    norm_num

end

end Flagship.Stats
