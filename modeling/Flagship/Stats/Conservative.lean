import Flagship.Stats.AlwaysValid
import Flagship.Stats.FixedHorizon

/-! # The sequential test against the fixed-horizon one

On one pair of binary samples: the logarithms of the two p-values tell at which samples the
always-valid one is the larger.
-/

namespace Flagship.Stats

noncomputable section

namespace BinarySample

variable {control treatment : BinarySample}

theorem Counts.rate_nonneg (h : control.Counts) : 0 ≤ control.rate := div_nonneg h.low h.observed.le

theorem Counts.rate_le_one (h : control.Counts) : control.rate ≤ 1 := div_le_one_of_le₀ h.high h.observed.le

theorem unpooledVariance_nonneg (hControl : control.Counts) (hTreatment : treatment.Counts) :
    0 ≤ control.unpooledVariance treatment := by
  have hArm {arm : BinarySample} (h : arm.Counts) : 0 ≤ arm.rate * (1 - arm.rate) / arm.n :=
    div_nonneg (mul_nonneg h.rate_nonneg (sub_nonneg.mpr h.rate_le_one)) h.observed.le
  exact add_nonneg (hArm hControl) (hArm hTreatment)

/-- With one rate in both arms the two variances are one. -/
theorem unpooledVariance_eq (hControl : control.Counts) (hTreatment : treatment.Counts)
    (hRates : treatment.rate = control.rate) :
    control.unpooledVariance treatment = control.pooledVariance treatment := by
  have hFirst : control.conversions = control.rate * control.n := (div_mul_cancel₀ _ hControl.observed.ne').symm
  have hSecond : treatment.conversions = control.rate * treatment.n := by
    rw [← hRates]
    exact (div_mul_cancel₀ _ hTreatment.observed.ne').symm
  have hPooled : control.pooledRate treatment = control.rate := by
    rw [pooledRate, hSecond, hFirst, ← mul_add]
    exact mul_div_cancel_right₀ _ (add_pos hControl.observed hTreatment.observed).ne'
  rw [unpooledVariance, pooledVariance, hPooled, hRates]
  ring

theorem unpooledVariance_eq_zero (hControl : control.Counts) (hTreatment : treatment.Counts)
    (hError : control.pooledSe treatment = 0) : control.unpooledVariance treatment = 0 := by
  have hRates := rate_eq_of_pooledSe hControl hTreatment hError
  apply le_antisymm _ (unpooledVariance_nonneg hControl hTreatment)
  rw [unpooledVariance_eq hControl hTreatment hRates]
  exact Real.sqrt_eq_zero'.mp hError

end BinarySample

/-! ## The two p-values -/

theorem twoProportionZTest_pValue {control treatment : BinarySample} (alpha : ℝ)
    (hError : control.pooledSe treatment ≠ 0) : (twoProportionZTest control treatment alpha).pValue =
      normalTwoSidedPValue ((treatment.rate - control.rate) / control.pooledSe treatment) := by
  rw [twoProportionZTest]
  dsimp only
  rw [if_neg hError]
  rfl

theorem twoProportionZTest_pValue_le_one (control treatment : BinarySample) (alpha : ℝ) :
    (twoProportionZTest control treatment alpha).pValue ≤ 1 := by
  obtain hError | hError := eq_or_ne (control.pooledSe treatment) 0
  · rw [twoProportionZTest_degenerate hError, TestResult.degenerate]
  · rw [twoProportionZTest_pValue alpha hError]
    exact (normalTwoSidedPValue_lt_one _).le

theorem log_mixtureLikelihoodRatio {variance : ℝ} (effect tau : ℝ) (hVariance : 0 < variance) :
    2 * Real.log (mixtureLikelihoodRatio effect variance tau) =
      tau ^ 2 * effect ^ 2 / (variance * (variance + tau ^ 2)) - Real.log (1 + tau ^ 2 / variance) := by
  have hSum : 0 < variance + tau * tau := add_pos_of_pos_of_nonneg hVariance (mul_self_nonneg tau)
  have hQuotient : 0 < variance / (variance + tau * tau) := div_pos hVariance hSum
  have hScale : Real.log (variance / (variance + tau * tau)) = -Real.log (1 + tau ^ 2 / variance) := by
    rw [← Real.log_inv, inv_eq_one_div]
    congr 1
    field_simp
  rw [mixtureLikelihoodRatio, if_neg (not_le.mpr hVariance)]
  dsimp only
  rw [Real.log_mul (Real.sqrt_pos.mpr hQuotient).ne' (Real.exp_pos _).ne', Real.log_exp, Real.log_sqrt hQuotient.le,
    hScale]
  field_simp
  ring

theorem sequentialProportionTest_pValue {control treatment : BinarySample} (alpha : Option ℝ) (tau : ℝ)
    (hVariance : 0 < control.unpooledVariance treatment) :
    (sequentialProportionTest control treatment { alpha, tau := some tau }).alwaysValidPValue = min 1
      (1 / mixtureLikelihoodRatio (treatment.rate - control.rate) (control.unpooledVariance treatment) tau) := by
  have hRatio : 0 < mixtureLikelihoodRatio (treatment.rate - control.rate) (control.unpooledVariance treatment) tau :=
    mixtureLikelihoodRatio_pos _ hVariance
  exact congrArg (min 1) (if_pos hRatio)

theorem sequentialProportionTest_pValue_of_zero {control treatment : BinarySample} (alpha : Option ℝ) (tau : ℝ)
    (hVariance : control.unpooledVariance treatment = 0) :
    (sequentialProportionTest control treatment { alpha, tau := some tau }).alwaysValidPValue = 1 := by
  have hRatio : mixtureLikelihoodRatio (treatment.rate - control.rate) (control.unpooledVariance treatment) tau = 0 :=
    if_pos hVariance.le
  have hNot : ¬ 0 < mixtureLikelihoodRatio (treatment.rate - control.rate) (control.unpooledVariance treatment) tau :=
    hRatio.le.not_gt
  exact (congrArg (min 1) (if_neg hNot)).trans (min_self 1)

/-! ## When the sequential test is the more conservative -/

/-- What the mixture gains over the normal tail in the exponent is at most what its scale and the
polynomial give up. -/
def GainBounded (tau : ℝ) (control treatment : BinarySample) : Prop :=
  let effect := treatment.rate - control.rate
  let pooled := control.pooledVariance treatment
  let unpooled := control.unpooledVariance treatment
  tau ^ 2 * effect ^ 2 / (unpooled * (unpooled + tau ^ 2)) - effect ^ 2 / pooled ≤
    Real.log (1 + tau ^ 2 / unpooled) - 2 * Real.log (erfPolynomial (tailArgument (effect / √pooled)))

section

variable {control treatment : BinarySample} (hControl : control.Counts) (hTreatment : treatment.Counts) (tau : ℝ)

include hControl hTreatment

theorem pValue_le_iff_of_variance (level : ℝ) (alpha : Option ℝ)
    (hVariance : 0 < control.unpooledVariance treatment) :
    (twoProportionZTest control treatment level).pValue ≤
        (sequentialProportionTest control treatment { alpha, tau := some tau }).alwaysValidPValue ↔
      GainBounded tau control treatment := by
  have hError : control.pooledSe treatment ≠ 0 := by
    intro hZero
    exact hVariance.ne' (BinarySample.unpooledVariance_eq_zero hControl hTreatment hZero)
  have hPooled : 0 < control.pooledVariance treatment := Real.sqrt_ne_zero'.mp hError
  have hSquare : ((treatment.rate - control.rate) / control.pooledSe treatment) ^ 2 =
      (treatment.rate - control.rate) ^ 2 / control.pooledVariance treatment := by
    rw [div_pow, BinarySample.pooledSe, Real.sq_sqrt hPooled.le]
  have hRatio : 0 < mixtureLikelihoodRatio (treatment.rate - control.rate) (control.unpooledVariance treatment) tau :=
    mixtureLikelihoodRatio_pos _ hVariance
  have hTail := normalTwoSidedPValue_pos ((treatment.rate - control.rate) / control.pooledSe treatment)
  have hTailLog := log_normalTwoSidedPValue ((treatment.rate - control.rate) / control.pooledSe treatment)
  have hRatioLog := log_mixtureLikelihoodRatio (treatment.rate - control.rate) tau hVariance
  rw [hSquare] at hTailLog
  rw [twoProportionZTest_pValue level hError, sequentialProportionTest_pValue alpha tau hVariance, le_min_iff,
    and_iff_right (normalTwoSidedPValue_lt_one _).le, le_div_iff₀ hRatio,
    ← Real.log_nonpos_iff (mul_pos hTail hRatio).le, Real.log_mul hTail.ne' hRatio.ne', GainBounded,
    ← BinarySample.pooledSe]
  constructor
  · intro hLog
    linarith
  · intro hGain
    linarith

theorem sequential_conservative_iff (level : ℝ) (alpha : Option ℝ) :
    (twoProportionZTest control treatment level).pValue ≤
        (sequentialProportionTest control treatment { alpha, tau := some tau }).alwaysValidPValue ↔
      control.unpooledVariance treatment = 0 ∨ GainBounded tau control treatment := by
  obtain hZero | hVariance := (BinarySample.unpooledVariance_nonneg hControl hTreatment).eq_or_lt
  · apply iff_of_true _ (Or.inl hZero.symm)
    rw [sequentialProportionTest_pValue_of_zero alpha tau hZero.symm]
    exact twoProportionZTest_pValue_le_one control treatment level
  · rw [or_iff_right hVariance.ne']
    exact pValue_le_iff_of_variance hControl hTreatment tau level alpha hVariance

/-- The pooled variance may exceed the other by its square over that of `tau`. -/
theorem gainBounded_of_pooled (hTau : 0 < tau) (hVariance : 0 < control.unpooledVariance treatment)
    (hPooled : control.pooledVariance treatment ≤
      control.unpooledVariance treatment * (control.unpooledVariance treatment + tau ^ 2) / tau ^ 2) :
    GainBounded tau control treatment := by
  have hSquare : 0 < tau ^ 2 := pow_pos hTau 2
  have hPositive : 0 < control.pooledVariance treatment := by
    apply Real.sqrt_ne_zero'.mp
    intro hZero
    exact hVariance.ne' (BinarySample.unpooledVariance_eq_zero hControl hTreatment hZero)
  have hExponent : tau ^ 2 * (treatment.rate - control.rate) ^ 2 /
        (control.unpooledVariance treatment * (control.unpooledVariance treatment + tau ^ 2)) ≤
      (treatment.rate - control.rate) ^ 2 / control.pooledVariance treatment := by
    rw [le_div_iff₀ hSquare] at hPooled
    rw [div_le_div_iff₀ (by positivity) hPositive]
    have hScaled := mul_le_mul_of_nonneg_left hPooled (sq_nonneg (treatment.rate - control.rate))
    linarith
  have hScale : 0 ≤ Real.log (1 + tau ^ 2 / control.unpooledVariance treatment) := by
    apply Real.log_nonneg
    linarith [div_pos hSquare hVariance]
  have hPolynomial : Real.log (erfPolynomial
      (tailArgument ((treatment.rate - control.rate) / √(control.pooledVariance treatment)))) ≤ 0 := by
    apply Real.log_nonpos (erfPolynomial_pos (tailArgument_pos _) (tailArgument_le_one _)).le
    exact (erfPolynomial_lt_one (tailArgument_pos _).le (tailArgument_le_one _)).le
  rw [GainBounded]
  linarith

end

/-- None of ten against nine of ten, with `tau` one. -/
theorem sequential_less_conservative :
    ¬ (twoProportionZTest ⟨10, 0⟩ ⟨10, 9⟩).pValue ≤
      (sequentialProportionTest ⟨10, 0⟩ ⟨10, 9⟩ { alpha := none, tau := some 1 }).alwaysValidPValue := by
  have hControl : BinarySample.Counts ⟨10, 0⟩ := ⟨by norm_num, by norm_num, by norm_num⟩
  have hTreatment : BinarySample.Counts ⟨10, 9⟩ := ⟨by norm_num, by norm_num, by norm_num⟩
  have hEffect : BinarySample.rate ⟨10, 9⟩ - BinarySample.rate ⟨10, 0⟩ = 0.9 := by norm_num [BinarySample.rate]
  have hUnpooled : BinarySample.unpooledVariance ⟨10, 0⟩ ⟨10, 9⟩ = 0.009 := by
    norm_num [BinarySample.unpooledVariance, BinarySample.rate]
  have hPooled : BinarySample.pooledVariance ⟨10, 0⟩ ⟨10, 9⟩ = 0.0495 := by
    norm_num [BinarySample.pooledVariance, BinarySample.pooledRate]
  have hVariance : 0 < BinarySample.unpooledVariance ⟨10, 0⟩ ⟨10, 9⟩ := by
    rw [hUnpooled]
    norm_num
  have hStatistic : |0.9 / √0.0495| ≤ (4.1 : ℝ) := by
    have hRoot : 0.222 ≤ √0.0495 := Real.le_sqrt_of_sq_le (by norm_num)
    rw [abs_of_nonneg (by positivity), div_le_iff₀ (Real.sqrt_pos.mpr (by norm_num))]
    linarith
  have hPolynomial : Real.log 0.17 ≤ Real.log (erfPolynomial (tailArgument (0.9 / √0.0495))) :=
    Real.log_le_log (by norm_num) (le_erfPolynomial_tailArgument hStatistic)
  -- Both logarithms are small beside the exponents, which differ by more than seventy.
  have hTail : -5 ≤ Real.log 0.17 := by
    have hInverse := Real.one_sub_inv_le_log_of_pos (by norm_num : (0 : ℝ) < 0.17)
    norm_num at hInverse ⊢
    linarith
  have hScale : Real.log (1 + 1 ^ 2 / 0.009) ≤ 7 := by
    have hTwo : Real.log 2 ≤ 1 := by
      have hBound := Real.log_le_sub_one_of_pos (two_pos : (0 : ℝ) < 2)
      linarith
    calc Real.log (1 + 1 ^ 2 / 0.009) ≤ Real.log (2 ^ 7) := Real.log_le_log (by norm_num) (by norm_num)
      _ = 7 * Real.log 2 := by
        rw [Real.log_pow]
        norm_num
      _ ≤ 7 := by linarith
  rw [pValue_le_iff_of_variance hControl hTreatment 1 0.05 none hVariance, GainBounded, hEffect, hUnpooled, hPooled]
  intro hGain
  norm_num at hGain hPolynomial hTail hScale
  linarith

/-- Four of ten against six of ten: the pooled variance is within the bound of `gainBounded_of_pooled`. -/
theorem sequential_conservative_on_close_rates : (twoProportionZTest ⟨10, 4⟩ ⟨10, 6⟩).pValue ≤
    (sequentialProportionTest ⟨10, 4⟩ ⟨10, 6⟩ { alpha := none, tau := some 1 }).alwaysValidPValue := by
  have hControl : BinarySample.Counts ⟨10, 4⟩ := ⟨by norm_num, by norm_num, by norm_num⟩
  have hTreatment : BinarySample.Counts ⟨10, 6⟩ := ⟨by norm_num, by norm_num, by norm_num⟩
  rw [sequential_conservative_iff hControl hTreatment]
  apply Or.inr
  apply gainBounded_of_pooled hControl hTreatment 1 one_pos
  · norm_num [BinarySample.unpooledVariance, BinarySample.rate]
  · norm_num [BinarySample.unpooledVariance, BinarySample.pooledVariance, BinarySample.pooledRate, BinarySample.rate]

end

end Flagship.Stats
