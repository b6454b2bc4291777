import Flagship.Stats.Sequential
import Flagship.Stats.StudentTail
import Mathlib.Analysis.Complex.ExponentialBounds

/-! # Fixed-horizon tests

The two tests of `packages/core/src/stats/frequentist.ts` over exact reals. The p-value and the
interval of a test have critical values and standard errors of their own; where the effect lies on
one side of both, the test and the interval decide alike. Of the Student p-value a level has two
critical values, and nothing is said of the statistics between them.
-/

namespace Flagship.Stats

open Lib

structure TestResult where
  effect : ℝ
  /-- `NaN` if control is 0. -/
  relativeEffect : Option ℝ
  standardError : ℝ
  statistic : ℝ
  pValue : ℝ
  confidenceInterval : EReal × EReal
  significant : Bool

noncomputable section

/-- The effect as a fraction of the control value. -/
def lift (effect base : ℝ) : Option ℝ := if base = 0 then none else some (effect / base)

/-- What both tests return without a standard error. -/
def TestResult.degenerate (effect base : ℝ) : TestResult where
  effect := effect
  relativeEffect := lift effect base
  standardError := 0
  statistic := 0
  pValue := 1
  confidenceInterval := (effect, effect)
  significant := false

namespace ContinuousSample

variable (control treatment : ContinuousSample)

def varOverN (sample : ContinuousSample) : ℝ := sample.variance / sample.n

def standardError : ℝ := √(control.varOverN + treatment.varOverN)

def statistic : ℝ := (treatment.mean - control.mean) / control.standardError treatment

/-- Welch-Satterthwaite degrees of freedom. -/
def degreesOfFreedom : ℝ :=
  (control.varOverN + treatment.varOverN) ^ 2 /
    (control.varOverN ^ 2 / (control.n - 1) + treatment.varOverN ^ 2 / (treatment.n - 1))

end ContinuousSample

def welchTTest (control treatment : ContinuousSample) (alpha : ℝ := 0.05) : TestResult :=
  let standardError := control.standardError treatment
  let effect := treatment.mean - control.mean
  if standardError = 0 then .degenerate effect control.mean
  else
    let df := control.degreesOfFreedom treatment
    let statistic := control.statistic treatment
    let pValue := studentTTwoSidedPValue statistic df
    let margin := normalQuantile (1 - alpha / 2) * standardError
    { effect
      relativeEffect := lift effect control.mean
      standardError
      statistic
      pValue
      confidenceInterval := (effect - margin, effect + margin)
      significant := decide (pValue < alpha) }

namespace BinarySample

variable (control treatment : BinarySample)

def rate (sample : BinarySample) : ℝ := sample.conversions / sample.n

def pooledRate : ℝ := (control.conversions + treatment.conversions) / (control.n + treatment.n)

def pooledVariance : ℝ :=
  control.pooledRate treatment * (1 - control.pooledRate treatment) * (1 / control.n + 1 / treatment.n)

def unpooledVariance : ℝ :=
  control.rate * (1 - control.rate) / control.n + treatment.rate * (1 - treatment.rate) / treatment.n

def pooledSe : ℝ := √(control.pooledVariance treatment)

def unpooledSe : ℝ := √(control.unpooledVariance treatment)

end BinarySample

def twoProportionZTest (control treatment : BinarySample) (alpha : ℝ := 0.05) : TestResult :=
  let effect := treatment.rate - control.rate
  let pooledSe := control.pooledSe treatment
  let unpooledSe := control.unpooledSe treatment
  if pooledSe = 0 then .degenerate effect control.rate
  else
    let statistic := effect / pooledSe
    let pValue := 2 * (1 - normalCdf |statistic|)
    let margin := normalQuantile (1 - alpha / 2) * unpooledSe
    { effect
      relativeEffect := lift effect control.rate
      standardError := unpooledSe
      statistic
      pValue
      confidenceInterval := (effect - margin, effect + margin)
      significant := decide (pValue < alpha) }

theorem welchTTest_degenerate {control treatment : ContinuousSample} (hError : control.standardError treatment = 0)
    (alpha : ℝ) : welchTTest control treatment alpha = .degenerate (treatment.mean - control.mean) control.mean :=
  if_pos hError

theorem twoProportionZTest_degenerate {control treatment : BinarySample} (hError : control.pooledSe treatment = 0)
    (alpha : ℝ) :
    twoProportionZTest control treatment alpha = .degenerate (treatment.rate - control.rate) control.rate :=
  if_pos hError

/-! ## Significance and the interval -/

namespace TestResult

/-- Its `significant` field is documented so. -/
def SignificantOutside (result : TestResult) : Prop :=
  result.significant = true ↔ ¬ (result.confidenceInterval.1 ≤ 0 ∧ 0 ≤ result.confidenceInterval.2)

theorem significantOutside_degenerate (effect base : ℝ) :
    (degenerate effect base).SignificantOutside ↔ effect = 0 := by
  have hInterval : ((effect : EReal) ≤ 0 ∧ (0 : EReal) ≤ effect) ↔ effect = 0 := by
    rw [EReal.coe_nonpos, EReal.coe_nonneg]
    exact antisymm_iff
  have hNot : (degenerate effect base).significant ≠ true := Bool.false_ne_true
  rw [SignificantOutside, iff_false_left hNot, not_not]
  exact hInterval

theorem excludes_zero_iff (effect margin : ℝ) :
    ¬ ((effect : EReal) - margin ≤ 0 ∧ (0 : EReal) ≤ effect + margin) ↔ margin < |effect| := by
  rw [← EReal.coe_sub, ← EReal.coe_add, EReal.coe_nonpos, EReal.coe_nonneg, ← not_le, abs_le, sub_nonpos,
    ← neg_le_iff_add_nonneg', and_comm, neg_le]

end TestResult

variable {alpha : ℝ}

/-- The critical value of both intervals. -/
theorem normalQuantile_upper (hAlpha : 0 < alpha) (hBelow : alpha < 1) :
    normalQuantile (1 - alpha / 2) = innerQuantile (1 - alpha / 2) := by
  apply normalQuantile_inner
  · linarith
  · linarith

/-- Up to here the Student p-value is not below `alpha`. -/
def studentLow (alpha df : ℝ) : EReal := lowerCritical (studentTTwoSidedPValue · df) alpha

/-- From here on the Student p-value is below `alpha`. -/
def studentHigh (alpha df : ℝ) : EReal := upperCritical (studentTTwoSidedPValue · df) alpha

theorem le_of_lt_studentLow {t df : ℝ} (h : (|t| : ℝ) < studentLow alpha df) : alpha ≤ studentTTwoSidedPValue t df :=
  le_of_lt_lowerCritical (f := (studentTTwoSidedPValue · df)) (fun z => studentTTwoSidedPValue_abs z df) h

theorem lt_of_studentHigh_lt {t df : ℝ} (h : studentHigh alpha df < (|t| : ℝ)) : studentTTwoSidedPValue t df < alpha :=
  lt_of_upperCritical_lt (f := (studentTTwoSidedPValue · df)) (fun z => studentTTwoSidedPValue_abs z df) h

theorem studentLow_pos (hBelow : alpha < 1) (df : ℝ) : 0 < studentLow alpha df := by
  obtain ⟨near, hPositive, hNear⟩ := studentTTwoSidedPValue_near df hBelow
  exact (EReal.coe_pos.mpr hPositive).trans_le (le_lowerCritical hNear)

theorem studentHigh_lt_top (hAlpha : 0 < alpha) {df : ℝ} (hDf : 0 < df) : studentHigh alpha df < ⊤ := by
  obtain ⟨far, hFar⟩ := studentTTwoSidedPValue_far hDf hAlpha
  exact (upperCritical_le hFar).trans_lt (EReal.coe_lt_top far)

theorem welchTTest_outside_iff (hAlpha : 0 < alpha) (hBelow : alpha < 1) {control treatment : ContinuousSample}
    (hError : control.standardError treatment ≠ 0) :
    (welchTTest control treatment alpha).SignificantOutside ↔
      (studentTTwoSidedPValue (control.statistic treatment) (control.degreesOfFreedom treatment) < alpha ↔
        innerQuantile (1 - alpha / 2) < |control.statistic treatment|) := by
  have hPositive : 0 < control.standardError treatment := (Real.sqrt_nonneg _).lt_of_ne' hError
  have hMargin : innerQuantile (1 - alpha / 2) * control.standardError treatment < |treatment.mean - control.mean| ↔
      innerQuantile (1 - alpha / 2) < |control.statistic treatment| := by
    rw [ContinuousSample.statistic, abs_div, abs_of_pos hPositive, lt_div_iff₀ hPositive]
  rw [← hMargin, TestResult.SignificantOutside, welchTTest]
  dsimp only
  rw [if_neg hError, normalQuantile_upper hAlpha hBelow, ← EReal.coe_mul, TestResult.excludes_zero_iff,
    decide_eq_true_iff]

theorem twoProportionZTest_outside_iff (hAlpha : 0 < alpha) (hBelow : alpha < 1) {control treatment : BinarySample}
    (hError : control.pooledSe treatment ≠ 0) :
    (twoProportionZTest control treatment alpha).SignificantOutside ↔
      ((0.999999999 < alpha ∨
          criticalStatistic alpha * control.pooledSe treatment < |treatment.rate - control.rate|) ↔
        innerQuantile (1 - alpha / 2) * control.unpooledSe treatment < |treatment.rate - control.rate|) := by
  have hPositive : 0 < control.pooledSe treatment := (Real.sqrt_nonneg _).lt_of_ne' hError
  have hStatistic := normalTwoSidedPValue_lt_iff hAlpha ((treatment.rate - control.rate) / control.pooledSe treatment)
  rw [abs_div, abs_of_pos hPositive, lt_div_iff₀ hPositive, normalTwoSidedPValue_zero, normalTwoSidedPValue]
    at hStatistic
  rw [TestResult.SignificantOutside, twoProportionZTest]
  dsimp only
  rw [if_neg hError, normalQuantile_upper hAlpha hBelow, ← EReal.coe_mul, TestResult.excludes_zero_iff,
    decide_eq_true_iff, hStatistic]

/-! ### Samples without a pooled error -/

/-- Conversions are among the observations. -/
structure BinarySample.Counts (sample : BinarySample) : Prop where
  observed : 0 < sample.n
  low : 0 ≤ sample.conversions
  high : sample.conversions ≤ sample.n

namespace BinarySample

variable {control treatment : BinarySample}

/-- Without a pooled error both arms converted no one, or everyone. -/
theorem rate_eq_of_pooledSe (hControl : control.Counts) (hTreatment : treatment.Counts)
    (hError : control.pooledSe treatment = 0) : treatment.rate = control.rate := by
  have hTotal : 0 < control.n + treatment.n := add_pos hControl.observed hTreatment.observed
  have hLow : 0 ≤ control.pooledRate treatment := div_nonneg (add_nonneg hControl.low hTreatment.low) hTotal.le
  have hHigh : control.pooledRate treatment ≤ 1 :=
    div_le_one_of_le₀ (add_le_add hControl.high hTreatment.high) hTotal.le
  have hCounts : 0 < 1 / control.n + 1 / treatment.n :=
    add_pos (one_div_pos.mpr hControl.observed) (one_div_pos.mpr hTreatment.observed)
  have hVariance : control.pooledRate treatment * (1 - control.pooledRate treatment) = 0 := by
    rw [pooledSe, Real.sqrt_eq_zero', pooledVariance] at hError
    have hNonneg := mul_nonneg hLow (sub_nonneg.mpr hHigh)
    exact le_antisymm (nonpos_of_mul_nonpos_left hError hCounts) hNonneg
  obtain hNone | hEvery := mul_eq_zero.mp hVariance
  · obtain hSum | hImpossible := div_eq_zero_iff.mp hNone
    · have hFirst : control.conversions = 0 := by linarith [hControl.low, hTreatment.low]
      have hSecond : treatment.conversions = 0 := by linarith
      rw [rate, rate, hFirst, hSecond, zero_div, zero_div]
    · exact absurd hImpossible hTotal.ne'
  · have hSum := (div_eq_one_iff_eq hTotal.ne').mp (sub_eq_zero.mp hEvery).symm
    have hFirst : control.conversions = control.n := by linarith [hControl.high, hTreatment.high]
    have hSecond : treatment.conversions = treatment.n := by linarith
    rw [rate, rate, hFirst, hSecond, div_self hControl.observed.ne', div_self hTreatment.observed.ne']

end BinarySample

/-! ### When the documentation holds -/

/-- The statistic is beyond neither critical value, or beyond both, the normal one of the interval and
the Student one of the p-value; without a standard error the means are one. -/
def WelchAgreement (alpha : ℝ) (control treatment : ContinuousSample) : Prop :=
  if control.standardError treatment = 0 then treatment.mean = control.mean
  else
    (|control.statistic treatment| ≤ innerQuantile (1 - alpha / 2) ∧
        (|control.statistic treatment| : ℝ) < studentLow alpha (control.degreesOfFreedom treatment)) ∨
      (innerQuantile (1 - alpha / 2) < |control.statistic treatment| ∧
        studentHigh alpha (control.degreesOfFreedom treatment) < (|control.statistic treatment| : ℝ))

/-- Between the two critical values of the Student p-value. -/
def WelchUndecided (alpha : ℝ) (control treatment : ContinuousSample) : Prop :=
  control.standardError treatment ≠ 0 ∧
    studentLow alpha (control.degreesOfFreedom treatment) ≤ (|control.statistic treatment| : ℝ) ∧
    (|control.statistic treatment| : ℝ) ≤ studentHigh alpha (control.degreesOfFreedom treatment)

/-- The effect is beyond neither margin, or beyond both, the one of the p-value and the one of the
interval. The p-value of no effect at all is `0.999999999`. -/
def ProportionAgreement (alpha : ℝ) (control treatment : BinarySample) : Prop :=
  control.pooledSe treatment = 0 ∨
    ((0.999999999 < alpha ∨
        criticalStatistic alpha * control.pooledSe treatment < |treatment.rate - control.rate|) ↔
      innerQuantile (1 - alpha / 2) * control.unpooledSe treatment < |treatment.rate - control.rate|)

theorem welchTTest_outside_of_agreement (hAlpha : 0 < alpha) (hBelow : alpha < 1)
    {control treatment : ContinuousSample} (h : WelchAgreement alpha control treatment) :
    (welchTTest control treatment alpha).SignificantOutside := by
  obtain hError | hError := eq_or_ne (control.standardError treatment) 0
  · rw [WelchAgreement, if_pos hError] at h
    rw [welchTTest_degenerate hError, TestResult.significantOutside_degenerate, sub_eq_zero]
    exact h
  · rw [WelchAgreement, if_neg hError] at h
    rw [welchTTest_outside_iff hAlpha hBelow hError]
    obtain ⟨hNormal, hStudent⟩ | ⟨hNormal, hStudent⟩ := h
    · exact iff_of_false (le_of_lt_studentLow hStudent).not_gt hNormal.not_gt
    · exact iff_of_true (lt_of_studentHigh_lt hStudent) hNormal

theorem agreement_or_undecided (hAlpha : 0 < alpha) (hBelow : alpha < 1) {control treatment : ContinuousSample}
    (h : (welchTTest control treatment alpha).SignificantOutside) :
    WelchAgreement alpha control treatment ∨ WelchUndecided alpha control treatment := by
  obtain hError | hError := eq_or_ne (control.standardError treatment) 0
  · rw [welchTTest_degenerate hError, TestResult.significantOutside_degenerate, sub_eq_zero] at h
    left
    rwa [WelchAgreement, if_pos hError]
  · rw [welchTTest_outside_iff hAlpha hBelow hError] at h
    rw [WelchAgreement, if_neg hError]
    obtain hLow | hLow :=
      lt_or_ge ((|control.statistic treatment| : ℝ) : EReal) (studentLow alpha (control.degreesOfFreedom treatment))
    · have hStudent := le_of_lt_studentLow hLow
      exact Or.inl (Or.inl ⟨not_lt.mp fun hNormal => (h.mpr hNormal).not_ge hStudent, hLow⟩)
    obtain hHigh | hHigh :=
      lt_or_ge (studentHigh alpha (control.degreesOfFreedom treatment)) ((|control.statistic treatment| : ℝ) : EReal)
    · exact Or.inl (Or.inr ⟨h.mp (lt_of_studentHigh_lt hHigh), hHigh⟩)
    · exact Or.inr ⟨hError, hLow, hHigh⟩

/-- Both critical values of the Student p-value are proper ones, so neither kind of agreement is
empty. -/
theorem significance_matches_interval_iff (hAlpha : 0 < alpha) (hBelow : alpha < 1) :
    (∀ df, 0 < studentLow alpha df) ∧ (∀ df, 0 < df → studentHigh alpha df < ⊤) ∧
    (∀ control treatment : ContinuousSample,
      (WelchAgreement alpha control treatment → (welchTTest control treatment alpha).SignificantOutside) ∧
      ((welchTTest control treatment alpha).SignificantOutside →
        WelchAgreement alpha control treatment ∨ WelchUndecided alpha control treatment)) ∧
    ∀ control treatment : BinarySample, control.Counts → treatment.Counts →
      ((twoProportionZTest control treatment alpha).SignificantOutside ↔
        ProportionAgreement alpha control treatment) := by
  refine ⟨studentLow_pos hBelow, fun df => studentHigh_lt_top hAlpha, ?_, ?_⟩
  · intro control treatment
    exact ⟨welchTTest_outside_of_agreement hAlpha hBelow, agreement_or_undecided hAlpha hBelow⟩
  · intro control treatment hControl hTreatment
    obtain hError | hError := eq_or_ne (control.pooledSe treatment) 0
    · have hRates := BinarySample.rate_eq_of_pooledSe hControl hTreatment hError
      apply iff_of_true _ (Or.inl hError)
      rw [twoProportionZTest_degenerate hError, TestResult.significantOutside_degenerate, hRates, sub_self]
    · rw [ProportionAgreement, or_iff_right hError]
      exact twoProportionZTest_outside_iff hAlpha hBelow hError

/-- Arms that differ without any spread, in means and in rates; the latter at the level of one per
cent, which a statistic of two does not reach. -/
theorem arms_without_spread_disagree :
    ¬ (welchTTest ⟨2, 0, 0⟩ ⟨2, 1, 0⟩).SignificantOutside ∧
      ¬ (twoProportionZTest ⟨2, 0⟩ ⟨2, 2⟩ 0.01).SignificantOutside := by
  constructor
  · have hError : ContinuousSample.standardError ⟨2, 0, 0⟩ ⟨2, 1, 0⟩ = 0 := by
      norm_num [ContinuousSample.standardError, ContinuousSample.varOverN]
    rw [welchTTest_degenerate hError, TestResult.significantOutside_degenerate]
    norm_num
  · have hPooled : BinarySample.pooledSe ⟨2, 0⟩ ⟨2, 2⟩ = 1 / 2 := by
      rw [BinarySample.pooledSe, Real.sqrt_eq_iff_mul_self_eq_of_pos one_half_pos]
      norm_num [BinarySample.pooledVariance, BinarySample.pooledRate]
    have hUnpooled : BinarySample.unpooledSe ⟨2, 0⟩ ⟨2, 2⟩ = 0 := by
      norm_num [BinarySample.unpooledSe, BinarySample.unpooledVariance, BinarySample.rate]
    have hEffect : |BinarySample.rate ⟨2, 2⟩ - BinarySample.rate ⟨2, 0⟩| = 1 := by norm_num [BinarySample.rate]
    have hValue : ¬ normalTwoSidedPValue 2 < 0.01 := by
      have hPolynomial := le_erfPolynomial_tailArgument (by norm_num : |(2 : ℝ)| ≤ 4.1)
      have hExponential : 0.1 ≤ Real.exp (-(2 ^ 2 / 2)) := by
        have hUpper := Real.exp_one_lt_three
        have hSquare : Real.exp (2 ^ 2 / 2) = Real.exp 1 * Real.exp 1 := by
          rw [← Real.exp_add]
          norm_num
        rw [Real.exp_neg, hSquare, le_inv_comm₀ (by norm_num) (mul_pos (Real.exp_pos 1) (Real.exp_pos 1))]
        exact (mul_le_mul hUpper.le hUpper.le (Real.exp_pos 1).le (by norm_num)).trans (by norm_num)
      have hProduct := mul_le_mul hPolynomial hExponential (by norm_num) (le_trans (by norm_num) hPolynomial)
      rw [normalTwoSidedPValue_eq]
      linarith
    have hPooledZero : BinarySample.pooledSe ⟨2, 0⟩ ⟨2, 2⟩ ≠ 0 := by
      rw [hPooled]
      norm_num
    rw [normalTwoSidedPValue_lt_iff (by norm_num : (0 : ℝ) < 0.01), normalTwoSidedPValue_zero, abs_two] at hValue
    rw [twoProportionZTest_outside_iff (by norm_num) (by norm_num) hPooledZero, hPooled, hUnpooled, hEffect,
      mul_zero, iff_true_right zero_lt_one, ← lt_div_iff₀ one_half_pos, one_div_one_div]
    exact hValue

/-! ### Arms far apart -/

theorem logGamma_of_le {x : ℝ} (h : 0.5 ≤ x) :
    logGamma x = 0.5 * Real.log (2 * Real.pi) + (x - 1 + 0.5) * Real.log (x - 1 + 7.5) - (x - 1 + 7.5) +
      Real.log (lanczosSum (x - 1)) := by
  rw [logGamma, if_neg (not_lt.mpr h)]

theorem lanczosSum_eq (z : ℝ) : lanczosSum z = 0.99999999999980993 + 676.5203681218851 / (z + 1) +
    -1259.1392167224028 / (z + 2) + 771.32342877765313 / (z + 3) + -176.61502916214059 / (z + 4) +
      12.507343278686905 / (z + 5) + -0.13857109526572012 / (z + 6) + 9.9843695780195716e-6 / (z + 7) +
        1.5056327351493116e-7 / (z + 8) := by
  norm_num [lanczosSum, LANCZOS]

theorem betaScale_le : betaScale 1 0.5 ≤ 27 := by
  have hLogs : Real.log 8 ≤ 2.1 ∧ 6.2 ≤ Real.log 512 := by
    have hEight : Real.log 8 = 3 * Real.log 2 := by
      rw [← Real.log_rpow two_pos]
      norm_num
    have hLast : Real.log 512 = 9 * Real.log 2 := by
      rw [← Real.log_rpow two_pos]
      norm_num
    constructor
    · linarith [Real.log_two_lt_d9]
    · linarith [Real.log_two_gt_d9]
  have hSums : 0 < lanczosSum 0.5 ∧ lanczosSum 0.5 ≤ lanczosSum 0 ∧ 512 ≤ lanczosSum (-0.5) := by
    simp only [lanczosSum_eq]
    norm_num
  have hFirst : Real.log (lanczosSum 0.5) ≤ Real.log (lanczosSum 0) := Real.log_le_log hSums.1 hSums.2.1
  have hSecond : Real.log 512 ≤ Real.log (lanczosSum (-0.5)) := Real.log_le_log (by norm_num) hSums.2.2
  have hPi : 0 ≤ Real.log (2 * Real.pi) := Real.log_nonneg (by linarith [Real.two_le_pi])
  have hRoot : 0 ≤ Real.log 7.5 := Real.log_nonneg (by norm_num)
  have hExponent : logGamma (1 + 0.5) - logGamma 1 - logGamma 0.5 ≤ 3 := by
    rw [logGamma_of_le (by norm_num), logGamma_of_le (by norm_num), logGamma_of_le (by norm_num)]
    norm_num at hFirst hSecond hPi hRoot hLogs ⊢
    linarith
  have hThree : Real.exp 3 ≤ 27 := by
    have hPower : Real.exp 3 = Real.exp 1 ^ 3 := by
      rw [← Real.exp_nat_mul]
      norm_num
    rw [hPower]
    exact (pow_le_pow_left₀ (Real.exp_pos 1).le Real.exp_one_lt_three.le 3).trans (by norm_num)
  exact (Real.exp_le_exp.mpr hExponent).trans hThree

/-- With two degrees of freedom every statistic beyond one hundred is significant. -/
theorem studentHigh_two : studentHigh 0.05 2 ≤ (100 : ℝ) := by
  apply upperCritical_le
  intro t ht
  have hArgument : 2 / (2 + t * t) ≤ 1 / 5000 := by
    rw [div_le_div_iff₀ (by positivity) (by norm_num)]
    nlinarith
  have hPositive : 0 < 2 / (2 + t * t) := by positivity
  have hPower : (1 + 8 * ((1 + 0.5) * (2 / (2 + t * t)))) ^ (2 * MAX_ITERATIONS) ≤ (3 : ℝ) := by
    have hBase : 1 + 8 * ((1 + 0.5) * (2 / (2 + t * t))) ≤ 1.0024 := by linarith
    apply (pow_le_pow_left₀ (by positivity) hBase (2 * MAX_ITERATIONS)).trans
    rw [show 2 * MAX_ITERATIONS = 4 * 100 from rfl, pow_mul]
    norm_num
  have hBound : betaBound (2 / (2 + t * t)) 1 0.5 ≤ 27 * (1 / 5000) * (2 * 3) := by
    rw [betaBound, Real.rpow_one, div_one]
    have hScale : 0 ≤ betaScale 1 0.5 := (Real.exp_pos _).le
    have hFirst := mul_le_mul betaScale_le hArgument hPositive.le (by norm_num)
    exact mul_le_mul hFirst (mul_le_mul_of_nonneg_left hPower two_pos.le) (by positivity) (by norm_num)
  rw [studentTTwoSidedPValue_of_pos two_pos, div_self two_ne_zero]
  apply (incompleteBeta_le hPositive one_pos (by norm_num) (by linarith)).trans_lt
  exact hBound.trans_lt (by norm_num)

theorem innerQuantile_upper : innerQuantile (1 - 0.05 / 2) < 10 := by
  norm_num [innerQuantile, centralQuantile]

theorem significance_matches_interval_far_apart :
    (welchTTest ⟨2, 0, 1⟩ ⟨2, 200, 1⟩).SignificantOutside ∧
      (twoProportionZTest ⟨50, 5⟩ ⟨50, 45⟩).SignificantOutside := by
  have hDefault : (0 : ℝ) < 0.05 ∧ (0.05 : ℝ) < 1 := by norm_num
  obtain ⟨_, _, hWelch, hProportion⟩ := significance_matches_interval_iff hDefault.1 hDefault.2
  constructor
  · have hError : ContinuousSample.standardError ⟨2, 0, 1⟩ ⟨2, 200, 1⟩ = 1 := by
      norm_num [ContinuousSample.standardError, ContinuousSample.varOverN]
    have hDf : ContinuousSample.degreesOfFreedom ⟨2, 0, 1⟩ ⟨2, 200, 1⟩ = 2 := by
      norm_num [ContinuousSample.degreesOfFreedom, ContinuousSample.varOverN]
    have hStatistic : |ContinuousSample.statistic ⟨2, 0, 1⟩ ⟨2, 200, 1⟩| = 200 := by
      norm_num [ContinuousSample.statistic, hError]
    apply (hWelch _ _).1
    rw [WelchAgreement, if_neg (by rw [hError]; exact one_ne_zero), hDf, hStatistic]
    refine Or.inr ⟨innerQuantile_upper.trans (by norm_num), studentHigh_two.trans_lt ?_⟩
    exact EReal.coe_lt_coe_iff.mpr (by norm_num)
  · have hControl : BinarySample.Counts ⟨50, 5⟩ := by constructor <;> norm_num
    have hTreatment : BinarySample.Counts ⟨50, 45⟩ := by constructor <;> norm_num
    have hPooled : BinarySample.pooledSe ⟨50, 5⟩ ⟨50, 45⟩ = 0.1 := by
      rw [BinarySample.pooledSe, Real.sqrt_eq_iff_mul_self_eq_of_pos (by norm_num)]
      norm_num [BinarySample.pooledVariance, BinarySample.pooledRate]
    have hUnpooled : BinarySample.unpooledSe ⟨50, 5⟩ ⟨50, 45⟩ = 0.06 := by
      rw [BinarySample.unpooledSe, Real.sqrt_eq_iff_mul_self_eq_of_pos (by norm_num)]
      norm_num [BinarySample.unpooledVariance, BinarySample.rate]
    have hEffect : |BinarySample.rate ⟨50, 45⟩ - BinarySample.rate ⟨50, 5⟩| = 0.8 := by norm_num [BinarySample.rate]
    have hValue : normalTwoSidedPValue 8 < 0.05 := by
      have hExponential : Real.exp (-(8 ^ 2 / 2)) ≤ 1 / 33 := by
        rw [Real.exp_neg, ← one_div]
        apply one_div_le_one_div_of_le (by norm_num)
        linarith [Real.add_one_le_exp ((8 : ℝ) ^ 2 / 2)]
      linarith [normalTwoSidedPValue_lt_exp 8]
    have hCritical := (normalTwoSidedPValue_lt_iff hDefault.1 8).mp hValue
    rw [normalTwoSidedPValue_zero, abs_of_pos (by norm_num)] at hCritical
    rw [hProportion _ _ hControl hTreatment, ProportionAgreement, hPooled, hUnpooled, hEffect]
    refine Or.inr (iff_of_true (hCritical.imp_right ?_) ?_)
    · intro hLess
      linarith
    · linarith [innerQuantile_upper]

end

end Flagship.Stats
