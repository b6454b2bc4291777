import Flagship.Stats.Distributions

/-! # The sequential test

`packages/core/src/stats/sequential.ts` over exact reals, where every variance is finite. A fixed
prior gives every look the mixture ratio of that prior; the default prior is taken from the look.
-/

namespace Flagship.Stats

structure ContinuousSample where
  n : ℝ
  mean : ℝ
  /-- Sample variance, with Bessel's correction. -/
  variance : ℝ

structure BinarySample where
  n : ℝ
  conversions : ℝ

structure SequentialResult where
  effect : ℝ
  standardError : ℝ
  likelihoodRatio : ℝ
  alwaysValidPValue : ℝ
  confidenceInterval : ℝ × ℝ
  significant : Bool

structure SequentialOptions where
  alpha : Option ℝ
  tau : Option ℝ

noncomputable section

/-- `Number.EPSILON` -/
def EPSILON : ℝ := 2⁻¹ ^ 52

def mixtureLikelihoodRatio (effect variance tau : ℝ) : ℝ :=
  if variance ≤ 0 then 0
  else
    let tauSquared := tau * tau
    let scale := √(variance / (variance + tauSquared))
    let exponent := tauSquared * effect * effect / (2 * variance * (variance + tauSquared))
    scale * Real.exp exponent

def alwaysValidInterval (effect variance tau alpha : ℝ) : ℝ × ℝ :=
  let tauSquared := tau * tau
  if variance ≤ 0 ∨ tauSquared ≤ 0 then (effect, effect)
  else
    let ratio := (variance + tauSquared) / variance
    let inner := 2 * variance * (variance + tauSquared) * Real.log (√ratio / alpha) / tauSquared
    if inner ≤ 0 then (effect, effect)
    else
      let halfWidth := √inner
      (effect - halfWidth, effect + halfWidth)

def build (effect variance : ℝ) (options : SequentialOptions) : SequentialResult :=
  let alpha := options.alpha.getD 0.05
  let tau := options.tau.getD √(max variance EPSILON)
  let likelihoodRatio := mixtureLikelihoodRatio effect variance tau
  let alwaysValidPValue := min 1 (if 0 < likelihoodRatio then 1 / likelihoodRatio else 1)
  { effect
    standardError := √(max variance 0)
    likelihoodRatio
    alwaysValidPValue
    confidenceInterval := alwaysValidInterval effect variance tau alpha
    significant := decide (1 / alpha ≤ likelihoodRatio) }

/-- The difference of two continuous samples and the variance of that difference. -/
def meanDifference (control treatment : ContinuousSample) : ℝ × ℝ :=
  (treatment.mean - control.mean, control.variance / control.n + treatment.variance / treatment.n)

def sequentialTTest (control treatment : ContinuousSample) (options : SequentialOptions) : SequentialResult :=
  let (effect, variance) := meanDifference control treatment
  build effect variance options

def proportionDifference (control treatment : BinarySample) : ℝ × ℝ :=
  let pControl := control.conversions / control.n
  let pTreatment := treatment.conversions / treatment.n
  (pTreatment - pControl, pControl * (1 - pControl) / control.n + pTreatment * (1 - pTreatment) / treatment.n)

def sequentialProportionTest (control treatment : BinarySample) (options : SequentialOptions) : SequentialResult :=
  let (effect, variance) := proportionDifference control treatment
  build effect variance options

/-! ## One prior for every look -/

/-- The likelihood ratio of a normal mixture with standard deviation `tau`, at a look with
difference `d` and variance `V`. -/
def mixtureRatio (tau : ℝ) : ℝ × ℝ → ℝ
  | (d, V) => √(V / (V + tau ^ 2)) * Real.exp (tau ^ 2 * d ^ 2 / (2 * V * (V + tau ^ 2)))

/-- One standard deviation gives the ratios of all looks of both tests. -/
def MixesOverOnePrior (options : SequentialOptions) : Prop :=
  ∃ tau, 0 ≤ tau ∧
    (∀ control treatment, 0 < control.n → 0 < treatment.n → 0 < (meanDifference control treatment).2 →
      (sequentialTTest control treatment options).likelihoodRatio =
        mixtureRatio tau (meanDifference control treatment)) ∧
    ∀ control treatment, 0 < control.n → 0 < treatment.n → 0 < (proportionDifference control treatment).2 →
      (sequentialProportionTest control treatment options).likelihoodRatio =
        mixtureRatio tau (proportionDifference control treatment)

theorem likelihoodRatio_build {effect variance : ℝ} (hVariance : 0 < variance) (options : SequentialOptions) :
    (build effect variance options).likelihoodRatio =
      mixtureRatio (options.tau.getD √(max variance EPSILON)) (effect, variance) := by
  rw [build, mixtureRatio, mixtureLikelihoodRatio, if_neg (not_le.mpr hVariance)]
  simp only [pow_two, mul_assoc]

theorem mixtureRatio_abs (tau : ℝ) (look : ℝ × ℝ) : mixtureRatio |tau| look = mixtureRatio tau look := by
  rw [mixtureRatio, mixtureRatio, sq_abs]

theorem mixes_of_tau {options : SequentialOptions} {tau : ℝ} (hTau : options.tau = some tau) :
    MixesOverOnePrior options := by
  refine ⟨|tau|, abs_nonneg tau, ?_, ?_⟩
  · intro control treatment _ _ hVariance
    rw [mixtureRatio_abs]
    exact (likelihoodRatio_build hVariance options).trans (by rw [hTau]; rfl)
  · intro control treatment _ _ hVariance
    rw [mixtureRatio_abs]
    exact (likelihoodRatio_build hVariance options).trans (by rw [hTau]; rfl)

/-- A look without a difference tells the mixing variance: it is the look's own where the ratio is
one over the square root of two. -/
theorem mixtureRatio_zero_eq_iff {V tau : ℝ} (hV : 0 < V) : mixtureRatio tau (0, V) = √(1 / 2) ↔ tau ^ 2 = V := by
  have hSum : 0 < V + tau ^ 2 := add_pos_of_pos_of_nonneg hV (sq_nonneg tau)
  have hRatio : mixtureRatio tau (0, V) = √(V / (V + tau ^ 2)) := by
    rw [mixtureRatio]
    simp
  rw [hRatio, Real.sqrt_inj (div_pos hV hSum).le (by norm_num), div_eq_div_iff hSum.ne' two_ne_zero]
  constructor
  · intro h
    linarith
  · intro h
    linarith

theorem EPSILON_le_one : EPSILON ≤ 1 := pow_le_one₀ (by norm_num) (by norm_num)

/-- Without `tau` the prior has the variance of the look itself. -/
theorem likelihoodRatio_build_default {V : ℝ} (hV : 1 ≤ V) {options : SequentialOptions} (hTau : options.tau = none) :
    (build 0 V options).likelihoodRatio = √(1 / 2) := by
  have hPositive : 0 < V := one_pos.trans_le hV
  rw [likelihoodRatio_build hPositive, hTau, Option.getD_none, max_eq_left (EPSILON_le_one.trans hV),
    mixtureRatio_zero_eq_iff hPositive, Real.sq_sqrt hPositive.le]

/-- Two samples without a difference in their means, of one observation each. -/
def evenLook (V : ℝ) : ContinuousSample × ContinuousSample := (⟨1, 0, V⟩, ⟨1, 0, 0⟩)

theorem meanDifference_evenLook (V : ℝ) : meanDifference (evenLook V).1 (evenLook V).2 = (0, V) := by
  simp [meanDifference, evenLook]

theorem sq_eq_of_mixes {options : SequentialOptions} (hTau : options.tau = none) {tau V : ℝ} (hV : 1 ≤ V)
    (hMixes : ∀ control treatment, 0 < control.n → 0 < treatment.n → 0 < (meanDifference control treatment).2 →
      (sequentialTTest control treatment options).likelihoodRatio =
        mixtureRatio tau (meanDifference control treatment)) : tau ^ 2 = V := by
  have hPositive : 0 < V := one_pos.trans_le hV
  have hLook := hMixes (evenLook V).1 (evenLook V).2 one_pos one_pos (by rwa [meanDifference_evenLook])
  rw [sequentialTTest, meanDifference_evenLook] at hLook
  exact (mixtureRatio_zero_eq_iff hPositive).mp (hLook.symm.trans (likelihoodRatio_build_default hV hTau))

/-- Both tests mix over one prior when `tau` is given, and over none when it is left to the data. -/
theorem mixes_iff (options : SequentialOptions) : MixesOverOnePrior options ↔ ∃ tau, options.tau = some tau := by
  constructor
  · rintro ⟨tau, _, hMixes, _⟩
    cases hTau : options.tau with
    | some given => exact ⟨given, rfl⟩
    | none =>
      have hOne : tau ^ 2 = 1 := sq_eq_of_mixes hTau le_rfl hMixes
      have hTwo : tau ^ 2 = 2 := sq_eq_of_mixes hTau one_le_two hMixes
      linarith
  · rintro ⟨tau, hTau⟩
    exact mixes_of_tau hTau

/-- The default options, at the two looks with variances one and two and no difference. -/
theorem default_options_change_prior :
    ¬ ∃ tau, (sequentialTTest (evenLook 1).1 (evenLook 1).2 ⟨none, none⟩).likelihoodRatio = mixtureRatio tau (0, 1) ∧
      (sequentialTTest (evenLook 2).1 (evenLook 2).2 ⟨none, none⟩).likelihoodRatio = mixtureRatio tau (0, 2) := by
  rintro ⟨tau, hFirst, hSecond⟩
  rw [sequentialTTest, meanDifference_evenLook, likelihoodRatio_build_default le_rfl rfl] at hFirst
  rw [sequentialTTest, meanDifference_evenLook, likelihoodRatio_build_default one_le_two rfl] at hSecond
  have hOne : tau ^ 2 = 1 := (mixtureRatio_zero_eq_iff one_pos).mp hFirst.symm
  have hTwo : tau ^ 2 = 2 := (mixtureRatio_zero_eq_iff two_pos).mp hSecond.symm
  linarith

end

end Flagship.Stats
