import Flagship.Lib.NormalLaw
import Flagship.Stats.FixedHorizon
import Flagship.Stats.Monitor

/-! # Planning an experiment

`minimumDetectableEffect` and `requiredSampleSize` of `packages/core/src/stats/frequentist.ts` over
exact reals, with the infinities that the quantile and an effect of zero give. Rates are between
zero and one, where no root is of a negative number. The samples of an experiment report the
variance that is known of their arms, not the one that `RunningStats` estimates.
-/

namespace Flagship.Stats

open MeasureTheory ProbabilityTheory Lib
open scoped ENNReal NNReal

noncomputable section

structure MdeOptions where
  baselineRate : ℝ
  perArm : ℝ
  alpha : ℝ := 0.05
  power : ℝ := 0.8

structure MinimumDetectableEffect where
  absolute : EReal
  /-- `NaN` if the baseline is 0. -/
  relative : Option EReal

def minimumDetectableEffect (options : MdeOptions) : MinimumDetectableEffect :=
  let zAlpha := normalQuantile (1 - options.alpha / 2)
  let zPower := normalQuantile options.power
  let variance := options.baselineRate * (1 - options.baselineRate)
  let absolute := (zAlpha + zPower) * (√(2 * variance / options.perArm) : ℝ)
  { absolute
    relative := if options.baselineRate = 0 then none else some (absolute / (options.baselineRate : ℝ)) }

structure SampleSizeOptions where
  baselineRate : ℝ
  relativeEffect : ℝ
  alpha : ℝ := 0.05
  power : ℝ := 0.8

/-- `Math.ceil`. -/
def ceil : EReal → EReal
  | ⊥ => ⊥
  | ⊤ => ⊤
  | (x : ℝ) => ((⌈x⌉ : ℤ) : ℝ)

def requiredSampleSize (options : SampleSizeOptions) : EReal :=
  let zAlpha := normalQuantile (1 - options.alpha / 2)
  let zPower := normalQuantile options.power
  let absolute := options.baselineRate * options.relativeEffect
  if absolute = 0 then ⊤
  else
    let variance := options.baselineRate * (1 - options.baselineRate)
    ceil ((2 * variance : ℝ) * (zAlpha + zPower) ^ 2 / (absolute ^ 2 : ℝ))

/-! ## Quantiles from the median up -/

theorem centralQuantile_nonneg {q : ℝ} (hLow : 0 ≤ q) (hHigh : q ≤ 0.47575) : 0 ≤ centralQuantile q := by
  have hSquare : q * q ≤ 0.22634 := by nlinarith
  obtain ⟨t, ht, hr⟩ : ∃ t : ℝ, 0 ≤ t ∧ q * q = 0.22634 - t := ⟨0.22634 - q * q, by linarith, by ring⟩
  rw [centralQuantile, hr]
  refine div_nonneg (mul_nonneg ?_ hLow) ?_
  · ring_nf
    positivity
  · ring_nf
    positivity

theorem tailQuantile_nonpos {t : ℝ} (hLow : 2 ≤ t) : tailQuantile t ≤ 0 := by
  obtain ⟨s, hs, rfl⟩ : ∃ s : ℝ, 0 ≤ s ∧ t = 2 + s := ⟨t - 2, by linarith, by ring⟩
  rw [tailQuantile]
  refine div_nonpos_of_nonpos_of_nonneg ?_ ?_
  · rw [← neg_nonneg]
    ring_nf
    positivity
  · positivity

/-- A tail is far enough out for its root to be at least two. -/
theorem two_le_tail {p : ℝ} (hPositive : 0 < p) (hTail : p < 0.02425) : 2 ≤ √(-2 * Real.log p) := by
  have hExp : (0.02425 : ℝ) < Real.exp (-2) := by
    have hSquare : Real.exp (-2) * (Real.exp 1 * Real.exp 1) = 1 := by
      rw [← Real.exp_add, ← Real.exp_add]
      norm_num
    have hUpper := Real.exp_one_lt_d9
    have hOne := Real.exp_pos 1
    have hTwo := Real.exp_pos (-2)
    nlinarith
  have hLog : Real.log p ≤ -2 := by
    rw [Real.log_le_iff_le_exp hPositive]
    linarith
  apply Real.le_sqrt_of_sq_le
  linarith

theorem innerQuantile_nonneg {p : ℝ} (hHalf : 1 / 2 ≤ p) (hBelow : p < 1) : 0 ≤ innerQuantile p := by
  rw [innerQuantile, if_neg (by norm_num; linarith)]
  split
  · rename_i hTail
    rw [neg_nonneg]
    exact tailQuantile_nonpos (two_le_tail (by linarith) (by linarith))
  · rename_i hCentral
    exact centralQuantile_nonneg (by linarith) (by linarith)

/-! ## The two functions agree -/

/-- An effect to be found at least as often as not, in a rate that can rise and fall. -/
structure SampleSizeOptions.Plannable (options : SampleSizeOptions) : Prop where
  alpha_pos : 0 < options.alpha
  alpha_lt : options.alpha < 1
  le_power : 1 / 2 ≤ options.power
  power_lt : options.power < 1
  rate_pos : 0 < options.baselineRate
  rate_lt : options.baselineRate < 1
  effect_pos : 0 < options.relativeEffect

namespace SampleSizeOptions

variable (options : SampleSizeOptions)

/-- What both functions make of `alpha` and `power`. -/
def quantileSum : ℝ := innerQuantile (1 - options.alpha / 2) + innerQuantile options.power

/-- The variance of a conversion at the baseline rate. -/
def variance : ℝ := options.baselineRate * (1 - options.baselineRate)

def absoluteEffect : ℝ := options.baselineRate * options.relativeEffect

/-- The options under which the other function is asked about `perArm` users. -/
def atSize (perArm : ℝ) : MdeOptions where
  baselineRate := options.baselineRate
  perArm := perArm
  alpha := options.alpha
  power := options.power

namespace Plannable

variable {options}

theorem quantileSum_nonneg (h : options.Plannable) : 0 ≤ options.quantileSum :=
  add_nonneg (innerQuantile_nonneg (by linarith [h.alpha_lt]) (by linarith [h.alpha_pos]))
    (innerQuantile_nonneg h.le_power h.power_lt)

theorem variance_nonneg (h : options.Plannable) : 0 ≤ options.variance :=
  mul_nonneg h.rate_pos.le (sub_nonneg.mpr h.rate_lt.le)

theorem absoluteEffect_pos (h : options.Plannable) : 0 < options.absoluteEffect := mul_pos h.rate_pos h.effect_pos

theorem normalQuantile_sum (h : options.Plannable) :
    normalQuantile (1 - options.alpha / 2) + normalQuantile options.power = options.quantileSum := by
  rw [normalQuantile_upper h.alpha_pos h.alpha_lt, normalQuantile_inner (by linarith [h.le_power]) h.power_lt,
    quantileSum, EReal.coe_add]

end Plannable

end SampleSizeOptions

theorem ceil_le_iff (x : ℝ) (n : ℕ) : ceil x ≤ n ↔ x ≤ n := by
  change (((⌈x⌉ : ℤ) : ℝ) : EReal) ≤ ((n : ℝ) : EReal) ↔ x ≤ n
  rw [EReal.coe_le_coe_iff, ← Int.cast_natCast, Int.cast_le, Int.ceil_le, Int.cast_natCast]

/-- The two ways of comparing an effect with a number of users. -/
theorem size_le_iff {z v a n : ℝ} (hz : 0 ≤ z) (hv : 0 ≤ v) (ha : 0 < a) (hn : 0 < n) :
    2 * v * z ^ 2 / a ^ 2 ≤ n ↔ z * √(2 * v / n) ≤ a := by
  have hRoot : 0 ≤ 2 * v / n := by positivity
  have hSquares : z * √(2 * v / n) ≤ a ↔ z ^ 2 * (2 * v / n) ≤ a ^ 2 := by
    rw [← sq_le_sq₀ (by positivity) ha.le, mul_pow, Real.sq_sqrt hRoot]
  have hShare : z ^ 2 * (2 * v / n) = 2 * v * z ^ 2 / n := by ring
  rw [hSquares, hShare, div_le_iff₀ (by positivity), div_le_iff₀ hn, mul_comm n]

variable {options : SampleSizeOptions}

/-- A number of users is enough when the effect is as many standard errors as the quantiles add up to. -/
theorem requiredSampleSize_le_iff (h : options.Plannable) {n : ℕ} (hUsers : 0 < n) :
    requiredSampleSize options ≤ n ↔ options.quantileSum * √(2 * options.variance / n) ≤ options.absoluteEffect := by
  have hn : (0 : ℝ) < n := by exact_mod_cast hUsers
  have hAbsolute : options.baselineRate * options.relativeEffect ≠ 0 := h.absoluteEffect_pos.ne'
  rw [requiredSampleSize]
  dsimp only
  rw [if_neg hAbsolute, h.normalQuantile_sum, ← EReal.coe_pow, ← EReal.coe_mul, ← EReal.coe_div, ceil_le_iff]
  exact size_le_iff h.quantileSum_nonneg h.variance_nonneg h.absoluteEffect_pos hn

/-- A number of users is enough for an effect exactly when the effect is detectable with it. -/
theorem requiredSampleSize_le_iff_detectable (h : options.Plannable) {n : ℕ} (hUsers : 0 < n) :
    requiredSampleSize options ≤ n ↔
      ∃ relative ∈ (minimumDetectableEffect (options.atSize n)).relative, relative ≤ options.relativeEffect := by
  have hRelative : (minimumDetectableEffect (options.atSize n)).relative =
      some ((options.quantileSum * √(2 * options.variance / n) / options.baselineRate : ℝ) : EReal) := by
    rw [minimumDetectableEffect, SampleSizeOptions.atSize]
    dsimp only
    rw [if_neg h.rate_pos.ne', h.normalQuantile_sum, ← EReal.coe_mul, ← EReal.coe_div]
    rfl
  rw [requiredSampleSize_le_iff h hUsers, hRelative]
  simp only [Option.mem_some_iff, exists_eq_left', EReal.coe_le_coe_iff]
  rw [div_le_iff₀' h.rate_pos]
  rfl

/-! ## What an experiment of that size shows -/

namespace Experiment

variable {Ω : Type*} {m : MeasurableSpace Ω} {P : Measure Ω} {experiment : Experiment Ω} {mean : Bool → ℝ}
  {variance : Bool → ℝ≥0}

/-- The distance of the difference from the truth, in standard errors, after `k` arrivals. -/
theorem Normal.law_estimate (h : experiment.Normal P mean variance) {k : ℕ} (hStarted : experiment.Started k) :
    HasLaw (fun ω => (experiment.estimate variance k ω - effect mean) / √(experiment.spread variance k))
      (gaussianReal 0 1) P := by
  have hSpread := spread_pos h hStarted
  have hRoot : √(experiment.spread variance k : ℝ) ≠ 0 := Real.sqrt_ne_zero'.mpr (by exact_mod_cast hSpread)
  have hScore : (fun ω => (experiment.estimate variance k ω - effect mean) / √(experiment.spread variance k)) =
      fun ω => √(experiment.spread variance k) * ∑ i ∈ .range k,
        experiment.information variance k * experiment.share k i * experiment.noise mean i ω := by
    funext ω
    simp only [mul_assoc]
    rw [← Finset.mul_sum, ← estimate_sub_effect hStarted, information, if_pos hStarted, NNReal.coe_inv, ← mul_assoc,
      div_eq_inv_mul]
    congr 1
    rw [inv_eq_iff_eq_inv, mul_inv, inv_inv, eq_comm, inv_mul_eq_iff_eq_mul₀ hRoot]
    exact (Real.mul_self_sqrt NNReal.zero_le_coe).symm
  have hOne : (.mk (√(experiment.spread variance k : ℝ) ^ 2) (sq_nonneg _) : ℝ≥0) *
      experiment.information variance k = 1 := by
    rw [information, if_pos hStarted]
    ext
    push_cast
    rw [Real.sq_sqrt NNReal.zero_le_coe]
    exact mul_inv_cancel₀ (by exact_mod_cast hSpread.ne')
  have hLaw := gaussianReal_const_mul ⟨(h.isScore.measurable k).aemeasurable, h.isScore.law k⟩
    √(experiment.spread variance k)
  rw [mul_zero, hOne] at hLaw
  rw [hScore]
  exact hLaw

/-- The test after `k` arrivals, with the variances that are known. -/
def finalTest (experiment : Experiment Ω) (variance : Bool → ℝ≥0) (alpha : ℝ) (k : ℕ) (ω : Ω) : TestResult :=
  welchTTest (experiment.sample variance k ω false) (experiment.sample variance k ω true) alpha

theorem finalTest_lower (h : experiment.Normal P mean variance) {k : ℕ} (hStarted : experiment.Started k) {alpha : ℝ}
    (hAlpha : 0 < alpha) (hBelow : alpha < 1) (ω : Ω) :
    (experiment.finalTest variance alpha k ω).confidenceInterval.1 = (experiment.estimate variance k ω -
      innerQuantile (1 - alpha / 2) * √(experiment.spread variance k) : ℝ) := by
  have hError : (experiment.sample variance k ω false).standardError (experiment.sample variance k ω true) =
      √(experiment.spread variance k) := by
    simp [ContinuousSample.standardError, ContinuousSample.varOverN, sample, spread]
  have hRoot : √(experiment.spread variance k : ℝ) ≠ 0 :=
    Real.sqrt_ne_zero'.mpr (by exact_mod_cast spread_pos h hStarted)
  rw [finalTest, welchTTest, hError]
  dsimp only
  rw [if_neg hRoot, normalQuantile_upper hAlpha hBelow, ← EReal.coe_mul, ← EReal.coe_sub]
  rfl

/-- How often the interval lies above zero. -/
theorem Normal.finalTest_above (h : experiment.Normal P mean variance) {k : ℕ} (hStarted : experiment.Started k)
    {alpha : ℝ} (hAlpha : 0 < alpha) (hBelow : alpha < 1) :
    P {ω | 0 < (experiment.finalTest variance alpha k ω).confidenceInterval.1} = gaussianReal 0 1
      (Set.Iic (effect mean / √(experiment.spread variance k) - innerQuantile (1 - alpha / 2))) := by
  have hRoot : 0 < √(experiment.spread variance k : ℝ) := Real.sqrt_pos.mpr (by exact_mod_cast spread_pos h hStarted)
  have hEvent : {ω | 0 < (experiment.finalTest variance alpha k ω).confidenceInterval.1} =
      Set.preimage (fun ω => (experiment.estimate variance k ω - effect mean) / √(experiment.spread variance k))
        (Set.Ioi (-(effect mean / √(experiment.spread variance k) - innerQuantile (1 - alpha / 2)))) := by
    ext ω
    rw [Set.mem_ofPred_eq, finalTest_lower h hStarted hAlpha hBelow, EReal.coe_pos, Set.mem_preimage, Set.mem_Ioi,
      lt_div_iff₀ hRoot]
    have hCancel : effect mean / √(experiment.spread variance k) * √(experiment.spread variance k) = effect mean :=
      div_mul_cancel₀ _ hRoot.ne'
    constructor
    · intro hPositive
      nlinarith
    · intro hFurther
      nlinarith
  have hLaw := h.law_estimate hStarted
  rw [hEvent, ← Measure.map_apply_of_aemeasurable hLaw.aemeasurable measurableSet_Ioi, hLaw.map_eq,
    gaussianReal_Ioi_neg one_ne_zero]

/-- Two arms of `n` arrivals each, whose values spread as conversions at the baseline rate do and
whose means differ by the effect that was planned for: the interval lies above zero as often as the
power says if and only if `n` is at least the size that was asked for, which it is if and only if
the effect is detectable with `n`. -/
theorem planned_size_detects {options : SampleSizeOptions} (hPlannable : options.Plannable) {v : ℝ≥0}
    (hVariance : (v : ℝ) = options.baselineRate * (1 - options.baselineRate))
    (h : experiment.Normal P mean fun _ => v)
    (hEffect : effect mean = options.baselineRate * options.relativeEffect) {n k : ℕ} (hUsers : 0 < n)
    (hPerArm : ∀ arm, (experiment.arrivals arm k).card = n) :
    (requiredSampleSize options ≤ n ↔ gaussianReal 0 1 (Set.Iic (innerQuantile options.power)) ≤
      P {ω | 0 < (experiment.finalTest (fun _ => v) options.alpha k ω).confidenceInterval.1}) ∧
    (requiredSampleSize options ≤ n ↔
      ∃ relative ∈ (minimumDetectableEffect (options.atSize n)).relative, relative ≤ options.relativeEffect) := by
  refine ⟨?_, requiredSampleSize_le_iff_detectable hPlannable hUsers⟩
  have hStarted : experiment.Started k := fun arm => Finset.card_pos.mp ((hPerArm arm).symm ▸ hUsers)
  have hSpread : (experiment.spread (fun _ => v) k : ℝ) = 2 * options.variance / n := by
    rw [spread, hPerArm, hPerArm, SampleSizeOptions.variance, ← hVariance]
    push_cast
    ring
  have hRoot : 0 < √(experiment.spread (fun _ => v) k : ℝ) :=
    Real.sqrt_pos.mpr (by exact_mod_cast spread_pos h hStarted)
  rw [h.finalTest_above hStarted hPlannable.alpha_pos hPlannable.alpha_lt, gaussianReal_Iic_le_iff 0 one_ne_zero,
    requiredSampleSize_le_iff hPlannable hUsers, hEffect, le_sub_iff_add_le, le_div_iff₀ hRoot, hSpread,
    SampleSizeOptions.quantileSum, SampleSizeOptions.absoluteEffect, add_comm]

/-! ## Sixteen users an arm -/

/-- A baseline of one half that is to double. -/
def doubling : SampleSizeOptions := { baselineRate := 0.5, relativeEffect := 1 }

theorem plannable_doubling : doubling.Plannable := by constructor <;> norm_num [doubling]

/-- What the arms measure when it does. -/
def doubled (arm : Bool) : ℝ := if arm then 1 else 0.5

def doublingLaw : Measure (ℕ → ℝ) :=
  Measure.infinitePi fun i => gaussianReal (doubled (alternating.arm i)) 0.25

theorem alternating_doubled : alternating.Normal doublingLaw doubled fun _ => 0.25 where
  measurable i := measurable_pi_apply i
  independent := iIndepFun_infinitePi (X := fun _ x => x) fun _ => measurable_id
  law i := Measure.infinitePi_map_eval _ i
  positive _ := by norm_num

theorem requiredSampleSize_doubling : requiredSampleSize doubling ≤ (16 : ℕ) := by
  rw [requiredSampleSize_le_iff plannable_doubling (by norm_num)]
  have hUpper : innerQuantile (1 - 0.05 / 2) ≤ 1.97 := by
    rw [innerQuantile, if_neg (by norm_num), if_neg (by norm_num), centralQuantile]
    norm_num
  have hPower : innerQuantile 0.8 ≤ 0.85 := by
    rw [innerQuantile, if_neg (by norm_num), if_neg (by norm_num), centralQuantile]
    norm_num
  have hSum : doubling.quantileSum ≤ 2.82 := by
    have hBoth := add_le_add hUpper hPower
    rw [SampleSizeOptions.quantileSum]
    exact hBoth.trans (by norm_num)
  have hRoot : √(2 * doubling.variance / (16 : ℕ)) ≤ 0.1768 := by
    rw [Real.sqrt_le_iff]
    norm_num [doubling, SampleSizeOptions.variance]
  calc doubling.quantileSum * √(2 * doubling.variance / (16 : ℕ)) ≤ 2.82 * 0.1768 :=
        mul_le_mul hSum hRoot (Real.sqrt_nonneg _) (by norm_num)
    _ ≤ doubling.absoluteEffect := by norm_num [doubling, SampleSizeOptions.absoluteEffect]

theorem planned_size_detects_doubling :
    gaussianReal 0 1 (Set.Iic (innerQuantile 0.8)) ≤
      doublingLaw {ω | 0 < (alternating.finalTest (fun _ => 0.25) 0.05 32 ω).confidenceInterval.1} := by
  have hPerArm : ∀ arm, (alternating.arrivals arm 32).card = 16 := by decide
  have hVariance : ((0.25 : ℝ≥0) : ℝ) = doubling.baselineRate * (1 - doubling.baselineRate) := by norm_num [doubling]
  have hEffect : effect doubled = doubling.baselineRate * doubling.relativeEffect := by
    norm_num [effect, doubled, doubling]
  exact (planned_size_detects plannable_doubling hVariance alternating_doubled hEffect (by norm_num) hPerArm).1.mp
    requiredSampleSize_doubling

end Experiment

end

end Flagship.Stats
