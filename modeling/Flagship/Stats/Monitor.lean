import Flagship.Lib.MixtureScores
import Flagship.Stats.AlwaysValid
import Mathlib.Probability.Independence.InfinitePi

/-! # The sequential monitor

`SequentialMonitor` of `packages/core/src/stats/sequential.ts`, and an experiment it watches. The
arrivals of both arms are independent and normal with known variances. With one prior for every
look, the likelihood ratios of all looks are those of one score process, so neither peeking nor a
stopping rule that reads the data raises the error rate. Looks are taken once both arms have an
arrival. A sample of `RunningStats` has the variance estimated from its arrivals in place of the
known one, and nothing is said of the error rate then.
-/

namespace Flagship.Stats

open MeasureTheory ProbabilityTheory Lib
open scoped ENNReal NNReal

noncomputable section

/-! ## The running minimum -/

structure SequentialMonitor where
  minimum : ℝ

namespace SequentialMonitor

def new : SequentialMonitor := ⟨1⟩

def update (monitor : SequentialMonitor) (result : SequentialResult) : SequentialMonitor × ℝ :=
  let minimum := min monitor.minimum result.alwaysValidPValue
  (⟨minimum⟩, minimum)

def pValue (monitor : SequentialMonitor) : ℝ := monitor.minimum

def hasCrossed (monitor : SequentialMonitor) (alpha : ℝ := 0.05) : Bool := decide (monitor.minimum < alpha)

def watch (monitor : SequentialMonitor) (results : List SequentialResult) : SequentialMonitor :=
  results.foldl (fun monitor result => (monitor.update result).1) monitor

/-- A monitor has crossed where it had, or where one of the results it was shown does. -/
theorem hasCrossed_watch (monitor : SequentialMonitor) (results : List SequentialResult) (alpha : ℝ) :
    (monitor.watch results).hasCrossed alpha =
      (monitor.hasCrossed alpha || results.any fun result => decide (result.alwaysValidPValue < alpha)) := by
  induction results generalizing monitor with
  | nil => simp [watch]
  | cons result rest ih =>
    have hUpdate : (monitor.update result).1.hasCrossed alpha =
        (monitor.hasCrossed alpha || decide (result.alwaysValidPValue < alpha)) := by
      simp [hasCrossed, update]
    rw [List.any_cons, ← Bool.or_assoc, ← hUpdate]
    exact ih (monitor.update result).1

/-- More results never take a crossing back. -/
theorem hasCrossed_append {monitor : SequentialMonitor} {results : List SequentialResult} {alpha : ℝ}
    (h : (monitor.watch results).hasCrossed alpha = true) (more : List SequentialResult) :
    (monitor.watch (results ++ more)).hasCrossed alpha = true := by
  have hWatch : monitor.watch (results ++ more) = (monitor.watch results).watch more := List.foldl_append
  rw [hWatch, hasCrossed_watch, h, Bool.true_or]

end SequentialMonitor

/-! ## An experiment -/

variable {Ω : Type*} {m : MeasurableSpace Ω} {P : Measure Ω}

/-- The arm of each arrival, where the treatment is `true`, and what is measured of it. -/
structure Experiment (Ω : Type*) where
  arm : ℕ → Bool
  outcome : ℕ → Ω → ℝ

namespace Experiment

def arrivals (experiment : Experiment Ω) (arm : Bool) (k : ℕ) : Finset ℕ :=
  (Finset.range k).filter (experiment.arm · = arm)

def Started (experiment : Experiment Ω) (k : ℕ) : Prop := ∀ arm, (experiment.arrivals arm k).Nonempty

/-- The sample of an arm after `k` arrivals, with the variance that is known of it. -/
def sample (experiment : Experiment Ω) (variance : Bool → ℝ≥0) (k : ℕ) (ω : Ω) (arm : Bool) : ContinuousSample where
  n := (experiment.arrivals arm k).card
  mean := (∑ i ∈ experiment.arrivals arm k, experiment.outcome i ω) / (experiment.arrivals arm k).card
  variance := variance arm

def look (experiment : Experiment Ω) (variance : Bool → ℝ≥0) (options : SequentialOptions) (k : ℕ) (ω : Ω) :
    SequentialResult :=
  sequentialTTest (experiment.sample variance k ω false) (experiment.sample variance k ω true) options

/-- Every arrival is independent of all others, and normal with the mean and the variance of its arm. -/
structure Normal (P : Measure Ω) (mean : Bool → ℝ) (variance : Bool → ℝ≥0) (experiment : Experiment Ω) : Prop where
  measurable : ∀ i, Measurable (experiment.outcome i)
  independent : iIndepFun experiment.outcome P
  law : ∀ i, P.map (experiment.outcome i) = gaussianReal (mean (experiment.arm i)) (variance (experiment.arm i))
  positive : ∀ arm, variance arm ≠ 0

variable {experiment : Experiment Ω} {mean : Bool → ℝ} {variance : Bool → ℝ≥0}

theorem Started.mono {j k : ℕ} (h : experiment.Started j) (hLe : j ≤ k) : experiment.Started k := fun arm =>
  (h arm).mono (Finset.filter_subset_filter _ (Finset.range_mono hLe))

def spread (experiment : Experiment Ω) (variance : Bool → ℝ≥0) (k : ℕ) : ℝ≥0 :=
  variance false / (experiment.arrivals false k).card + variance true / (experiment.arrivals true k).card

theorem spread_pos (h : experiment.Normal P mean variance) {k : ℕ} (hStarted : experiment.Started k) :
    0 < experiment.spread variance k := by
  have hCard : ∀ arm, (0 : ℝ≥0) < (experiment.arrivals arm k).card := fun arm => by
    exact_mod_cast (hStarted arm).card_pos
  have hVariance : 0 < variance false := pos_iff_ne_zero.mpr (h.positive false)
  exact add_pos_of_pos_of_nonneg (div_pos hVariance (hCard false)) zero_le

def estimate (experiment : Experiment Ω) (variance : Bool → ℝ≥0) (k : ℕ) (ω : Ω) : ℝ :=
  (meanDifference (experiment.sample variance k ω false) (experiment.sample variance k ω true)).1

theorem look_eq (options : SequentialOptions) (k : ℕ) (ω : Ω) : experiment.look variance options k ω =
    build (experiment.estimate variance k ω) (experiment.spread variance k) options := by
  have hSpread : (meanDifference (experiment.sample variance k ω false) (experiment.sample variance k ω true)).2 =
      experiment.spread variance k := by simp [meanDifference, sample, spread]
  rw [look, sequentialTTest, estimate, ← hSpread]

def share (experiment : Experiment Ω) (k i : ℕ) : ℝ :=
  if experiment.arm i then ((experiment.arrivals true k).card : ℝ)⁻¹ else -((experiment.arrivals false k).card : ℝ)⁻¹

/-- A sum over the first arrivals, arm by arm. -/
theorem sum_arrivals (experiment : Experiment Ω) (f : ℕ → ℝ) (k : ℕ) :
    ∑ i ∈ .range k, f i = ∑ i ∈ experiment.arrivals true k, f i + ∑ i ∈ experiment.arrivals false k, f i := by
  have hSplit := Finset.sum_filter_add_sum_filter_not (.range k) (experiment.arm · = true) f
  simp only [Bool.not_eq_true] at hSplit
  exact hSplit.symm

theorem arm_of_mem {arm : Bool} {k i : ℕ} (hi : i ∈ experiment.arrivals arm k) : experiment.arm i = arm :=
  (Finset.mem_filter.mp hi).2

/-- The shares of two looks agree with the variance of the later difference. -/
theorem sum_share_mul_share {j : ℕ} (hStarted : experiment.Started j) (k : ℕ) :
    ∑ i ∈ .range j, experiment.share j i * experiment.share k i * variance (experiment.arm i) =
      experiment.spread variance k := by
  have hCard : ∀ arm, ((experiment.arrivals arm j).card : ℝ) ≠ 0 := fun arm => by
    exact_mod_cast (hStarted arm).card_pos.ne'
  have hTreatment : ∑ i ∈ experiment.arrivals true j, experiment.share j i * experiment.share k i *
      variance (experiment.arm i) = variance true / (experiment.arrivals true k).card := by
    rw [Finset.sum_congr rfl fun i hi => by rw [share, share, arm_of_mem hi], Finset.sum_const, nsmul_eq_mul]
    have := hCard true
    simp only [if_true]
    field_simp
  have hControl : ∑ i ∈ experiment.arrivals false j, experiment.share j i * experiment.share k i *
      variance (experiment.arm i) = variance false / (experiment.arrivals false k).card := by
    rw [Finset.sum_congr rfl fun i hi => by rw [share, share, arm_of_mem hi], Finset.sum_const, nsmul_eq_mul]
    have := hCard false
    simp only [Bool.false_eq_true, if_false]
    field_simp
  rw [sum_arrivals experiment, hTreatment, hControl, spread, NNReal.coe_add, NNReal.coe_div, NNReal.coe_div]
  simp [add_comm]

def noise (experiment : Experiment Ω) (mean : Bool → ℝ) (i : ℕ) (ω : Ω) : ℝ :=
  experiment.outcome i ω - mean (experiment.arm i)

theorem Normal.isNoise (h : experiment.Normal P mean variance) :
    IsNoise P (fun i => variance (experiment.arm i)) (experiment.noise mean) where
  measurable i := (h.measurable i).sub_const _
  independent := h.independent.comp (fun i x => x - mean (experiment.arm i)) fun i => measurable_sub_const _
  law i := by
    have hMap : P.map (experiment.noise mean i) =
        (P.map (experiment.outcome i)).map (· - mean (experiment.arm i)) :=
      (Measure.map_map (measurable_sub_const _) (h.measurable i)).symm
    rw [hMap, h.law, gaussianReal_map_sub_const, sub_self]

def effect (mean : Bool → ℝ) : ℝ := mean true - mean false

theorem estimate_sub_effect {k : ℕ} (hStarted : experiment.Started k) (ω : Ω) :
    experiment.estimate variance k ω - effect mean =
      ∑ i ∈ .range k, experiment.share k i * experiment.noise mean i ω := by
  have hCard : ∀ arm, ((experiment.arrivals arm k).card : ℝ) ≠ 0 := fun arm => by
    exact_mod_cast (hStarted arm).card_pos.ne'
  have hNoise : ∀ arm, ∑ i ∈ experiment.arrivals arm k, experiment.noise mean i ω =
      ∑ i ∈ experiment.arrivals arm k, experiment.outcome i ω - (experiment.arrivals arm k).card * mean arm := by
    intro arm
    rw [← nsmul_eq_mul, ← Finset.sum_const, ← Finset.sum_sub_distrib]
    exact Finset.sum_congr rfl fun i hi => by rw [noise, arm_of_mem hi]
  have hTreatment : ∑ i ∈ experiment.arrivals true k, experiment.share k i * experiment.noise mean i ω =
      ((experiment.arrivals true k).card : ℝ)⁻¹ * ∑ i ∈ experiment.arrivals true k, experiment.noise mean i ω := by
    rw [Finset.mul_sum]
    exact Finset.sum_congr rfl fun i hi => by rw [share, arm_of_mem hi, if_pos rfl]
  have hControl : ∑ i ∈ experiment.arrivals false k, experiment.share k i * experiment.noise mean i ω =
      -((experiment.arrivals false k).card : ℝ)⁻¹ * ∑ i ∈ experiment.arrivals false k, experiment.noise mean i ω := by
    rw [Finset.mul_sum]
    exact Finset.sum_congr rfl fun i hi => by rw [share, arm_of_mem hi, if_neg (by decide)]
  rw [sum_arrivals experiment, hTreatment, hControl, hNoise, hNoise, estimate, meanDifference, sample, sample, effect]
  have hTrue := hCard true
  have hFalse := hCard false
  field_simp
  ring

open Classical in
/-- What is known of the difference after `k` arrivals; nothing before both arms have one. -/
def information (experiment : Experiment Ω) (variance : Bool → ℝ≥0) (k : ℕ) : ℝ≥0 :=
  if experiment.Started k then (experiment.spread variance k)⁻¹ else 0

theorem Normal.isScore (h : experiment.Normal P mean variance) :
    IsScore P (experiment.information variance) fun k ω => ∑ i ∈ .range k,
      experiment.information variance k * experiment.share k i * experiment.noise mean i ω := by
  refine h.isNoise.isScore fun j k hLe => ?_
  by_cases hStarted : experiment.Started j
  · have hSpread : (experiment.spread variance k : ℝ) ≠ 0 := by
      exact_mod_cast (spread_pos h (hStarted.mono hLe)).ne'
    calc
      _ = ∑ i ∈ .range j, experiment.information variance j * experiment.information variance k *
          (experiment.share j i * experiment.share k i * variance (experiment.arm i)) :=
        Finset.sum_congr rfl fun i _ => by ring
      _ = experiment.information variance j * (experiment.information variance k * experiment.spread variance k) := by
        rw [← Finset.mul_sum, sum_share_mul_share hStarted, mul_assoc]
      _ = experiment.information variance j := by
        rw [information, information, if_pos (hStarted.mono hLe), NNReal.coe_inv, inv_mul_cancel₀ hSpread, mul_one]
  · simp [information, hStarted]

theorem mixtureLikelihoodRatio_eq {variance : ℝ} (hVariance : 0 < variance) (effect tau : ℝ) :
    mixtureLikelihoodRatio effect variance tau = mixture (tau * tau) variance⁻¹ (variance⁻¹ * effect) := by
  have hSum : 0 < variance + tau * tau := add_pos_of_pos_of_nonneg hVariance (mul_self_nonneg tau)
  have hScale : variance / (variance + tau * tau) = (1 + tau * tau * variance⁻¹)⁻¹ := by field_simp
  rw [mixtureLikelihoodRatio, if_neg (not_le.mpr hVariance)]
  dsimp only
  rw [hScale, Real.sqrt_inv, mixture]
  congr 2
  field_simp

/-- The ratios of all looks at the distance from the true difference. -/
theorem Normal.ville (h : experiment.Normal P mean variance) (tau : ℝ) (c : ℝ≥0∞) :
    c * P {ω | ∃ k, experiment.Started k ∧ c ≤ ENNReal.ofReal (mixtureLikelihoodRatio
      (experiment.estimate variance k ω - effect mean) (experiment.spread variance k) tau)} ≤ 1 := by
  refine le_trans ?_ (h.isScore.ville (mul_self_nonneg tau) c)
  gcongr c * P ?_
  rintro ω ⟨k, hStarted, hRatio⟩
  refine ⟨k, hRatio.trans_eq ?_⟩
  have hSpread : (0 : ℝ) < experiment.spread variance k := spread_pos h hStarted
  rw [mixtureLikelihoodRatio_eq hSpread, estimate_sub_effect hStarted, information, if_pos hStarted, NNReal.coe_inv,
    Finset.mul_sum]
  simp only [mul_assoc]

theorem le_of_inv_mul_le {alpha : ℝ} (hAlpha : 0 < alpha) {p : ℝ≥0∞} (h : ENNReal.ofReal (1 / alpha) * p ≤ 1) :
    p ≤ ENNReal.ofReal alpha := by
  have hInverse : ENNReal.ofReal alpha * ENNReal.ofReal (1 / alpha) = 1 := by
    rw [← ENNReal.ofReal_mul hAlpha.le, mul_one_div_cancel hAlpha.ne', ENNReal.ofReal_one]
  calc
    p = ENNReal.ofReal alpha * (ENNReal.ofReal (1 / alpha) * p) := by rw [← mul_assoc, hInverse, one_mul]
    _ ≤ ENNReal.ofReal alpha * 1 := by gcongr
    _ = ENNReal.ofReal alpha := mul_one _

theorem pValue_pos (effect variance : ℝ) (options : SequentialOptions) :
    0 < (build effect variance options).alwaysValidPValue := by
  rw [build]
  dsimp only
  split
  case isTrue hRatio => exact lt_min one_pos (one_div_pos.mpr hRatio)
  case isFalse => exact lt_min one_pos one_pos

theorem ratio_of_pValue_lt {effect variance alpha : ℝ} {options : SequentialOptions} (hOne : alpha ≤ 1)
    (h : (build effect variance options).alwaysValidPValue < alpha) :
    1 / alpha ≤ (build effect variance options).likelihoodRatio := by
  have hAlpha : 0 < alpha := (pValue_pos effect variance options).trans h
  rw [build] at h ⊢
  dsimp only at h ⊢
  split at h
  case isTrue hRatio =>
    have hBelow := (min_lt_iff.mp h).resolve_left (not_lt.mpr hOne)
    exact (one_div_le hRatio hAlpha).mp hBelow.le
  case isFalse =>
    rw [min_self] at h
    exact absurd h (not_lt.mpr hOne)

/-- Whoever looks at the arms, however often and by whatever rule, the monitor of two arms without
a difference crosses `alpha` with a probability of at most `alpha`. -/
theorem peeking_raises_no_false_alarms (h : experiment.Normal P mean variance) (hSame : mean false = mean true)
    {options : SequentialOptions} {tau : ℝ} (hTau : options.tau = some tau) (looks : Ω → List ℕ)
    (hLooks : ∀ ω, ∀ k ∈ looks ω, experiment.Started k) (alpha : ℝ) :
    P {ω | (SequentialMonitor.new.watch ((looks ω).map fun k =>
      experiment.look variance options k ω)).hasCrossed alpha = true} ≤ ENNReal.ofReal alpha := by
  have := h.isScore.gaussian.isProbabilityMeasure
  rcases lt_or_ge 1 alpha with hLarge | hOne
  · exact prob_le_one.trans (ENNReal.one_le_ofReal.mpr hLarge.le)
  have hCrossed : ∀ ω, (SequentialMonitor.new.watch ((looks ω).map fun k =>
      experiment.look variance options k ω)).hasCrossed alpha = true →
        ∃ k ∈ looks ω, (experiment.look variance options k ω).alwaysValidPValue < alpha := by
    intro ω hω
    rw [SequentialMonitor.hasCrossed_watch] at hω
    simpa [SequentialMonitor.hasCrossed, SequentialMonitor.new, not_lt.mpr hOne] using hω
  rcases le_or_gt alpha 0 with hNone | hAlpha
  · refine le_of_eq_of_le (measure_mono_null (fun ω hω => ?_) measure_empty) zero_le
    obtain ⟨k, _, hLow⟩ := hCrossed ω hω
    rw [look_eq] at hLow
    exact absurd (hLow.trans_le hNone) (not_lt.mpr (pValue_pos _ _ options).le)
  · refine le_of_inv_mul_le hAlpha (le_trans ?_ (h.ville tau (ENNReal.ofReal (1 / alpha))))
    gcongr _ * P ?_
    rintro ω hω
    obtain ⟨k, hMem, hLow⟩ := hCrossed ω hω
    have hStarted := hLooks ω k hMem
    have hSpread : (0 : ℝ) < experiment.spread variance k := spread_pos h hStarted
    rw [look_eq] at hLow
    refine ⟨k, hStarted, ENNReal.ofReal_le_ofReal ((ratio_of_pValue_lt hOne hLow).trans_eq ?_)⟩
    rw [build, hTau, effect, hSame, sub_self, sub_zero, Option.getD_some]

/-- Arrivals that are alternately put into the two arms, with one normal law for all of them. -/
def alternating : Experiment (ℕ → ℝ) where
  arm i := decide (i % 2 = 1)
  outcome i ω := ω i

theorem alternating_normal :
    alternating.Normal (Measure.infinitePi fun _ => gaussianReal 0 1) (fun _ => 0) (fun _ => 1) where
  measurable i := measurable_pi_apply i
  independent := iIndepFun_infinitePi (X := fun _ x => x) fun _ => measurable_id
  law i := Measure.infinitePi_map_eval _ i
  positive _ := one_ne_zero

theorem alternating_started {k : ℕ} (hTwo : 2 ≤ k) : alternating.Started k := by
  rintro (_ | _)
  · exact ⟨0, Finset.mem_filter.mpr ⟨Finset.mem_range.mpr (by omega), by decide⟩⟩
  · exact ⟨1, Finset.mem_filter.mpr ⟨Finset.mem_range.mpr (by omega), by decide⟩⟩

/-- Whoever stops at the first two arrivals when the second is ahead, and goes on for two more otherwise. -/
theorem peeking_raises_no_false_alarms_alternating :
    (Measure.infinitePi fun _ : ℕ => gaussianReal 0 1) {ω | (SequentialMonitor.new.watch
      ((if ω 0 < ω 1 then [2] else [2, 3, 4]).map fun k =>
        alternating.look (fun _ => 1) ⟨none, some 1⟩ k ω)).hasCrossed 0.05 = true} ≤ ENNReal.ofReal 0.05 := by
  refine peeking_raises_no_false_alarms alternating_normal rfl rfl
    (fun ω => if ω 0 < ω 1 then [2] else [2, 3, 4]) (fun ω k hMem => alternating_started ?_) 0.05
  split at hMem <;> grind

/-- The intervals of all looks cover the true difference at once, up to a probability of `alpha`. -/
theorem intervals_cover_at_every_look (h : experiment.Normal P mean variance) {options : SequentialOptions} {tau : ℝ}
    (hTau : options.tau = some tau) (hPositive : 0 < tau) (hAlpha : 0 < options.alpha.getD 0.05)
    (hBelow : options.alpha.getD 0.05 < 1) :
    P {ω | ∃ k, experiment.Started k ∧ effect mean ∉ Set.Icc (experiment.look variance options k ω).confidenceInterval.1
      (experiment.look variance options k ω).confidenceInterval.2} ≤ ENNReal.ofReal (options.alpha.getD 0.05) := by
  refine le_of_inv_mul_le hAlpha (le_trans ?_ (h.ville tau (ENNReal.ofReal (1 / options.alpha.getD 0.05))))
  gcongr _ * P ?_
  rintro ω ⟨k, hStarted, hOutside⟩
  have hSpread : (0 : ℝ) < experiment.spread variance k := spread_pos h hStarted
  refine ⟨k, hStarted, ENNReal.ofReal_le_ofReal ?_⟩
  rw [ratio_iff _ hSpread hPositive hAlpha]
  have hInterval : (experiment.look variance options k ω).confidenceInterval = alwaysValidInterval
      (experiment.estimate variance k ω) (experiment.spread variance k) tau (options.alpha.getD 0.05) := by
    rw [look_eq, build, hTau, Option.getD_some]
  rw [hInterval, alwaysValidInterval_eq _ hSpread hPositive hAlpha hBelow, Set.mem_Icc, not_and_or, not_le, not_le]
    at hOutside
  have hDistance : √(inner (experiment.spread variance k) tau (options.alpha.getD 0.05)) ≤
      |experiment.estimate variance k ω - effect mean| := by
    rcases hOutside with hLeft | hRight
    · exact le_abs.mpr (.inl (by linarith))
    · exact le_abs.mpr (.inr (by linarith))
  rw [← sq_abs]
  exact (Real.sqrt_le_iff.mp hDistance).2

theorem intervals_cover_at_every_look_alternating :
    (Measure.infinitePi fun _ : ℕ => gaussianReal 0 1) {ω | ∃ k, alternating.Started k ∧
      effect (fun _ => 0) ∉ Set.Icc (alternating.look (fun _ => 1) ⟨none, some 1⟩ k ω).confidenceInterval.1
        (alternating.look (fun _ => 1) ⟨none, some 1⟩ k ω).confidenceInterval.2} ≤ ENNReal.ofReal 0.05 := by
  have hTau : SequentialOptions.tau ⟨none, some 1⟩ = some 1 := rfl
  exact intervals_cover_at_every_look alternating_normal hTau one_pos (by norm_num) (by norm_num)

end Experiment

end

end Flagship.Stats
