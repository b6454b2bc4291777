import Flagship.Lib.Ville
import Mathlib.Probability.Distributions.Gaussian.IsGaussianProcess.Independence
import Mathlib.Probability.Process.Adapted

/-! # Mixture likelihood ratios of a score process

A score process is a centred Gaussian process whose covariance is the information at the earlier
time. The likelihood ratio of a normal mixture of effects is a fair bet against it, so it ever
reaches `c` with a probability of at most `1 / c`.
-/

namespace Flagship.Lib

open MeasureTheory ProbabilityTheory
open scoped ENNReal NNReal

/-! ## One step of the mixture -/

/-- The ratio for a score `s` with information `i`, when the effects have variance `w`. -/
noncomputable def mixture (w i s : ℝ) : ℝ := (√(1 + w * i))⁻¹ * Real.exp (w * s ^ 2 / (2 * (1 + w * i)))

theorem mixture_zero (w : ℝ) : mixture w 0 0 = 1 := by simp [mixture]

theorem measurable_mixture (w i : ℝ) : Measurable (mixture w i) := by
  unfold mixture
  fun_prop

section Step

variable {w i s x : ℝ} {v : ℝ≥0}

/-- Completing the square. -/
theorem mixture_exponent {a b v : ℝ} (ha : 0 < a) (hv : 0 < v) (hb : b = a + w * v) (hPositive : 0 < b) :
    -x ^ 2 / (2 * v) + w * (s + x) ^ 2 / (2 * b) =
      w * s ^ 2 / (2 * a) + -(x - w * s * v / a) ^ 2 / (2 * (v * b / a)) := by
  have ha' := ha.ne'
  have hv' := hv.ne'
  have hb' := hPositive.ne'
  field_simp
  rw [hb]
  ring

/-- The mixture at the next score, against the law of the step, is the mixture at this score against
another normal law. -/
theorem gaussianPDFReal_mul_mixture (hw : 0 ≤ w) (hi : 0 ≤ i) (hv : v ≠ 0) (s : ℝ) :
    ∃ (mean : ℝ) (variance : ℝ≥0), variance ≠ 0 ∧ ∀ x,
      gaussianPDFReal 0 v x * mixture w (i + v) (s + x) = mixture w i s * gaussianPDFReal mean variance x := by
  have hPositive : (0 : ℝ) < v := by positivity
  obtain ⟨a, ha⟩ : ∃ a, a = 1 + w * i := ⟨_, rfl⟩
  obtain ⟨b, hb⟩ : ∃ b, b = 1 + w * (i + v) := ⟨_, rfl⟩
  have hSum : b = a + w * v := by
    rw [ha, hb]
    ring
  have haPositive : 0 < a := ha ▸ by positivity
  have hbPositive : 0 < b := hb ▸ by positivity
  have hVariance : 0 < v * b / a := by positivity
  refine ⟨w * s * v / a, (v * b / a).toNNReal, (Real.toNNReal_pos.mpr hVariance).ne', fun x => ?_⟩
  have hRoots : (√(2 * Real.pi * v))⁻¹ * (√b)⁻¹ = (√a)⁻¹ * (√(2 * Real.pi * (v * b / a)))⁻¹ := by
    rw [← mul_inv, ← mul_inv, ← Real.sqrt_mul (by positivity), ← Real.sqrt_mul haPositive.le]
    congr 2
    field_simp
  rw [gaussianPDFReal, gaussianPDFReal, mixture, mixture, sub_zero, Real.coe_toNNReal _ hVariance.le, ← ha, ← hb]
  calc
    _ = (√(2 * Real.pi * v))⁻¹ * (√b)⁻¹ * (Real.exp (-x ^ 2 / (2 * v)) * Real.exp (w * (s + x) ^ 2 / (2 * b))) := by
      ring
    _ = (√a)⁻¹ * (√(2 * Real.pi * (v * b / a)))⁻¹ *
        (Real.exp (w * s ^ 2 / (2 * a)) * Real.exp (-(x - w * s * v / a) ^ 2 / (2 * (v * b / a)))) := by
      rw [hRoots, ← Real.exp_add, ← Real.exp_add, mixture_exponent haPositive hPositive hSum hbPositive]
    _ = _ := by ring

/-- A step of the score leaves the ratio where it was on average. -/
theorem lintegral_mixture (hw : 0 ≤ w) (hi : 0 ≤ i) (v : ℝ≥0) (s : ℝ) :
    ∫⁻ x, ENNReal.ofReal (mixture w (i + v) (s + x)) ∂gaussianReal 0 v = ENNReal.ofReal (mixture w i s) := by
  rcases eq_or_ne v 0 with rfl | hv
  · simp
  · obtain ⟨mean, variance, hVariance, hSame⟩ := gaussianPDFReal_mul_mixture hw hi hv s
    have hMixture : ∀ i s, 0 ≤ mixture w i s := fun i s => by unfold mixture; positivity
    have hStep : Measurable fun x => ENNReal.ofReal (mixture w (i + v) (s + x)) :=
      ((measurable_mixture w (i + v)).comp (measurable_const_add s)).ennreal_ofReal
    rw [gaussianReal_of_var_ne_zero 0 hv, lintegral_withDensity_eq_lintegral_mul _ (measurable_gaussianPDF 0 v) hStep]
    calc
      _ = ∫⁻ x, ENNReal.ofReal (mixture w i s) * gaussianPDF mean variance x := by
        refine lintegral_congr fun x => ?_
        rw [Pi.mul_apply, gaussianPDF, gaussianPDF, ← ENNReal.ofReal_mul (gaussianPDFReal_nonneg 0 v x), hSame,
          ENNReal.ofReal_mul (hMixture i s)]
      _ = _ := by
        rw [lintegral_const_mul _ (measurable_gaussianPDF mean variance),
          lintegral_gaussianPDF_eq_one mean hVariance, mul_one]

end Step

/-! ## Independent steps -/

section Independent

variable {Ω : Type*} {seen m : MeasurableSpace Ω} {P : Measure Ω} [IsProbabilityMeasure P]

/-- What is independent of all that has been seen can be integrated out first. -/
theorem setLIntegral_indep (hSeen : seen ≤ m) {now step : Ω → ℝ} (hNow : Measurable[seen] now)
    (hStep : Measurable step) (hIndep : Indep seen (MeasurableSpace.comap step inferInstance) P) {f : ℝ → ℝ → ℝ≥0∞}
    (hf : Measurable (Function.uncurry f)) {s : Set Ω} (hSet : MeasurableSet[seen] s) :
    ∫⁻ ω in s, f (now ω) (step ω) ∂P = ∫⁻ ω in s, ∫⁻ x, f (now ω) x ∂P.map step ∂P := by
  let past : Ω → ℝ≥0∞ × ℝ := fun ω => (s.indicator 1 ω, now ω)
  have hPast : Measurable[seen] past := by
    refine Measurable.prodMk ?_ hNow
    exact (measurable_const : Measurable[seen] (1 : Ω → ℝ≥0∞)).indicator hSet
  have hPast' : Measurable past := hPast.mono hSeen le_rfl
  have hLaw : P.map (fun ω => (past ω, step ω)) = (P.map past).prod (P.map step) := by
    refine (indepFun_iff_map_prod_eq_prod_map_map hPast'.aemeasurable hStep.aemeasurable).mp ?_
    exact indep_of_indep_of_le_left hIndep hPast.comap_le
  have hPair : Measurable fun z : (ℝ≥0∞ × ℝ) × ℝ => (z.1.2, z.2) :=
    (measurable_snd.comp measurable_fst).prodMk measurable_snd
  have hWeighted : Measurable fun z : (ℝ≥0∞ × ℝ) × ℝ => z.1.1 * f z.1.2 z.2 :=
    (measurable_fst.comp measurable_fst).mul (hf.comp hPair)
  have hInner : Measurable fun y : ℝ => ∫⁻ x, f y x ∂P.map step := hf.lintegral_prod_right
  calc
    _ = ∫⁻ ω, (past ω).1 * f (past ω).2 (step ω) ∂P := by
      rw [← lintegral_indicator (hSeen _ hSet)]
      refine lintegral_congr fun ω => ?_
      by_cases hMem : ω ∈ s <;> simp [past, hMem]
    _ = ∫⁻ z, z.1.1 * f z.1.2 z.2 ∂P.map (fun ω => (past ω, step ω)) :=
      (lintegral_map hWeighted (hPast'.prodMk hStep)).symm
    _ = ∫⁻ y, y.1 * ∫⁻ x, f y.2 x ∂P.map step ∂P.map past := by
      rw [hLaw, lintegral_prod _ hWeighted.aemeasurable]
      refine lintegral_congr fun y => ?_
      have hSlice : Measurable (f y.2) := hf.comp measurable_prodMk_left
      exact lintegral_const_mul y.1 hSlice
    _ = ∫⁻ ω, (past ω).1 * ∫⁻ x, f (past ω).2 x ∂P.map step ∂P :=
      lintegral_map (measurable_fst.mul (hInner.comp measurable_snd)) hPast'
    _ = _ := by
      rw [← lintegral_indicator (hSeen _ hSet)]
      refine lintegral_congr fun ω => ?_
      by_cases hMem : ω ∈ s <;> simp [past, hMem]

end Independent

/-! ## Score processes -/

variable {Ω : Type*} {m : MeasurableSpace Ω} {P : Measure Ω} {information : ℕ → ℝ≥0} {score : ℕ → Ω → ℝ}

structure IsScore (P : Measure Ω) (information : ℕ → ℝ≥0) (score : ℕ → Ω → ℝ) : Prop where
  measurable : ∀ k, Measurable (score k)
  gaussian : IsGaussianProcess score P
  centred : ∀ k, ∫ ω, score k ω ∂P = 0
  covariance : ∀ j k, j ≤ k → cov[score j, score k; P] = information j

namespace IsScore

def step (score : ℕ → Ω → ℝ) (k : ℕ) : Ω → ℝ := fun ω => score (k + 1) ω - score k ω

theorem memLp (h : IsScore P information score) (k : ℕ) : MemLp (score k) 2 P :=
  (h.gaussian.hasGaussianLaw_eval k).memLp_two

theorem covariance_step (h : IsScore P information score) {j k : ℕ} (hLe : j ≤ k) :
    cov[score j, step score k; P] = 0 := by
  have := h.gaussian.isProbabilityMeasure
  have hSub : step score k = score (k + 1) - score k := rfl
  rw [hSub, covariance_sub_right (h.memLp j) (h.memLp (k + 1)) (h.memLp k), h.covariance j (k + 1) (by omega),
    h.covariance j k hLe, sub_self]

theorem variance_eq (h : IsScore P information score) (k : ℕ) : Var[score k; P] = information k := by
  rw [← covariance_self (h.measurable k).aemeasurable, h.covariance k k le_rfl]

theorem variance_step (h : IsScore P information score) (k : ℕ) :
    Var[step score k; P] = information (k + 1) - information k := by
  have := h.gaussian.isProbabilityMeasure
  have hSub : step score k = score (k + 1) - score k := rfl
  rw [hSub, variance_sub (h.memLp (k + 1)) (h.memLp k), h.variance_eq, h.variance_eq, covariance_comm,
    h.covariance k (k + 1) (by omega)]
  ring

theorem information_mono (h : IsScore P information score) (k : ℕ) : information k ≤ information (k + 1) := by
  have hVariance := variance_nonneg (step score k) P
  rw [h.variance_step, sub_nonneg] at hVariance
  exact_mod_cast hVariance

theorem law_step (h : IsScore P information score) (k : ℕ) :
    P.map (step score k) = gaussianReal 0 (information (k + 1) - information k) := by
  have hGaussian : HasGaussianLaw (step score k) P := h.gaussian.hasGaussianLaw_sub
  have hMean : ∫ ω, step score k ω ∂P = 0 := by
    have hIntegrable : ∀ k, Integrable (score k) P := fun k => (h.gaussian.hasGaussianLaw_eval k).integrable
    rw [show step score k = fun ω => score (k + 1) ω - score k ω from rfl,
      integral_sub (hIntegrable (k + 1)) (hIntegrable k), h.centred, h.centred, sub_self]
  rw [hGaussian.map_eq_gaussianReal, hMean, h.variance_step, NNReal.sub_def]

theorem law (h : IsScore P information score) (k : ℕ) : P.map (score k) = gaussianReal 0 (information k) := by
  rw [(h.gaussian.hasGaussianLaw_eval k).map_eq_gaussianReal, h.centred, h.variance_eq, Real.toNNReal_coe]

/-- What has been seen by the time of a score. -/
def seen (h : IsScore P information score) : Filtration ℕ m :=
  .natural score fun k => (h.measurable k).stronglyMeasurable

theorem measurable_seen (h : IsScore P information score) (k : ℕ) : Measurable[h.seen k] (score k) :=
  (Filtration.stronglyAdapted_natural (fun k => (h.measurable k).stronglyMeasurable) k).measurable

/-- A step is independent of all the scores before it. -/
theorem indep_step (h : IsScore P information score) (k : ℕ) :
    Indep (h.seen k) (MeasurableSpace.comap (step score k) inferInstance) P := by
  have hPast : IndepFun (fun ω (j : Set.Iic k) => score j ω) (fun ω (_ : Unit) => step score k ω) P := by
    refine IsGaussianProcess.indepFun_of_covariance_eq_zero (X := fun j : Set.Iic k => score j)
      (Y := fun _ : Unit => step score k) ?_ ?_ ?_ ?_
    · refine h.gaussian.of_isGaussianProcess ?_
      rintro (⟨j, hj⟩ | _)
      · exact ⟨{j}, .proj ⟨j, by simp⟩, fun ω => rfl⟩
      · exact ⟨{k, k + 1}, .proj ⟨k + 1, by simp⟩ - .proj ⟨k, by simp⟩, fun ω => rfl⟩
    · exact fun j => (h.measurable j).aemeasurable
    · exact fun _ => ((h.measurable (k + 1)).sub (h.measurable k)).aemeasurable
    · rintro ⟨j, hj⟩ _
      exact h.covariance_step hj
  have hStep : IndepFun (fun ω (j : Set.Iic k) => score j ω) (step score k) P :=
    hPast.comp measurable_id (measurable_pi_apply ())
  rw [seen, Filtration.natural_eq_comap]
  exact hStep

/-- The ratios of the scores are the capital of a fair bet. -/
theorem isBet (h : IsScore P information score) {w : ℝ} (hw : 0 ≤ w) :
    IsBet h.seen P fun k ω => ENNReal.ofReal (mixture w (information k) (score k ω)) where
  measurable k := ((measurable_mixture w (information k)).comp (h.measurable_seen k)).ennreal_ofReal
  unfavourable k s hSet := by
    have := h.gaussian.isProbabilityMeasure
    have hInformation : (information (k + 1) : ℝ) = information k + (information (k + 1) - information k : ℝ≥0) := by
      rw [← NNReal.coe_add, add_tsub_cancel_of_le (h.information_mono k)]
    have hRatio : Measurable (Function.uncurry fun now x =>
        ENNReal.ofReal (mixture w (information (k + 1)) (now + x))) :=
      ((measurable_mixture w (information (k + 1))).comp (measurable_fst.add measurable_snd)).ennreal_ofReal
    refine le_of_eq ?_
    calc
      _ = ∫⁻ ω in s, ENNReal.ofReal (mixture w (information (k + 1)) (score k ω + step score k ω)) ∂P := by
        simp [step]
      _ = ∫⁻ ω in s, ∫⁻ x, ENNReal.ofReal (mixture w (information (k + 1)) (score k ω + x))
          ∂P.map (step score k) ∂P :=
        setLIntegral_indep (h.seen.le k) (h.measurable_seen k) ((h.measurable (k + 1)).sub (h.measurable k))
          (h.indep_step k) hRatio hSet
      _ = _ := by
        refine lintegral_congr fun ω => ?_
        rw [h.law_step, hInformation]
        exact lintegral_mixture hw (information k).coe_nonneg _ _

/-- The ratios ever reach `c` with a probability of at most `1 / c`. -/
theorem ville (h : IsScore P information score) {w : ℝ} (hw : 0 ≤ w) (c : ℝ≥0∞) :
    c * P {ω | ∃ k, c ≤ ENNReal.ofReal (mixture w (information k) (score k ω))} ≤ 1 := by
  refine ((h.isBet hw).ville c).trans_eq ?_
  have hRatio : Measurable fun x => ENNReal.ofReal (mixture w (information 0) x) :=
    (measurable_mixture w (information 0)).ennreal_ofReal
  calc
    _ = ∫⁻ x, ENNReal.ofReal (mixture w (information 0) x) ∂P.map (score 0) :=
      (lintegral_map hRatio (h.measurable 0)).symm
    _ = ENNReal.ofReal (mixture w 0 0) := by
      rw [h.law 0, ← lintegral_mixture hw le_rfl (information 0) 0]
      simp
    _ = 1 := by rw [mixture_zero, ENNReal.ofReal_one]

end IsScore

/-! ## Weighted sums of independent normal values -/

structure IsNoise (P : Measure Ω) (variance : ℕ → ℝ≥0) (noise : ℕ → Ω → ℝ) : Prop where
  measurable : ∀ i, Measurable (noise i)
  independent : iIndepFun noise P
  law : ∀ i, P.map (noise i) = gaussianReal 0 (variance i)

namespace IsNoise

variable {variance : ℕ → ℝ≥0} {noise : ℕ → Ω → ℝ}

theorem hasLaw (h : IsNoise P variance noise) (i : ℕ) : HasLaw (noise i) (gaussianReal 0 (variance i)) P :=
  ⟨(h.measurable i).aemeasurable, h.law i⟩

theorem hasGaussianLaw (h : IsNoise P variance noise) (i : ℕ) : HasGaussianLaw (noise i) P :=
  (h.hasLaw i).hasGaussianLaw

theorem isGaussianProcess (h : IsNoise P variance noise) : IsGaussianProcess noise P where
  hasGaussianLaw I := iIndepFun.hasGaussianLaw (fun i : I => h.hasGaussianLaw i)
    (h.independent.precomp Subtype.val_injective)

theorem integral_eq_zero (h : IsNoise P variance noise) (i : ℕ) : ∫ ω, noise i ω ∂P = 0 := by
  rw [(h.hasLaw i).integral_eq, integral_id_gaussianReal]

theorem covariance_eq (h : IsNoise P variance noise) (i j : ℕ) :
    cov[noise i, noise j; P] = if i = j then (variance i : ℝ) else 0 := by
  split
  case isTrue hSame =>
    rw [← hSame, covariance_self (h.measurable i).aemeasurable, (h.hasLaw i).variance_eq, variance_id_gaussianReal]
  case isFalse hOther =>
    exact (h.independent.indepFun hOther).covariance_eq_zero (h.hasGaussianLaw i).memLp_two
      (h.hasGaussianLaw j).memLp_two

/-- Weighted sums are a score process where the weights of two of them agree with the earlier information. -/
theorem isScore (h : IsNoise P variance noise) {weight : ℕ → ℕ → ℝ}
    (hInformation : ∀ j k, j ≤ k → ∑ i ∈ .range j, weight j i * weight k i * variance i = information j) :
    IsScore P information fun k ω => ∑ i ∈ .range k, weight k i * noise i ω where
  measurable k := Finset.measurable_sum _ fun i _ => (h.measurable i).const_mul _
  gaussian := by
    refine h.isGaussianProcess.of_isGaussianProcess fun k => ?_
    refine ⟨.range k, ∑ i : Finset.range k, weight k i • .proj i, fun ω => ?_⟩
    simp [Finset.sum_attach (Finset.range k) fun i => weight k i * noise i ω]
  centred k := by
    rw [integral_finsetSum _ fun i _ => (h.hasGaussianLaw i).integrable.const_mul _]
    simp [integral_const_mul, h.integral_eq_zero]
  covariance j k hLe := by
    have := h.isGaussianProcess.isProbabilityMeasure
    have hMemLp : ∀ k i, MemLp (fun ω => weight k i * noise i ω) 2 P :=
      fun k i => (h.hasGaussianLaw i).memLp_two.const_mul _
    rw [covariance_fun_sum_fun_sum' (fun i _ => hMemLp j i) (fun i _ => hMemLp k i), ← hInformation j k hLe]
    refine Finset.sum_congr rfl fun i hi => ?_
    have hi' : i < k := (Finset.mem_range.mp hi).trans_le hLe
    simp only [covariance_const_mul_left, covariance_const_mul_right, h.covariance_eq]
    simp [hi', mul_assoc, mul_left_comm]

end IsNoise

end Flagship.Lib
