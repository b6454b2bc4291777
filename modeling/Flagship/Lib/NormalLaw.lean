import Mathlib.Probability.Distributions.Gaussian.Real

/-! # The normal law of half-lines

A normal law has no atoms, is alike on both sides of its mean, and puts something between any two
numbers, so the half-lines up to a number compare as the numbers do.
-/

namespace Flagship.Lib

open MeasureTheory ProbabilityTheory
open scoped ENNReal NNReal

variable {v : ℝ≥0}

theorem gaussianReal_Iic_le_iff (mean : ℝ) (hv : v ≠ 0) {a b : ℝ} :
    gaussianReal mean v (Set.Iic a) ≤ gaussianReal mean v (Set.Iic b) ↔ a ≤ b := by
  constructor
  · intro hLe
    by_contra hLt
    rw [not_le] at hLt
    have hSplit : gaussianReal mean v (Set.Iic a) =
        gaussianReal mean v (Set.Iic b) + gaussianReal mean v (Set.Ioc b a) := by
      rw [← Set.Iic_union_Ioc_eq_Iic hLt.le, measure_union (Set.Iic_disjoint_Ioc le_rfl) measurableSet_Ioc]
    have hBetween : gaussianReal mean v (Set.Ioc b a) ≠ 0 := by
      intro hZero
      have hVolume := gaussianReal_absolutelyContinuous' mean hv hZero
      rw [Real.volume_Ioc, ENNReal.ofReal_eq_zero] at hVolume
      linarith
    rw [hSplit] at hLe
    exact absurd hLe (not_le.mpr (ENNReal.lt_add_right (measure_ne_top _ _) hBetween))
  · intro hLe
    exact measure_mono (Set.Iic_subset_Iic.mpr hLe)

/-- Above the one number lies as much as below the other. -/
theorem gaussianReal_Ioi_neg (hv : v ≠ 0) (a : ℝ) : gaussianReal 0 v (Set.Ioi (-a)) = gaussianReal 0 v (Set.Iic a) := by
  have hAtom := nullSingletonClass_gaussianReal (μ := 0) hv
  have hMap : (gaussianReal 0 v).map (fun x => -x) = gaussianReal 0 v := by
    rw [gaussianReal_map_neg, neg_zero]
  have hPreimage : Set.preimage (fun x : ℝ => -x) (Set.Ioi (-a)) = Set.Iio a := by
    ext x
    simp
  calc gaussianReal 0 v (Set.Ioi (-a)) = (gaussianReal 0 v).map (fun x => -x) (Set.Ioi (-a)) := by rw [hMap]
    _ = gaussianReal 0 v (Set.Iio a) := by rw [Measure.map_apply measurable_neg measurableSet_Ioi, hPreimage]
    _ = gaussianReal 0 v (Set.Iic a) := measure_congr Iio_ae_eq_Iic

end Flagship.Lib
