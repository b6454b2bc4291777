import Mathlib.Data.EReal.Basic
import Mathlib.Topology.Order.IntermediateValue
import Mathlib.Topology.Instances.Real.Lemmas

/-! # Tails and their critical values

A two-sided tail falls as its statistic leaves zero, without a jump and as far as wanted. So every
level it takes at all is taken at one statistic, and the tail is below the level beyond it. Where
no more is known than that both sides are alike, a level has two critical values: before the first
the tail is not below the level, and beyond the second it is.
-/

namespace Flagship.Lib

/-- A tail on both sides of zero. -/
structure IsTail (f : ℝ → ℝ) : Prop where
  even : ∀ z, f |z| = f z
  falls : StrictAntiOn f (Set.Ici 0)
  continuous : Continuous f
  vanishes : ∀ alpha, 0 < alpha → ∃ z, 0 ≤ z ∧ f z < alpha

/-- Where the tail takes a level. -/
noncomputable def critical (f : ℝ → ℝ) (alpha : ℝ) : ℝ := sInf {z | 0 ≤ z ∧ f z = alpha}

namespace IsTail

variable {f : ℝ → ℝ} {alpha : ℝ}

theorem le_zero (h : IsTail f) (z : ℝ) : f z ≤ f 0 := by
  rw [← h.even]
  exact h.falls.antitoneOn Set.self_mem_Ici (abs_nonneg z) (abs_nonneg z)

theorem exists_of_le (h : IsTail f) (hAlpha : 0 < alpha) (hBelow : alpha ≤ f 0) : ∃ z, 0 ≤ z ∧ f z = alpha := by
  obtain ⟨far, hNonneg, hFar⟩ := h.vanishes alpha hAlpha
  obtain ⟨z, ⟨hLow, _⟩, hValue⟩ := intermediate_value_Icc' hNonneg h.continuous.continuousOn ⟨hFar.le, hBelow⟩
  exact ⟨z, hLow, hValue⟩

theorem critical_spec (h : IsTail f) (hAlpha : 0 < alpha) (hBelow : alpha ≤ f 0) :
    0 ≤ critical f alpha ∧ f (critical f alpha) = alpha := by
  obtain ⟨z, hNonneg, hValue⟩ := h.exists_of_le hAlpha hBelow
  have hOnly : {w | 0 ≤ w ∧ f w = alpha} = {z} := by
    ext w
    rw [Set.mem_singleton_iff]
    constructor
    · rintro ⟨hOther, hSame⟩
      exact h.falls.injOn hOther hNonneg (hSame.trans hValue.symm)
    · rintro rfl
      exact ⟨hNonneg, hValue⟩
  rw [critical, hOnly, csInf_singleton]
  exact ⟨hNonneg, hValue⟩

/-- The tail is below a level beyond its critical value, and everywhere when it starts below. -/
theorem lt_iff (h : IsTail f) (hAlpha : 0 < alpha) (z : ℝ) : f z < alpha ↔ f 0 < alpha ∨ critical f alpha < |z| := by
  obtain hAbove | hBelow := lt_or_ge (f 0) alpha
  · exact iff_of_true ((h.le_zero z).trans_lt hAbove) (Or.inl hAbove)
  · obtain ⟨hNonneg, hValue⟩ := h.critical_spec hAlpha hBelow
    have hCritical := h.falls.lt_iff_gt (abs_nonneg z) hNonneg
    rw [hValue, h.even] at hCritical
    rw [hCritical, or_iff_right (not_lt.mpr hBelow)]

end IsTail

/-! ## Tails that need not fall -/

section Critical

variable {f : ℝ → ℝ} {alpha : ℝ}

noncomputable def lowerCritical (f : ℝ → ℝ) (alpha : ℝ) : EReal := sInf ((↑) '' {z : ℝ | 0 ≤ z ∧ f z < alpha})

noncomputable def upperCritical (f : ℝ → ℝ) (alpha : ℝ) : EReal := sSup ((↑) '' {z : ℝ | 0 ≤ z ∧ alpha ≤ f z})

theorem le_of_lt_lowerCritical (hEven : ∀ z, f |z| = f z) {z : ℝ} (h : (|z| : ℝ) < lowerCritical f alpha) :
    alpha ≤ f z := by
  by_contra hBelow
  rw [not_le, ← hEven] at hBelow
  exact h.not_ge (sInf_le ⟨|z|, ⟨abs_nonneg z, hBelow⟩, rfl⟩)

theorem lt_of_upperCritical_lt (hEven : ∀ z, f |z| = f z) {z : ℝ} (h : upperCritical f alpha < (|z| : ℝ)) :
    f z < alpha := by
  by_contra hAbove
  rw [not_lt, ← hEven] at hAbove
  exact h.not_ge (le_sSup ⟨|z|, ⟨abs_nonneg z, hAbove⟩, rfl⟩)

theorem le_lowerCritical {near : ℝ} (h : ∀ z, |z| < near → alpha ≤ f z) : near ≤ lowerCritical f alpha := by
  apply le_sInf
  rintro _ ⟨z, ⟨hNonneg, hBelow⟩, rfl⟩
  rw [EReal.coe_le_coe_iff]
  by_contra hLess
  rw [not_le, ← abs_of_nonneg hNonneg] at hLess
  exact (h z hLess).not_gt hBelow

theorem upperCritical_le {far : ℝ} (h : ∀ z, far < z → f z < alpha) : upperCritical f alpha ≤ far := by
  apply sSup_le
  rintro _ ⟨z, ⟨_, hAbove⟩, rfl⟩
  rw [EReal.coe_le_coe_iff]
  by_contra hLess
  exact (h z (not_le.mp hLess)).not_ge hAbove

end Critical

end Flagship.Lib
