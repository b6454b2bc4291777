import Mathlib.Algebra.BigOperators.Group.List.Basic
import Mathlib.Algebra.Order.BigOperators.Group.List
import Mathlib.Algebra.Order.Field.Basic
import Mathlib.Tactic.FieldSimp
import Mathlib.Tactic.Ring

/-! # Mean and squared deviations of a list

Both are functions of the values alone, and each changes by a closed term when one more value
comes in.
-/

namespace Flagship.Lib

variable {K : Type*} [Field K]

/-- The arithmetic mean; of no values it is zero. -/
def mean (values : List K) : K := values.sum / values.length

/-- The sum of the squared deviations from the mean. -/
def squaredDeviations (values : List K) : K := (values.map fun value => (value - mean values) ^ 2).sum

theorem mean_nil : mean ([] : List K) = 0 := by
  simp [mean]

theorem squaredDeviations_nil : squaredDeviations ([] : List K) = 0 := by
  simp [squaredDeviations]

theorem mean_perm {values values' : List K} (h : values.Perm values') : mean values = mean values' := by
  rw [mean, mean, h.sum_eq, h.length_eq]

theorem squaredDeviations_perm {values values' : List K} (h : values.Perm values') :
    squaredDeviations values = squaredDeviations values' := by
  rw [squaredDeviations, squaredDeviations, mean_perm h]
  exact (h.map _).sum_eq

theorem sum_map_sub_sq (values : List K) (c : K) :
    (values.map fun value => (value - c) ^ 2).sum =
      (values.map (· ^ 2)).sum - 2 * c * values.sum + values.length * c ^ 2 := by
  induction values with
  | nil => simp
  | cons value rest ih =>
    simp only [List.map_cons, List.sum_cons, List.length_cons, ih]
    push_cast
    ring

section CharZero

variable [CharZero K]

theorem length_mul_mean (values : List K) : values.length * mean values = values.sum := by
  cases values with
  | nil => simp
  | cons value rest =>
    have hLength : ((value :: rest).length : K) ≠ 0 := by simp [Nat.cast_add_one_ne_zero]
    rw [mean, mul_div_cancel₀ _ hLength]

theorem squaredDeviations_eq (values : List K) :
    squaredDeviations values = (values.map (· ^ 2)).sum - values.length * mean values ^ 2 := by
  rw [squaredDeviations, sum_map_sub_sq, ← length_mul_mean values]
  ring

theorem mean_concat (values : List K) (value : K) :
    mean (values ++ [value]) = mean values + (value - mean values) / (values.length + 1) := by
  have hLength : (values.length : K) + 1 ≠ 0 := Nat.cast_add_one_ne_zero _
  have hSum : (values ++ [value]).sum = values.length * mean values + value := by
    simp [length_mul_mean]
  rw [mean, hSum, List.length_append, List.length_singleton]
  push_cast
  field_simp
  ring

/-- One more value adds the product of its deviations from the mean before it and from the mean
with it. -/
theorem squaredDeviations_concat (values : List K) (value : K) :
    squaredDeviations (values ++ [value]) =
      squaredDeviations values + (value - mean values) * (value - mean (values ++ [value])) := by
  have hLength : (values.length : K) + 1 ≠ 0 := Nat.cast_add_one_ne_zero _
  rw [squaredDeviations_eq, squaredDeviations_eq, mean_concat]
  simp only [List.map_append, List.map_cons, List.map_nil, List.sum_append, List.sum_singleton, List.length_append,
    List.length_singleton]
  push_cast
  field_simp
  ring

end CharZero

theorem squaredDeviations_nonneg [LinearOrder K] [IsStrictOrderedRing K] (values : List K) :
    0 ≤ squaredDeviations values := by
  apply List.sum_nonneg
  intro square hSquare
  obtain ⟨value, _, rfl⟩ := List.mem_map.mp hSquare
  exact sq_nonneg _

end Flagship.Lib
