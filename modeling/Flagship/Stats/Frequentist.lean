import Flagship.Lib.Moments
import Mathlib.Algebra.Order.Ring.Rat

/-! # Streaming moments

The accumulator of `packages/core/src/stats/frequentist.ts` over exact rationals: one pass, with
the old and the new mean in each step.
-/

namespace Flagship.Stats

open Lib

/-- `ContinuousSample`, with rational numbers. -/
structure RationalSample where
  n : ℕ
  mean : ℚ
  variance : ℚ
deriving DecidableEq

structure RunningStats where
  count : ℕ
  mean : ℚ
  m2 : ℚ

namespace RunningStats

def new : RunningStats where
  count := 0
  mean := 0
  m2 := 0

def push (stats : RunningStats) (value : ℚ) : RunningStats :=
  let count := stats.count + 1
  let delta := value - stats.mean
  let mean := stats.mean + delta / count
  { count, mean, m2 := stats.m2 + delta * (value - mean) }

def sample (stats : RunningStats) : RationalSample where
  n := stats.count
  mean := stats.mean
  variance := if 1 < stats.count then stats.m2 / (stats.count - 1) else 0

def pushAll (values : List ℚ) : RunningStats := values.foldl push new

/-- What the three numbers are after some values. -/
structure Describes (values : List ℚ) (stats : RunningStats) : Prop where
  count : stats.count = values.length
  mean : stats.mean = Lib.mean values
  m2 : stats.m2 = squaredDeviations values

theorem describes_new : Describes [] new := ⟨rfl, mean_nil.symm, squaredDeviations_nil.symm⟩

theorem Describes.push {values : List ℚ} {stats : RunningStats} (h : Describes values stats) (value : ℚ) :
    Describes (values ++ [value]) (stats.push value) := by
  have hMean : (stats.push value).mean = Lib.mean (values ++ [value]) := by
    rw [mean_concat, RunningStats.push, h.count, h.mean]
    push_cast
    rfl
  constructor
  case count => simp [RunningStats.push, h.count]
  case mean => exact hMean
  case m2 =>
    rw [squaredDeviations_concat, ← hMean, ← h.m2, ← h.mean]
    rfl

theorem describes_foldl (values before : List ℚ) {stats : RunningStats} (h : Describes before stats) :
    Describes (before ++ values) (values.foldl RunningStats.push stats) := by
  induction values generalizing before stats with
  | nil => simpa using h
  | cons value rest ih => simpa using ih (before ++ [value]) (h.push value)

theorem describes_pushAll (values : List ℚ) : Describes values (pushAll values) :=
  describes_foldl values [] describes_new

end RunningStats

/-- The number of values, their mean and their sample variance with denominator `n - 1`. -/
def twoPassSample (values : List ℚ) : RationalSample where
  n := values.length
  mean := mean values
  variance := if 2 ≤ values.length then squaredDeviations values / (values.length - 1) else 0

theorem twoPassSample_perm {values values' : List ℚ} (h : values.Perm values') :
    twoPassSample values = twoPassSample values' := by
  simp only [twoPassSample, h.length_eq, mean_perm h, squaredDeviations_perm h]

theorem twoPassSample_variance_nonneg (values : List ℚ) : 0 ≤ (twoPassSample values).variance := by
  rw [twoPassSample]
  split
  · rename_i hTwo
    have hOne : (1 : ℚ) ≤ values.length := by exact_mod_cast (by omega : 1 ≤ values.length)
    exact div_nonneg (squaredDeviations_nonneg values) (sub_nonneg.mpr hOne)
  · exact le_rfl

theorem sample_pushAll (values : List ℚ) : (RunningStats.pushAll values).sample = twoPassSample values := by
  have h := RunningStats.describes_pushAll values
  rw [RunningStats.sample, twoPassSample, h.count, h.mean, h.m2]
  rfl

/-- One pass gives the moments of the two passes, in whatever order the values come. -/
theorem runningStats_exact (values : List ℚ) :
    (RunningStats.pushAll values).sample = twoPassSample values ∧
    (∀ values', values.Perm values' →
      (RunningStats.pushAll values').sample = (RunningStats.pushAll values).sample) ∧
    0 ≤ (RunningStats.pushAll values).sample.variance := by
  refine ⟨sample_pushAll values, ?_, ?_⟩
  · intro values' hPerm
    rw [sample_pushAll, sample_pushAll, twoPassSample_perm hPerm]
  · rw [sample_pushAll]
    exact twoPassSample_variance_nonneg values

example : (RunningStats.pushAll [2, 4, 4, 4, 5, 5, 7, 9]).sample = { n := 8, mean := 5, variance := 32 / 7 } := by
  decide +kernel

end Flagship.Stats
