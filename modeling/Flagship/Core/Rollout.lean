import Flagship.Core.Bucketing
import Flagship.Lib.Slices

/-! # A valid distribution cuts the bucket space into slices

Its weights are natural numbers, its running totals never leave the integers a double holds
exactly, and so the walk of `variationForBucket` is the cut of the bucket space.
-/

namespace Flagship.Core

open Lib Lib.Slices

def numberTotals : Totals Number where
  ofNat := Number.ofNat
  add := Number.add
  lt := Number.lt

theorem numberTotals_exact {bound : ℕ} (h : bound < 2 ^ 53) : numberTotals.Exact bound where
  add _ _ hSum := Number.add_ofNat (lt_of_le_of_lt hSum h)
  lt _ _ _ _ := Number.lt_ofNat

theorem walkFrom_eq (total : Number) (bucket : ℕ) (distribution : List Distribution) :
    walkFrom total bucket distribution =
      (numberTotals.walk total (.ofNat bucket)
        (distribution.map fun entry => (entry.variationKey, entry.weight))).join := by
  induction distribution generalizing total with
  | nil => rfl
  | cons entry rest ih =>
    rw [walkFrom, List.map_cons, Totals.walk, ih, apply_ite Option.join]
    rfl

def ofSlices (slices : List (JsValue × ℕ)) : List Distribution :=
  slices.map fun slice => { variationKey := slice.1, weight := .ofNat slice.2 }

variable {slices : List (JsValue × ℕ)}

@[simp] theorem map_variationKey_ofSlices (slices : List (JsValue × ℕ)) :
    (ofSlices slices).map Distribution.variationKey = slices.map Prod.fst := by
  rw [ofSlices, List.map_map]
  rfl

theorem take_ofSlices (count : ℕ) (slices : List (JsValue × ℕ)) :
    (ofSlices slices).take count = ofSlices (slices.take count) := by
  rw [ofSlices, ofSlices, List.map_take]

theorem exists_slices {distribution : List Distribution} (hValid : isValidDistribution distribution = true) :
    ∃ slices, distribution = ofSlices slices ∧ width slices = BUCKET_SPACE := by
  simp only [isValidDistribution, Bool.and_eq_true, decide_eq_true_eq] at hValid
  obtain ⟨weights, hMap, hSum⟩ := totalFrom_exact (Nat.zero_le _) hValid.2
  have hLength : distribution.length = weights.length := by
    have hLength := congrArg List.length hMap
    rwa [List.length_map, List.length_map] at hLength
  refine ⟨(distribution.map Distribution.variationKey).zip weights, ?_, ?_⟩
  · apply List.ext_getElem
    · simp [ofSlices, hLength]
    · intro index hOld hNew
      have hIndex : index < weights.length := hLength ▸ hOld
      have hWeight : distribution[index].weight = .ofNat weights[index] := by
        have hAt := congrArg (fun entries : List Number => entries[index]?) hMap
        simpa [hOld, hIndex] using hAt
      simp only [ofSlices, List.getElem_map, List.getElem_zip, ← hWeight]
  · rw [width, List.map_snd_zip (by rw [List.length_map, hLength])]
    omega

theorem isValidDistribution_ofSlices (hWidth : width slices = BUCKET_SPACE) :
    isValidDistribution (ofSlices slices) = true := by
  have hTotal : ∀ (rest : List (JsValue × ℕ)) (start : ℕ), start + width rest < 2 ^ 53 →
      totalFrom (.ofNat start) (ofSlices rest) = some (.ofNat (start + width rest)) := by
    intro rest
    induction rest with
    | nil => exact fun _ _ => rfl
    | cons slice rest ih =>
      intro start hFits
      rw [width_cons] at hFits
      have hInteger : (Number.ofNat slice.2).isInteger = true := by simp [Number.isInteger, Number.ofNat]
      have hNonneg : (Number.ofNat slice.2).lt (.ofNat 0) = false := by
        rw [Number.lt_ofNat]
        exact decide_eq_false (Nat.not_lt_zero _)
      rw [ofSlices, List.map_cons, totalFrom]
      simp only [hInteger, hNonneg, Bool.not_true, Bool.or_self, Bool.false_eq_true, if_false]
      rw [Number.add_ofNat (by omega), ← ofSlices, ih _ (by omega), width_cons, Nat.add_assoc]
  rw [isValidDistribution, hTotal slices 0 (by rw [hWidth]; decide), Nat.zero_add, hWidth, decide_eq_true rfl,
    Bool.and_true]
  cases slices with
  | nil => cases hWidth
  | cons => rfl

theorem variationForBucket_ofSlices {bucket : ℕ} (hWidth : width slices ≤ BUCKET_SPACE)
    (hBucket : bucket ≤ BUCKET_SPACE) :
    variationForBucket (ofSlices slices) bucket = (keyAt 0 bucket slices).join := by
  have hExact : numberTotals.Exact BUCKET_SPACE := numberTotals_exact (by decide)
  have hWalk : numberTotals.walk (.ofNat 0) (.ofNat bucket) (numberTotals.encode slices) = keyAt 0 bucket slices :=
    hExact.walk_eq hBucket (by omega)
  have hEntries : (ofSlices slices).map (fun entry => (entry.variationKey, entry.weight)) =
      numberTotals.encode slices := by
    rw [ofSlices, Totals.encode, List.map_map]
    rfl
  rw [variationForBucket, walkFrom_eq, hEntries, hWalk]

/-- The running total after some of the entries. -/
def cumulative (distribution : List Distribution) : Number :=
  distribution.foldl (fun cumulative entry => cumulative.add entry.weight) (.ofNat 0)

theorem cumulative_ofSlices (hWidth : width slices ≤ BUCKET_SPACE) :
    cumulative (ofSlices slices) = .ofNat (width slices) := by
  have hExact : numberTotals.Exact BUCKET_SPACE := numberTotals_exact (by decide)
  have hSum : (numberTotals.encode slices).foldl _ (numberTotals.ofNat 0) = numberTotals.ofNat (0 + width slices) :=
    hExact.foldl_eq (by omega)
  rw [Totals.encode, List.foldl_map, Nat.zero_add] at hSum
  rw [cumulative, ofSlices, List.foldl_map]
  exact hSum

end Flagship.Core
