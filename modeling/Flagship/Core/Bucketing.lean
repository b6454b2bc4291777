import Flagship.Core.Murmur
import Flagship.Core.Types

/-! # Mapping contexts to buckets and buckets to variations -/

namespace Flagship.Core

open Lib

def BUCKET_SPACE : Nat := 100000

def BUCKET_SEPARATOR : CodeUnits := CodeUnits.ofString ":"

def bucketingInput (flagKey salt bucketKey : CodeUnits) : CodeUnits :=
  flagKey ++ BUCKET_SEPARATOR ++ salt ++ BUCKET_SEPARATOR ++ bucketKey

def bucketFor (flagKey salt bucketKey : CodeUnits) : Nat :=
  (Murmur.murmurHash3x86_32String (bucketingInput flagKey salt bucketKey) 0 % BUCKET_SPACE).toNat

def walkFrom (cumulative : Number) (bucket : Nat) : List Distribution → JsValue
  | [] => none
  | entry :: rest =>
    let cumulative := cumulative.add entry.weight
    if (Number.ofNat bucket).lt cumulative then entry.variationKey else walkFrom cumulative bucket rest

/-- Walks a distribution in declaration order. An entry without a key answers like running off
the end: both give `undefined`. -/
def variationForBucket (distribution : List Distribution) (bucket : Nat) : JsValue :=
  walkFrom (.ofNat 0) bucket distribution

/-- The loop of `isValidDistribution`: the total, unless a weight is not a non-negative integer. -/
def totalFrom (total : Number) : List Distribution → Option Number
  | [] => some total
  | entry :: rest =>
    if !entry.weight.isInteger || entry.weight.lt (.ofNat 0) then none
    else totalFrom (total.add entry.weight) rest

def isValidDistribution (distribution : List Distribution) : Bool :=
  !distribution.isEmpty && totalFrom (.ofNat 0) distribution = some (.ofNat BUCKET_SPACE)

theorem bucketFor_lt (flagKey salt bucketKey : CodeUnits) :
    bucketFor flagKey salt bucketKey < BUCKET_SPACE := by
  have h := Int.emod_lt_of_pos
    (Murmur.murmurHash3x86_32String (bucketingInput flagKey salt bucketKey) 0)
    (by decide : (0 : Int) < BUCKET_SPACE)
  unfold bucketFor
  have hNonneg := Murmur.murmurHash3x86_32String_nonneg (bucketingInput flagKey salt bucketKey) 0
  have hMod := Int.emod_nonneg
    (Murmur.murmurHash3x86_32String (bucketingInput flagKey salt bucketKey) 0)
    (by decide : (BUCKET_SPACE : Int) ≠ 0)
  omega

/-- A total that has passed the bucket space never comes back to it. -/
theorem totalFrom_ne_of_lower {distribution : List Distribution} {total : Number}
    (hTotal : total = .infinity false ∨ ∃ v, total = .finite v ∧ ((BUCKET_SPACE + 1 : ℕ) : ℚ) ≤ v) :
    totalFrom total distribution ≠ some (.ofNat BUCKET_SPACE) := by
  induction distribution generalizing total with
  | nil =>
    intro h
    rw [totalFrom, Option.some.injEq] at h
    rcases hTotal with rfl | ⟨v, rfl, hv⟩
    · cases h
    · rw [Number.ofNat, Number.finite.injEq] at h
      subst v
      have hNat : BUCKET_SPACE + 1 ≤ BUCKET_SPACE := by exact_mod_cast hv
      omega
  | cons entry rest ih =>
    rw [totalFrom]
    split
    · simp
    · rename_i hWeight
      simp only [Bool.or_eq_true, Bool.not_eq_true', not_or, Bool.not_eq_false, Bool.not_eq_true] at hWeight
      obtain ⟨w, hw⟩ := Number.isInteger_nonneg hWeight.1 hWeight.2
      rw [hw]
      exact ih (Number.add_ofNat_lower (by decide) w hTotal)

theorem totalFrom_exact {distribution : List Distribution} {start : ℕ} (hStart : start ≤ BUCKET_SPACE)
    (h : totalFrom (.ofNat start) distribution = some (.ofNat BUCKET_SPACE)) :
    ∃ weights : List ℕ, distribution.map Distribution.weight = weights.map Number.ofNat ∧
      start + weights.sum = BUCKET_SPACE := by
  induction distribution generalizing start with
  | nil =>
    rw [totalFrom, Option.some.injEq, Number.ofNat, Number.ofNat, Number.finite.injEq] at h
    exact ⟨[], rfl, by exact_mod_cast h⟩
  | cons entry rest ih =>
    rw [totalFrom] at h
    split at h
    · cases h
    · rename_i hWeight
      simp only [Bool.or_eq_true, Bool.not_eq_true', not_or, Bool.not_eq_false, Bool.not_eq_true] at hWeight
      obtain ⟨w, hw⟩ := Number.isInteger_nonneg hWeight.1 hWeight.2
      rw [hw] at h
      by_cases hFits : start + w ≤ BUCKET_SPACE
      · have hSmall : start + w < 2 ^ 53 := lt_of_le_of_lt hFits (by decide)
        rw [Number.add_ofNat hSmall] at h
        obtain ⟨weights, hMap, hSum⟩ := ih hFits h
        refine ⟨w :: weights, ?_, ?_⟩
        · rw [List.map_cons, List.map_cons, hw, hMap]
        · rw [List.sum_cons, ← hSum, Nat.add_assoc]
      · have hPast : ((BUCKET_SPACE + 1 : ℕ) : ℚ) ≤ (start : ℚ) + w := by
          exact_mod_cast (by omega : BUCKET_SPACE + 1 ≤ start + w)
        exact absurd h (totalFrom_ne_of_lower (Number.ofRat_lower (by decide) hPast))

theorem exists_entry_of_walk {distribution : List Distribution} {weights : List ℕ} {start bucket : ℕ}
    (hMap : distribution.map Distribution.weight = weights.map Number.ofNat)
    (hSmall : start + weights.sum < 2 ^ 53) (hBucket : bucket < start + weights.sum) (hStart : start ≤ bucket) :
    ∃ entry ∈ distribution, walkFrom (.ofNat start) bucket distribution = entry.variationKey := by
  induction distribution generalizing weights start with
  | nil =>
    cases weights with
    | nil => exact absurd hBucket (by simpa using hStart)
    | cons => cases hMap
  | cons entry rest ih =>
    cases weights with
    | nil => cases hMap
    | cons w weights =>
      rw [List.map_cons, List.map_cons, List.cons.injEq] at hMap
      rw [List.sum_cons] at hSmall hBucket
      rw [walkFrom, hMap.1, Number.add_ofNat (by omega), Number.lt_ofNat]
      by_cases hStop : bucket < start + w
      · exact ⟨entry, List.mem_cons_self, by simp [hStop]⟩
      · obtain ⟨found, hMem, hWalk⟩ :=
          @ih weights (start + w) hMap.2 (by omega) (by omega) (by omega)
        exact ⟨found, List.mem_cons_of_mem _ hMem, by simpa [hStop] using hWalk⟩

theorem exists_entry_of_valid {distribution : List Distribution} {bucket : ℕ}
    (hValid : isValidDistribution distribution = true) (hBucket : bucket < BUCKET_SPACE) :
    ∃ entry ∈ distribution, variationForBucket distribution bucket = entry.variationKey := by
  simp only [isValidDistribution, Bool.and_eq_true, decide_eq_true_eq] at hValid
  obtain ⟨weights, hMap, hSum⟩ := totalFrom_exact (Nat.zero_le _) hValid.2
  exact exists_entry_of_walk hMap (lt_of_eq_of_lt hSum (by decide)) (by omega) (Nat.zero_le _)

end Flagship.Core
