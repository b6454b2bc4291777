import Flagship.Core.Rollout
import Flagship.Sdk.Agreement
import Mathlib.Data.Set.Card

/-! # The SDKs cut a rollout alike

The three walks keep their running total as a double, as a `uint32` and as an `int`. All three
are exact up to the bucket space, so each is the same cut of it into consecutive slices, and a
variation gets as many buckets as its entries weigh together.
-/

namespace Flagship.Sdk

open Lib Lib.Slices

/-- A rollout as it stands in a ruleset: keys and non-negative integer weights, in order. -/
abbrev Rollout := List (String × ℕ)

namespace Rollout

def toCore (rollout : Rollout) : List Core.Distribution :=
  rollout.map fun slice => { variationKey := some (.str slice.1), weight := .ofNat slice.2 }

def toGo (rollout : Rollout) : List Go.Distribution :=
  rollout.map fun slice => { variationKey := slice.1, weight := .ofNat slice.2 }

def toJava (rollout : Rollout) : List Java.Distribution :=
  rollout.map fun slice => { variationKey := slice.1, weight := .ofNat slice.2 }

end Rollout

section Totals

def goTotals : Totals UInt32 where
  ofNat := .ofNat
  add cumulative weight := cumulative + weight
  lt bucket cumulative := bucket < cumulative

def javaTotals : Totals Int32 where
  ofNat := .ofNat
  add cumulative weight := cumulative + weight
  lt bucket cumulative := bucket < cumulative

theorem goTotals_exact {bound : ℕ} (h : bound < 2 ^ 32) : goTotals.Exact bound where
  add m n _ := (UInt32.ofNat_add m n).symm
  lt m n hm hn := by
    apply decide_eq_decide.mpr
    change UInt32.ofNat m < UInt32.ofNat n ↔ m < n
    rw [UInt32.lt_iff_toNat_lt, UInt32.toNat_ofNat_of_lt' (by exact lt_of_le_of_lt hm h),
      UInt32.toNat_ofNat_of_lt' (by exact lt_of_le_of_lt hn h)]

theorem javaTotals_exact {bound : ℕ} (h : bound < 2 ^ 31) : javaTotals.Exact bound where
  add m n _ := (Int32.ofNat_add m n).symm
  lt _ _ hm hn := decide_eq_decide.mpr (Int32.ofNat_lt_iff_lt (lt_of_le_of_lt hm h) (lt_of_le_of_lt hn h))

end Totals

section Walks

theorem goTotals_walk_cons (total bucket weight : UInt32) (key : String) (rest : List (String × UInt32)) :
    goTotals.walk total bucket ((key, weight) :: rest) =
      if bucket < total + weight then some key else goTotals.walk (total + weight) bucket rest := by
  change (if decide (bucket < total + weight) = true then _ else _) = _
  simp only [decide_eq_true_eq]
  rfl

theorem javaTotals_walk_cons (total bucket weight : Int32) (key : String) (rest : List (String × Int32)) :
    javaTotals.walk total bucket ((key, weight) :: rest) =
      if bucket < total + weight then some key else javaTotals.walk (total + weight) bucket rest := by
  change (if decide (bucket < total + weight) = true then _ else _) = _
  simp only [decide_eq_true_eq]
  rfl

theorem go_walkFrom_eq (total bucket : UInt32) (distribution : List Go.Distribution) :
    Go.walkFrom total bucket distribution =
      match goTotals.walk total bucket (distribution.map fun entry => (entry.variationKey, entry.weight)) with
      | some key => (key, true)
      | none => ("", false) := by
  induction distribution generalizing total with
  | nil => rfl
  | cons entry rest ih =>
    rw [Go.walkFrom, List.map_cons, goTotals_walk_cons, ih]
    by_cases hStop : bucket < total + entry.weight
    · rw [if_pos hStop, if_pos hStop]
    · rw [if_neg hStop, if_neg hStop]

theorem java_walkFrom_eq (total bucket : Int32) (distribution : List Java.Distribution) :
    Java.walkFrom total bucket distribution =
      javaTotals.walk total bucket (distribution.map fun entry => (entry.variationKey, entry.weight)) := by
  induction distribution generalizing total with
  | nil => rfl
  | cons entry rest ih =>
    rw [Java.walkFrom, List.map_cons, javaTotals_walk_cons, ih]

variable {rollout : Rollout} {bucket : ℕ}

def Rollout.named (rollout : Rollout) : List (JsValue × ℕ) := rollout.map fun slice => (some (.str slice.1), slice.2)

theorem width_named (rollout : Rollout) : width rollout.named = width rollout := by
  rw [Rollout.named, width, List.map_map, width]
  rfl

theorem toCore_eq (rollout : Rollout) : rollout.toCore = Core.ofSlices rollout.named := by
  rw [Rollout.toCore, Rollout.named, Core.ofSlices, List.map_map]
  rfl

theorem core_variationForBucket_eq (hSum : width rollout = Core.BUCKET_SPACE) (hBucket : bucket < Core.BUCKET_SPACE) :
    Core.variationForBucket rollout.toCore bucket = (keyAt 0 bucket rollout).map Json.str := by
  rw [toCore_eq, Core.variationForBucket_ofSlices (by rw [width_named, hSum]) hBucket.le, Rollout.named,
    keyAt_map fun key => some (Json.str key)]
  cases keyAt 0 bucket rollout with
  | none => rfl
  | some key => rfl

theorem go_variationForBucket_eq (hSum : width rollout = Core.BUCKET_SPACE) (hBucket : bucket < Core.BUCKET_SPACE) :
    Go.variationForBucket rollout.toGo (.ofNat bucket) =
      match keyAt 0 bucket rollout with
      | some key => (key, true)
      | none => ("", false) := by
  have hExact : goTotals.Exact Core.BUCKET_SPACE := goTotals_exact (by decide)
  have hWalk : goTotals.walk (.ofNat 0) (.ofNat bucket) (goTotals.encode rollout) = keyAt 0 bucket rollout :=
    hExact.walk_eq hBucket.le (by omega)
  have hEntries : rollout.toGo.map (fun entry => (entry.variationKey, entry.weight)) = goTotals.encode rollout := by
    rw [Rollout.toGo, Totals.encode, List.map_map]
    rfl
  have hZero : (0 : UInt32) = .ofNat 0 := rfl
  rw [Go.variationForBucket, go_walkFrom_eq, hEntries, hZero, ← hWalk]

theorem java_variationForBucket_eq (hSum : width rollout = Core.BUCKET_SPACE)
    (hBucket : bucket < Core.BUCKET_SPACE) :
    Java.variationForBucket rollout.toJava (.ofNat bucket) = keyAt 0 bucket rollout := by
  have hExact : javaTotals.Exact Core.BUCKET_SPACE := javaTotals_exact (by decide)
  have hWalk : javaTotals.walk (.ofNat 0) (.ofNat bucket) (javaTotals.encode rollout) = keyAt 0 bucket rollout :=
    hExact.walk_eq hBucket.le (by omega)
  have hEntries : rollout.toJava.map (fun entry => (entry.variationKey, entry.weight)) =
      javaTotals.encode rollout := by
    rw [Rollout.toJava, Totals.encode, List.map_map]
    rfl
  have hZero : (0 : Int32) = .ofNat 0 := rfl
  rw [Java.variationForBucket, java_walkFrom_eq, hEntries, hZero, ← hWalk]

/-- Below the bucket space some slice answers, and it is one walk. -/
theorem exists_variation (hSum : width rollout = Core.BUCKET_SPACE) (hBucket : bucket < Core.BUCKET_SPACE) :
    ∃ key, keyAt 0 bucket rollout = some key ∧
      Core.variationForBucket rollout.toCore bucket = some (.str key) ∧
      Go.variationForBucket rollout.toGo (.ofNat bucket) = (key, true) ∧
      Java.variationForBucket rollout.toJava (.ofNat bucket) = some key := by
  obtain ⟨key, hKey⟩ : ∃ key, keyAt 0 bucket rollout = some key := exists_keyAt (Nat.zero_le _) (by omega)
  refine ⟨key, hKey, ?_, ?_, ?_⟩
  · rw [core_variationForBucket_eq hSum hBucket, hKey]
    rfl
  · rw [go_variationForBucket_eq hSum hBucket, hKey]
  · rw [java_variationForBucket_eq hSum hBucket, hKey]

end Walks

section Accepted

theorem java_totalFrom_eq {start : ℕ} {rollout : Rollout} (hFits : start + width rollout < 2 ^ 31) :
    Java.totalFrom (.ofNat start) rollout.toJava = some (.ofNat (start + width rollout)) := by
  induction rollout generalizing start with
  | nil => rfl
  | cons slice rest ih =>
    rw [width_cons] at hFits
    have hNonneg : ¬ Int32.ofNat slice.2 < 0 := by
      rw [Int32.lt_iff_toInt_lt, Int32.toInt_ofNat_of_lt (by omega)]
      exact not_lt.mpr (Int.natCast_nonneg _)
    have hWide : (Int32.ofNat slice.2).toInt64 = Int64.ofNat slice.2 :=
      Int32.toInt64_ofNat' (by rw [Int32.toInt_maxValue]; omega)
    rw [Rollout.toJava, List.map_cons, Java.totalFrom, if_neg hNonneg, hWide, ← Int64.ofNat_add, ← Rollout.toJava,
      ih (by omega), width_cons, Nat.add_assoc]

theorem core_isValidDistribution {rollout : Rollout} (hSum : width rollout = Core.BUCKET_SPACE) :
    Core.isValidDistribution rollout.toCore = true := by
  rw [toCore_eq]
  exact Core.isValidDistribution_ofSlices (by rw [width_named, hSum])

theorem java_isValidDistribution {rollout : Rollout} (hSum : width rollout = Core.BUCKET_SPACE) :
    Java.isValidDistribution rollout.toJava = true := by
  have hTotal : Java.totalFrom (.ofNat 0) rollout.toJava = some (.ofNat (0 + width rollout)) :=
    java_totalFrom_eq (by rw [hSum]; decide)
  have hZero : (0 : Int64) = .ofNat 0 := rfl
  have hSpace : Int64.ofNat Core.BUCKET_SPACE = Java.BUCKET_SPACE := rfl
  rw [Java.isValidDistribution, hZero, hTotal, Nat.zero_add, hSum, hSpace, decide_eq_true rfl, Bool.and_true]
  cases rollout with
  | nil => cases hSum
  | cons => rfl

end Accepted

section Sums

/-! The running totals of the loops after some of the entries. -/

def goTotal (taken : Rollout) : UInt32 := taken.toGo.foldl (fun cumulative entry => cumulative + entry.weight) 0

def javaTotal (taken : Rollout) : Int32 := taken.toJava.foldl (fun cumulative entry => cumulative + entry.weight) 0

variable {taken : Rollout}

theorem cumulative_eq (h : width taken ≤ Core.BUCKET_SPACE) :
    Core.cumulative taken.toCore = .ofNat (width taken) := by
  rw [toCore_eq, Core.cumulative_ofSlices (by rwa [width_named]), width_named]

theorem goTotal_eq (h : width taken ≤ Core.BUCKET_SPACE) : (goTotal taken).toNat = width taken := by
  have hExact : goTotals.Exact Core.BUCKET_SPACE := goTotals_exact (by decide)
  have hSum : (goTotals.encode taken).foldl _ (goTotals.ofNat 0) = goTotals.ofNat (0 + width taken) :=
    hExact.foldl_eq (by omega)
  rw [Totals.encode, List.foldl_map, Nat.zero_add] at hSum
  have hTotal : goTotal taken = .ofNat (width taken) := by
    rw [goTotal, Rollout.toGo, List.foldl_map]
    exact hSum
  rw [hTotal]
  exact UInt32.toNat_ofNat_of_lt' (lt_of_le_of_lt h (by decide))

theorem javaTotal_eq (h : width taken ≤ Core.BUCKET_SPACE) : (javaTotal taken).toInt = width taken := by
  have hExact : javaTotals.Exact Core.BUCKET_SPACE := javaTotals_exact (by decide)
  have hSum : (javaTotals.encode taken).foldl _ (javaTotals.ofNat 0) = javaTotals.ofNat (0 + width taken) :=
    hExact.foldl_eq (by omega)
  rw [Totals.encode, List.foldl_map, Nat.zero_add] at hSum
  have hTotal : javaTotal taken = .ofNat (width taken) := by
    rw [javaTotal, Rollout.toJava, List.foldl_map]
    exact hSum
  rw [hTotal]
  exact Int32.toInt_ofNat_of_lt (lt_of_le_of_lt h (by decide))

end Sums

section Partition

/-- The buckets that a walk answers alike. -/
def answered {α : Type*} (walk : ℕ → α) (answer : α) : Set ℕ :=
  {bucket | bucket < Core.BUCKET_SPACE ∧ walk bucket = answer}

theorem ncard_answered {α : Type*} {rollout : Rollout} (hSum : width rollout = Core.BUCKET_SPACE) {walk : ℕ → α}
    {answer : String → α} (hInjective : Function.Injective answer)
    (hWalk : ∀ bucket < Core.BUCKET_SPACE, ∃ key, keyAt 0 bucket rollout = some key ∧ walk bucket = answer key)
    (key : String) :
    (answered walk (answer key)).ncard = width (rollout.filter fun slice => slice.1 = key) := by
  have hSet : answered walk (answer key) =
      ↑((Finset.Ico 0 (0 + width rollout)).filter fun bucket => keyAt 0 bucket rollout = some key) := by
    ext bucket
    rw [answered, Set.mem_ofPred_eq, Finset.mem_coe, Finset.mem_filter, Finset.mem_Ico, Nat.zero_add, hSum]
    constructor
    · rintro ⟨hBucket, hAnswer⟩
      obtain ⟨found, hFound, hWalked⟩ := hWalk bucket hBucket
      obtain rfl := hInjective (hWalked.symm.trans hAnswer)
      exact ⟨⟨Nat.zero_le _, hBucket⟩, hFound⟩
    · rintro ⟨⟨_, hBucket⟩, hKey⟩
      obtain ⟨found, hFound, hWalked⟩ := hWalk bucket hBucket
      obtain rfl := Option.some.inj (hFound.symm.trans hKey)
      exact ⟨hBucket, hWalked⟩
  rw [hSet, Set.ncard_coe_finset, card_keyAt]

/-- Every bucket of a rollout that fills the space has one answer, the same in the three SDKs;
none of their sums leaves its type; and a key answers for as many buckets as its entries weigh. -/
theorem rollout_partition (rollout : Rollout) (hSum : width rollout = Core.BUCKET_SPACE) :
    (Core.isValidDistribution rollout.toCore = true ∧ Java.isValidDistribution rollout.toJava = true) ∧
    (∀ bucket < Core.BUCKET_SPACE, ∃ key, Core.variationForBucket rollout.toCore bucket = some (.str key) ∧
      Go.variationForBucket rollout.toGo (.ofNat bucket) = (key, true) ∧
      Java.variationForBucket rollout.toJava (.ofNat bucket) = some key) ∧
    (∀ taken, taken <+: rollout → Core.cumulative (Rollout.toCore taken) = .ofNat (width taken) ∧
      (goTotal taken).toNat = width taken ∧ (javaTotal taken).toInt = width taken) ∧
    ∀ key,
      (answered (Core.variationForBucket rollout.toCore) (some (.str key))).ncard =
          width (rollout.filter fun slice => slice.1 = key) ∧
        (answered (fun bucket => Go.variationForBucket rollout.toGo (.ofNat bucket)) (key, true)).ncard =
          width (rollout.filter fun slice => slice.1 = key) ∧
        (answered (fun bucket => Java.variationForBucket rollout.toJava (.ofNat bucket)) (some key)).ncard =
          width (rollout.filter fun slice => slice.1 = key) := by
  refine ⟨⟨core_isValidDistribution hSum, java_isValidDistribution hSum⟩, ?_, ?_, ?_⟩
  · intro bucket hBucket
    obtain ⟨key, _, hAnswers⟩ := exists_variation hSum hBucket
    exact ⟨key, hAnswers⟩
  · intro taken hTaken
    have hFits : width taken ≤ Core.BUCKET_SPACE := hSum ▸ width_le_of_prefix hTaken
    exact ⟨cumulative_eq hFits, goTotal_eq hFits, javaTotal_eq hFits⟩
  · intro key
    refine ⟨?_, ?_, ?_⟩
    · have hInjective : Function.Injective fun key : String => some (Json.str key) := by
        intro first second hSame
        exact Json.str.inj (Option.some.inj hSame)
      apply ncard_answered hSum hInjective
      intro bucket hBucket
      obtain ⟨found, hFound, hCore, _, _⟩ := exists_variation hSum hBucket
      exact ⟨found, hFound, hCore⟩
    · have hInjective : Function.Injective fun key : String => (key, true) := Prod.mk_left_injective true
      apply ncard_answered hSum hInjective
      intro bucket hBucket
      obtain ⟨found, hFound, _, hGo, _⟩ := exists_variation hSum hBucket
      exact ⟨found, hFound, hGo⟩
    · apply ncard_answered hSum (Option.some_injective _)
      intro bucket hBucket
      obtain ⟨found, hFound, _, _, hJava⟩ := exists_variation hSum hBucket
      exact ⟨found, hFound, hJava⟩

/-- A repeated key and a zero weight: "off" owns the two outer slices. -/
def fourSlices : Rollout := [("off", 40000), ("on", 10000), ("beta", 0), ("off", 50000)]

theorem rollout_partition_example :
    (Core.variationForBucket fourSlices.toCore 45000 = some (.str "on") ∧
      Go.variationForBucket fourSlices.toGo (.ofNat 45000) = ("on", true) ∧
      Java.variationForBucket fourSlices.toJava (.ofNat 45000) = some "on") ∧
    (answered (Core.variationForBucket fourSlices.toCore) (some (.str "off"))).ncard = 90000 ∧
    (answered (fun bucket => Go.variationForBucket fourSlices.toGo (.ofNat bucket)) ("off", true)).ncard = 90000 ∧
    (answered (fun bucket => Java.variationForBucket fourSlices.toJava (.ofNat bucket)) (some "off")).ncard =
      90000 := by
  obtain ⟨_, hBuckets, _, hCounts⟩ := rollout_partition fourSlices rfl
  obtain ⟨key, hCore, hGo, hJava⟩ := hBuckets 45000 (by decide)
  obtain rfl : key = "on" := by
    have hSecond : Java.variationForBucket fourSlices.toJava (.ofNat 45000) = some "on" := by decide +kernel
    exact Option.some.inj (hJava.symm.trans hSecond)
  exact ⟨⟨hCore, hGo, hJava⟩, hCounts "off"⟩

end Partition

end Flagship.Sdk
