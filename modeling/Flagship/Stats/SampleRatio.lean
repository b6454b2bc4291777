import Mathlib.Algebra.BigOperators.Ring.List
import Mathlib.Algebra.Order.Ring.Rat
import Mathlib.Tactic.FieldSimp
import Mathlib.Tactic.Linarith

/-! # Sample ratio mismatch

`packages/core/src/stats/srm.ts` over exact rationals. Which p-value belongs to a statistic and its
degrees of freedom is given; what is proved holds for any.
-/

namespace Flagship.Stats

structure SrmArm where
  variationKey : String
  observed : ℚ
  /-- Intended share of traffic. -/
  weight : ℚ
deriving DecidableEq

structure SrmArmDetail where
  variationKey : String
  observed : ℚ
  expected : ℚ
  deviation : ℚ
deriving DecidableEq

structure SrmResult where
  chiSquare : ℚ
  degreesOfFreedom : ℕ
  pValue : ℚ
  mismatch : Bool
  arms : List SrmArmDetail
deriving DecidableEq

def SRM_ALARM_THRESHOLD : ℚ := 0.0005

namespace SampleRatio

def totalObserved (arms : List SrmArm) : ℚ := arms.foldl (fun sum arm => sum + arm.observed) 0

def totalWeight (arms : List SrmArm) : ℚ := arms.foldl (fun sum arm => sum + arm.weight) 0

def expected (observed weight : ℚ) (arm : SrmArm) : ℚ := if weight = 0 then 0 else arm.weight / weight * observed

def detail (arms : List SrmArm) : List SrmArmDetail :=
  arms.map fun arm =>
    let expected := expected (totalObserved arms) (totalWeight arms) arm
    { variationKey := arm.variationKey
      observed := arm.observed
      expected
      deviation := if expected = 0 then 0 else (arm.observed - expected) / expected }

/-- One turn of the loop. -/
def accumulate (chiSquare : ℚ) (arm : SrmArmDetail) : ℚ :=
  if arm.expected ≤ 0 then chiSquare
  else
    let difference := arm.observed - arm.expected
    chiSquare + difference * difference / arm.expected

/-- Not enough data, or a degenerate split. -/
def isDegenerate (arms : List SrmArm) : Bool :=
  decide (arms.length < 2) || decide (totalObserved arms = 0) || decide (totalWeight arms = 0)

end SampleRatio

open SampleRatio

variable (chiSquarePValue : ℚ → ℕ → ℚ)

def detectSampleRatioMismatch (arms : List SrmArm) (threshold : ℚ) : SrmResult :=
  if isDegenerate arms then
    { chiSquare := 0
      degreesOfFreedom := arms.length - 1
      pValue := 1
      mismatch := false
      arms := detail arms }
  else
    let chiSquare := (detail arms).foldl accumulate 0
    let degreesOfFreedom := arms.length - 1
    let pValue := chiSquarePValue chiSquare degreesOfFreedom
    { chiSquare
      degreesOfFreedom
      pValue
      mismatch := decide (pValue < threshold)
      arms := detail arms }

namespace SampleRatio

/-! ## Sums for the folds -/

/-- What an arm adds to the statistic. -/
def contribution (observed weight : ℚ) (arm : SrmArm) : ℚ :=
  let expected := expected observed weight arm
  if expected ≤ 0 then 0 else (arm.observed - expected) * (arm.observed - expected) / expected

theorem foldl_add_eq (f : SrmArm → ℚ) (arms : List SrmArm) (start : ℚ) :
    arms.foldl (fun sum arm => sum + f arm) start = start + (arms.map f).sum := by
  induction arms generalizing start with
  | nil => simp
  | cons arm rest ih => simp [ih, add_assoc]

theorem totalObserved_eq (arms : List SrmArm) : totalObserved arms = (arms.map SrmArm.observed).sum := by
  simp [totalObserved, foldl_add_eq]

theorem totalWeight_eq (arms : List SrmArm) : totalWeight arms = (arms.map SrmArm.weight).sum := by
  simp [totalWeight, foldl_add_eq]

theorem foldl_accumulate (arms : List SrmArm) :
    (detail arms).foldl accumulate 0 =
      (arms.map (contribution (totalObserved arms) (totalWeight arms))).sum := by
  have hStep : ∀ (chiSquare : ℚ) (arm : SrmArm), accumulate chiSquare
      { variationKey := arm.variationKey
        observed := arm.observed
        expected := expected (totalObserved arms) (totalWeight arms) arm
        deviation := if expected (totalObserved arms) (totalWeight arms) arm = 0 then 0 else
          (arm.observed - expected (totalObserved arms) (totalWeight arms) arm) /
            expected (totalObserved arms) (totalWeight arms) arm } =
        chiSquare + contribution (totalObserved arms) (totalWeight arms) arm := by
    intro chiSquare arm
    simp only [accumulate, contribution]
    split <;> simp
  simp only [detail, List.foldl_map, hStep, foldl_add_eq, zero_add]

theorem contribution_of_expected_zero {observed weight : ℚ} {arm : SrmArm} (h : expected observed weight arm = 0) :
    contribution observed weight arm = 0 := by
  simp [contribution, h]

/-- In every branch the statistic is the sum over the arms: a degenerate split adds nothing. -/
theorem chiSquare_eq (arms : List SrmArm) (threshold : ℚ) :
    (detectSampleRatioMismatch chiSquarePValue arms threshold).chiSquare =
      (arms.map (contribution (totalObserved arms) (totalWeight arms))).sum := by
  rw [detectSampleRatioMismatch]
  split
  · rename_i hDegenerate
    symm
    apply List.sum_eq_zero
    intro value hValue
    obtain ⟨arm, hMem, rfl⟩ := List.mem_map.mp hValue
    simp only [isDegenerate, Bool.or_eq_true, decide_eq_true_eq] at hDegenerate
    obtain (hShort | hNoData) | hNoWeight := hDegenerate
    · -- All the traffic is expected in the only arm, and all of it is there.
      obtain ⟨only, rfl⟩ : ∃ only, arms = [only] := List.length_eq_one_iff.mp (by
        have hPositive := List.length_pos_of_mem hMem
        omega)
      obtain rfl := List.mem_singleton.mp hMem
      by_cases hWeight : arm.weight = 0
      · apply contribution_of_expected_zero
        simp [expected, totalWeight, hWeight]
      · have hExpected : expected (totalObserved [arm]) (totalWeight [arm]) arm = arm.observed := by
          simp [expected, totalObserved, totalWeight, hWeight]
        simp [contribution, hExpected]
    · apply contribution_of_expected_zero
      simp [expected, hNoData]
    · apply contribution_of_expected_zero
      simp [expected, hNoWeight]
  · exact foldl_accumulate arms

theorem degreesOfFreedom_eq (arms : List SrmArm) (threshold : ℚ) :
    (detectSampleRatioMismatch chiSquarePValue arms threshold).degreesOfFreedom = arms.length - 1 := by
  rw [detectSampleRatioMismatch]
  split <;> rfl

theorem pValue_eq (arms : List SrmArm) (threshold : ℚ) :
    (detectSampleRatioMismatch chiSquarePValue arms threshold).pValue =
      if isDegenerate arms then 1
      else chiSquarePValue (detectSampleRatioMismatch chiSquarePValue arms threshold).chiSquare (arms.length - 1) := by
  rw [detectSampleRatioMismatch]
  split <;> rfl

/-! ## Lists of arms with the same traffic -/

def scaled (c : ℚ) (arm : SrmArm) : SrmArm := { arm with weight := c * arm.weight }

def IsIdle (arm : SrmArm) : Prop := arm.weight = 0 ∧ arm.observed = 0

/-- Lists that differ in the order of the arms, the unit of the weights and the arms that can
receive no traffic. -/
inductive SameTraffic : List SrmArm → List SrmArm → Prop where
  | reorder {arms arms' : List SrmArm} (h : arms.Perm arms') : SameTraffic arms arms'
  | rescale (arms : List SrmArm) {c : ℚ} (hPositive : 0 < c) : SameTraffic arms (arms.map (scaled c))
  | idle (arms : List SrmArm) {added : List SrmArm} (hIdle : ∀ arm ∈ added, IsIdle arm) :
      SameTraffic arms (arms ++ added)
  | symm {arms arms' : List SrmArm} (h : SameTraffic arms arms') : SameTraffic arms' arms
  | trans {arms arms' arms'' : List SrmArm} (h : SameTraffic arms arms') (h' : SameTraffic arms' arms'') :
      SameTraffic arms arms''

/-! What each of the three changes does to the totals and to what an arm adds. -/

theorem totalObserved_perm {arms arms' : List SrmArm} (h : arms.Perm arms') :
    totalObserved arms = totalObserved arms' := by
  simp only [totalObserved_eq]
  exact (h.map _).sum_eq

theorem totalWeight_perm {arms arms' : List SrmArm} (h : arms.Perm arms') : totalWeight arms = totalWeight arms' := by
  simp only [totalWeight_eq]
  exact (h.map _).sum_eq

@[simp] theorem totalObserved_scaled (arms : List SrmArm) (c : ℚ) :
    totalObserved (arms.map (scaled c)) = totalObserved arms := by
  simp only [totalObserved_eq, List.map_map]
  rfl

@[simp] theorem totalWeight_scaled (arms : List SrmArm) (c : ℚ) :
    totalWeight (arms.map (scaled c)) = c * totalWeight arms := by
  simp only [totalWeight_eq, List.map_map, ← List.sum_map_mul_left]
  rfl

theorem contribution_scaled {c : ℚ} (hPositive : 0 < c) (observed weight : ℚ) (arm : SrmArm) :
    contribution observed (c * weight) (scaled c arm) = contribution observed weight arm := by
  have hExpected : expected observed (c * weight) (scaled c arm) = expected observed weight arm := by
    simp [expected, scaled, hPositive.ne', mul_div_mul_left]
  simp only [contribution, hExpected]
  rfl

section Idle

variable {added : List SrmArm} (hIdle : ∀ arm ∈ added, IsIdle arm)
include hIdle

theorem sum_map_idle {f : SrmArm → ℚ} (hZero : ∀ arm, IsIdle arm → f arm = 0) : (added.map f).sum = 0 := by
  apply List.sum_eq_zero
  intro value hValue
  obtain ⟨arm, hMem, rfl⟩ := List.mem_map.mp hValue
  exact hZero arm (hIdle arm hMem)

theorem totalObserved_append_idle (arms : List SrmArm) : totalObserved (arms ++ added) = totalObserved arms := by
  simp [totalObserved_eq, sum_map_idle hIdle fun _ h => h.2]

theorem totalWeight_append_idle (arms : List SrmArm) : totalWeight (arms ++ added) = totalWeight arms := by
  simp [totalWeight_eq, sum_map_idle hIdle fun _ h => h.1]

theorem sum_contribution_idle (observed weight : ℚ) : (added.map (contribution observed weight)).sum = 0 := by
  apply sum_map_idle hIdle
  intro arm h
  apply contribution_of_expected_zero
  simp [expected, h.1]

end Idle

variable {arms arms' : List SrmArm}

theorem SameTraffic.totalObserved (h : SameTraffic arms arms') : totalObserved arms = totalObserved arms' := by
  induction h with
  | reorder hPerm => exact totalObserved_perm hPerm
  | rescale arms hPositive => simp
  | idle arms hIdle => exact (totalObserved_append_idle hIdle arms).symm
  | symm _ ih => exact ih.symm
  | trans _ _ ih ih' => exact ih.trans ih'

theorem SameTraffic.totalWeight_eq_zero_iff (h : SameTraffic arms arms') :
    totalWeight arms = 0 ↔ totalWeight arms' = 0 := by
  induction h with
  | reorder hPerm => rw [totalWeight_perm hPerm]
  | rescale arms hPositive => simp [hPositive.ne']
  | idle arms hIdle => rw [totalWeight_append_idle hIdle]
  | symm _ ih => exact ih.symm
  | trans _ _ ih ih' => exact ih.trans ih'

theorem SameTraffic.chiSquare (h : SameTraffic arms arms') (threshold : ℚ) :
    (detectSampleRatioMismatch chiSquarePValue arms threshold).chiSquare =
      (detectSampleRatioMismatch chiSquarePValue arms' threshold).chiSquare := by
  induction h with
  | reorder hPerm =>
    rw [chiSquare_eq, chiSquare_eq, totalObserved_perm hPerm, totalWeight_perm hPerm]
    exact (hPerm.map _).sum_eq
  | rescale arms hPositive =>
    simp only [chiSquare_eq, totalObserved_scaled, totalWeight_scaled, List.map_map]
    congr 1
    apply List.map_congr_left
    intro arm _
    exact (contribution_scaled hPositive _ _ arm).symm
  | idle arms hIdle =>
    rw [chiSquare_eq, chiSquare_eq, totalObserved_append_idle hIdle, totalWeight_append_idle hIdle, List.map_append,
      List.sum_append, sum_contribution_idle hIdle, add_zero]
  | symm _ ih => exact ih.symm
  | trans _ _ ih ih' => exact ih.trans ih'

theorem SameTraffic.isDegenerate (h : SameTraffic arms arms') (hLength : arms.length < 2 ↔ arms'.length < 2) :
    isDegenerate arms = isDegenerate arms' := by
  have hWeight := h.totalWeight_eq_zero_iff
  simp only [SampleRatio.isDegenerate, h.totalObserved, hLength, hWeight]

end SampleRatio

/-- Two lists with the same traffic give the same test exactly when they count as many arms, or
too few of them for a test. -/
theorem sampleRatio_invariant_iff {arms arms' : List SrmArm} (h : SameTraffic arms arms') (threshold : ℚ) :
    ((detectSampleRatioMismatch chiSquarePValue arms threshold).chiSquare =
        (detectSampleRatioMismatch chiSquarePValue arms' threshold).chiSquare ∧
      (detectSampleRatioMismatch chiSquarePValue arms threshold).degreesOfFreedom =
        (detectSampleRatioMismatch chiSquarePValue arms' threshold).degreesOfFreedom ∧
      (detectSampleRatioMismatch chiSquarePValue arms threshold).pValue =
        (detectSampleRatioMismatch chiSquarePValue arms' threshold).pValue) ↔
      arms.length = arms'.length ∨ arms.length ≤ 1 ∧ arms'.length ≤ 1 := by
  have hChiSquare := h.chiSquare chiSquarePValue threshold
  have hFreedom : arms.length - 1 = arms'.length - 1 ↔
      arms.length = arms'.length ∨ arms.length ≤ 1 ∧ arms'.length ≤ 1 := by omega
  rw [degreesOfFreedom_eq, degreesOfFreedom_eq, ← hFreedom]
  constructor
  · rintro ⟨_, hSame, _⟩
    exact hSame
  · intro hSame
    refine ⟨hChiSquare, hSame, ?_⟩
    rw [pValue_eq, pValue_eq, h.isDegenerate (by omega), hChiSquare, hSame]

def evenSplit : List SrmArm :=
  [{ variationKey := "control", observed := 60, weight := 50000 },
    { variationKey := "treatment", observed := 40, weight := 50000 }]

/-- A variation that no user is sent to. -/
def rampedDown : SrmArm where
  variationKey := "retired"
  observed := 0
  weight := 0

theorem sampleRatio_reversed :
    (detectSampleRatioMismatch (fun _ _ => 1) evenSplit SRM_ALARM_THRESHOLD).chiSquare =
        (detectSampleRatioMismatch (fun _ _ => 1) evenSplit.reverse SRM_ALARM_THRESHOLD).chiSquare ∧
      (detectSampleRatioMismatch (fun _ _ => 1) evenSplit SRM_ALARM_THRESHOLD).degreesOfFreedom =
        (detectSampleRatioMismatch (fun _ _ => 1) evenSplit.reverse SRM_ALARM_THRESHOLD).degreesOfFreedom ∧
      (detectSampleRatioMismatch (fun _ _ => 1) evenSplit SRM_ALARM_THRESHOLD).pValue =
        (detectSampleRatioMismatch (fun _ _ => 1) evenSplit.reverse SRM_ALARM_THRESHOLD).pValue :=
  (sampleRatio_invariant_iff (fun _ _ => 1) (.reorder (List.reverse_perm evenSplit).symm)
    SRM_ALARM_THRESHOLD).mpr (Or.inl (List.length_reverse).symm)

/-- An arm without traffic counts as a degree of freedom. -/
theorem rampedDown_counts :
    SameTraffic evenSplit (evenSplit ++ [rampedDown]) ∧
      (detectSampleRatioMismatch (fun _ _ => 1) evenSplit SRM_ALARM_THRESHOLD).degreesOfFreedom = 1 ∧
      (detectSampleRatioMismatch (fun _ _ => 1) (evenSplit ++ [rampedDown]) SRM_ALARM_THRESHOLD).degreesOfFreedom =
        2 := by
  refine ⟨.idle evenSplit (List.forall_mem_singleton.mpr ⟨rfl, rfl⟩), ?_, ?_⟩ <;> decide +kernel

end Flagship.Stats
