import Mathlib.Probability.Process.Filtration
import Mathlib.MeasureTheory.Integral.Lebesgue.Markov

/-! # Ville's inequality

The capital of a bettor in a game that is not in the bettor's favour, from whatever has been
seen so far. It ever reaches `c` with a probability of at most what it started from over `c`,
however long the game goes on.
-/

namespace Flagship.Lib

open MeasureTheory
open scoped ENNReal

variable {Ω : Type*} {m : MeasurableSpace Ω} {P : Measure Ω} {seen : Filtration ℕ m} {capital : ℕ → Ω → ℝ≥0∞}

structure IsBet (seen : Filtration ℕ m) (P : Measure Ω) (capital : ℕ → Ω → ℝ≥0∞) : Prop where
  measurable : ∀ k, Measurable[seen k] (capital k)
  unfavourable : ∀ k s, MeasurableSet[seen k] s → ∫⁻ ω in s, capital (k + 1) ω ∂P ≤ ∫⁻ ω in s, capital k ω ∂P

/-- The capital has stayed below `c` up to the time. -/
def staysBelow (capital : ℕ → Ω → ℝ≥0∞) (c : ℝ≥0∞) (k : ℕ) : Set Ω := {ω | ∀ j ≤ k, capital j ω < c}

theorem staysBelow_succ (capital : ℕ → Ω → ℝ≥0∞) (c : ℝ≥0∞) (k : ℕ) :
    staysBelow capital c (k + 1) = staysBelow capital c k ∩ {ω | capital (k + 1) ω < c} := by
  ext ω
  simp only [staysBelow, Set.mem_ofPred_eq, Set.mem_inter_iff]
  constructor
  · intro h
    exact ⟨fun j hj => h j (by omega), h (k + 1) le_rfl⟩
  · rintro ⟨hBefore, hNow⟩ j hj
    rcases Nat.le_succ_iff.mp hj with hOld | rfl
    · exact hBefore j hOld
    · exact hNow

namespace IsBet

theorem measurableSet_staysBelow (h : IsBet seen P capital) (c : ℝ≥0∞) (k : ℕ) :
    MeasurableSet[seen k] (staysBelow capital c k) := by
  have hEach : staysBelow capital c k = ⋂ j ∈ Set.Iic k, {ω | capital j ω < c} := by
    ext ω
    simp [staysBelow]
  rw [hEach]
  refine MeasurableSet.biInter (Set.to_countable _) fun j hj => ?_
  exact seen.mono hj _ (measurableSet_lt (h.measurable j) measurable_const)

/-- Those who have just reached `c` are paid it out of what they hold. -/
theorem paid_add_held_within {s : Set Ω} (hSet : MeasurableSet s) {f : Ω → ℝ≥0∞} (hMeasurable : Measurable f)
    (c : ℝ≥0∞) : c * P (s \ {ω | f ω < c}) + ∫⁻ ω in s ∩ {ω | f ω < c}, f ω ∂P ≤ ∫⁻ ω in s, f ω ∂P := by
  have hBelow : MeasurableSet {ω | f ω < c} := measurableSet_lt hMeasurable measurable_const
  rw [← lintegral_inter_add_sdiff f s hBelow, add_comm, ← setLIntegral_const]
  gcongr _ + ?_
  refine setLIntegral_mono' (hSet.diff hBelow) fun ω hω => ?_
  exact not_lt.mp hω.2

/-- The invariant of the game: what has been paid out for reaching `c`, beside what is held by
those who have not. -/
theorem paid_add_held (h : IsBet seen P capital) (c : ℝ≥0∞) (k : ℕ) :
    c * P (staysBelow capital c k)ᶜ + ∫⁻ ω in staysBelow capital c k, capital k ω ∂P ≤ ∫⁻ ω, capital 0 ω ∂P := by
  have hMeasurable : ∀ k, Measurable (capital k) := fun k => (h.measurable k).mono (seen.le k) le_rfl
  induction k with
  | zero =>
    have hSet : staysBelow capital c 0 = {ω | capital 0 ω < c} := by
      ext ω
      simp [staysBelow]
    have hStart := paid_add_held_within (P := P) MeasurableSet.univ (hMeasurable 0) c
    rw [setLIntegral_univ, Set.sdiff_eq, Set.univ_inter, Set.univ_inter] at hStart
    rwa [hSet]
  | succ k ih =>
    have hBelow : MeasurableSet (staysBelow capital c k) := seen.le k _ (h.measurableSet_staysBelow c k)
    have hReached : (staysBelow capital c (k + 1))ᶜ = (staysBelow capital c k)ᶜ ∪
        (staysBelow capital c k \ {ω | capital (k + 1) ω < c}) := by
      rw [staysBelow_succ, Set.compl_inter, Set.sdiff_eq]
      ext ω
      simp only [Set.mem_union, Set.mem_compl_iff, Set.mem_inter_iff]
      tauto
    calc
      _ ≤ c * (P (staysBelow capital c k)ᶜ + P (staysBelow capital c k \ {ω | capital (k + 1) ω < c})) +
          ∫⁻ ω in staysBelow capital c (k + 1), capital (k + 1) ω ∂P := by
        gcongr
        rw [hReached]
        exact measure_union_le _ _
      _ = c * P (staysBelow capital c k)ᶜ + (c * P (staysBelow capital c k \ {ω | capital (k + 1) ω < c}) +
          ∫⁻ ω in staysBelow capital c k ∩ {ω | capital (k + 1) ω < c}, capital (k + 1) ω ∂P) := by
        rw [staysBelow_succ, mul_add, add_assoc]
      _ ≤ c * P (staysBelow capital c k)ᶜ + ∫⁻ ω in staysBelow capital c k, capital (k + 1) ω ∂P := by
        gcongr _ + ?_
        exact paid_add_held_within hBelow (hMeasurable (k + 1)) c
      _ ≤ c * P (staysBelow capital c k)ᶜ + ∫⁻ ω in staysBelow capital c k, capital k ω ∂P := by
        gcongr _ + ?_
        exact h.unfavourable k _ (h.measurableSet_staysBelow c k)
      _ ≤ _ := ih

theorem staysBelow_subset (capital : ℕ → Ω → ℝ≥0∞) (c : ℝ≥0∞) {j k : ℕ} (hLe : j ≤ k) :
    staysBelow capital c k ⊆ staysBelow capital c j :=
  fun _ h i hi => h i (hi.trans hLe)

/-- Ville's inequality, over the whole game. -/
theorem ville (h : IsBet seen P capital) (c : ℝ≥0∞) : c * P {ω | ∃ k, c ≤ capital k ω} ≤ ∫⁻ ω, capital 0 ω ∂P := by
  have hEver : {ω | ∃ k, c ≤ capital k ω} = ⋃ k, (staysBelow capital c k)ᶜ := by
    ext ω
    simp only [Set.mem_iUnion, Set.mem_compl_iff, staysBelow, Set.mem_ofPred_eq, not_forall, not_lt]
    exact ⟨fun ⟨k, hk⟩ => ⟨k, k, le_rfl, hk⟩, fun ⟨_, j, _, hj⟩ => ⟨j, hj⟩⟩
  have hMonotone : Monotone fun k => (staysBelow capital c k)ᶜ :=
    fun _ _ hLe => Set.compl_subset_compl.mpr (staysBelow_subset capital c hLe)
  rw [hEver, hMonotone.measure_iUnion, ENNReal.mul_iSup]
  exact iSup_le fun k => le_self_add.trans (h.paid_add_held c k)

end IsBet

end Flagship.Lib
