import Flagship.Lib.Number
import Mathlib.Tactic.NormNum

/-! # The range of the doubles

Which numbers a script can hold at all, the largest of the finite ones, and the signs that
rounding keeps.
-/

namespace Flagship.Lib

namespace Number

/-- A finite number is a double if rounding leaves it as it is. -/
def IsDouble : Number → Prop
  | nan | infinity _ => True
  | finite q => ofRat q = finite q

/-- `Number.MAX_VALUE` -/
def largest : ℚ := (2 ^ 53 - 1 : ℤ) * 2 ^ (971 : ℤ)

theorem topUlp_pos : (0 : ℚ) < 2 ^ (971 : ℤ) := zpow_pos (by norm_num) 971

theorem pow_top : (2 : ℚ) ^ 1024 = 2 ^ 53 * 2 ^ (971 : ℤ) := by
  rw [← zpow_natCast, ← zpow_natCast, ← zpow_add₀ two_ne_zero]
  congr 1

theorem pow_beforeTop : (2 : ℚ) ^ (1023 : ℤ) = 2 ^ 52 * 2 ^ (971 : ℤ) := by
  rw [← zpow_natCast, ← zpow_add₀ two_ne_zero]
  congr 1

theorem largest_pos : 0 < largest := mul_pos (by norm_num) topUlp_pos

theorem largest_lt : largest < 2 ^ 1024 := by
  rw [pow_top, largest]
  exact mul_lt_mul_of_pos_right (by norm_num) topUlp_pos

theorem pow_le_largest : (2 : ℚ) ^ (1023 : ℤ) ≤ largest := by
  rw [pow_beforeTop, largest]
  exact mul_le_mul_of_nonneg_right (by norm_num) topUlp_pos.le

/-- On the grid nothing is rounded. -/
theorem ofRat_of_grid {q : ℚ} {k : ℤ} (hGrid : q = k * 2 ^ ulpExponent q) (hSmall : |q| < 2 ^ 1024) :
    ofRat q = finite q := by
  have hDiv : q / 2 ^ ulpExponent q = (k : ℚ) := by
    rw [div_eq_iff (ulp_pos q).ne']
    exact hGrid
  unfold ofRat
  dsimp only
  rw [hDiv, roundHalfEven_intCast, ← hGrid, if_neg (not_le.mpr hSmall)]

theorem ulpExponent_neg (q : ℚ) : ulpExponent (-q) = ulpExponent q := by
  rw [ulpExponent, ulpExponent, abs_neg]

theorem ulpExponent_largest : ulpExponent largest = 971 := by
  have hLog : Int.log 2 |largest| = 1023 := by
    rw [abs_of_pos largest_pos]
    have hBelow : Int.log 2 largest < 1024 :=
      (Int.lt_zpow_iff_log_lt (by norm_num) largest_pos).mp (by exact_mod_cast largest_lt)
    have hAbove : 1023 ≤ Int.log 2 largest :=
      (Int.zpow_le_iff_le_log (by norm_num) largest_pos).mp (by exact_mod_cast pow_le_largest)
    omega
  rw [ulpExponent, hLog]
  rfl

theorem isDouble_largest : (finite largest).IsDouble := by
  refine ofRat_of_grid (k := 2 ^ 53 - 1) ?_ ?_
  · rw [ulpExponent_largest, largest]
  · rw [abs_of_pos largest_pos]
    exact largest_lt

theorem isDouble_neg_largest : (finite (-largest)).IsDouble := by
  refine ofRat_of_grid (k := -(2 ^ 53 - 1)) ?_ ?_
  · rw [ulpExponent_neg, ulpExponent_largest, largest, Int.cast_neg, neg_mul]
  · rw [abs_neg, abs_of_pos largest_pos]
    exact largest_lt

theorem IsDouble.eq_grid {q : ℚ} (h : (finite q).IsDouble) :
    ∃ k : ℤ, q = k * 2 ^ ulpExponent q ∧ |q| < 2 ^ 1024 := by
  change ofRat q = finite q at h
  unfold ofRat at h
  dsimp only at h
  split at h
  · cases h
  · rename_i hSmall
    have hSame := finite.inj h
    rw [hSame] at hSmall
    exact ⟨_, hSame.symm, not_le.mp hSmall⟩

theorem IsDouble.abs_le {q : ℚ} (h : (finite q).IsDouble) : |q| ≤ largest := by
  obtain ⟨k, hGrid, hSmall⟩ := h.eq_grid
  rcases eq_or_ne q 0 with rfl | hNonzero
  · rw [abs_zero]
    exact largest_pos.le
  have hPos : 0 < |q| := abs_pos.mpr hNonzero
  have hLog : Int.log 2 |q| ≤ 1023 := by
    have hLogLt : Int.log 2 |q| < 1024 :=
      (Int.lt_zpow_iff_log_lt (by norm_num) hPos).mp (by exact_mod_cast hSmall)
    omega
  rcases (by omega : Int.log 2 |q| ≤ 1022 ∨ Int.log 2 |q| = 1023) with hLow | hTop
  · have hBelow : |q| < ((2 : ℕ) : ℚ) ^ (1023 : ℤ) := (Int.lt_zpow_iff_log_lt (by norm_num) hPos).mpr (by omega)
    exact hBelow.le.trans (by exact_mod_cast pow_le_largest)
  · -- In the last binade the grid is the one of `largest`, so the bound is one on `k`.
    have hUlp : ulpExponent q = 971 := by
      rw [ulpExponent, hTop]
      rfl
    rw [hUlp] at hGrid
    have hAbs : |q| = |k| * 2 ^ (971 : ℤ) := by
      rw [hGrid, abs_mul, abs_of_pos topUlp_pos, Int.cast_abs]
    have hBound : ((|k| : ℤ) : ℚ) < 2 ^ 53 := by
      have hScaled : ((|k| : ℤ) : ℚ) * 2 ^ (971 : ℤ) < 2 ^ 53 * 2 ^ (971 : ℤ) := by
        rw [← hAbs, ← pow_top]
        exact hSmall
      exact lt_of_mul_lt_mul_right hScaled topUlp_pos.le
    have hWhole : |k| ≤ 2 ^ 53 - 1 := by
      have hLt : |k| < 2 ^ 53 := by exact_mod_cast hBound
      omega
    rw [hAbs, largest]
    exact mul_le_mul_of_nonneg_right (Int.cast_le.mpr hWhole) topUlp_pos.le

theorem IsDouble.le_largest {q : ℚ} (h : (finite q).IsDouble) : q ≤ largest := (le_abs_self q).trans h.abs_le

theorem IsDouble.neg_largest_le {q : ℚ} (h : (finite q).IsDouble) : -largest ≤ q := neg_le_of_abs_le h.abs_le

theorem eq_iff {x y : Number} : x.eq y = true ↔ x ≠ nan ∧ x = y := by
  cases x <;> cases y <;> simp [eq]

theorem lt_finite (p q : ℚ) : (finite p).lt (finite q) = decide (p < q) := rfl

theorem le_finite (p q : ℚ) : (finite p).le (finite q) = decide (p ≤ q) := by
  simp [le, lt, eq, le_iff_lt_or_eq]

theorem ne_nan_of_le {x y : Number} (h : x.le y = true) : y ≠ nan := by
  rintro rfl
  cases x <;> cases h

/-- Numbers that are there can be compared: what is not below is above or the same. -/
theorem le_of_lt_eq_false {x y : Number} (hx : x ≠ nan) (hy : y ≠ nan) (h : x.lt y = false) : y.le x = true := by
  cases x with
  | nan => exact absurd rfl hx
  | infinity negative =>
    cases y with
    | nan => exact absurd rfl hy
    | infinity negative' => cases negative <;> cases negative' <;> simp_all [lt, le, eq]
    | finite q => cases negative <;> simp_all [lt, le, eq]
  | finite p =>
    cases y with
    | nan => exact absurd rfl hy
    | infinity negative' => cases negative' <;> simp_all [lt, le, eq]
    | finite q =>
      rw [le_finite, decide_eq_true_eq]
      simpa [lt] using h

theorem ofNat_le_of_le {m n : ℕ} {x : Number} (hLe : m ≤ n) (h : (ofNat n).le x = true) : (ofNat m).le x = true := by
  cases x with
  | nan => cases h
  | infinity negative =>
    cases negative
    · rfl
    · cases h
  | finite q =>
    rw [ofNat, le_finite, decide_eq_true_eq] at h ⊢
    exact le_trans (by exact_mod_cast hLe) h

/-! ## Signs -/

theorem ofRat_zero : ofRat 0 = finite 0 := by
  simpa [ofNat] using ofRat_natCast (n := 0) (by norm_num)

theorem ofRat_nonneg {q : ℚ} (h : 0 ≤ q) : ofRat q = infinity false ∨ ∃ v, ofRat q = finite v ∧ 0 ≤ v := by
  have hZero := ofRat_lower (n := 0) (by norm_num) (by exact_mod_cast h)
  exact_mod_cast hZero

/-- What is past the last double is rounded to infinity. -/
theorem ofRat_eq_infinity {q : ℚ} {e : ℤ} (hLow : 2 ^ 1024 ≤ q) (hHigh : q < 2 ^ e) (hRange : e ≤ 1077) :
    ofRat q = infinity false := by
  have hPos : 0 < q := lt_of_lt_of_le (by positivity) hLow
  have hExp : ulpExponent q ≤ 1024 := by
    have hLog : Int.log 2 |q| < e := by
      rw [abs_of_pos hPos]
      exact (Int.lt_zpow_iff_log_lt (by norm_num) hPos).mp (by exact_mod_cast hHigh)
    unfold ulpExponent
    omega
  obtain ⟨k, hk⟩ := zpow_grid (q := q) (e := 1024) hExp
  have hLower := le_rounded hk (by exact_mod_cast hLow)
  unfold ofRat
  dsimp only
  rw [if_pos (le_trans (by exact_mod_cast hLower) (le_abs_self _)), decide_eq_false (not_lt.mpr hPos.le)]

theorem ofRat_lt_zero {q : ℚ} (h : q ≤ -1) : (ofRat q).lt (finite 0) = true := by
  have hNeg : q < 0 := lt_of_le_of_lt h (by norm_num)
  have hPos : 0 < |q| := abs_pos.mpr hNeg.ne
  have hLog : 0 ≤ Int.log 2 |q| := by
    have hOne : (1 : ℚ) ≤ |q| := by
      rw [abs_of_neg hNeg]
      linarith
    calc (0 : ℤ) = Int.log 2 (1 : ℚ) := (Int.log_one_right 2).symm
      _ ≤ Int.log 2 |q| := Int.log_mono_right one_pos hOne
  have hExp : ulpExponent q ≤ Int.log 2 |q| := by
    unfold ulpExponent
    omega
  obtain ⟨k, hk⟩ := zpow_grid hExp
  have hPow : q ≤ -2 ^ Int.log 2 |q| := by
    have hLogLe := Int.zpow_log_le_self (b := 2) (by norm_num) hPos
    rw [abs_of_neg hNeg] at hLogLe ⊢
    push_cast at hLogLe
    linarith
  have hUpper := rounded_le (q := q) (c := -2 ^ Int.log 2 |q|) (k := -k) (by rw [hk]; push_cast; ring) hPow
  have hPowPos : (0 : ℚ) < 2 ^ Int.log 2 |q| := zpow_pos (by norm_num) _
  unfold ofRat
  dsimp only
  split
  · rw [decide_eq_true hNeg]
    rfl
  · exact decide_eq_true (by linarith)

end Number

end Flagship.Lib
