import Flagship.Lib.Doubles

/-! # Whole numbers as doubles

A whole number that a double holds prints as its decimal digits. One that no double holds is
rounded to another whole number, or out of range, and rounding leaves the order of any two as it
is or makes them the same.
-/

namespace Flagship.Lib

theorem toDigits_mul_ten {s : ℕ} (hPos : 0 < s) (zeros : ℕ) :
    Nat.toDigits 10 (s * 10 ^ zeros) = Nat.toDigits 10 s ++ List.replicate zeros '0' := by
  induction zeros with
  | zero => rw [pow_zero, mul_one, List.replicate_zero, List.append_nil]
  | succ zeros ih =>
    have hScaled : 0 < s * 10 ^ zeros := by positivity
    calc Nat.toDigits 10 (s * 10 ^ (zeros + 1))
        = Nat.toDigits 10 (10 * (s * 10 ^ zeros) + 0) := by congr 1; ring
      _ = Nat.toDigits 10 (s * 10 ^ zeros) ++ Nat.toDigits 10 0 :=
          (Nat.toDigits_append_toDigits (by decide) hScaled (by decide)).symm
      _ = Nat.toDigits 10 s ++ List.replicate (zeros + 1) '0' := by
          rw [ih, Nat.toDigits_zero, List.append_assoc, ← List.replicate_succ']

theorem repr_mul_ten {s : ℕ} (hPos : 0 < s) (zeros : ℕ) :
    (s * 10 ^ zeros).repr = s.repr ++ String.ofList (List.replicate zeros '0') := by
  apply String.toList_inj.mp
  rw [String.toList_append, String.toList_ofList, Nat.toList_repr, Nat.toList_repr, toDigits_mul_ten hPos]

namespace Number

/-! ## Printing

Digits that stand for the number to the last one are found at the latest when all its digits are
tried, and digits found before that are the same without the zeros at the end.
-/

variable {n : ℕ}

/-- Some digits of the number and as many zeros as there are places left. -/
theorem mul_pow_of_digitsAt (hPos : 0 < n) (hSmall : 10 * n < 2 ^ 53) {zeros s : ℕ} (hZeros : zeros ≤ Nat.log 10 n)
    (h : digitsAt n (Nat.log 10 n + 1) (Nat.log 10 n + 1 - zeros) = some s) : s * 10 ^ zeros = n := by
  have hUnit : (10 : ℚ) ^ ((Nat.log 10 n : ℤ) + 1 - ((Nat.log 10 n + 1 - zeros : ℕ) : ℤ)) = 10 ^ zeros := by
    rw [← zpow_natCast]
    congr 1
    omega
  unfold digitsAt at h
  dsimp only at h
  rw [hUnit] at h
  have hFound := List.find?_some h
  simp only [Bool.and_eq_true, decide_eq_true_eq] at hFound
  obtain ⟨⟨_, hUpper⟩, hRounds⟩ := hFound
  have hBound : s * 10 ^ zeros < 2 ^ 53 := by
    calc s * 10 ^ zeros ≤ 10 ^ (Nat.log 10 n + 1 - zeros) * 10 ^ zeros := Nat.mul_le_mul_right _ hUpper
      _ = 10 ^ Nat.log 10 n * 10 := by rw [← pow_add, ← pow_succ]; congr 1; omega
      _ ≤ n * 10 := Nat.mul_le_mul_right _ (Nat.pow_log_le_self 10 hPos.ne')
      _ < 2 ^ 53 := by omega
  have hCast : (s : ℚ) * 10 ^ zeros = ((s * 10 ^ zeros : ℕ) : ℚ) := by push_cast; rfl
  rw [hCast, ofRat_natCast hBound] at hRounds
  exact_mod_cast finite.inj hRounds

theorem digitsAt_all (hPos : 0 < n) (hSmall : 10 * n < 2 ^ 53) :
    digitsAt n (Nat.log 10 n + 1) (Nat.log 10 n + 1) = some n := by
  have hUnit : (10 : ℚ) ^ ((Nat.log 10 n : ℤ) + 1 - ((Nat.log 10 n + 1 : ℕ) : ℤ)) = 1 := by
    rw [Nat.cast_succ, sub_self, zpow_zero]
  have hRounds : ofRat (n : ℚ) = finite n := ofRat_natCast (by omega)
  have hLower : 10 ^ Nat.log 10 n ≤ n := Nat.pow_log_le_self 10 hPos.ne'
  have hUpper : n < 10 ^ (Nat.log 10 n + 1) := Nat.lt_pow_succ_log_self (by norm_num) n
  unfold digitsAt
  dsimp only
  rw [hUnit]
  simp [hRounds, hLower, hUpper.le]

theorem shortest_natCast (hPos : 0 < n) (hSmall : 10 * n < 2 ^ 53) : ∃ s zeros, zeros ≤ Nat.log 10 n ∧
    s * 10 ^ zeros = n ∧ shortest n = ((Nat.log 10 n : ℤ) + 1, s, Nat.log 10 n + 1 - zeros) := by
  have hPlaces : Nat.log 10 n < 17 := by
    apply Nat.log_lt_of_lt_pow hPos.ne'
    omega
  have hUpper : n < 10 ^ (Nat.log 10 n + 1) := Nat.lt_pow_succ_log_self (by norm_num) n
  obtain ⟨⟨s, k⟩, hFirst⟩ : ∃ found, (List.range (Nat.log 10 n + 1)).findSome? (fun i =>
      (digitsAt n ((Nat.log 10 n : ℤ) + 1) (i + 1)).map fun s => (s, i + 1)) = some found := by
    rw [← Option.isSome_iff_exists, List.findSome?_isSome_iff]
    exact ⟨Nat.log 10 n, List.mem_range.mpr (Nat.lt_succ_self _), by rw [digitsAt_all hPos hSmall]; rfl⟩
  obtain ⟨i, hMem, hFound⟩ := List.exists_of_findSome?_eq_some hFirst
  obtain ⟨digits, hDigits, hSame⟩ := Option.map_eq_some_iff.mp hFound
  obtain ⟨rfl, rfl⟩ := Prod.mk.inj hSame
  have hIndex : i ≤ Nat.log 10 n := Nat.lt_succ_iff.mp (List.mem_range.mp hMem)
  have hZeros : i + 1 = Nat.log 10 n + 1 - (Nat.log 10 n - i) := by omega
  have hValue : digits * 10 ^ (Nat.log 10 n - i) = n := by
    rw [hZeros] at hDigits
    exact mul_pow_of_digitsAt hPos hSmall (Nat.sub_le _ _) hDigits
  -- A one with zeros would be the number whose places are one more.
  have hNoCarry : digits ≠ 10 ^ (i + 1) := by
    rintro rfl
    have hPlace : i + 1 + (Nat.log 10 n - i) = Nat.log 10 n + 1 := by omega
    rw [← pow_add, hPlace] at hValue
    omega
  refine ⟨digits, Nat.log 10 n - i, Nat.sub_le _ _, hValue, ?_⟩
  have hAll : (List.range 17).findSome? (fun i =>
      (digitsAt n ((Nat.log 10 n : ℤ) + 1) (i + 1)).map fun s => (s, i + 1)) = some (digits, i + 1) := by
    obtain ⟨more, hMore⟩ := Nat.exists_eq_add_of_le (Nat.succ_le_of_lt hPlaces)
    rw [hMore, List.range_add, List.findSome?_append, hFirst, Option.some_or]
  have hLog : Int.log 10 (n : ℚ) = Nat.log 10 n := Int.log_natCast 10 n
  unfold shortest
  rw [hLog]
  simp only [hAll, if_neg hNoCarry]
  rw [hZeros]

theorem toText_ofNat (hSmall : 10 * n < 2 ^ 53) : (ofNat n).toText = n.repr := by
  obtain rfl | hPos := Nat.eq_zero_or_pos n
  · rfl
  have hPlaces : Nat.log 10 n < 17 := by
    apply Nat.log_lt_of_lt_pow hPos.ne'
    omega
  obtain ⟨s, zeros, hZeros, hValue, hShortest⟩ := shortest_natCast hPos hSmall
  have hDigits : 0 < s := by
    apply Nat.pos_of_ne_zero
    rintro rfl
    omega
  have hCast : (0 : ℚ) < n := by exact_mod_cast hPos
  have hPlain : ((Nat.log 10 n + 1 - zeros : ℕ) : ℤ) ≤ (Nat.log 10 n : ℤ) + 1 ∧ (Nat.log 10 n : ℤ) + 1 ≤ 21 := by
    omega
  have hPadding : ((Nat.log 10 n : ℤ) + 1 - ((Nat.log 10 n + 1 - zeros : ℕ) : ℤ)).toNat = zeros := by omega
  rw [ofNat, toText, if_neg hCast.ne', if_neg hCast.le.not_gt, positiveToText, hShortest]
  simp only [if_pos hPlain, hPadding]
  rw [← repr_mul_ten hDigits, hValue]

/-! ## Order -/

theorem roundHalfEven_mono {q r : ℚ} (h : q ≤ r) : roundHalfEven q ≤ roundHalfEven r := by
  obtain hFloor | hFloor := (Int.floor_le_floor h).lt_or_eq
  · obtain hLow | hLow := roundHalfEven_eq_or q <;> obtain hHigh | hHigh := roundHalfEven_eq_or r <;> omega
  · have hRest : q - ⌊q⌋ ≤ r - ⌊r⌋ := by
      rw [hFloor]
      linarith
    unfold roundHalfEven
    dsimp only
    rw [hFloor] at hRest ⊢
    split
    · split
      · exact le_rfl
      · split
        · omega
        · split <;> omega
    · rename_i hHalf
      have hAlso : ¬ r - ⌊r⌋ < 1 / 2 := by linarith
      rw [if_neg hAlso]
      split
      · rename_i hAbove
        rw [if_pos (lt_of_lt_of_le hAbove hRest)]
      · by_cases hAbove : 1 / 2 < r - ⌊r⌋
        · rw [if_pos hAbove]
          split <;> omega
        · rw [if_neg hAbove]

/-- On a wider grid there is a power of two between the two numbers. -/
theorem rounded_mono {q r : ℚ} (hPos : 0 < q) (h : q ≤ r) :
    roundHalfEven (q / 2 ^ ulpExponent q) * (2 : ℚ) ^ ulpExponent q ≤
      roundHalfEven (r / 2 ^ ulpExponent r) * 2 ^ ulpExponent r := by
  have hAbove : 0 < r := lt_of_lt_of_le hPos h
  have hLog : Int.log 2 |q| ≤ Int.log 2 |r| := by
    rw [abs_of_pos hPos, abs_of_pos hAbove]
    exact Int.log_mono_right hPos h
  have hExp : ulpExponent q ≤ ulpExponent r := by
    unfold ulpExponent
    omega
  obtain hWider | hSame := hExp.lt_or_eq
  · have hPower : Int.log 2 |r| = ulpExponent r + 52 := by
      unfold ulpExponent at hWider ⊢
      omega
    have hBelow : Int.log 2 |q| + 1 ≤ ulpExponent r + 52 := by
      unfold ulpExponent at hWider ⊢
      omega
    have hUpper : q ≤ 2 ^ (ulpExponent r + 52) := by
      calc q ≤ (2 : ℕ) ^ (Int.log 2 |q| + 1) := by
            rw [abs_of_pos hPos]
            exact (Int.lt_zpow_succ_log_self (by norm_num) q).le
        _ ≤ 2 ^ (ulpExponent r + 52) := zpow_le_zpow_right₀ (by norm_num) hBelow
    have hLower : (2 : ℚ) ^ (ulpExponent r + 52) ≤ r := by
      have hLogLe := Int.zpow_log_le_self (b := 2) (by norm_num) (abs_pos.mpr hAbove.ne')
      rw [hPower, abs_of_pos hAbove] at hLogLe
      exact_mod_cast hLogLe
    obtain ⟨k, hGrid⟩ := zpow_grid (q := q) (e := ulpExponent r + 52) (by omega)
    obtain ⟨l, hGrid'⟩ := zpow_grid (q := r) (e := ulpExponent r + 52) (by omega)
    exact (rounded_le hGrid hUpper).trans (le_rounded hGrid' hLower)
  · rw [hSame]
    apply mul_le_mul_of_nonneg_right _ (ulp_pos r).le
    apply Int.cast_le.mpr
    apply roundHalfEven_mono
    exact div_le_div_of_nonneg_right h (ulp_pos r).le

theorem ofRat_natCast_mono {m n : ℕ} (h : m ≤ n) : (ofRat m).le (ofRat n) = true := by
  obtain rfl | hPos := Nat.eq_zero_or_pos m
  · rw [Nat.cast_zero, ofRat_zero]
    obtain hInfinity | ⟨v, hFinite, hNonneg⟩ := ofRat_nonneg (q := n) (Nat.cast_nonneg n)
    · rw [hInfinity]
      rfl
    · rw [hFinite, le_finite]
      exact decide_eq_true hNonneg
  · have hRounded := rounded_mono (q := m) (r := n) (by exact_mod_cast hPos) (by exact_mod_cast h)
    have hLow : (0 : ℚ) ≤ roundHalfEven ((m : ℚ) / 2 ^ ulpExponent (m : ℚ)) * 2 ^ ulpExponent (m : ℚ) :=
      le_rounded (k := 0) (by simp) (Nat.cast_nonneg m)
    have hNotNeg : ∀ k : ℕ, decide ((k : ℚ) < 0) = false := fun k => decide_eq_false (not_lt.mpr (Nat.cast_nonneg k))
    unfold ofRat
    dsimp only
    rw [abs_of_nonneg hLow, abs_of_nonneg (hLow.trans hRounded), hNotNeg, hNotNeg]
    split
    · rename_i hHuge
      rw [if_pos (hHuge.trans hRounded)]
      rfl
    · split
      · rfl
      · rw [le_finite]
        exact decide_eq_true hRounded

theorem ofRat_natCast_whole (n : ℕ) : ofRat n = infinity false ∨ ∃ k : ℕ, ofRat n = ofNat k := by
  obtain hSmall | hLarge := lt_or_ge n (2 ^ 53)
  · exact Or.inr ⟨n, ofRat_natCast hSmall⟩
  · have hExp : 0 ≤ ulpExponent (n : ℚ) := by
      have hLog : 53 ≤ Nat.log 2 n := Nat.le_log_of_pow_le (by norm_num) hLarge
      unfold ulpExponent
      rw [Nat.abs_cast, Int.log_natCast]
      omega
    obtain ⟨e, hPower⟩ := Int.eq_ofNat_of_zero_le hExp
    have hMantissa : 0 ≤ roundHalfEven ((n : ℚ) / 2 ^ ulpExponent (n : ℚ)) := by
      apply le_roundHalfEven
      rw [Int.cast_zero]
      exact div_nonneg (Nat.cast_nonneg n) (ulp_pos _).le
    obtain ⟨k, hCount⟩ := Int.eq_ofNat_of_zero_le hMantissa
    unfold ofRat
    dsimp only
    rw [hCount, hPower]
    split
    · exact Or.inl (congrArg infinity (decide_eq_false (not_lt.mpr (Nat.cast_nonneg n))))
    · right
      refine ⟨k * 2 ^ e, ?_⟩
      rw [ofNat]
      push_cast
      rw [zpow_natCast]

theorem lt_asymm {x y : Number} (h : x.lt y = true) : y.lt x = false := by
  cases x with
  | nan => cases h
  | infinity negative =>
    cases y with
    | nan => cases h
    | infinity negative' => cases negative <;> cases negative' <;> simp_all [lt]
    | finite q => cases negative <;> simp_all [lt]
  | finite p =>
    cases y with
    | nan => cases h
    | infinity negative' => cases negative' <;> simp_all [lt]
    | finite q =>
      rw [lt_finite, decide_eq_true_iff] at h
      exact decide_eq_false (not_lt.mpr h.le)

theorem sub_lt_zero {m n : ℕ} (hLt : m < n) (hDiffer : ofRat m ≠ ofRat n) :
    ((ofRat m).sub (ofRat n)).lt (finite 0) = true := by
  have hMono := ofRat_natCast_mono hLt.le
  obtain hM | ⟨j, hM⟩ := ofRat_natCast_whole m <;> obtain hN | ⟨k, hN⟩ := ofRat_natCast_whole n
  · exact absurd (hM.trans hN.symm) hDiffer
  · rw [hM, hN] at hMono
    cases hMono
  · rw [hM, hN]
    rfl
  · rw [hM, hN] at hMono hDiffer
    rw [le_ofNat, decide_eq_true_iff] at hMono
    have hBelow : j + 1 ≤ k := Nat.lt_of_le_of_ne hMono fun hSame => hDiffer (congrArg ofNat hSame)
    have hCast : (j : ℚ) + 1 ≤ k := by exact_mod_cast hBelow
    rw [hM, hN]
    exact ofRat_lt_zero (by linarith)

theorem zero_lt_sub {m n : ℕ} (hLt : n < m) (hDiffer : ofRat m ≠ ofRat n) :
    (finite 0).lt ((ofRat m).sub (ofRat n)) = true := by
  have hMono := ofRat_natCast_mono hLt.le
  obtain hM | ⟨j, hM⟩ := ofRat_natCast_whole m <;> obtain hN | ⟨k, hN⟩ := ofRat_natCast_whole n
  · exact absurd (hM.trans hN.symm) hDiffer
  · rw [hM, hN]
    rfl
  · rw [hM, hN] at hMono
    cases hMono
  · rw [hM, hN] at hMono hDiffer
    rw [le_ofNat, decide_eq_true_iff] at hMono
    have hBelow : k + 1 ≤ j := Nat.lt_of_le_of_ne hMono fun hSame => hDiffer (congrArg ofNat hSame.symm)
    have hCast : (k : ℚ) + 1 ≤ j := by exact_mod_cast hBelow
    rw [hM, hN]
    obtain hInfinity | ⟨v, hFinite, hOne⟩ := ofRat_lower (n := 1) (q := j + -k) (by norm_num) (by push_cast; linarith)
    · change (finite 0).lt (ofRat (j + -k)) = true
      rw [hInfinity]
      rfl
    · change (finite 0).lt (ofRat (j + -k)) = true
      rw [hFinite]
      exact decide_eq_true (lt_of_lt_of_le (by norm_num) hOne)

end Number

end Flagship.Lib
