import Mathlib.Data.Int.Log
import Mathlib.Data.Rat.Floor
import Mathlib.Tactic.Linarith
import Mathlib.Tactic.Positivity

/-! # Double-precision numbers over the rationals

A finite double is held as the rational it denotes, so comparison is exact and only the
results of arithmetic are rounded. The two zeros are one value here: they compare equal and
print alike, and as a divisor zero counts as positive, the zero that lengths and differences give.
-/

namespace Flagship.Lib

inductive Number where
  | nan
  | infinity (negative : Bool)
  | finite (value : ℚ)
deriving DecidableEq

namespace Number

def ulpExponent (q : ℚ) : ℤ := max (Int.log 2 |q| - 52) (-1074)

def roundHalfEven (q : ℚ) : ℤ :=
  let rest := q - ⌊q⌋
  if rest < 1 / 2 then ⌊q⌋
  else if 1 / 2 < rest then ⌊q⌋ + 1
  else if ⌊q⌋ % 2 = 0 then ⌊q⌋ else ⌊q⌋ + 1

/-- The double nearest to a rational, ties to the even mantissa. -/
def ofRat (q : ℚ) : Number :=
  let ulp : ℚ := 2 ^ ulpExponent q
  let rounded := roundHalfEven (q / ulp) * ulp
  if 2 ^ 1024 ≤ |rounded| then infinity (q < 0) else finite rounded

def add : Number → Number → Number
  | nan, _ | _, nan => nan
  | infinity s, infinity t => if s = t then infinity s else nan
  | infinity s, finite _ => infinity s
  | finite _, infinity t => infinity t
  | finite p, finite q => ofRat (p + q)

def neg : Number → Number
  | nan => nan
  | infinity s => infinity !s
  | finite q => finite (-q)

def sub (x y : Number) : Number := x.add y.neg

def div : Number → Number → Number
  | nan, _ | _, nan | infinity _, infinity _ => nan
  | infinity s, finite q => infinity (s != decide (q < 0))
  | finite _, infinity _ => finite 0
  | finite p, finite q => if q = 0 then (if p = 0 then nan else infinity (p < 0)) else ofRat (p / q)

def lt : Number → Number → Bool
  | nan, _ | _, nan => false
  | infinity s, infinity t => s && !t
  | infinity s, finite _ => s
  | finite _, infinity t => !t
  | finite p, finite q => p < q

def eq : Number → Number → Bool
  | nan, _ | _, nan => false
  | x, y => x = y

def le (x y : Number) : Bool := x.lt y || x.eq y

/-- `Math.max(x, y)` -/
def max (x y : Number) : Number :=
  if x = nan ∨ y = nan then nan else if x.lt y then y else x

def isFinite : Number → Bool
  | finite _ => true
  | _ => false

def isInteger : Number → Bool
  | finite q => q.den = 1
  | _ => false

def ofNat (n : Nat) : Number := finite n

theorem roundHalfEven_eq_or (q : ℚ) : roundHalfEven q = ⌊q⌋ ∨ roundHalfEven q = ⌊q⌋ + 1 := by
  unfold roundHalfEven
  dsimp only
  split
  · exact Or.inl rfl
  · split
    · exact Or.inr rfl
    · split
      · exact Or.inl rfl
      · exact Or.inr rfl

theorem roundHalfEven_intCast (n : ℤ) : roundHalfEven n = n := by
  simp [roundHalfEven]

theorem le_roundHalfEven {n : ℤ} {q : ℚ} (h : (n : ℚ) ≤ q) : n ≤ roundHalfEven q := by
  have hFloor : n ≤ ⌊q⌋ := Int.le_floor.mpr h
  rcases roundHalfEven_eq_or q with hRound | hRound <;> omega

theorem roundHalfEven_le {n : ℤ} {q : ℚ} (h : q ≤ n) : roundHalfEven q ≤ n := by
  rcases h.eq_or_lt with rfl | hLt
  · rw [roundHalfEven_intCast]
  · have hFloor : ⌊q⌋ < n := Int.floor_lt.mpr hLt
    rcases roundHalfEven_eq_or q with hRound | hRound <;> omega

theorem ulp_pos (q : ℚ) : (0 : ℚ) < 2 ^ ulpExponent q := zpow_pos (by norm_num) _

/-! The doubles near `q` are the multiples of a power of two, and rounding passes none of them. -/

theorem zpow_grid {q : ℚ} {e : ℤ} (h : ulpExponent q ≤ e) : ∃ k : ℤ, (2 : ℚ) ^ e = k * 2 ^ ulpExponent q := by
  obtain ⟨m, hm⟩ := Int.eq_ofNat_of_zero_le (sub_nonneg.mpr h)
  refine ⟨2 ^ m, ?_⟩
  rw [show e = (m : ℤ) + ulpExponent q by omega, zpow_add₀ (by norm_num), zpow_natCast]
  push_cast
  rfl

theorem exists_grid {q : ℚ} {n : ℕ} (hExp : ulpExponent q ≤ 0) :
    ∃ k : ℤ, (n : ℚ) = k * 2 ^ ulpExponent q := by
  obtain ⟨k, hk⟩ := zpow_grid hExp
  refine ⟨n * k, ?_⟩
  push_cast
  rw [mul_assoc, ← hk, zpow_zero, mul_one]

theorem le_rounded {q c : ℚ} {k : ℤ} (hGrid : c = k * 2 ^ ulpExponent q) (h : c ≤ q) :
    c ≤ roundHalfEven (q / 2 ^ ulpExponent q) * 2 ^ ulpExponent q := by
  have hRound : k ≤ roundHalfEven (q / 2 ^ ulpExponent q) := by
    apply le_roundHalfEven
    rw [le_div_iff₀ (ulp_pos q), ← hGrid]
    exact h
  rw [hGrid]
  exact mul_le_mul_of_nonneg_right (by exact_mod_cast hRound) (ulp_pos q).le

theorem rounded_le {q c : ℚ} {k : ℤ} (hGrid : c = k * 2 ^ ulpExponent q) (h : q ≤ c) :
    roundHalfEven (q / 2 ^ ulpExponent q) * 2 ^ ulpExponent q ≤ c := by
  have hRound : roundHalfEven (q / 2 ^ ulpExponent q) ≤ k := by
    apply roundHalfEven_le
    rw [div_le_iff₀ (ulp_pos q), ← hGrid]
    exact h
  rw [hGrid]
  exact mul_le_mul_of_nonneg_right (by exact_mod_cast hRound) (ulp_pos q).le

theorem ulpExponent_natCast {n : ℕ} (h : n < 2 ^ 53) : ulpExponent (n : ℚ) ≤ 0 := by
  have hLog : Nat.log 2 n < 53 := Nat.log_lt_of_lt_pow' (by norm_num) h
  unfold ulpExponent
  rw [Nat.abs_cast, Int.log_natCast]
  omega

theorem ofRat_natCast {n : ℕ} (h : n < 2 ^ 53) : ofRat n = ofNat n := by
  obtain ⟨k, hk⟩ := exists_grid (q := n) (n := n) (ulpExponent_natCast h)
  have hDiv : (n : ℚ) / 2 ^ ulpExponent (n : ℚ) = (k : ℚ) := by
    rw [div_eq_iff (ulp_pos _).ne']
    exact hk
  have hBound : (n : ℚ) < 2 ^ 1024 := by
    calc (n : ℚ) < 2 ^ 53 := by exact_mod_cast h
      _ ≤ 2 ^ 1024 := pow_le_pow_right₀ (by norm_num) (by norm_num)
  unfold ofRat ofNat
  dsimp only
  rw [hDiv, roundHalfEven_intCast, ← hk, Nat.abs_cast, if_neg (not_le.mpr hBound)]

theorem ofRat_lower {n : ℕ} {q : ℚ} (h : n < 2 ^ 53) (hq : (n : ℚ) ≤ q) :
    ofRat q = infinity false ∨ ∃ v, ofRat q = finite v ∧ (n : ℚ) ≤ v := by
  have hNonneg : ¬ q < 0 := not_lt.mpr (le_trans (Nat.cast_nonneg n) hq)
  have hLower : (n : ℚ) ≤ roundHalfEven (q / 2 ^ ulpExponent q) * 2 ^ ulpExponent q := by
    rcases le_or_gt (ulpExponent q) 0 with hExp | hExp
    · obtain ⟨k, hk⟩ := exists_grid (n := n) hExp
      exact le_rounded hk hq
    · -- Past `2 ^ 53` the power of two below `q` is itself on the grid.
      have hLog : Int.log 2 |q| = ulpExponent q + 52 := by
        unfold ulpExponent at hExp ⊢
        omega
      have hPos : 0 < |q| := by
        rw [abs_pos]
        rintro rfl
        simp [ulpExponent] at hExp
      have hPow : (2 : ℚ) ^ (ulpExponent q + 52) ≤ q := by
        have hLogLe := Int.zpow_log_le_self (b := 2) (by norm_num) hPos
        rw [hLog, abs_of_nonneg (not_lt.mp hNonneg)] at hLogLe
        exact_mod_cast hLogLe
      obtain ⟨k, hk⟩ := zpow_grid (q := q) (e := ulpExponent q + 52) (by omega)
      calc (n : ℚ) ≤ 2 ^ (53 : ℤ) := by exact_mod_cast h.le
        _ ≤ 2 ^ (ulpExponent q + 52) := zpow_le_zpow_right₀ (by norm_num) (by omega)
        _ ≤ roundHalfEven (q / 2 ^ ulpExponent q) * 2 ^ ulpExponent q := le_rounded hk hPow
  unfold ofRat
  dsimp only
  split
  · exact Or.inl (by simp [hNonneg])
  · exact Or.inr ⟨_, rfl, hLower⟩

theorem ulpExponent_le {q : ℚ} {e : ℤ} (hPos : 0 < q) (hq : q ≤ 2 ^ e) (hLow : -1074 ≤ e) : ulpExponent q ≤ e := by
  have hLog : Int.log 2 |q| ≤ e := by
    rw [abs_of_pos hPos]
    calc Int.log 2 q ≤ Int.log 2 (((2 : ℕ) : ℚ) ^ e) := Int.log_mono_right hPos (by exact_mod_cast hq)
      _ = e := Int.log_zpow (by norm_num) e
  unfold ulpExponent
  omega

/-- Rounding does not pass a power of two, which is a double itself. -/
theorem ofRat_le_zpow {q : ℚ} {e : ℤ} (hNonneg : 0 ≤ q) (hq : q ≤ 2 ^ e) (hLow : -1074 ≤ e) (hHigh : e < 1024) :
    (ofRat q).le (finite (2 ^ e)) = true := by
  obtain ⟨v, hValue, hBound⟩ : ∃ v, ofRat q = finite v ∧ v ≤ 2 ^ e := by
    rcases hNonneg.eq_or_lt with rfl | hPos
    · exact ⟨0, by simpa [ofNat] using ofRat_natCast (n := 0) (by norm_num), by positivity⟩
    · obtain ⟨k, hk⟩ := zpow_grid (ulpExponent_le hPos hq hLow)
      have hUpper := rounded_le hk hq
      have hLower : 0 ≤ roundHalfEven (q / 2 ^ ulpExponent q) * (2 : ℚ) ^ ulpExponent q :=
        le_rounded (k := 0) (by simp) hNonneg
      have hFinite : (2 : ℚ) ^ e < 2 ^ 1024 := by
        rw [← zpow_natCast]
        exact zpow_lt_zpow_right₀ (by norm_num) hHigh
      refine ⟨_, ?_, hUpper⟩
      unfold ofRat
      dsimp only
      rw [abs_of_nonneg hLower, if_neg (not_le.mpr (hUpper.trans_lt hFinite))]
  rw [hValue]
  rcases hBound.eq_or_lt with hSame | hLt
  · simp [le, eq, hSame]
  · simp [le, lt, hLt]

theorem add_ofNat {m n : ℕ} (h : m + n < 2 ^ 53) : (ofNat m).add (ofNat n) = ofNat (m + n) := by
  have hCast : (m : ℚ) + n = ((m + n : ℕ) : ℚ) := by push_cast; rfl
  change ofRat (m + n) = _
  rw [hCast, ofRat_natCast h]

theorem isInteger_nonneg {x : Number} (h : x.isInteger = true) (hNonneg : x.lt (ofNat 0) = false) :
    ∃ n : ℕ, x = ofNat n := by
  cases x with
  | nan => cases h
  | infinity s => cases h
  | finite q =>
    have hDen : q.den = 1 := by simpa [isInteger] using h
    have hq : (0 : ℚ) ≤ q := by simpa [lt, ofNat] using hNonneg
    obtain ⟨k, rfl⟩ : ∃ k : ℤ, q = k := ⟨q.num, (Rat.coe_int_num_of_den_eq_one hDen).symm⟩
    obtain ⟨n, rfl⟩ := Int.eq_ofNat_of_zero_le (by exact_mod_cast hq : 0 ≤ k)
    exact ⟨n, by simp [ofNat]⟩

theorem add_ofNat_lower {n : ℕ} (hn : n < 2 ^ 53) {x : Number} (w : ℕ)
    (hx : x = infinity false ∨ ∃ v, x = finite v ∧ (n : ℚ) ≤ v) :
    x.add (ofNat w) = infinity false ∨ ∃ v, x.add (ofNat w) = finite v ∧ (n : ℚ) ≤ v := by
  rcases hx with rfl | ⟨v, rfl, hv⟩
  · exact Or.inl rfl
  · exact ofRat_lower hn (le_trans hv (by simp))

theorem lt_ofNat {m n : ℕ} : (ofNat m).lt (ofNat n) = decide (m < n) := by
  simp [lt, ofNat]

theorem le_ofNat {m n : ℕ} : (ofNat m).le (ofNat n) = decide (m ≤ n) := by
  simp [le, lt, eq, ofNat, le_iff_lt_or_eq]

/-! ## Printing -/

/-- The decimal digits `s` with `10 ^ (k - 1) ≤ s < 10 ^ k` whose value `s * 10 ^ (n - k)`
rounds to `q`, the nearer of the two candidates first. -/
def digitsAt (q : ℚ) (n : ℤ) (k : ℕ) : Option ℕ :=
  let unit : ℚ := 10 ^ (n - k)
  let low := ⌊q / unit⌋.toNat
  let near := if q - low * unit ≤ (low + 1) * unit - q then [low, low + 1] else [low + 1, low]
  near.find? fun s => 10 ^ (k - 1) ≤ s && s ≤ 10 ^ k && ofRat (s * unit) = finite q

def shortest (q : ℚ) : ℤ × ℕ × ℕ :=
  let n := Int.log 10 q + 1
  match (List.range 17).findSome? fun i => (digitsAt q n (i + 1)).map fun s => (s, i + 1) with
  | some (s, k) => if s = 10 ^ k then (n + 1, 1, 1) else (n, s, k)
  | none => (n, ⌊q / 10 ^ (n - 17)⌋.toNat, 17)

def positiveToText (q : ℚ) : String :=
  let (n, s, k) := shortest q
  let digits := Nat.repr s
  let zeros (count : ℤ) := String.ofList (List.replicate count.toNat '0')
  if k ≤ n ∧ n ≤ 21 then digits ++ zeros (n - k)
  else if 0 < n ∧ n ≤ 21 then
    String.ofList (digits.toList.take n.toNat) ++ "." ++ String.ofList (digits.toList.drop n.toNat)
  else if -6 < n ∧ n ≤ 0 then "0." ++ zeros (-n) ++ digits
  else
    let exponent := (if 0 < n then "e+" else "e-") ++ Nat.repr (n - 1).natAbs
    if k = 1 then digits ++ exponent
    else String.ofList (digits.toList.take 1) ++ "." ++ String.ofList (digits.toList.drop 1) ++ exponent

def toText : Number → String
  | nan => "NaN"
  | infinity false => "Infinity"
  | infinity true => "-Infinity"
  | finite q =>
    if q = 0 then "0" else if q < 0 then "-" ++ positiveToText (-q) else positiveToText q

end Number

end Flagship.Lib
