import Flagship.Lib.Tails
import Mathlib.Analysis.SpecialFunctions.Trigonometric.Basic
import Mathlib.Analysis.SpecialFunctions.Log.Basic
import Mathlib.Analysis.Calculus.Deriv.MeanValue
import Mathlib.Analysis.Calculus.Deriv.Pow
import Mathlib.Data.EReal.Operations

/-! # Distribution functions

`packages/core/src/stats/distributions.ts` over exact reals. The approximations are the source's
own. Of the normal one it is shown that its two tails shrink as the statistic grows, so that every
level has one critical statistic.
-/

namespace Flagship.Stats

open Lib

/-- Under this name in every numeral `2` over the reals. -/
instance atLeastTwo : Nat.AtLeastTwo 2 := ⟨le_rfl⟩

noncomputable section

def LANCZOS : List ℝ :=
  [0.99999999999980993, 676.5203681218851, -1259.1392167224028, 771.32342877765313, -176.61502916214059,
    12.507343278686905, -0.13857109526572012, 9.9843695780195716e-6, 1.5056327351493116e-7]

/-- The loop of `logGamma`: each coefficient over its distance from `z`. -/
def lanczosSum (z : ℝ) : ℝ :=
  (LANCZOS.zipIdx.drop 1).foldl (fun a term => a + term.1 / (z + term.2)) (LANCZOS.headD 0)

/-- The reflection formula leads to an argument on the right of one half. -/
def logGamma (x : ℝ) : ℝ :=
  if x < 0.5 then Real.log (Real.pi / Real.sin (Real.pi * x)) - logGamma (1 - x)
  else
    let z := x - 1
    let t := z + 7.5
    0.5 * Real.log (2 * Real.pi) + (z + 0.5) * Real.log t - t + Real.log (lanczosSum z)
termination_by if x < 0.5 then 1 else 0
decreasing_by
  rename_i hLeft
  have hRight : ¬ (1 - x : ℝ) < 0.5 := by
    norm_num at hLeft ⊢
    linarith
  rw [if_pos hLeft, if_neg hRight]
  exact Nat.zero_lt_one

/-! ## The incomplete beta function -/

def TINY : ℝ := 1e-300

def awayFromZero (x : ℝ) : ℝ := if |x| < TINY then TINY else x

structure Fraction where
  c : ℝ
  d : ℝ
  result : ℝ

/-- One step of the continued fraction, with the factor it multiplies the result by. -/
def Fraction.advance (fraction : Fraction) (numerator : ℝ) : Fraction × ℝ :=
  let d := 1 / awayFromZero (1 + numerator * fraction.d)
  let c := awayFromZero (1 + numerator / fraction.c)
  ({ c, d, result := fraction.result * (d * c) }, d * c)

/-- The loop of `betaContinuedFraction` from iteration `m` on. -/
def fractionFrom (x a b : ℝ) (m : ℕ) (fraction : Fraction) : ℕ → ℝ
  | 0 => fraction.result
  | remaining + 1 =>
    let (even, _) := fraction.advance (m * (b - m) * x / ((a - 1 + 2 * m) * (a + 2 * m)))
    let (odd, delta) := even.advance (-(a + m) * (a + b + m) * x / ((a + 2 * m) * (a + 1 + 2 * m)))
    if |delta - 1| < 3e-14 then odd.result else fractionFrom x a b (m + 1) odd remaining

def MAX_ITERATIONS : ℕ := 200

def betaContinuedFraction (x a b : ℝ) : ℝ :=
  let d := 1 / awayFromZero (1 - (a + b) * x / (a + 1))
  fractionFrom x a b 1 { c := 1, d, result := d } MAX_ITERATIONS

def incompleteBeta (x a b : ℝ) : ℝ :=
  if x ≤ 0 then 0
  else if 1 ≤ x then 1
  else
    let front := Real.exp (logGamma (a + b) - logGamma a - logGamma b + a * Real.log x + b * Real.log (1 - x))
    if x < (a + 1) / (a + b + 2) then front * betaContinuedFraction x a b / a
    else 1 - front * betaContinuedFraction (1 - x) b a / b

def studentTTwoSidedPValue (t df : ℝ) : ℝ :=
  if df ≤ 0 then 1 else incompleteBeta (df / (df + t * t)) (df / 2) 0.5

/-! ## The normal distribution -/

def erfPolynomial (t : ℝ) : ℝ :=
  ((((1.061405429 * t - 1.453152027) * t + 1.421413741) * t - 0.284496736) * t + 0.254829592) * t

def erf (x : ℝ) : ℝ :=
  let sign := if x < 0 then -1 else 1
  let t := 1 / (1 + 0.3275911 * |x|)
  sign * (1 - erfPolynomial t * Real.exp (-|x| * |x|))

def normalCdf (z : ℝ) : ℝ := 0.5 * (1 + erf (z / √2))

def tailQuantile (q : ℝ) : ℝ :=
  (((((-7.784894002430293e-3 * q + -3.223964580411365e-1) * q + -2.400758277161838) * q + -2.549732539343734) * q +
      4.374664141464968) * q + 2.938163982698783) /
    ((((7.784695709041462e-3 * q + 3.224671290700398e-1) * q + 2.445134137142996) * q + 3.754408661907416) * q + 1)

def centralQuantile (q : ℝ) : ℝ :=
  let r := q * q
  ((((((-3.969683028665376e1 * r + 2.209460984245205e2) * r + -2.759285104469687e2) * r + 1.38357751867269e2) * r +
      -3.066479806614716e1) * r + 2.506628277459239) * q) /
    (((((-5.447609879822406e1 * r + 1.615858368580409e2) * r + -1.556989798598866e2) * r + 6.680131188771972e1) * r +
      -1.328068155288572e1) * r + 1)

/-- The quantile of a probability between zero and one. -/
def innerQuantile (p : ℝ) : ℝ :=
  let pLow := 0.02425
  let pHigh := 1 - pLow
  if p < pLow then tailQuantile √(-2 * Real.log p)
  else if pHigh < p then -tailQuantile √(-2 * Real.log (1 - p))
  else centralQuantile (p - 0.5)

def normalQuantile (p : ℝ) : EReal := if p ≤ 0 then ⊥ else if 1 ≤ p then ⊤ else innerQuantile p

/-- The two-sided p-value of a normal statistic. -/
def normalTwoSidedPValue (z : ℝ) : ℝ := 2 * (1 - normalCdf |z|)

theorem normalQuantile_inner {p : ℝ} (hLow : 0 < p) (hHigh : p < 1) : normalQuantile p = innerQuantile p := by
  rw [normalQuantile, if_neg (not_le.mpr hLow), if_neg (not_le.mpr hHigh)]

/-! ## Tails of the normal distribution -/

/-- The argument of the polynomial, for a statistic `z`. -/
def tailArgument (z : ℝ) : ℝ := 1 / (1 + 0.3275911 * (|z| / √2))

theorem normalTwoSidedPValue_eq (z : ℝ) :
    normalTwoSidedPValue z = erfPolynomial (tailArgument z) * Real.exp (-(z ^ 2 / 2)) := by
  have hNonneg : 0 ≤ |z| / √2 := div_nonneg (abs_nonneg z) (Real.sqrt_nonneg 2)
  have hExponent : -|(|z| / √2)| * |(|z| / √2)| = -(z ^ 2 / 2) := by
    rw [abs_of_nonneg hNonneg, neg_mul, div_mul_div_comm, abs_mul_abs_self, Real.mul_self_sqrt zero_le_two, pow_two]
  rw [normalTwoSidedPValue, normalCdf, erf, tailArgument, hExponent, abs_of_nonneg hNonneg,
    if_neg (not_lt.mpr hNonneg)]
  ring

theorem erfPolynomial_strictMonoOn : StrictMonoOn erfPolynomial (Set.Icc 0 1) := by
  have hDerivative (t : ℝ) : HasDerivAt erfPolynomial
      (0.254829592 - 0.568993472 * t + 4.264241223 * t ^ 2 - 5.812608108 * t ^ 3 + 5.307027145 * t ^ 4) t := by
    have hPower (n : ℕ) (c : ℝ) : HasDerivAt (fun s : ℝ => c * s ^ n) (c * (n * t ^ (n - 1))) t :=
      (hasDerivAt_pow n t).const_mul c
    have hSum := ((((hPower 1 0.254829592).add (hPower 2 (-0.284496736))).add (hPower 3 1.421413741)).add
      (hPower 4 (-1.453152027))).add (hPower 5 1.061405429)
    apply (hSum.congr_deriv _).congr_of_eventuallyEq
    · apply Filter.Eventually.of_forall
      intro s
      simp only [erfPolynomial, Pi.add_apply]
      ring
    · norm_num
      ring
  apply strictMonoOn_of_deriv_pos (convex_Icc 0 1)
  · exact fun t _ => (hDerivative t).continuousAt.continuousWithinAt
  · intro t _
    rw [(hDerivative t).deriv]
    -- The derivative is the sum of two quadratics without a root, one of them times `t ^ 2`.
    have hFirst : 0 < 0.254829592 - 0.568993472 * t + t ^ 2 := by nlinarith [sq_nonneg (t - 0.284496736)]
    have hSecond : 0 < 3.264241223 - 5.812608108 * t + 5.307027145 * t ^ 2 := by
      nlinarith [sq_nonneg (t - 0.5476)]
    nlinarith [mul_nonneg (sq_nonneg t) hSecond.le]

theorem erfPolynomial_pos {t : ℝ} (hLow : 0 < t) (hHigh : t ≤ 1) : 0 < erfPolynomial t := by
  have hZero : erfPolynomial 0 = 0 := by norm_num [erfPolynomial]
  rw [← hZero]
  exact erfPolynomial_strictMonoOn ⟨le_rfl, zero_le_one⟩ ⟨hLow.le, hHigh⟩ hLow

theorem erfPolynomial_one : erfPolynomial 1 = 0.999999999 := by norm_num [erfPolynomial]

theorem erfPolynomial_lt_one {t : ℝ} (hLow : 0 ≤ t) (hHigh : t ≤ 1) : erfPolynomial t < 1 := by
  have hBound : erfPolynomial t ≤ erfPolynomial 1 :=
    erfPolynomial_strictMonoOn.monotoneOn ⟨hLow, hHigh⟩ ⟨zero_le_one, le_rfl⟩ hHigh
  rw [erfPolynomial_one] at hBound
  linarith

theorem one_le_tailDenominator (z : ℝ) : 1 ≤ 1 + 0.3275911 * (|z| / √2) := by
  have hNonneg : 0 ≤ |z| / √2 := div_nonneg (abs_nonneg z) (Real.sqrt_nonneg 2)
  linarith

theorem tailArgument_pos (z : ℝ) : 0 < tailArgument z :=
  one_div_pos.mpr (one_pos.trans_le (one_le_tailDenominator z))

theorem tailArgument_le_one (z : ℝ) : tailArgument z ≤ 1 :=
  div_le_one_of_le₀ (one_le_tailDenominator z) (zero_le_one.trans (one_le_tailDenominator z))

theorem normalTwoSidedPValue_zero : normalTwoSidedPValue 0 = 0.999999999 := by
  have hArgument : tailArgument 0 = 1 := by norm_num [tailArgument]
  rw [normalTwoSidedPValue_eq, hArgument, erfPolynomial_one, zero_pow two_ne_zero, zero_div, neg_zero, Real.exp_zero,
    mul_one]

theorem normalTwoSidedPValue_strictAntiOn : StrictAntiOn normalTwoSidedPValue (Set.Ici 0) := by
  intro z hz w hw hLess
  have hArguments : tailArgument w < tailArgument z := by
    apply one_div_lt_one_div_of_lt (one_pos.trans_le (one_le_tailDenominator z))
    have hScaled : z / √2 < w / √2 := div_lt_div_of_pos_right hLess (Real.sqrt_pos.mpr two_pos)
    rw [abs_of_nonneg hz, abs_of_nonneg hw]
    linarith
  have hPolynomial : erfPolynomial (tailArgument w) < erfPolynomial (tailArgument z) :=
    erfPolynomial_strictMonoOn ⟨(tailArgument_pos w).le, tailArgument_le_one w⟩
      ⟨(tailArgument_pos z).le, tailArgument_le_one z⟩ hArguments
  have hExponential : Real.exp (-(w ^ 2 / 2)) < Real.exp (-(z ^ 2 / 2)) := by
    have hSquares : z ^ 2 < w ^ 2 := pow_lt_pow_left₀ hLess hz two_ne_zero
    rw [Real.exp_lt_exp]
    linarith
  rw [normalTwoSidedPValue_eq, normalTwoSidedPValue_eq]
  exact mul_lt_mul'' hPolynomial hExponential (erfPolynomial_pos (tailArgument_pos w) (tailArgument_le_one w)).le
    (Real.exp_pos _).le

theorem normalTwoSidedPValue_abs (z : ℝ) : normalTwoSidedPValue |z| = normalTwoSidedPValue z := by
  rw [normalTwoSidedPValue, normalTwoSidedPValue, abs_abs]

theorem normalTwoSidedPValue_lt_exp (z : ℝ) : normalTwoSidedPValue z < Real.exp (-(z ^ 2 / 2)) := by
  rw [normalTwoSidedPValue_eq]
  exact mul_lt_of_lt_one_left (Real.exp_pos _)
    (erfPolynomial_lt_one (tailArgument_pos z).le (tailArgument_le_one z))

/-- Up to a statistic of 4.1 the argument is at least one half. -/
theorem le_erfPolynomial_tailArgument {z : ℝ} (h : |z| ≤ 4.1) : 0.17 ≤ erfPolynomial (tailArgument z) := by
  have hRoot : 1.4 ≤ √2 := Real.le_sqrt_of_sq_le (by norm_num)
  have hScaled : |z| / √2 ≤ 4.1 / 1.4 := div_le_div₀ (by norm_num) h (by norm_num) hRoot
  have hArgument : 0.5 ≤ tailArgument z := by
    rw [tailArgument, le_div_iff₀ (one_pos.trans_le (one_le_tailDenominator z))]
    linarith
  have hHalf : 0.17 ≤ erfPolynomial 0.5 := by norm_num [erfPolynomial]
  apply hHalf.trans
  exact erfPolynomial_strictMonoOn.monotoneOn ⟨by norm_num, by norm_num⟩
    ⟨(tailArgument_pos z).le, tailArgument_le_one z⟩ hArgument

theorem normalTwoSidedPValue_lt_one (z : ℝ) : normalTwoSidedPValue z < 1 := by
  apply (normalTwoSidedPValue_lt_exp z).trans_le
  rw [Real.exp_le_one_iff]
  linarith [sq_nonneg z]

theorem normalTwoSidedPValue_pos (z : ℝ) : 0 < normalTwoSidedPValue z := by
  rw [normalTwoSidedPValue_eq]
  exact mul_pos (erfPolynomial_pos (tailArgument_pos z) (tailArgument_le_one z)) (Real.exp_pos _)

theorem log_normalTwoSidedPValue (z : ℝ) :
    2 * Real.log (normalTwoSidedPValue z) = 2 * Real.log (erfPolynomial (tailArgument z)) - z ^ 2 := by
  have hPolynomial := erfPolynomial_pos (tailArgument_pos z) (tailArgument_le_one z)
  rw [normalTwoSidedPValue_eq, Real.log_mul hPolynomial.ne' (Real.exp_pos _).ne', Real.log_exp]
  ring

theorem continuous_normalTwoSidedPValue : Continuous normalTwoSidedPValue := by
  have hPolynomial : Continuous erfPolynomial := by
    unfold erfPolynomial
    fun_prop
  have hArgument : Continuous tailArgument := by
    apply continuous_const.div (by fun_prop)
    intro z
    exact (one_pos.trans_le (one_le_tailDenominator z)).ne'
  have hExponential : Continuous fun z : ℝ => Real.exp (-(z ^ 2 / 2)) := by fun_prop
  rw [funext normalTwoSidedPValue_eq]
  exact (hPolynomial.comp hArgument).mul hExponential

theorem isTail_normalTwoSidedPValue : IsTail normalTwoSidedPValue where
  even := normalTwoSidedPValue_abs
  falls := normalTwoSidedPValue_strictAntiOn
  continuous := continuous_normalTwoSidedPValue
  vanishes := by
    intro alpha hAlpha
    obtain hSmall | hLarge := lt_or_ge alpha 1
    · -- The Gaussian factor alone is `alpha` here, so the p-value is below it.
      refine ⟨√(-2 * Real.log alpha), Real.sqrt_nonneg _, ?_⟩
      have hLog : Real.log alpha < 0 := Real.log_neg hAlpha hSmall
      have hBound := normalTwoSidedPValue_lt_exp √(-2 * Real.log alpha)
      have hExponent : -(√(-2 * Real.log alpha) ^ 2 / 2) = Real.log alpha := by
        rw [Real.sq_sqrt (by linarith)]
        ring
      rwa [hExponent, Real.exp_log hAlpha] at hBound
    · exact ⟨0, le_rfl, (normalTwoSidedPValue_lt_one 0).trans_le hLarge⟩

/-- The statistic whose two-sided p-value is `alpha`. -/
def criticalStatistic (alpha : ℝ) : ℝ := critical normalTwoSidedPValue alpha

theorem normalTwoSidedPValue_lt_iff {alpha : ℝ} (hAlpha : 0 < alpha) (z : ℝ) :
    normalTwoSidedPValue z < alpha ↔ normalTwoSidedPValue 0 < alpha ∨ criticalStatistic alpha < |z| :=
  isTail_normalTwoSidedPValue.lt_iff hAlpha z

end

end Flagship.Stats
