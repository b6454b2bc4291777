import Mathlib.Data.List.Basic

/-! # Script strings as code units, and their UTF-8 encoding

A script string is any sequence of 16-bit code units. Encoding pairs up surrogates and writes
the replacement character for one that stands alone.
-/

namespace Flagship.Lib

abbrev CodeUnits := List UInt16

namespace CodeUnits

def ofChar (c : Char) : CodeUnits :=
  if c.toNat < 0x10000 then [UInt16.ofNat c.toNat]
  else
    let rest := c.toNat - 0x10000
    [UInt16.ofNat (0xd800 + rest / 0x400), UInt16.ofNat (0xdc00 + rest % 0x400)]

def ofString (s : String) : CodeUnits := s.toList.flatMap ofChar

def isHigh (unit : UInt16) : Bool := 0xd800 ≤ unit && unit < 0xdc00

def isLow (unit : UInt16) : Bool := 0xdc00 ≤ unit && unit < 0xe000

def encodeScalar (n : Nat) : List UInt8 :=
  if n < 0x80 then [UInt8.ofNat n]
  else if n < 0x800 then [UInt8.ofNat (0xc0 + n / 0x40), UInt8.ofNat (0x80 + n % 0x40)]
  else if n < 0x10000 then
    [UInt8.ofNat (0xe0 + n / 0x1000), UInt8.ofNat (0x80 + n / 0x40 % 0x40), UInt8.ofNat (0x80 + n % 0x40)]
  else
    [UInt8.ofNat (0xf0 + n / 0x40000), UInt8.ofNat (0x80 + n / 0x1000 % 0x40),
      UInt8.ofNat (0x80 + n / 0x40 % 0x40), UInt8.ofNat (0x80 + n % 0x40)]

def encode : CodeUnits → List UInt8
  | [] => []
  | [unit] => encodeScalar (if isHigh unit || isLow unit then 0xfffd else unit.toNat)
  | high :: low :: rest =>
    if isHigh high && isLow low then
      encodeScalar (0x10000 + (high.toNat - 0xd800) * 0x400 + (low.toNat - 0xdc00)) ++ encode rest
    else
      encodeScalar (if isHigh high || isLow high then 0xfffd else high.toNat) ++ encode (low :: rest)

/-! ## Encoders that differ in what they write for an unpaired surrogate -/

/-- The code points of a string, with `none` for each unpaired surrogate. -/
def scalars : CodeUnits → List (Option Nat)
  | [] => []
  | [unit] => [if isHigh unit || isLow unit then none else some unit.toNat]
  | high :: low :: rest =>
    if isHigh high && isLow low then
      some (0x10000 + (high.toNat - 0xd800) * 0x400 + (low.toNat - 0xdc00)) :: scalars rest
    else
      (if isHigh high || isLow high then none else some high.toNat) :: scalars (low :: rest)

def encodeWith (replacement : List UInt8) (input : CodeUnits) : List UInt8 :=
  input.scalars.flatMap fun scalar => scalar.elim replacement encodeScalar

def WellFormed (input : CodeUnits) : Prop := none ∉ input.scalars

instance (input : CodeUnits) : Decidable input.WellFormed := inferInstanceAs (Decidable (none ∉ input.scalars))

theorem encode_eq (input : CodeUnits) : input.encode = input.encodeWith [0xef, 0xbf, 0xbd] := by
  have hReplacement : encodeScalar 0xfffd = [0xef, 0xbf, 0xbd] := by decide
  rw [encodeWith]
  induction input using scalars.induct with
  | case1 => rfl
  | case2 unit =>
    rw [encode, scalars, List.flatMap_singleton]
    split
    · exact hReplacement
    · rfl
  | case3 high low rest hPair ih =>
    rw [encode, scalars, if_pos hPair, if_pos hPair, List.flatMap_cons, ih, Option.elim_some]
  | case4 high low rest hPair ih =>
    rw [encode, scalars, if_neg hPair, if_neg hPair, List.flatMap_cons, ih]
    split
    · rw [hReplacement]
      rfl
    · rfl

/-- A unit that is no low surrogate pairs with nothing before it. -/
theorem scalars_append_cons {unit : UInt16} (hLow : isLow unit = false) (input rest : CodeUnits) :
    scalars (input ++ unit :: rest) = scalars input ++ scalars (unit :: rest) := by
  induction input using scalars.induct with
  | case1 => rfl
  | case2 first =>
    have hApart : ¬ (isHigh first && isLow unit) = true := by simp [hLow]
    rw [List.singleton_append, scalars.eq_3, if_neg hApart, scalars.eq_2, List.singleton_append]
  | case3 high low others hPair ih =>
    rw [List.cons_append, List.cons_append, scalars, if_pos hPair, ih, scalars, if_pos hPair, List.cons_append]
  | case4 high low others hPair ih =>
    rw [List.cons_append, List.cons_append, scalars, if_neg hPair, scalars, if_neg hPair, List.cons_append]
    rw [List.cons_append] at ih
    rw [ih]

theorem scalars_cons {unit : UInt16} (hHigh : isHigh unit = false) (hLow : isLow unit = false) (rest : CodeUnits) :
    scalars (unit :: rest) = some unit.toNat :: scalars rest := by
  cases rest with
  | nil => simp [scalars, hHigh, hLow]
  | cons other rest => simp [scalars, hHigh, hLow]

/-- A string is well formed around a unit that is no surrogate when both sides are. -/
theorem wellFormed_append_cons {unit : UInt16} (hHigh : isHigh unit = false) (hLow : isLow unit = false)
    (input rest : CodeUnits) : WellFormed (input ++ unit :: rest) ↔ WellFormed input ∧ WellFormed rest := by
  rw [WellFormed, scalars_append_cons hLow, scalars_cons hHigh hLow]
  simp [WellFormed]

theorem encodeWith_length (replacement : List UInt8) (input : CodeUnits) :
    (input.encodeWith replacement).length =
      (input.encodeWith []).length + replacement.length * input.scalars.count none := by
  rw [encodeWith, encodeWith]
  induction input.scalars with
  | nil => rfl
  | cons scalar rest ih =>
    rw [List.flatMap_cons, List.flatMap_cons, List.length_append, List.length_append, ih]
    cases scalar with
    | none => simp [Nat.mul_add]; omega
    | some n => simp; omega

/-- Encoders whose replacements differ in length write the same bytes for well-formed strings only. -/
theorem encodeWith_eq_iff {replacement other : List UInt8} (hLength : replacement.length ≠ other.length)
    (input : CodeUnits) : input.encodeWith replacement = input.encodeWith other ↔ input.WellFormed := by
  constructor
  · intro hSame
    have hCount := congrArg List.length hSame
    rw [encodeWith_length, encodeWith_length other, Nat.add_left_cancel_iff] at hCount
    rw [WellFormed, ← List.count_eq_zero]
    rcases Nat.eq_zero_or_pos (input.scalars.count none) with hZero | hPos
    · exact hZero
    · exact absurd (Nat.eq_of_mul_eq_mul_right hPos hCount) hLength
  · intro hWellFormed
    rw [encodeWith, encodeWith]
    apply List.flatMap_congr
    intro scalar hMem
    cases scalar with
    | none => exact absurd hMem hWellFormed
    | some n => rfl

/-! ## Encoding into a buffer -/

theorem encodeScalar_length_le {n : Nat} (h : n < 0x10000) : (encodeScalar n).length ≤ 3 := by
  rw [encodeScalar, if_pos h]
  split
  · exact Nat.le_of_ble_eq_true rfl
  · split
    · exact Nat.le_of_ble_eq_true rfl
    · exact Nat.le_refl 3

theorem encodeScalar_length_le_four (n : Nat) : (encodeScalar n).length ≤ 4 := by
  obtain hPlane | hAstral := Nat.lt_or_ge n 0x10000
  · exact Nat.le_succ_of_le (encodeScalar_length_le hPlane)
  · rw [encodeScalar, if_neg (by omega), if_neg (by omega), if_neg (by omega)]
    exact Nat.le_refl 4

/-- Three bytes a unit; the four of a pair are two units'. -/
theorem encode_length_le (input : CodeUnits) : input.encode.length ≤ input.length * 3 := by
  have hUnit (alone : Bool) (unit : UInt16) : (encodeScalar (if alone then 0xfffd else unit.toNat)).length ≤ 3 := by
    apply encodeScalar_length_le
    cases alone with
    | true => exact (by decide : 0xfffd < 0x10000)
    | false => exact unit.toNat_lt
  induction input using encode.induct with
  | case1 => exact Nat.zero_le _
  | case2 unit => exact hUnit _ unit
  | case3 high low rest hPair ih =>
    have hFour := encodeScalar_length_le_four (0x10000 + (high.toNat - 0xd800) * 0x400 + (low.toNat - 0xdc00))
    rw [encode, if_pos hPair, List.length_append, List.length_cons, List.length_cons]
    omega
  | case4 high low rest hPair ih =>
    have hThree := hUnit (isHigh high || isLow high) high
    rw [encode, if_neg hPair, List.length_append, List.length_cons]
    omega

/-- The bytes written into `capacity` places: whole characters, up to the first that does not fit. -/
def encodeWithin (replacement : List UInt8) (capacity : Nat) : List (Option Nat) → List UInt8
  | [] => []
  | scalar :: rest =>
    let bytes := scalar.elim replacement encodeScalar
    if bytes.length ≤ capacity then bytes ++ encodeWithin replacement (capacity - bytes.length) rest else []

theorem encodeWithin_length_le (replacement : List UInt8) (capacity : Nat) (scalars : List (Option Nat)) :
    (encodeWithin replacement capacity scalars).length ≤ capacity := by
  induction scalars generalizing capacity with
  | nil => exact Nat.zero_le capacity
  | cons scalar rest ih =>
    rw [encodeWithin]
    split
    · rename_i hFits
      have hRest := ih (capacity - (scalar.elim replacement encodeScalar).length)
      rw [List.length_append]
      omega
    · exact Nat.zero_le capacity

theorem encodeWithin_eq {replacement : List UInt8} {capacity : Nat} {scalars : List (Option Nat)}
    (h : (scalars.flatMap fun scalar => scalar.elim replacement encodeScalar).length ≤ capacity) :
    encodeWithin replacement capacity scalars =
      scalars.flatMap fun scalar => scalar.elim replacement encodeScalar := by
  induction scalars generalizing capacity with
  | nil => rfl
  | cons scalar rest ih =>
    rw [List.flatMap_cons, List.length_append] at h
    rw [encodeWithin, List.flatMap_cons, if_pos (by omega), ih (by omega)]

/-! ## Strings and their units -/

theorem char_bounds (c : Char) : c.toNat < 0xd800 ∨ 0xdfff < c.toNat ∧ c.toNat < 0x110000 := c.valid

/-- The units of a character are told from the first of them: a high surrogate begins a pair, and
no character is a surrogate. -/
theorem ofChar_append_inj {c d : Char} {rest rest' : CodeUnits} (h : ofChar c ++ rest = ofChar d ++ rest') :
    c = d ∧ rest = rest' := by
  have hC := char_bounds c
  have hD := char_bounds d
  have hSame : c.toNat = d.toNat → c = d := fun hNat => Char.ext (UInt32.toNat_inj.mp hNat)
  unfold ofChar at h
  split at h
  · split at h
    · simp only [List.singleton_append, List.cons.injEq] at h
      have hUnit := congrArg UInt16.toNat h.1
      simp only [UInt16.toNat_ofNat'] at hUnit
      exact ⟨hSame (by omega), h.2⟩
    · simp only [List.cons_append, List.cons.injEq] at h
      have hUnit := congrArg UInt16.toNat h.1
      simp only [UInt16.toNat_ofNat'] at hUnit
      omega
  · split at h
    · simp only [List.cons_append, List.cons.injEq] at h
      have hUnit := congrArg UInt16.toNat h.1
      simp only [UInt16.toNat_ofNat'] at hUnit
      omega
    · simp only [List.cons_append, List.nil_append, List.cons.injEq] at h
      have hHigh := congrArg UInt16.toNat h.1
      have hLow := congrArg UInt16.toNat h.2.1
      simp only [UInt16.toNat_ofNat'] at hHigh hLow
      exact ⟨hSame (by omega), h.2.2⟩

theorem ofChar_ne_nil (c : Char) : ofChar c ≠ [] := by
  unfold ofChar
  split <;> simp

theorem ofString_injective : Function.Injective ofString := by
  have hChars : ∀ chars chars' : List Char, chars.flatMap ofChar = chars'.flatMap ofChar → chars = chars' := by
    intro chars
    induction chars with
    | nil =>
      intro chars' h
      cases chars' with
      | nil => rfl
      | cons d rest' =>
        rw [List.flatMap_nil, List.flatMap_cons] at h
        exact absurd (List.append_eq_nil_iff.mp h.symm).1 (ofChar_ne_nil d)
    | cons c rest ih =>
      intro chars' h
      cases chars' with
      | nil =>
        rw [List.flatMap_nil, List.flatMap_cons] at h
        exact absurd (List.append_eq_nil_iff.mp h).1 (ofChar_ne_nil c)
      | cons d rest' =>
        rw [List.flatMap_cons, List.flatMap_cons] at h
        obtain ⟨rfl, hRest⟩ := ofChar_append_inj h
        rw [ih rest' hRest]
  exact fun s t h => String.toList_inj.mp (hChars _ _ h)

/-! ## The bytes of a text -/

theorem scalars_ofChar_append (c : Char) (rest : CodeUnits) :
    scalars (ofChar c ++ rest) = some c.toNat :: scalars rest := by
  have hBounds := char_bounds c
  unfold ofChar
  split
  · have hUnit : (UInt16.ofNat c.toNat).toNat = c.toNat := by
      rw [UInt16.toNat_ofNat']
      omega
    have hHigh : isHigh (UInt16.ofNat c.toNat) = false := by
      simp only [isHigh, Bool.and_eq_false_iff, decide_eq_false_iff_not, UInt16.le_iff_toNat_le,
        UInt16.lt_iff_toNat_lt, hUnit, UInt16.reduceToNat]
      omega
    have hLow : isLow (UInt16.ofNat c.toNat) = false := by
      simp only [isLow, Bool.and_eq_false_iff, decide_eq_false_iff_not, UInt16.le_iff_toNat_le,
        UInt16.lt_iff_toNat_lt, hUnit, UInt16.reduceToNat]
      omega
    rw [List.singleton_append, scalars_cons hHigh hLow, hUnit]
  · have hFirst : (UInt16.ofNat (0xd800 + (c.toNat - 0x10000) / 0x400)).toNat =
        0xd800 + (c.toNat - 0x10000) / 0x400 := by
      rw [UInt16.toNat_ofNat']
      omega
    have hSecond : (UInt16.ofNat (0xdc00 + (c.toNat - 0x10000) % 0x400)).toNat =
        0xdc00 + (c.toNat - 0x10000) % 0x400 := by
      rw [UInt16.toNat_ofNat']
      omega
    have hPair : (isHigh (UInt16.ofNat (0xd800 + (c.toNat - 0x10000) / 0x400)) &&
        isLow (UInt16.ofNat (0xdc00 + (c.toNat - 0x10000) % 0x400))) = true := by
      simp only [isHigh, isLow, Bool.and_eq_true, decide_eq_true_eq, UInt16.le_iff_toNat_le,
        UInt16.lt_iff_toNat_lt, hFirst, hSecond, UInt16.reduceToNat]
      omega
    have hValue : 0x10000 + (0xd800 + (c.toNat - 0x10000) / 0x400 - 0xd800) * 0x400 +
        (0xdc00 + (c.toNat - 0x10000) % 0x400 - 0xdc00) = c.toNat := by omega
    rw [List.cons_append, List.singleton_append, scalars, if_pos hPair, hFirst, hSecond, hValue]

/-- No character is a surrogate, so none stands alone. -/
theorem scalars_ofString (s : String) : (ofString s).scalars = s.toList.map fun c => some c.toNat := by
  rw [ofString]
  induction s.toList with
  | nil => rfl
  | cons c rest ih => rw [List.flatMap_cons, scalars_ofChar_append, ih, List.map_cons]

theorem encodeScalar_toNat (c : Char) : encodeScalar c.toNat = String.utf8EncodeChar c := by
  have hBounds := char_bounds c
  have hValue : c.val.toNat = c.toNat := rfl
  have hCons : ∀ {m n : ℕ} {rest rest' : List UInt8}, m = n → rest = rest' →
      UInt8.ofNat m :: rest = UInt8.ofNat n :: rest' := by
    rintro m n rest rest' rfl rfl
    rfl
  rw [encodeScalar, String.utf8EncodeChar, hValue]
  by_cases hOne : c.toNat < 0x80
  · rw [if_pos hOne, if_pos (by omega)]
  · rw [if_neg hOne, if_neg (by omega : ¬ c.toNat ≤ 0x7f)]
    by_cases hTwo : c.toNat < 0x800
    · rw [if_pos hTwo, if_pos (by omega)]
      exact hCons (by omega) (hCons (by omega) rfl)
    · rw [if_neg hTwo, if_neg (by omega : ¬ c.toNat ≤ 0x7ff)]
      by_cases hThree : c.toNat < 0x10000
      · rw [if_pos hThree, if_pos (by omega)]
        exact hCons (by omega) (hCons (by omega) (hCons (by omega) rfl))
      · rw [if_neg hThree, if_neg (by omega)]
        exact hCons (by omega) (hCons (by omega) (hCons (by omega) (hCons (by omega) rfl)))

end CodeUnits

/-- The bytes of a text in UTF-8. -/
def utf8 (s : String) : List UInt8 := s.toList.flatMap String.utf8EncodeChar

namespace CodeUnits

theorem encodeWith_ofString (replacement : List UInt8) (s : String) : (ofString s).encodeWith replacement = utf8 s := by
  rw [encodeWith, scalars_ofString, List.flatMap_map, utf8]
  exact congrArg (List.flatMap · s.toList) (funext encodeScalar_toNat)

/-! ## The order of strings -/

/-- The order that scripts sort strings by. -/
def le : CodeUnits → CodeUnits → Bool
  | [], _ => true
  | _ :: _, [] => false
  | unit :: rest, unit' :: rest' => decide (unit < unit') || decide (unit = unit') && le rest rest'

theorem le_cons {unit unit' : UInt16} {rest rest' : CodeUnits} :
    le (unit :: rest) (unit' :: rest') = true ↔
      unit.toNat < unit'.toNat ∨ unit.toNat = unit'.toNat ∧ le rest rest' = true := by
  simp only [le, Bool.or_eq_true, Bool.and_eq_true, decide_eq_true_eq, UInt16.lt_iff_toNat_lt, UInt16.toNat_inj]

theorem le_trans {a b c : CodeUnits} (hFirst : le a b = true) (hSecond : le b c = true) : le a c = true := by
  induction a generalizing b c with
  | nil => rfl
  | cons unit rest ih =>
    cases b with
    | nil => cases hFirst
    | cons unit' rest' =>
      cases c with
      | nil => cases hSecond
      | cons unit'' rest'' =>
        rw [le_cons] at hFirst hSecond ⊢
        rcases hFirst with hLess | ⟨hSame, hRest⟩
        · omega
        · rcases hSecond with hLess' | ⟨hSame', hRest'⟩
          · omega
          · exact Or.inr ⟨by omega, ih hRest hRest'⟩

theorem le_total (a b : CodeUnits) : le a b = true ∨ le b a = true := by
  induction a generalizing b with
  | nil => exact Or.inl rfl
  | cons unit rest ih =>
    cases b with
    | nil => exact Or.inr rfl
    | cons unit' rest' =>
      rw [le_cons, le_cons]
      rcases Nat.lt_trichotomy unit.toNat unit'.toNat with hLess | hSame | hMore
      · exact Or.inl (Or.inl hLess)
      · exact (ih rest').imp (fun hRest => Or.inr ⟨hSame, hRest⟩) fun hRest => Or.inr ⟨hSame.symm, hRest⟩
      · exact Or.inr (Or.inl hMore)

theorem le_antisymm {a b : CodeUnits} (hLe : le a b = true) (hGe : le b a = true) : a = b := by
  induction a generalizing b with
  | nil =>
    cases b with
    | nil => rfl
    | cons unit' rest' => cases hGe
  | cons unit rest ih =>
    cases b with
    | nil => cases hLe
    | cons unit' rest' =>
      rw [le_cons] at hLe hGe
      rcases hLe with hLess | ⟨hSame, hRest⟩
      · omega
      · rcases hGe with hMore | ⟨_, hRest'⟩
        · omega
        · rw [UInt16.toNat_inj.mp hSame, ih hRest hRest']

end CodeUnits

end Flagship.Lib
