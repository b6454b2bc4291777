import Flagship.Core.Operators
import Flagship.Lib.Doubles
import Flagship.Lib.Identity
import Mathlib.Data.Fintype.EquivFin
import Mathlib.Data.List.TakeWhile

/-! # Conditions that can match

When an operator of `packages/core/src/operators.ts` is true of any attribute value at all. For
the ordered types it is a question of their ends: which number and which version has nothing
above or below it.
-/

namespace Flagship.Core

open Lib

/-! ## The ends of the versions -/

namespace SemVer

deriving instance DecidableEq for SemVer

/-- A number of a version, which is written in digits alone. -/
def IsCount (n : Number) : Prop := n = .infinity false ∨ n = .finite 0 ∨ ∃ v, n = .finite v ∧ 1 ≤ v

structure Parsed (version : SemVer) : Prop where
  major : IsCount version.major
  minor : IsCount version.minor
  patch : IsCount version.patch
  prerelease : ∀ c ∈ version.prerelease.toList, isIdentifierChar c = true

theorem isCount_ofRat (n : ℕ) : IsCount (Number.ofRat n) := by
  rcases Nat.eq_zero_or_pos n with rfl | hPos
  · exact Or.inr (Or.inl (by rw [Nat.cast_zero, Number.ofRat_zero]))
  · rcases Number.ofRat_lower (n := 1) (q := n) (by norm_num) (by exact_mod_cast hPos) with hInfinity | ⟨v, hv, hOne⟩
    · exact Or.inl hInfinity
    · exact Or.inr (Or.inr ⟨v, hv, by exact_mod_cast hOne⟩)

theorem isCount_of_takeDigits {input rest : List Char} {n : Number} (h : takeDigits input = some (n, rest)) :
    IsCount n := by
  rw [takeDigits] at h
  split at h
  · cases h
  · obtain ⟨rfl, _⟩ := Prod.mk.inj (Option.some.inj h)
    exact isCount_ofRat _

theorem isIdentifierChar_of_takeSuffix {mark : Char} {input : List Char} {taken : String × List Char}
    (h : takeSuffix mark input = some taken) : ∀ c ∈ taken.1.toList, isIdentifierChar c = true := by
  rw [takeSuffix.eq_def] at h
  split at h
  · split at h
    · obtain rfl := Option.some.inj h
      intro c hc
      rw [String.toList_ofList] at hc
      exact List.mem_takeWhile_imp hc
    · cases h
  · cases h

theorem parsed_of_exec {raw : String} {version : SemVer} (h : exec raw = some version) : Parsed version := by
  obtain ⟨⟨major, afterMajor⟩, hMajor, h⟩ := Option.bind_eq_some_iff.mp h
  obtain ⟨dotted, _, h⟩ := Option.bind_eq_some_iff.mp h
  obtain ⟨⟨minor, afterMinor⟩, hMinor, h⟩ := Option.bind_eq_some_iff.mp h
  obtain ⟨dottedTwice, _, h⟩ := Option.bind_eq_some_iff.mp h
  obtain ⟨⟨patch, afterPatch⟩, hPatch, h⟩ := Option.bind_eq_some_iff.mp h
  have hSuffix : ∀ c ∈ ((takeSuffix '-' afterPatch).getD ("", afterPatch)).1.toList, isIdentifierChar c = true := by
    cases hTaken : takeSuffix '-' afterPatch with
    | none =>
      intro c hc
      cases hc
    | some taken => exact isIdentifierChar_of_takeSuffix hTaken
  simp only at h
  split at h
  · obtain rfl := Option.some.inj h
    exact ⟨isCount_of_takeDigits hMajor, isCount_of_takeDigits hMinor, isCount_of_takeDigits hPatch, hSuffix⟩
  · cases h

/-- Its numbers are written with more digits than a double can hold. -/
def greatest : SemVer where
  major := .infinity false
  minor := .infinity false
  patch := .infinity false
  prerelease := ""

/-- No identifier character comes before the hyphen. -/
def least : SemVer where
  major := .finite 0
  minor := .finite 0
  patch := .finite 0
  prerelease := "-"

variable {n : Number} {version : SemVer}

/-- What every difference of two numbers has and every order of two prereleases has, the
comparison has. -/
theorem compareSemVer_of_parts {P : Number → Prop} {a b : SemVer}
    (hMajor : a.major.eq b.major = false → P (a.major.sub b.major))
    (hMinor : a.minor.eq b.minor = false → P (a.minor.sub b.minor))
    (hPatch : a.patch.eq b.patch = false → P (a.patch.sub b.patch))
    (hPrerelease : a.major.eq b.major = true → a.minor.eq b.minor = true → a.patch.eq b.patch = true →
      P (if a.prerelease = b.prerelease then .finite 0
        else if a.prerelease = "" then .finite 1
        else if b.prerelease = "" then .finite (-1)
        else if a.prerelease < b.prerelease then .finite (-1) else .finite 1)) :
    P (compareSemVer a b) := by
  rw [compareSemVer]
  split
  · rename_i hDiffer
    exact hMajor ((Bool.not_eq_true' _).mp hDiffer)
  · rename_i hSameMajor
    split
    · rename_i hDiffer
      exact hMinor ((Bool.not_eq_true' _).mp hDiffer)
    · rename_i hSameMinor
      split
      · rename_i hDiffer
        exact hPatch ((Bool.not_eq_true' _).mp hDiffer)
      · rename_i hSamePatch
        simp only [Bool.not_eq_true', Bool.not_eq_false] at hSameMajor hSameMinor hSamePatch
        exact hPrerelease hSameMajor hSameMinor hSamePatch

theorem infinity_above (h : IsCount n) (hDiffer : (Number.infinity false).eq n = false) :
    (Number.finite 0).lt ((Number.infinity false).sub n) = true := by
  rcases h with rfl | rfl | ⟨v, rfl, _⟩
  · cases hDiffer
  · rfl
  · rfl

theorem sub_infinity (n : Number) : (Number.finite 0).lt (n.sub (.infinity false)) = false := by
  cases n with
  | nan => rfl
  | infinity negative => cases negative <;> rfl
  | finite q => rfl

theorem zero_below (h : IsCount n) (hDiffer : (Number.finite 0).eq n = false) :
    ((Number.finite 0).sub n).lt (.finite 0) = true := by
  rcases h with rfl | rfl | ⟨v, rfl, hOne⟩
  · rfl
  · cases hDiffer
  · exact Number.ofRat_lt_zero (by linarith)

theorem sub_zero (h : IsCount n) : (n.sub (.finite 0)).lt (.finite 0) = false := by
  have hKept : ∀ q : ℚ, 0 ≤ q → (Number.ofRat (q + -0)).lt (.finite 0) = false := by
    intro q hq
    rcases Number.ofRat_nonneg (q := q + -0) (by linarith) with hInfinity | ⟨v, hv, hNonneg⟩
    · rw [hInfinity]
      rfl
    · rw [hv]
      exact decide_eq_false (not_lt.mpr hNonneg)
  rcases h with rfl | rfl | ⟨v, rfl, hOne⟩
  · rfl
  · exact hKept 0 le_rfl
  · exact hKept v (by linarith)

theorem ext_of_eq {a b : SemVer} (hMajor : a.major.eq b.major = true) (hMinor : a.minor.eq b.minor = true)
    (hPatch : a.patch.eq b.patch = true) (hPrerelease : a.prerelease = b.prerelease) : b = a := by
  obtain ⟨major, minor, patch, prerelease⟩ := a
  obtain ⟨_, _, _, _⟩ := b
  obtain rfl := (Number.eq_iff.mp hMajor).2
  obtain rfl := (Number.eq_iff.mp hMinor).2
  obtain rfl := (Number.eq_iff.mp hPatch).2
  obtain rfl : prerelease = _ := hPrerelease
  rfl

theorem greatest_above (h : Parsed version) (hNe : version ≠ greatest) :
    (Number.finite 0).lt (compareSemVer greatest version) = true := by
  refine compareSemVer_of_parts (P := fun ordering => (Number.finite 0).lt ordering = true) (infinity_above h.major)
    (infinity_above h.minor) (infinity_above h.patch) ?_
  intro hMajor hMinor hPatch
  have hPrerelease : greatest.prerelease ≠ version.prerelease := fun hSame =>
    hNe (ext_of_eq hMajor hMinor hPatch hSame)
  rw [if_neg hPrerelease, if_pos (show greatest.prerelease = "" from rfl)]
  rfl

theorem not_above_greatest (version : SemVer) : (Number.finite 0).lt (compareSemVer version greatest) = false := by
  refine compareSemVer_of_parts (P := fun ordering => (Number.finite 0).lt ordering = false)
    (fun _ => sub_infinity _) (fun _ => sub_infinity _) (fun _ => sub_infinity _) ?_
  intro _ _ _
  split
  · rfl
  · rename_i hPrerelease
    rw [if_neg (show version.prerelease ≠ "" from hPrerelease)]
    rfl

/-! A prerelease is compared by its characters, of which the hyphen is the first. -/

theorem hyphen_le {c : Char} (h : isIdentifierChar c = true) : c = '-' ∨ '-' < c := by
  simp only [isIdentifierChar, Bool.or_eq_true, beq_iff_eq] at h
  obtain (hAlphanum | rfl) | rfl := h
  · exact Or.inr (UInt32.lt_of_lt_of_le (by decide : '-'.val < '0'.val) (alphanum_bounds hAlphanum).1)
  · exact Or.inr (by decide)
  · exact Or.inl rfl

theorem hyphen_lt {prerelease : String} (hChars : ∀ c ∈ prerelease.toList, isIdentifierChar c = true)
    (hSome : prerelease ≠ "") (hNe : prerelease ≠ "-") : "-" < prerelease := by
  rw [String.lt_iff]
  cases hList : prerelease.toList with
  | nil => exact absurd (String.toList_inj.mp hList) hSome
  | cons first rest =>
    rw [hList] at hChars
    change ['-'] < first :: rest
    rw [List.cons_lt_cons_iff]
    rcases hyphen_le (hChars first List.mem_cons_self) with rfl | hLt
    · cases rest with
      | nil => exact absurd (String.toList_inj.mp hList) hNe
      | cons second rest => exact Or.inr ⟨rfl, List.nil_lt_cons _ _⟩
    · exact Or.inl hLt

theorem least_below (h : Parsed version) (hNe : version ≠ least) :
    (compareSemVer least version).lt (.finite 0) = true := by
  refine compareSemVer_of_parts (P := fun ordering => ordering.lt (.finite 0) = true) (zero_below h.major)
    (zero_below h.minor) (zero_below h.patch) ?_
  intro hMajor hMinor hPatch
  have hPrerelease : least.prerelease ≠ version.prerelease := fun hSame =>
    hNe (ext_of_eq hMajor hMinor hPatch hSame)
  rw [if_neg hPrerelease, if_neg (show least.prerelease ≠ "" by decide)]
  split
  · rfl
  · rename_i hRelease
    have hLt : least.prerelease < version.prerelease := hyphen_lt h.prerelease hRelease hPrerelease.symm
    rw [if_pos hLt]
    rfl

theorem not_below_least (h : Parsed version) : (compareSemVer version least).lt (.finite 0) = false := by
  refine compareSemVer_of_parts (P := fun ordering => ordering.lt (.finite 0) = false)
    (fun _ => sub_zero h.major) (fun _ => sub_zero h.minor) (fun _ => sub_zero h.patch) ?_
  intro _ _ _
  split
  · rfl
  · rename_i hPrerelease
    split
    · rfl
    · rename_i hRelease
      have hLt := hyphen_lt h.prerelease hRelease hPrerelease
      rw [if_neg (show least.prerelease ≠ "" by decide),
        if_neg (show ¬ version.prerelease < least.prerelease from String.lt_asymm hLt)]
      rfl

/-! Both ends are the reading of a text. -/

theorem takeDigits_append {digits rest : List Char} (hDigits : ∀ c ∈ digits, c.isDigit = true) (hSome : digits ≠ [])
    (hRest : rest.takeWhile Char.isDigit = []) :
    takeDigits (digits ++ rest) = some (Number.ofRat (Nat.ofDigitChars 10 digits 0), rest) := by
  have hTake : (digits ++ rest).takeWhile Char.isDigit = digits := by
    rw [List.takeWhile_append_of_pos hDigits, hRest, List.append_nil]
  have hDrop : (digits ++ rest).dropWhile Char.isDigit = rest := by
    rw [List.dropWhile_append_of_pos hDigits]
    have hSplit := List.takeWhile_append_dropWhile (p := Char.isDigit) (l := rest)
    rwa [hRest, List.nil_append] at hSplit
  rw [takeDigits, hTake, hDrop]
  cases digits with
  | nil => exact absurd rfl hSome
  | cons first digits => rfl

/-- Three times the same digits. -/
theorem exec_repeated {digits suffix : List Char} (hDigits : ∀ c ∈ digits, c.isDigit = true) (hSome : digits ≠ [])
    (hSuffix : suffix.takeWhile Char.isDigit = []) :
    exec (String.ofList (digits ++ '.' :: (digits ++ '.' :: (digits ++ suffix)))) =
      let n := Number.ofRat (Nat.ofDigitChars 10 digits 0)
      let (prerelease, rest) := (takeSuffix '-' suffix).getD ("", suffix)
      let (_, rest) := (takeSuffix '+' rest).getD ("", rest)
      if rest.isEmpty then some { major := n, minor := n, patch := n, prerelease } else none := by
  have hDot : ∀ rest : List Char, ('.' :: rest).takeWhile Char.isDigit = [] := fun _ => rfl
  simp only [exec, String.toList_ofList, takeDigits_append hDigits hSome (hDot _),
    takeDigits_append hDigits hSome hSuffix, expectDot, Option.bind_eq_bind, Option.bind_some]

/-- `1e309`, which is more than a double holds. -/
def hugeDigits : List Char := '1' :: List.replicate 309 '0'

theorem ofRat_hugeDigits : Number.ofRat (Nat.ofDigitChars 10 hugeDigits 0) = .infinity false := by
  have hValue : Nat.ofDigitChars 10 hugeDigits 0 = 10 ^ 309 := by decide +kernel
  rw [hValue]
  have hLow : 2 ^ 1024 ≤ 10 ^ 309 := by decide +kernel
  have hHigh : 10 ^ 309 < 2 ^ 1027 := by decide +kernel
  refine Number.ofRat_eq_infinity (e := 1027) ?_ ?_ (by norm_num)
  · exact_mod_cast hLow
  · exact_mod_cast hHigh

def greatestText : String :=
  String.ofList (hugeDigits ++ '.' :: (hugeDigits ++ '.' :: (hugeDigits ++ [])))

theorem exec_greatestText : exec greatestText = some greatest := by
  have hDigits : ∀ c ∈ hugeDigits, c.isDigit = true := by
    intro c hc
    rcases List.mem_cons.mp hc with rfl | hZero
    · rfl
    · rw [List.eq_of_mem_replicate hZero]
      rfl
  rw [greatestText, exec_repeated hDigits (List.cons_ne_nil _ _) rfl]
  simp only [ofRat_hugeDigits]
  rfl

def leastText : String := "0.0.0--"

theorem exec_leastText : exec leastText = some least := by
  have hZero : Number.ofRat (Nat.ofDigitChars 10 ['0'] 0) = .finite 0 := by
    have hValue : Nat.ofDigitChars 10 ['0'] 0 = 0 := rfl
    rw [hValue, Nat.cast_zero, Number.ofRat_zero]
  have hText : leastText = String.ofList (['0'] ++ '.' :: (['0'] ++ '.' :: (['0'] ++ ['-', '-']))) := rfl
  rw [hText, exec_repeated (List.forall_mem_singleton.mpr rfl) (List.cons_ne_nil _ _) rfl]
  simp only [hZero]
  rfl

end SemVer

/-! ## The operators -/

/-- The numbers of a script are doubles. -/
def AttributeValue.IsScriptValue : AttributeValue → Prop
  | .num value => value.IsDouble
  | .str _ | .bool _ | .null => True

/-- Some attribute value equals it: it is a primitive, and not `NaN`. -/
def EqualsAttribute (value : Json) : Prop :=
  match value with
  | .num n => n ≠ .nan ∧ n.IsDouble
  | .str _ | .bool _ | .null => True
  | .arr _ | .obj _ => False

/-- What the values must hold for the operator to be true of some attribute value. -/
def CanMatch (regExp : RegExp) (operator : Operator) (values : List Json) : Prop :=
  match operator with
  | .eq | .isIn => ∃ value ∈ values, EqualsAttribute value
  | .neq | .notIn => True
  | .contains | .startsWith | .endsWith => ∃ text, Json.str text ∈ values
  | .matches => ∃ pattern test text, Json.str pattern ∈ values ∧ regExp pattern = some test ∧ test text = true
  | .gt => ∃ q, Json.num (.finite q) ∈ values ∧ q < Number.largest
  | .gte => ∃ q, Json.num (.finite q) ∈ values ∧ q ≤ Number.largest
  | .lt => ∃ q, Json.num (.finite q) ∈ values ∧ -Number.largest < q
  | .lte => ∃ q, Json.num (.finite q) ∈ values ∧ -Number.largest ≤ q
  | .semverGt => ∃ value ∈ values, ∃ version, parseSemVer value = some version ∧ version ≠ SemVer.greatest
  | .semverLt => ∃ value ∈ values, ∃ version, parseSemVer value = some version ∧ version ≠ SemVer.least
  | .other _ => False

section Operators

variable {regExp : RegExp} {values : List Json}

theorem compareAs_eq_true {α : Type} {read : Json → Option α} {candidate : Json} {predicate : α → α → Bool} :
    compareAs read candidate values predicate = true ↔
      ∃ left, read candidate = some left ∧ ∃ value ∈ values, ∃ right, read value = some right ∧
        predicate left right = true := by
  rw [compareAs]
  cases read candidate with
  | none =>
    constructor
    · intro hNever
      cases hNever
    · rintro ⟨left, hLeft, _⟩
      cases hLeft
  | some left =>
    simp only [List.any_eq_true, Option.some.injEq, exists_eq_left']
    apply exists_congr
    intro value
    cases read value <;> simp

/-- An order of the source over numbers is true of some double exactly if it is of the end it
points to. -/
theorem exists_compareNumeric {predicate : Number → Number → Bool} {limit : ℚ}
    (hLimit : (Number.finite limit).IsDouble)
    (hEnd : ∀ p q, (Number.finite p).IsDouble → predicate (.finite p) (.finite q) = true →
      predicate (.finite limit) (.finite q) = true) :
    (∃ value : AttributeValue, value.IsScriptValue ∧ compareNumeric value.toJson values predicate = true) ↔
      ∃ q, Json.num (.finite q) ∈ values ∧ predicate (.finite limit) (.finite q) = true := by
  have hRead : ∀ {value : Json} {n : Number}, asNumber value = some n →
      ∃ q, value = .num (.finite q) ∧ n = .finite q := by
    intro value n hValue
    cases value with
    | num m =>
      cases m with
      | finite q => exact ⟨q, rfl, (Option.some.inj hValue).symm⟩
      | _ => cases hValue
    | _ => cases hValue
  constructor
  · rintro ⟨candidate, hScript, hCompare⟩
    obtain ⟨left, hLeft, value, hMem, right, hRight, hHolds⟩ := compareAs_eq_true.mp hCompare
    obtain ⟨p, hCandidate, rfl⟩ := hRead hLeft
    obtain ⟨q, rfl, rfl⟩ := hRead hRight
    cases candidate with
    | num n =>
      obtain rfl := Json.num.inj hCandidate
      exact ⟨q, hMem, hEnd p q hScript hHolds⟩
    | _ => cases hCandidate
  · rintro ⟨q, hMem, hHolds⟩
    exact ⟨.num (.finite limit), hLimit, compareAs_eq_true.mpr ⟨_, rfl, _, hMem, _, rfl, hHolds⟩⟩

theorem exists_compareString {predicate : String → String → Bool} :
    (∃ value : AttributeValue, value.IsScriptValue ∧ compareString value.toJson values predicate = true) ↔
      ∃ candidate text, Json.str text ∈ values ∧ predicate candidate text = true := by
  have hRead : ∀ {value : Json} {text : String}, asString value = some text → value = .str text := by
    intro value text hValue
    cases value with
    | str content =>
      obtain rfl := Option.some.inj hValue
      rfl
    | _ => cases hValue
  constructor
  · rintro ⟨candidate, _, hCompare⟩
    obtain ⟨left, _, value, hMem, right, hRight, hHolds⟩ := compareAs_eq_true.mp hCompare
    obtain rfl := hRead hRight
    exact ⟨left, right, hMem, hHolds⟩
  · rintro ⟨candidate, text, hMem, hHolds⟩
    exact ⟨.str candidate, trivial, compareAs_eq_true.mpr ⟨_, rfl, _, hMem, _, rfl, hHolds⟩⟩

/-- Every text contains itself, starts with itself and ends with itself. -/
theorem exists_compareString_self {predicate : String → String → Bool}
    (hSelf : ∀ text, predicate text text = true) :
    (∃ value : AttributeValue, value.IsScriptValue ∧ compareString value.toJson values predicate = true) ↔
      ∃ text, Json.str text ∈ values := by
  rw [exists_compareString]
  constructor
  · rintro ⟨_, text, hMem, _⟩
    exact ⟨text, hMem⟩
  · rintro ⟨text, hMem⟩
    exact ⟨text, text, hMem, hSelf text⟩

/-- An order of the source over versions is true of some version exactly if it is of the last one
in its direction. -/
theorem exists_compareSemantic (predicate : Number → Bool) {last : SemVer} {lastText : String}
    (hText : SemVer.exec lastText = some last)
    (hBefore : ∀ version, SemVer.Parsed version → version ≠ last → predicate (compareSemVer last version) = true)
    (hLast : ∀ version, SemVer.Parsed version → predicate (compareSemVer version last) = false) :
    (∃ value : AttributeValue, value.IsScriptValue ∧ compareSemantic value.toJson values predicate = true) ↔
      ∃ value ∈ values, ∃ version, parseSemVer value = some version ∧ version ≠ last := by
  have hParsed : ∀ {value : Json} {version : SemVer}, parseSemVer value = some version → SemVer.Parsed version := by
    intro value version hValue
    obtain ⟨raw, _, hExec⟩ := Option.bind_eq_some_iff.mp hValue
    exact SemVer.parsed_of_exec hExec
  constructor
  · rintro ⟨candidate, _, hCompare⟩
    obtain ⟨left, hLeft, value, hMem, right, hRight, hHolds⟩ := compareAs_eq_true.mp hCompare
    refine ⟨value, hMem, right, hRight, ?_⟩
    rintro rfl
    rw [hLast left (hParsed hLeft)] at hHolds
    cases hHolds
  · rintro ⟨value, hMem, version, hVersion, hNe⟩
    refine ⟨.str lastText, trivial, compareAs_eq_true.mpr ⟨last, hText, value, hMem, version, hVersion, ?_⟩⟩
    exact hBefore version (hParsed hVersion) hNe

theorem exists_looseEquals :
    (∃ value : AttributeValue, value.IsScriptValue ∧ values.any (looseEquals value.toJson) = true) ↔
      ∃ value ∈ values, EqualsAttribute value := by
  constructor
  · rintro ⟨candidate, hScript, hAny⟩
    obtain ⟨value, hMem, hEquals⟩ := List.any_eq_true.mp hAny
    refine ⟨value, hMem, ?_⟩
    cases candidate with
    | num n =>
      cases value with
      | num m =>
        obtain ⟨hNumber, rfl⟩ := Number.eq_iff.mp hEquals
        exact ⟨hNumber, hScript⟩
      | _ => cases hEquals
    | _ =>
      cases value with
      | num m => cases hEquals
      | arr items => cases hEquals
      | obj fields => cases hEquals
      | _ => trivial
  · rintro ⟨value, hMem, hEquals⟩
    have hEqual : ∃ candidate : AttributeValue,
        candidate.IsScriptValue ∧ looseEquals candidate.toJson value = true := by
      cases value with
      | num n => exact ⟨.num n, hEquals.2, Number.eq_iff.mpr ⟨hEquals.1, rfl⟩⟩
      | str text => exact ⟨.str text, trivial, beq_self_eq_true text⟩
      | bool b => exact ⟨.bool b, trivial, beq_self_eq_true b⟩
      | null => exact ⟨.null, trivial, rfl⟩
      | arr items => cases hEquals
      | obj fields => cases hEquals
    obtain ⟨candidate, hScript, hCandidate⟩ := hEqual
    exact ⟨candidate, hScript, List.any_eq_true.mpr ⟨value, hMem, hCandidate⟩⟩

/-- There are more texts than values. -/
theorem exists_not_looseEquals (values : List Json) :
    ∃ value : AttributeValue, value.IsScriptValue ∧ (!values.any (looseEquals value.toJson)) = true := by
  obtain ⟨text, hFresh⟩ := Infinite.exists_notMem_finset (values.filterMap asString).toFinset
  refine ⟨.str text, trivial, ?_⟩
  rw [Bool.not_eq_true', List.any_eq_false]
  intro value hMem hEquals
  cases value with
  | str content =>
    obtain rfl : text = content := eq_of_beq hEquals
    exact hFresh (List.mem_toFinset.mpr (List.mem_filterMap.mpr ⟨_, hMem, rfl⟩))
  | _ => cases hEquals

/-- An operator can be true of some attribute value exactly if its values leave room for one. -/
theorem exists_applyOperator_iff (regExp : RegExp) (operator : Operator) (values : List Json) :
    (∃ value : AttributeValue, value.IsScriptValue ∧ applyOperator regExp operator (some value) values = true) ↔
      CanMatch regExp operator values := by
  cases operator with
  | eq | isIn => exact exists_looseEquals
  | neq | notIn => exact iff_of_true (exists_not_looseEquals values) trivial
  | contains => exact exists_compareString_self fun text => decide_eq_true List.infix_rfl
  | startsWith => exact exists_compareString_self fun text => decide_eq_true List.prefix_rfl
  | endsWith => exact exists_compareString_self fun text => decide_eq_true List.suffix_rfl
  | «matches» =>
    refine exists_compareString.trans ⟨?_, ?_⟩
    · rintro ⟨candidate, pattern, hMem, hTest⟩
      cases hCompiled : regExp pattern with
      | none =>
        rw [hCompiled] at hTest
        cases hTest
      | some test =>
        rw [hCompiled] at hTest
        exact ⟨pattern, test, candidate, hMem, hCompiled, hTest⟩
    · rintro ⟨pattern, test, candidate, hMem, hCompiled, hTest⟩
      exact ⟨candidate, pattern, hMem, by rw [hCompiled]; exact hTest⟩
  | gt =>
    refine (exists_compareNumeric Number.isDouble_largest ?_).trans (by
      simp only [CanMatch, Number.lt_finite, decide_eq_true_eq])
    intro p q hDouble hLt
    rw [Number.lt_finite, decide_eq_true_eq] at hLt ⊢
    exact hLt.trans_le hDouble.le_largest
  | gte =>
    refine (exists_compareNumeric Number.isDouble_largest ?_).trans (by
      simp only [CanMatch, Number.le_finite, decide_eq_true_eq])
    intro p q hDouble hLe
    rw [Number.le_finite, decide_eq_true_eq] at hLe ⊢
    exact hLe.trans hDouble.le_largest
  | lt =>
    refine (exists_compareNumeric Number.isDouble_neg_largest ?_).trans (by
      simp only [CanMatch, Number.lt_finite, decide_eq_true_eq])
    intro p q hDouble hLt
    rw [Number.lt_finite, decide_eq_true_eq] at hLt ⊢
    exact hDouble.neg_largest_le.trans_lt hLt
  | lte =>
    refine (exists_compareNumeric Number.isDouble_neg_largest ?_).trans (by
      simp only [CanMatch, Number.le_finite, decide_eq_true_eq])
    intro p q hDouble hLe
    rw [Number.le_finite, decide_eq_true_eq] at hLe ⊢
    exact hDouble.neg_largest_le.trans hLe
  | semverGt =>
    exact exists_compareSemantic (fun ordering => (Number.finite 0).lt ordering) SemVer.exec_greatestText
      (fun _ hParsed hNe => SemVer.greatest_above hParsed hNe) fun version _ => SemVer.not_above_greatest version
  | semverLt =>
    exact exists_compareSemantic (fun ordering => ordering.lt (.finite 0)) SemVer.exec_leastText
      (fun _ hParsed hNe => SemVer.least_below hParsed hNe) fun _ hParsed => SemVer.not_below_least hParsed
  | other name =>
    constructor
    · rintro ⟨_, _, hNever⟩
      cases hNever
    · intro hNever
      cases hNever

end Operators

end Flagship.Core
