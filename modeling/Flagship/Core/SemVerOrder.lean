import Flagship.Core.Satisfiable
import Flagship.Lib.SemanticVersion
import Flagship.Lib.WholeNumbers

/-! # The order that version targeting gives

`compareSemVer` reads the three numbers as doubles and compares the prerelease as one text. Both
are coarser or other than the order of the standard, and here is for which versions it shows.
-/

namespace Flagship.Core

open Lib

namespace SemVer

/-! ## Reading a version -/

theorem takeDigits_repr (n : ℕ) {rest : List Char} (hRest : rest.takeWhile Char.isDigit = []) :
    takeDigits (n.repr.toList ++ rest) = some (Number.ofRat n, rest) := by
  rw [takeDigits_append (fun c hMem => SemanticVersion.isDigit_of_mem_repr hMem) (SemanticVersion.repr_ne_nil n) hRest,
    Nat.toList_repr, Nat.ofDigitChars_ten_toDigits]

theorem isIdentifierChar_of_allowed {c : Char} (h : SemanticVersion.isIdentifierChar c = true) :
    isIdentifierChar c = true := by
  rw [SemanticVersion.isIdentifierChar, Bool.or_eq_true] at h
  obtain hAlphanum | hHyphen := h
  · simp [isIdentifierChar, hAlphanum]
  · simp [isIdentifierChar, hHyphen]

theorem isIdentifierChar_of_mem_dots {parts : List (List Char)}
    (hAllowed : ∀ part ∈ parts, ∀ c ∈ part, SemanticVersion.isIdentifierChar c = true) :
    ∀ c ∈ SemanticVersion.dots parts, isIdentifierChar c = true := by
  intro c hMem
  obtain ⟨part, hPart, hChar⟩ := List.mem_flatMap.mp hMem
  obtain rfl | hChar := List.mem_cons.mp hChar
  · rfl
  · exact isIdentifierChar_of_allowed (hAllowed part hPart c hChar)

/-- An optional part is taken whole where it stands, and nothing is taken where it does not. -/
theorem takeSuffix_marked (mark : Char) (parts : List (List Char)) (rest : List Char)
    (hAllowed : ∀ part ∈ parts, ∀ c ∈ part, SemanticVersion.isIdentifierChar c = true)
    (hNonempty : ∀ part ∈ parts, part ≠ [])
    (hRest : ∀ c, rest.head? = some c → isIdentifierChar c = false ∧ c ≠ mark) :
    (takeSuffix mark (SemanticVersion.marked mark parts ++ rest)).getD ("", SemanticVersion.marked mark parts ++ rest) =
      (String.ofList (SemanticVersion.marked mark parts).tail, rest) := by
  have hStop : rest.takeWhile isIdentifierChar = [] ∧ rest.dropWhile isIdentifierChar = rest := by
    cases rest with
    | nil => exact ⟨rfl, rfl⟩
    | cons c rest => simp [(hRest c rfl).1]
  cases parts with
  | nil =>
    cases rest with
    | nil => rfl
    | cons c rest =>
      rw [SemanticVersion.marked, List.nil_append, takeSuffix, if_neg (fun h => (hRest c rfl).2 h.1)]
      rfl
  | cons part parts =>
    have hChars : ∀ c ∈ part ++ SemanticVersion.dots parts, isIdentifierChar c = true := by
      intro c hMem
      obtain hPart | hDots := List.mem_append.mp hMem
      · exact isIdentifierChar_of_allowed (hAllowed part List.mem_cons_self c hPart)
      · exact isIdentifierChar_of_mem_dots (fun other hOther => hAllowed other (List.mem_cons_of_mem _ hOther)) c hDots
    have hTake : ((part ++ SemanticVersion.dots parts) ++ rest).takeWhile isIdentifierChar =
        part ++ SemanticVersion.dots parts := by
      rw [List.takeWhile_append_of_pos hChars, hStop.1, List.append_nil]
    have hDrop : ((part ++ SemanticVersion.dots parts) ++ rest).dropWhile isIdentifierChar = rest := by
      rw [List.dropWhile_append_of_pos hChars, hStop.2]
    have hSome : part ++ SemanticVersion.dots parts ≠ [] := by
      rw [Ne, List.append_eq_nil_iff]
      exact fun h => hNonempty part List.mem_cons_self h.1
    rw [SemanticVersion.marked, List.cons_append, takeSuffix, hTake, hDrop, if_pos ⟨rfl, hSome⟩]
    rfl

/-- What the pattern reads of a version: the numbers as doubles, and the prerelease as a text. -/
def ofVersion (version : SemanticVersion) : SemVer where
  major := Number.ofRat version.major
  minor := Number.ofRat version.minor
  patch := Number.ofRat version.patch
  prerelease := String.ofList (SemanticVersion.joined version.prerelease)

theorem head?_marked_plus {parts : List (List Char)} {c : Char}
    (hHead : (SemanticVersion.marked '+' parts).head? = some c) : c = '+' := by
  cases parts with
  | nil => cases hHead
  | cons part parts => exact (Option.some.inj hHead).symm

theorem takeWhile_marked {mark : Char} (hMark : mark.isDigit = false) (parts : List (List Char)) (rest : List Char)
    (hRest : rest.takeWhile Char.isDigit = []) :
    (SemanticVersion.marked mark parts ++ rest).takeWhile Char.isDigit = [] := by
  cases parts with
  | nil => exact hRest
  | cons part parts => simp [SemanticVersion.marked, hMark]

theorem exec_text (version : SemanticVersion) : exec version.text = some (ofVersion version) := by
  have hPrerelease := takeSuffix_marked '-' (version.prerelease.map SemanticVersion.Identifier.chars)
    (SemanticVersion.marked '+' (version.build.map SemanticVersion.BuildIdentifier.chars))
    (List.forall_mem_map.mpr fun x _ => x.allowed) (List.forall_mem_map.mpr fun x _ => x.chars_ne_nil) (by
      intro c hHead
      obtain rfl := head?_marked_plus hHead
      decide)
  have hBuild := takeSuffix_marked '+' (version.build.map SemanticVersion.BuildIdentifier.chars) []
    (List.forall_mem_map.mpr fun x _ => x.allowed) (List.forall_mem_map.mpr fun x _ => x.nonempty)
    (fun c hNone => nomatch hNone)
  rw [List.append_nil] at hBuild
  have hJoined : (SemanticVersion.marked '-' (version.prerelease.map SemanticVersion.Identifier.chars)).tail =
      SemanticVersion.joined version.prerelease := by
    cases version.prerelease <;> rfl
  have hDot : ∀ rest : List Char, ('.' :: rest).takeWhile Char.isDigit = [] := fun _ => rfl
  have hSuffix : (SemanticVersion.marked '-' (version.prerelease.map SemanticVersion.Identifier.chars) ++
      SemanticVersion.marked '+' (version.build.map SemanticVersion.BuildIdentifier.chars)).takeWhile Char.isDigit =
      [] := by
    apply takeWhile_marked rfl
    rw [← List.append_nil (SemanticVersion.marked '+' _)]
    exact takeWhile_marked rfl _ [] rfl
  simp only [exec, SemanticVersion.text, String.toList_ofList, takeDigits_repr _ (hDot _), takeDigits_repr _ hSuffix,
    expectDot, Option.bind_eq_bind, Option.bind_some, hPrerelease, hBuild, hJoined, List.isEmpty_nil, if_true]
  rfl

/-! ## The order of two readings -/

/-- Numbers in their order, unless rounding makes them the same. -/
def doubleOrder (m n : ℕ) : Ordering := if Number.ofRat m = Number.ofRat n then .eq else compare m n

/-- Prereleases as texts, with that of a release above every other. -/
def prereleaseOrder (a b : List SemanticVersion.Identifier) : Ordering :=
  if SemanticVersion.joined a = SemanticVersion.joined b then .eq
  else if SemanticVersion.joined a = [] then .gt
  else if SemanticVersion.joined b = [] then .lt
  else SemanticVersion.textOrder (SemanticVersion.joined a) (SemanticVersion.joined b)

def patchOrder (a b : SemanticVersion) : Ordering :=
  (doubleOrder a.patch b.patch).then (prereleaseOrder a.prerelease b.prerelease)

def minorOrder (a b : SemanticVersion) : Ordering := (doubleOrder a.minor b.minor).then (patchOrder a b)

def majorOrder (a b : SemanticVersion) : Ordering := (doubleOrder a.major b.major).then (minorOrder a b)

/-- The number has the sign of the order. -/
def Signs (ordering : Number) (order : Ordering) : Prop :=
  ((Number.finite 0).lt ordering = true ↔ order = .gt) ∧ (ordering.lt (.finite 0) = true ↔ order = .lt)

theorem signs_number (m n : ℕ) {later : Number} {order : Ordering} (h : Signs later order) :
    Signs (if !(Number.ofRat m).eq (Number.ofRat n) then (Number.ofRat m).sub (Number.ofRat n) else later)
      ((doubleOrder m n).then order) := by
  by_cases hSame : Number.ofRat m = Number.ofRat n
  · have hEq : (Number.ofRat m).eq (Number.ofRat n) = true := by
      rw [Number.eq_iff]
      refine ⟨?_, hSame⟩
      obtain hInfinity | ⟨k, hWhole⟩ := Number.ofRat_natCast_whole m
      · rw [hInfinity]
        exact Number.noConfusion
      · rw [hWhole]
        exact Number.noConfusion
    rw [hEq, doubleOrder, if_pos hSame]
    exact h
  · have hNotEq : (Number.ofRat m).eq (Number.ofRat n) = false := by
      rw [← Bool.not_eq_true, Number.eq_iff]
      exact fun hBoth => hSame hBoth.2
    rw [hNotEq, doubleOrder, if_neg hSame]
    obtain hLt | rfl | hGt := lt_trichotomy m n
    · rw [Nat.compare_eq_lt.mpr hLt]
      have hSign := Number.sub_lt_zero hLt hSame
      simp [Signs, hSign, Number.lt_asymm hSign]
    · exact absurd rfl hSame
    · rw [Nat.compare_eq_gt.mpr hGt]
      have hSign := Number.zero_lt_sub hGt hSame
      simp [Signs, hSign, Number.lt_asymm hSign]

theorem signs_prerelease (a b : List SemanticVersion.Identifier) :
    Signs (if String.ofList (SemanticVersion.joined a) = String.ofList (SemanticVersion.joined b) then .finite 0
      else if String.ofList (SemanticVersion.joined a) = "" then .finite 1
      else if String.ofList (SemanticVersion.joined b) = "" then .finite (-1)
      else if String.ofList (SemanticVersion.joined a) < String.ofList (SemanticVersion.joined b) then .finite (-1)
      else .finite 1) (prereleaseOrder a b) := by
  have hEmpty : ∀ u : List Char, String.ofList u = "" ↔ u = [] := by
    intro u
    rw [← String.toList_inj, String.toList_ofList]
    rfl
  have hZero : Signs (.finite 0) .eq := by simp [Signs, Number.lt_finite]
  have hBelow : Signs (.finite (-1)) .lt := by simp [Signs, Number.lt_finite]
  have hAbove : Signs (.finite 1) .gt := by simp [Signs, Number.lt_finite]
  simp only [prereleaseOrder, hEmpty, String.ofList_inj, String.lt_iff, String.toList_ofList]
  split
  · exact hZero
  split
  · exact hAbove
  split
  · exact hBelow
  rename_i hNe _ _
  rw [SemanticVersion.textOrder, if_neg hNe]
  split
  · exact hBelow
  · exact hAbove

theorem signs_compareSemVer (a b : SemanticVersion) :
    Signs (compareSemVer (ofVersion a) (ofVersion b)) (majorOrder a b) :=
  signs_number _ _ (signs_number _ _ (signs_number _ _ (signs_prerelease a.prerelease b.prerelease)))

/-! ## Where it is the order of the standard -/

/-- Two numbers that differ are told apart as doubles, or what comes later is in their order; two
that are the same leave it to the rest. -/
def NumberFollows (m n : ℕ) (later : Ordering) (rest : Prop) : Prop :=
  if m = n then rest else Number.ofRat m ≠ Number.ofRat n ∨ later = compare m n

def OrderFollows (a b : SemanticVersion) : Prop :=
  NumberFollows a.major b.major (minorOrder a b) <|
    NumberFollows a.minor b.minor (patchOrder a b) <|
      NumberFollows a.patch b.patch (prereleaseOrder a.prerelease b.prerelease) <|
        SemanticVersion.TextFollows a.prerelease b.prerelease

theorem numberFollows_iff {m n : ℕ} {later exact : Ordering} {rest : Prop} (hRest : later = exact ↔ rest) :
    (doubleOrder m n).then later = (compare m n).then exact ↔ NumberFollows m n later rest := by
  rw [NumberFollows, doubleOrder]
  by_cases hSame : m = n
  · rw [if_pos hSame, hSame, if_pos rfl, Nat.compare_eq_eq.mpr rfl]
    exact hRest
  · rw [if_neg hSame]
    have hExact (after : Ordering) : (compare m n).then after = compare m n := by
      cases hOrder : compare m n with
      | eq => exact absurd (Nat.compare_eq_eq.mp hOrder) hSame
      | lt => rfl
      | gt => rfl
    rw [hExact]
    by_cases hRounded : Number.ofRat m = Number.ofRat n
    · rw [if_pos hRounded, or_iff_right (not_not.mpr hRounded)]
      rfl
    · rw [if_neg hRounded, hExact]
      exact ⟨fun _ => Or.inl hRounded, fun _ => rfl⟩

theorem joined_ne_nil (x : SemanticVersion.Identifier) (xs : List SemanticVersion.Identifier) :
    SemanticVersion.joined (x :: xs) ≠ [] := by
  rw [SemanticVersion.joined, Ne, List.append_eq_nil_iff]
  exact fun h => x.chars_ne_nil h.1

theorem prereleaseOrder_iff (a b : List SemanticVersion.Identifier) :
    prereleaseOrder a b = SemanticVersion.comparePrerelease a b ↔ SemanticVersion.TextFollows a b := by
  cases a with
  | nil =>
    cases b with
    | nil => simp [prereleaseOrder, SemanticVersion.comparePrerelease, SemanticVersion.TextFollows]
    | cons y ys =>
      have hSome := joined_ne_nil y ys
      have hNone : SemanticVersion.joined [] = [] := rfl
      simp [prereleaseOrder, SemanticVersion.comparePrerelease, SemanticVersion.TextFollows, hNone, hSome.symm]
  | cons x xs =>
    have hFirst := joined_ne_nil x xs
    cases b with
    | nil =>
      have hNone : SemanticVersion.joined [] = [] := rfl
      simp [prereleaseOrder, SemanticVersion.comparePrerelease, SemanticVersion.TextFollows, hNone, hFirst]
    | cons y ys =>
      have hText : prereleaseOrder (x :: xs) (y :: ys) =
          SemanticVersion.textOrder (SemanticVersion.joined (x :: xs)) (SemanticVersion.joined (y :: ys)) := by
        rw [prereleaseOrder, if_neg hFirst, if_neg (joined_ne_nil y ys)]
        split
        · rename_i hSame
          rw [hSame, SemanticVersion.textOrder_self]
        · rfl
      rw [hText]
      exact SemanticVersion.textOrder_joined_iff x y xs ys

theorem majorOrder_iff (a b : SemanticVersion) :
    majorOrder a b = SemanticVersion.precedence a b ↔ OrderFollows a b :=
  numberFollows_iff (numberFollows_iff (numberFollows_iff (prereleaseOrder_iff a.prerelease b.prerelease)))

end SemVer

/-! ## The operators -/

/-- Targeting by versions is by their precedence. -/
def TargetsByPrecedence (regExp : RegExp) (a b : SemanticVersion) : Prop :=
  (applyOperator regExp .semverGt (some (.str a.text)) [.str b.text] = true ↔
    SemanticVersion.precedence a b = .gt) ∧
  (applyOperator regExp .semverLt (some (.str a.text)) [.str b.text] = true ↔
    SemanticVersion.precedence a b = .lt)

theorem applyOperator_semver (regExp : RegExp) (a b : SemanticVersion) :
    (applyOperator regExp .semverGt (some (.str a.text)) [.str b.text] = true ↔ SemVer.majorOrder a b = .gt) ∧
      (applyOperator regExp .semverLt (some (.str a.text)) [.str b.text] = true ↔ SemVer.majorOrder a b = .lt) := by
  have hSigns := SemVer.signs_compareSemVer a b
  have hParse (version : SemanticVersion) : parseSemVer (.str version.text) = some (SemVer.ofVersion version) := by
    rw [parseSemVer, asString, Option.bind_some, SemVer.exec_text]
  have hCompare (predicate : Number → Bool) : compareSemantic (.str a.text) [.str b.text] predicate =
      predicate (compareSemVer (SemVer.ofVersion a) (SemVer.ofVersion b)) := by
    rw [compareSemantic, compareAs, hParse]
    simp only [List.any_cons, List.any_nil, Bool.or_false, hParse]
  rw [applyOperator, applyOperator]
  simp only [AttributeValue.toJson, hCompare]
  exact hSigns

theorem targetsByPrecedence_iff (regExp : RegExp) (a b : SemanticVersion) :
    TargetsByPrecedence regExp a b ↔ SemVer.OrderFollows a b := by
  obtain ⟨hGt, hLt⟩ := applyOperator_semver regExp a b
  rw [TargetsByPrecedence, hGt, hLt, ← SemVer.majorOrder_iff]
  constructor
  · rintro ⟨hAbove, hBelow⟩
    cases hOrder : SemVer.majorOrder a b with
    | gt => exact (hAbove.mp hOrder).symm
    | lt => exact (hBelow.mp hOrder).symm
    | eq =>
      rw [hOrder] at hAbove hBelow
      cases hExact : SemanticVersion.precedence a b with
      | gt => exact hAbove.mpr hExact
      | lt => exact hBelow.mpr hExact
      | eq => rfl
  · intro hSame
    rw [hSame]
    exact ⟨Iff.rfl, Iff.rfl⟩

def alpha (n : ℕ) : SemanticVersion where
  major := 1
  minor := 0
  patch := 0
  prerelease := [.alphanumeric ⟨"alpha".toList, List.all_eq_true.mp (by decide), 'a', by decide, rfl⟩, .numeric n]
  build := []

/-- `1.0.0-alpha.10` is above `1.0.0-alpha.9`, and comes before it as a text. -/
theorem alpha_10_not_above_alpha_9 : (alpha 10).text = "1.0.0-alpha.10" ∧ (alpha 9).text = "1.0.0-alpha.9" ∧
    ¬ TargetsByPrecedence (fun _ => none) (alpha 10) (alpha 9) := by
  refine ⟨by decide +kernel, by decide +kernel, ?_⟩
  rintro ⟨hGt, _⟩
  have hText : applyOperator (fun _ => none) .semverGt (some (.str (alpha 10).text)) [.str (alpha 9).text] = false := by
    decide +kernel
  rw [hText] at hGt
  exact Bool.false_ne_true (hGt.mpr (by decide +kernel))

end Flagship.Core
