import Flagship.Lib.Identity
import Mathlib.Data.Char
import Mathlib.Data.List.Lex

/-! # Semantic versions

Versions of the second edition of the standard, the text of each, and which of two has the
higher precedence. Comparing the dotted identifiers of prereleases as one text gives another
order, and the place where it goes wrong is the first identifier that differs.
-/

namespace Flagship.Lib

namespace SemanticVersion

/-- `[0-9A-Za-z-]` -/
def isIdentifierChar (c : Char) : Bool := c.isAlphanum || c == '-'

/-- An identifier that is not a number: some character of it is not a digit. -/
structure Alphanumeric where
  chars : List Char
  allowed : ∀ c ∈ chars, isIdentifierChar c = true
  nonDigit : ∃ c ∈ chars, c.isDigit = false
deriving DecidableEq

/-- Numbers are written without leading zeros, so a number has one text. -/
inductive Identifier where
  | numeric (value : ℕ)
  | alphanumeric (name : Alphanumeric)
deriving DecidableEq

/-- Build metadata may have leading zeros, and is never empty. -/
structure BuildIdentifier where
  chars : List Char
  allowed : ∀ c ∈ chars, isIdentifierChar c = true
  nonempty : chars ≠ []

def Identifier.chars : Identifier → List Char
  | numeric value => value.repr.toList
  | alphanumeric name => name.chars

/-- Parts with a dot before each. -/
def dots (parts : List (List Char)) : List Char := parts.flatMap fun part => '.' :: part

/-- Parts with a dot between them, after a mark; nothing where there are none. -/
def marked (mark : Char) : List (List Char) → List Char
  | [] => []
  | part :: rest => mark :: (part ++ dots rest)

end SemanticVersion

open SemanticVersion

structure SemanticVersion where
  major : ℕ
  minor : ℕ
  patch : ℕ
  prerelease : List Identifier
  build : List BuildIdentifier

namespace SemanticVersion

def text (version : SemanticVersion) : String :=
  String.ofList (version.major.repr.toList ++ '.' :: (version.minor.repr.toList ++ '.' :: (version.patch.repr.toList ++
    (marked '-' (version.prerelease.map Identifier.chars) ++ marked '+' (version.build.map BuildIdentifier.chars)))))

/-! ## Precedence -/

/-- The order of two texts by their characters. -/
def textOrder (u v : List Char) : Ordering := if u = v then .eq else if u < v then .lt else .gt

/-- Numbers by their value and below every other identifier, the others by their characters. -/
def Identifier.compare : Identifier → Identifier → Ordering
  | numeric m, numeric n => Ord.compare m n
  | numeric _, alphanumeric _ => .lt
  | alphanumeric _, numeric _ => .gt
  | alphanumeric u, alphanumeric v => textOrder u.chars v.chars

def compareIdentifiers : List Identifier → List Identifier → Ordering
  | [], [] => .eq
  | [], _ :: _ => .lt
  | _ :: _, [] => .gt
  | x :: xs, y :: ys => (x.compare y).then (compareIdentifiers xs ys)

/-- A version without identifiers is the release itself, above all of its prereleases. -/
def comparePrerelease : List Identifier → List Identifier → Ordering
  | [], [] => .eq
  | [], _ :: _ => .gt
  | _ :: _, [] => .lt
  | x :: xs, y :: ys => compareIdentifiers (x :: xs) (y :: ys)

/-- Build metadata has no part in it. -/
def precedence (a b : SemanticVersion) : Ordering :=
  (Ord.compare a.major b.major).then ((Ord.compare a.minor b.minor).then
    ((Ord.compare a.patch b.patch).then (comparePrerelease a.prerelease b.prerelease)))

/-! ## Texts -/

theorem textOrder_self (u : List Char) : textOrder u u = .eq := if_pos rfl

theorem textOrder_nil_cons (c : Char) (v : List Char) : textOrder [] (c :: v) = .lt := by
  rw [textOrder, if_neg (List.cons_ne_nil c v).symm, if_pos (List.nil_lt_cons c v)]

theorem textOrder_cons_nil (c : Char) (u : List Char) : textOrder (c :: u) [] = .gt := by
  rw [textOrder, if_neg (List.cons_ne_nil c u), if_neg (List.not_lt_nil _)]

theorem textOrder_cons_self (c : Char) (u v : List Char) : textOrder (c :: u) (c :: v) = textOrder u v := by
  simp [textOrder]

theorem textOrder_cons_of_lt {c d : Char} (h : c < d) (u v : List Char) : textOrder (c :: u) (d :: v) = .lt := by
  have hNe : c ≠ d := ne_of_lt h
  simp [textOrder, List.cons_lt_cons_iff, h, hNe]

theorem textOrder_cons_of_gt {c d : Char} (h : d < c) (u v : List Char) : textOrder (c :: u) (d :: v) = .gt := by
  have hNe : c ≠ d := (ne_of_lt h).symm
  have hNot : ¬ c < d := not_lt_of_gt h
  simp [textOrder, List.cons_lt_cons_iff, hNot, hNe]

theorem textOrder_append (p u v : List Char) : textOrder (p ++ u) (p ++ v) = textOrder u v := by
  induction p with
  | nil => rfl
  | cons c p ih => rw [List.cons_append, List.cons_append, textOrder_cons_self, ih]

theorem textOrder_eq_iff {u v : List Char} : textOrder u v = .eq ↔ u = v := by
  rw [textOrder]
  split
  · simpa
  · rename_i hNe
    split <;> simpa using hNe

theorem textOrder_eq_lt_iff {u v : List Char} : textOrder u v = .lt ↔ u < v := by
  rw [textOrder]
  split
  · rename_i hSame
    rw [hSame]
    simp
  · split
    · simpa
    · rename_i hNot
      exact ⟨fun h => (nomatch h), fun h => absurd h hNot⟩

theorem textOrder_swap (u v : List Char) : (textOrder u v).swap = textOrder v u := by
  by_cases hSame : u = v
  · rw [hSame, textOrder_self]
    rfl
  · obtain hLt | hGt := lt_or_gt_of_ne hSame
    · rw [textOrder, textOrder, if_neg hSame, if_neg (Ne.symm hSame), if_pos hLt, if_neg (not_lt_of_gt hLt)]
      rfl
    · rw [textOrder, textOrder, if_neg hSame, if_neg (Ne.symm hSame), if_pos hGt, if_neg (not_lt_of_gt hGt)]
      rfl

theorem textOrder_eq_gt_iff {u v : List Char} : textOrder u v = .gt ↔ v < u := by
  rw [← textOrder_swap, Ordering.swap_eq_gt, textOrder_eq_lt_iff]

theorem dots_cons (part : List Char) (rest : List (List Char)) :
    dots (part :: rest) = '.' :: (part ++ dots rest) := rfl

/-- A hyphen comes before the dot, and every other identifier character after it. -/
theorem eq_hyphen_or_dot_lt {c : Char} (h : isIdentifierChar c = true) : c = '-' ∨ '.' < c := by
  rw [isIdentifierChar, Bool.or_eq_true, beq_iff_eq] at h
  obtain hAlphanum | rfl := h
  · exact Or.inr (UInt32.lt_of_lt_of_le (by decide : '.'.val < '0'.val) (alphanum_bounds hAlphanum).1)
  · exact Or.inl rfl

/-- The one part is the other up to a hyphen, and something is dotted on. -/
def Undercut (u : List Char) (xs : List (List Char)) (v : List Char) : Prop := xs ≠ [] ∧ u ++ ['-'] <+: v

theorem textOrder_of_undercut {u v : List Char} {xs : List (List Char)} (h : Undercut u xs v) (ys : List (List Char)) :
    textOrder (u ++ dots xs) (v ++ dots ys) = .gt := by
  obtain ⟨hSome, rest, rfl⟩ := h
  cases xs with
  | nil => exact absurd rfl hSome
  | cons x xs =>
    rw [List.append_assoc, List.append_assoc, textOrder_append, dots_cons]
    exact textOrder_cons_of_gt (by decide) _ _

theorem dots_lt {c : Char} (hChar : isIdentifierChar c = true) {xs : List (List Char)} {v : List Char}
    (h : ¬ Undercut [] xs (c :: v)) (w : List Char) : textOrder (dots xs) (c :: w) = .lt := by
  cases xs with
  | nil => exact textOrder_nil_cons c w
  | cons x xs =>
    obtain rfl | hAbove := eq_hyphen_or_dot_lt hChar
    · exact absurd ⟨List.cons_ne_nil x xs, v, rfl⟩ h
    · rw [dots_cons]
      exact textOrder_cons_of_lt hAbove _ _

/-- What is dotted on has no say in the order of two parts that differ, undercutting apart. -/
theorem textOrder_dots {u v : List Char} (hU : ∀ c ∈ u, isIdentifierChar c = true)
    (hV : ∀ c ∈ v, isIdentifierChar c = true) (hNe : u ≠ v) {xs ys : List (List Char)} (hFirst : ¬ Undercut u xs v)
    (hSecond : ¬ Undercut v ys u) : textOrder (u ++ dots xs) (v ++ dots ys) = textOrder u v := by
  induction u generalizing v with
  | nil =>
    cases v with
    | nil => exact absurd rfl hNe
    | cons c v =>
      rw [textOrder_nil_cons]
      exact dots_lt (hV c List.mem_cons_self) hFirst _
  | cons c u ih =>
    cases v with
    | nil =>
      rw [textOrder_cons_nil, ← textOrder_swap]
      exact congrArg Ordering.swap (dots_lt (hU c List.mem_cons_self) hSecond _)
    | cons d v =>
      rw [List.cons_append, List.cons_append]
      obtain hLt | rfl | hGt := lt_trichotomy c d
      · rw [textOrder_cons_of_lt hLt, textOrder_cons_of_lt hLt]
      · rw [textOrder_cons_self, textOrder_cons_self]
        apply ih
        · exact fun e hMem => hU e (List.mem_cons_of_mem _ hMem)
        · exact fun e hMem => hV e (List.mem_cons_of_mem _ hMem)
        · exact fun hSame => hNe (congrArg (c :: ·) hSame)
        · exact fun h => hFirst ⟨h.1, List.cons_prefix_cons.mpr ⟨rfl, h.2⟩⟩
        · exact fun h => hSecond ⟨h.1, List.cons_prefix_cons.mpr ⟨rfl, h.2⟩⟩
      · rw [textOrder_cons_of_gt hGt, textOrder_cons_of_gt hGt]

/-! ## Identifiers -/

theorem isDigit_of_mem_repr {n : ℕ} {c : Char} (h : c ∈ n.repr.toList) : c.isDigit = true := by
  rw [Nat.toList_repr] at h
  exact Nat.isDigit_of_mem_toDigits (by decide) (by decide) h

theorem repr_ne_nil (n : ℕ) : n.repr.toList ≠ [] := by
  rw [Nat.toList_repr]
  exact List.ne_nil_of_length_pos Nat.length_toDigits_pos

theorem Identifier.allowed (x : Identifier) : ∀ c ∈ x.chars, isIdentifierChar c = true := by
  cases x with
  | numeric n =>
    intro c hMem
    simp [isIdentifierChar, Char.isAlphanum, isDigit_of_mem_repr hMem]
  | alphanumeric name => exact name.allowed

theorem Identifier.chars_ne_nil (x : Identifier) : x.chars ≠ [] := by
  cases x with
  | numeric n => exact repr_ne_nil n
  | alphanumeric name =>
    obtain ⟨c, hMem, _⟩ := name.nonDigit
    exact List.ne_nil_of_mem hMem

theorem Alphanumeric.chars_ne_repr (name : Alphanumeric) (n : ℕ) : name.chars ≠ n.repr.toList := by
  intro hSame
  obtain ⟨c, hMem, hNot⟩ := name.nonDigit
  rw [hSame] at hMem
  rw [isDigit_of_mem_repr hMem] at hNot
  cases hNot

theorem Identifier.chars_injective : Function.Injective Identifier.chars := by
  intro x y h
  cases x with
  | numeric m =>
    cases y with
    | numeric n => exact congrArg numeric (repr_injective (String.toList_inj.mp h))
    | alphanumeric name => exact absurd h.symm (name.chars_ne_repr m)
  | alphanumeric u =>
    cases y with
    | numeric n => exact absurd h (u.chars_ne_repr n)
    | alphanumeric v =>
      obtain ⟨chars, _, _⟩ := u
      obtain ⟨_, _, _⟩ := v
      obtain rfl : chars = _ := h
      rfl

theorem Identifier.compare_eq_iff {x y : Identifier} : x.compare y = .eq ↔ x = y := by
  cases x with
  | numeric m =>
    cases y with
    | numeric n => simp [Identifier.compare]
    | alphanumeric name => simp [Identifier.compare]
  | alphanumeric u =>
    cases y with
    | numeric n => simp [Identifier.compare]
    | alphanumeric v =>
      rw [Identifier.compare, textOrder_eq_iff]
      exact Identifier.chars_injective.eq_iff (a := alphanumeric u) (b := alphanumeric v)

theorem Identifier.compare_swap (x y : Identifier) : (x.compare y).swap = y.compare x := by
  cases x with
  | numeric m =>
    cases y with
    | numeric n => exact Nat.compare_swap m n
    | alphanumeric name => rfl
  | alphanumeric u =>
    cases y with
    | numeric n => rfl
    | alphanumeric v => exact textOrder_swap u.chars v.chars

/-- The texts of two identifiers are in the order of the identifiers. -/
def KeepsOrder : Identifier → Identifier → Prop
  | .numeric m, .numeric n => m < n ↔ m.repr.toList < n.repr.toList
  | .numeric m, .alphanumeric v => m.repr.toList < v.chars
  | .alphanumeric u, .numeric n => n.repr.toList < u.chars
  | .alphanumeric _, .alphanumeric _ => True

theorem keepsOrder_iff {x y : Identifier} (hNe : x ≠ y) : textOrder x.chars y.chars = x.compare y ↔ KeepsOrder x y := by
  have hChars : x.chars ≠ y.chars := fun hSame => hNe (Identifier.chars_injective hSame)
  cases x with
  | numeric m =>
    cases y with
    | numeric n =>
      obtain hLt | hGt := Nat.lt_or_gt_of_ne fun hSame => hNe (congrArg Identifier.numeric hSame)
      · rw [Identifier.compare, Nat.compare_eq_lt.mpr hLt, textOrder_eq_lt_iff]
        exact ⟨fun h => ⟨fun _ => h, fun _ => hLt⟩, fun h => h.mp hLt⟩
      · have hNotLt : ¬ m < n := Nat.not_lt_of_gt hGt
        rw [Identifier.compare, Nat.compare_eq_gt.mpr hGt, textOrder_eq_gt_iff]
        constructor
        · intro h
          exact ⟨fun hLt => absurd hLt hNotLt, fun hLt => absurd h (not_lt_of_gt hLt)⟩
        · intro h
          obtain hLt | hAbove := lt_or_gt_of_ne hChars
          · exact absurd (h.mpr hLt) hNotLt
          · exact hAbove
    | alphanumeric v => exact textOrder_eq_lt_iff
  | alphanumeric u =>
    cases y with
    | numeric n => exact textOrder_eq_gt_iff
    | alphanumeric v => exact ⟨fun _ => trivial, fun _ => rfl⟩

/-- An undercut part is longer, and has the hyphen that no number has. -/
theorem compare_ne_gt_of_undercut {x y : Identifier} {xs : List (List Char)} (h : Undercut x.chars xs y.chars) :
    x.compare y ≠ .gt := by
  obtain ⟨_, rest, hChars⟩ := h
  have hHyphen : '-' ∈ y.chars := by
    rw [← hChars]
    simp
  cases y with
  | numeric n =>
    have hDigit := isDigit_of_mem_repr hHyphen
    cases hDigit
  | alphanumeric v =>
    cases x with
    | numeric m => exact Ordering.noConfusion
    | alphanumeric u =>
      have hLonger : textOrder u.chars v.chars = .lt := by
        change u.chars ++ ['-'] ++ rest = v.chars at hChars
        rw [← hChars, List.append_assoc]
        have hCancel := textOrder_append u.chars [] (['-'] ++ rest)
        rw [List.append_nil] at hCancel
        exact hCancel.trans (textOrder_nil_cons _ _)
      rw [Identifier.compare, hLonger]
      exact Ordering.noConfusion

/-- Two identifiers that differ, each with what is dotted on. -/
theorem textOrder_identifiers_iff {x y : Identifier} (hNe : x ≠ y) (xs ys : List (List Char)) :
    textOrder (x.chars ++ dots xs) (y.chars ++ dots ys) = x.compare y ↔
      KeepsOrder x y ∧ ¬ Undercut x.chars xs y.chars ∧ ¬ Undercut y.chars ys x.chars := by
  have hChars : x.chars ≠ y.chars := fun hSame => hNe (Identifier.chars_injective hSame)
  by_cases hFirst : Undercut x.chars xs y.chars
  · rw [textOrder_of_undercut hFirst]
    constructor
    · intro h
      exact absurd h.symm (compare_ne_gt_of_undercut hFirst)
    · rintro ⟨_, hNot, _⟩
      exact absurd hFirst hNot
  · by_cases hSecond : Undercut y.chars ys x.chars
    · rw [← textOrder_swap, textOrder_of_undercut hSecond, ← Identifier.compare_swap]
      constructor
      · intro h
        exact absurd (Ordering.swap_inj.mp h).symm (compare_ne_gt_of_undercut hSecond)
      · rintro ⟨_, _, hNot⟩
        exact absurd hSecond hNot
    · rw [textOrder_dots x.allowed y.allowed hChars hFirst hSecond, keepsOrder_iff hNe]
      exact ⟨fun h => ⟨h, hFirst, hSecond⟩, fun h => h.1⟩

/-! ## Identifiers one by one and as one text -/

/-- Identifiers with a dot between them. -/
def joined : List Identifier → List Char
  | [] => []
  | x :: xs => x.chars ++ dots (xs.map Identifier.chars)

/-- At the first identifier that differs, the text keeps the order: the texts of the two are in
the order of the two, and neither is the other up to a hyphen with more identifiers to follow. -/
def TextFollows : List Identifier → List Identifier → Prop
  | x :: xs, y :: ys =>
    if x = y then TextFollows xs ys
    else KeepsOrder x y ∧ ¬ Undercut x.chars (xs.map Identifier.chars) y.chars ∧
      ¬ Undercut y.chars (ys.map Identifier.chars) x.chars
  | [], _ | _, [] => True

theorem dots_identifiers (x : Identifier) (xs : List Identifier) :
    dots ((x :: xs).map Identifier.chars) = '.' :: joined (x :: xs) := rfl

theorem textFollows_of_ne {x y : Identifier} (hNe : x ≠ y) (xs ys : List Identifier) :
    textOrder (joined (x :: xs)) (joined (y :: ys)) = compareIdentifiers (x :: xs) (y :: ys) ↔
      TextFollows (x :: xs) (y :: ys) := by
  have hFirst : compareIdentifiers (x :: xs) (y :: ys) = x.compare y := by
    rw [compareIdentifiers]
    cases hOrder : x.compare y with
    | eq => exact absurd (Identifier.compare_eq_iff.mp hOrder) hNe
    | lt => rfl
    | gt => rfl
  rw [hFirst, TextFollows, if_neg hNe]
  exact textOrder_identifiers_iff hNe _ _

theorem textFollows_of_same (x : Identifier) {xs ys : List Identifier}
    (hRest : textOrder (dots (xs.map Identifier.chars)) (dots (ys.map Identifier.chars)) = compareIdentifiers xs ys ↔
      TextFollows xs ys) :
    textOrder (joined (x :: xs)) (joined (x :: ys)) = compareIdentifiers (x :: xs) (x :: ys) ↔
      TextFollows (x :: xs) (x :: ys) := by
  rw [joined, joined, textOrder_append, compareIdentifiers, Identifier.compare_eq_iff.mpr rfl, TextFollows, if_pos rfl]
  exact hRest

theorem textOrder_joined_iff (x y : Identifier) (xs ys : List Identifier) :
    textOrder (joined (x :: xs)) (joined (y :: ys)) = compareIdentifiers (x :: xs) (y :: ys) ↔
      TextFollows (x :: xs) (y :: ys) := by
  by_cases hSame : x = y
  · subst hSame
    apply textFollows_of_same
    induction xs generalizing x ys with
    | nil =>
      cases ys with
      | nil => simp [TextFollows, dots, compareIdentifiers, textOrder_self]
      | cons y ys => simp [TextFollows, dots, compareIdentifiers, textOrder_nil_cons]
    | cons x' xs ih =>
      cases ys with
      | nil => simp [TextFollows, dots, compareIdentifiers, textOrder_cons_nil]
      | cons y ys =>
        rw [dots_identifiers, dots_identifiers, textOrder_cons_self]
        by_cases hSame : x' = y
        · subst hSame
          exact textFollows_of_same x' (ih x' ys)
        · exact textFollows_of_ne hSame xs ys
  · exact textFollows_of_ne hSame xs ys

end SemanticVersion

end Flagship.Lib
