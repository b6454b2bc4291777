import Mathlib.Data.Finset.Card
import Mathlib.Data.List.Basic

/-! # Keys that identify

A text cut at the first or the last separator in it determines both parts, and the characters of
keys are within bounds that separators are not in. Counting distinct keys counts the things they are
keys of as soon as no two of them share one.
-/

namespace Flagship.Lib

theorem nil_of_cons_eq_append {α : Type*} {after after' between : List α} {a : α} (hAfter : a ∉ after)
    (h : a :: after = between ++ a :: after') : between = [] ∧ after = after' := by
  cases between with
  | nil => exact ⟨rfl, List.tail_eq_of_cons_eq h⟩
  | cons b rest =>
    rw [List.tail_eq_of_cons_eq h] at hAfter
    exact absurd (List.mem_append_right rest List.mem_cons_self) hAfter

/-- Texts are cut alike at the last place where the separator stands. -/
theorem append_cons_inj_of_notMem_after {α : Type*} {before before' after after' : List α} {a : α}
    (hAfter : a ∉ after) (hAfter' : a ∉ after') (h : before ++ a :: after = before' ++ a :: after') :
    before = before' ∧ after = after' := by
  rcases List.append_eq_append_iff.mp h with ⟨between, rfl, hRest⟩ | ⟨between, rfl, hRest⟩
  · obtain ⟨rfl, rfl⟩ := nil_of_cons_eq_append hAfter hRest
    exact ⟨(List.append_nil before).symm, rfl⟩
  · obtain ⟨rfl, rfl⟩ := nil_of_cons_eq_append hAfter' hRest
    exact ⟨List.append_nil before', rfl⟩

/-- Texts are cut alike at the first place where the separator stands. -/
theorem append_cons_inj_of_notMem_before {α : Type*} {before before' after after' : List α} {a : α}
    (hBefore : a ∉ before) (hBefore' : a ∉ before') (h : before ++ a :: after = before' ++ a :: after') :
    before = before' ∧ after = after' := by
  have hReversed := congrArg List.reverse h
  rw [List.reverse_append, List.reverse_cons, List.append_assoc, List.reverse_append, List.reverse_cons,
    List.append_assoc] at hReversed
  obtain ⟨hAfter, hSame⟩ := append_cons_inj_of_notMem_after (List.mem_reverse.not.mpr hBefore)
    (List.mem_reverse.not.mpr hBefore') hReversed
  exact ⟨List.reverse_injective hSame, List.reverse_injective hAfter⟩

theorem alphanum_bounds {c : Char} (h : c.isAlphanum = true) : '0'.val ≤ c.val ∧ c.val ≤ 'z'.val := by
  obtain hAlpha | hDigit := Bool.or_eq_true_iff.mp h
  · obtain hUpper | hLower := Bool.or_eq_true_iff.mp hAlpha
    · obtain ⟨hFirst, hLast⟩ := of_decide_eq_true hUpper
      exact ⟨UInt32.le_trans (by decide) hFirst, UInt32.le_trans hLast (by decide)⟩
    · obtain ⟨hFirst, hLast⟩ := Bool.and_eq_true_iff.mp hLower
      exact ⟨UInt32.le_trans (by decide) (of_decide_eq_true hFirst), of_decide_eq_true hLast⟩
  · obtain ⟨hFirst, hLast⟩ := Bool.and_eq_true_iff.mp hDigit
    exact ⟨of_decide_eq_true hFirst, UInt32.le_trans (of_decide_eq_true hLast) (by decide)⟩

theorem repr_injective : Function.Injective Nat.repr := by
  intro m n h
  have hDigits : Nat.toDigits 10 m = Nat.toDigits 10 n := by
    simpa using congrArg String.toList h
  rw [← Nat.ofDigitChars_ten_toDigits (n := m), hDigits, Nat.ofDigitChars_ten_toDigits]

/-- The digits hold no separator, so the last separator of the text is the one before them. -/
theorem numbered_inj {separator : Char} (hSeparator : separator.isDigit = false) {a b : String} {m n : ℕ}
    (h : a.toList ++ separator :: m.repr.toList = b.toList ++ separator :: n.repr.toList) : a = b ∧ m = n := by
  have hNotDigit : ∀ k : ℕ, separator ∉ k.repr.toList := by
    intro k hMem
    rw [Nat.toList_repr] at hMem
    rw [Nat.isDigit_of_mem_toDigits (by decide) (by decide) hMem] at hSeparator
    cases hSeparator
  obtain ⟨hBefore, hDigits⟩ := append_cons_inj_of_notMem_after (hNotDigit m) (hNotDigit n) h
  exact ⟨String.toList_inj.mp hBefore, repr_injective (String.toList_inj.mp hDigits)⟩

theorem length_dedup_eq {κ ι : Type*} [DecidableEq κ] [DecidableEq ι] {keys : List κ} {ids : List ι}
    (key : ι → κ) (hKeys : ∀ k, k ∈ keys ↔ ∃ id ∈ ids, key id = k)
    (hIdentifies : Set.InjOn key {id | id ∈ ids}) :
    keys.dedup.length = ids.dedup.length := by
  have hImage : keys.toFinset = ids.toFinset.image key := by
    ext k
    rw [List.mem_toFinset, hKeys, Finset.mem_image]
    simp only [List.mem_toFinset]
  have hInj : Set.InjOn key ids.toFinset := by
    intro id hId id' hId'
    exact hIdentifies (List.mem_toFinset.mp hId) (List.mem_toFinset.mp hId')
  calc keys.dedup.length = keys.toFinset.card := (List.card_toFinset keys).symm
    _ = ids.toFinset.card := by rw [hImage, Finset.card_image_of_injOn hInj]
    _ = ids.dedup.length := List.card_toFinset ids

end Flagship.Lib
