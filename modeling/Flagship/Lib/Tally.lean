import Mathlib.Algebra.BigOperators.Group.List.Basic
import Mathlib.Algebra.Order.BigOperators.Group.List
import Mathlib.Algebra.Order.Ring.Nat
import Mathlib.Data.List.Perm.Subperm

/-! # Weighed lists

The weight of a list when one of its entries is replaced in place, and what is left of the entries
that satisfy a test when the replaced one no longer does.
-/

namespace Flagship.Lib

variable {α β : Type*}

def tally (weight : α → ℕ) (entries : List α) : ℕ := (entries.map weight).sum

variable {weight : α → ℕ} {entries : List α} {i : ℕ} {entry : α}

@[simp] theorem tally_nil : tally weight [] = 0 := rfl

@[simp] theorem tally_append (weight : α → ℕ) (entries entries' : List α) :
    tally weight (entries ++ entries') = tally weight entries + tally weight entries' := by
  simp [tally]

@[simp] theorem tally_singleton (weight : α → ℕ) (entry : α) : tally weight [entry] = weight entry := by
  simp [tally]

/-- Both sides have the weight of the other entries and of both versions of this one. -/
theorem tally_set (weight : α → ℕ) (hEntry : entries[i]? = some entry) (entry' : α) :
    tally weight (entries.set i entry') + weight entry = tally weight entries + weight entry' := by
  induction entries generalizing i with
  | nil => simp at hEntry
  | cons first rest ih =>
    cases i with
    | zero =>
      obtain rfl : first = entry := by simpa using hEntry
      simp only [tally, List.set_cons_zero, List.map_cons, List.sum_cons]
      omega
    | succ i =>
      have hRest := ih (by simpa using hEntry)
      simp only [tally, List.set_cons_succ, List.map_cons, List.sum_cons] at hRest ⊢
      omega

theorem tally_eq_of_forall {weight' : α → ℕ} (h : ∀ entry ∈ entries, weight entry = weight' entry) :
    tally weight entries = tally weight' entries := by
  rw [tally, tally, List.map_congr_left h]

theorem tally_le_of_forall {weight' : α → ℕ} (h : ∀ entry ∈ entries, weight entry ≤ weight' entry) :
    tally weight entries ≤ tally weight' entries := List.sum_le_sum h

theorem tally_add (weight weight' : α → ℕ) (entries : List α) :
    tally (fun entry => weight entry + weight' entry) entries = tally weight entries + tally weight' entries :=
  List.sum_map_add

theorem tally_flatten (weight : α → ℕ) (lists : List (List α)) :
    tally weight lists.flatten = tally (tally weight) lists := by
  induction lists with
  | nil => rfl
  | cons first rest ih =>
    rw [List.flatten_cons, tally_append, ih]
    rfl

theorem tally_flatMap (weight : β → ℕ) (f : α → List β) (entries : List α) :
    tally weight (entries.flatMap f) = tally (fun entry => tally weight (f entry)) entries := by
  rw [List.flatMap, tally_flatten, tally, tally, List.map_map]
  rfl

theorem tally_le_of_sublist {entries' : List α} (h : entries.Sublist entries') :
    tally weight entries ≤ tally weight entries' :=
  (h.map weight).sum_le_sum fun _ _ => Nat.zero_le _

theorem tally_le_of_subset {entries' : List α} (hNodup : entries.Nodup) (hSubset : entries ⊆ entries') :
    tally weight entries ≤ tally weight entries' := by
  obtain ⟨chosen, hPerm, hSublist⟩ := List.subperm_of_subset hNodup hSubset
  calc
    tally weight entries = tally weight chosen := (hPerm.map weight).sum_eq.symm
    _ ≤ tally weight entries' := tally_le_of_sublist hSublist

/-- An entry at every place is every entry. -/
theorem tally_range (weight : Option α → ℕ) (entries : List α) :
    tally (fun i => weight entries[i]?) (List.range entries.length) =
      tally (fun entry => weight (some entry)) entries := by
  have hSame : (List.range entries.length).map (fun i => weight entries[i]?) =
      entries.map fun entry => weight (some entry) := by
    refine List.ext_getElem (by simp) fun i hLeft hRight => ?_
    simp only [List.getElem_map, List.getElem_range]
    rw [List.getElem?_eq_getElem]
  rw [tally, tally, hSame]

theorem length_eq_tally (entries : List α) : entries.length = tally (fun _ => 1) entries := by
  rw [tally, List.map_const', List.sum_replicate_nat, Nat.mul_one]

theorem count_eq_tally [DecidableEq α] (entry : α) (entries : List α) :
    entries.count entry = tally (fun other => if other = entry then 1 else 0) entries := by
  induction entries with
  | nil => rfl
  | cons first rest ih =>
    rw [List.count_cons, ih]
    simp only [tally, List.map_cons, List.sum_cons, beq_iff_eq]
    omega

theorem map_set_same (f : α → β) (hEntry : entries[i]? = some entry) {entry' : α} (hSame : f entry' = f entry) :
    (entries.set i entry').map f = entries.map f := by
  rw [List.map_set, hSame]
  refine List.ext_getElem? fun j => ?_
  rw [List.getElem?_set, List.getElem?_map]
  split
  · rename_i hHere
    rw [← hHere, hEntry]
    simp [(List.getElem?_eq_some_iff.mp hEntry).1]
  · rfl

/-- Where an entry is dropped from a selection, the selection loses the one at its place. -/
theorem filter_set_eraseIdx {p : α → Bool} (hEntry : entries[i]? = some entry) (hSelected : p entry = true)
    {entry' : α} (hDropped : p entry' = false) :
    (entries.set i entry').filter p = (entries.filter p).eraseIdx ((entries.take i).countP p) ∧
      (entries.filter p)[(entries.take i).countP p]? = some entry := by
  induction entries generalizing i with
  | nil => simp at hEntry
  | cons first rest ih =>
    cases i with
    | zero =>
      obtain rfl : first = entry := by simpa using hEntry
      simp [hSelected, hDropped]
    | succ i =>
      have hRest := ih (by simpa using hEntry)
      by_cases hFirst : p first = true
      · simpa [hFirst] using hRest
      · simpa [hFirst] using hRest

/-- An entry that drops out of a selection is one that can be erased from it. -/
theorem filter_set_perm_erase [BEq β] [LawfulBEq β] {p : α → Bool} (f : α → β) (hEntry : entries[i]? = some entry)
    (hSelected : p entry = true) {entry' : α} (hDropped : p entry' = false) :
    ((entries.set i entry').filter p |>.map f).Perm (((entries.filter p).map f).erase (f entry)) := by
  have hCons : ((entries.filter p).map f).Perm (f entry :: ((entries.set i entry').filter p).map f) := by
    induction entries generalizing i with
    | nil => simp at hEntry
    | cons first rest ih =>
      cases i with
      | zero =>
        obtain rfl : first = entry := by simpa using hEntry
        simp [hSelected, hDropped]
      | succ i =>
        have hRest := ih (by simpa using hEntry)
        rw [List.set_cons_succ]
        by_cases hFirst : p first = true
        · rw [List.filter_cons_of_pos hFirst, List.filter_cons_of_pos hFirst]
          exact (hRest.cons _).trans (List.Perm.swap _ _ _)
        · rw [List.filter_cons_of_neg hFirst, List.filter_cons_of_neg hFirst]
          exact hRest
  simpa using (hCons.erase (f entry)).symm

theorem filter_map_set {p : α → Bool} (f : α → β) (hEntry : entries[i]? = some entry) {entry' : α}
    (hSelected : p entry' = p entry) (hSame : f entry' = f entry) :
    ((entries.set i entry').filter p).map f = (entries.filter p).map f := by
  induction entries generalizing i with
  | nil => simp at hEntry
  | cons first rest ih =>
    cases i with
    | zero =>
      obtain rfl : first = entry := by simpa using hEntry
      rw [List.set_cons_zero]
      by_cases hFirst : p first = true
      · rw [List.filter_cons_of_pos hFirst, List.filter_cons_of_pos (hSelected.trans hFirst), List.map_cons,
          List.map_cons, hSame]
      · rw [List.filter_cons_of_neg hFirst, List.filter_cons_of_neg (by rwa [hSelected])]
    | succ i =>
      have hRest := ih (by simpa using hEntry)
      rw [List.set_cons_succ]
      by_cases hFirst : p first = true
      · rw [List.filter_cons_of_pos hFirst, List.filter_cons_of_pos hFirst, List.map_cons, List.map_cons, hRest]
      · rw [List.filter_cons_of_neg hFirst, List.filter_cons_of_neg hFirst, hRest]

end Flagship.Lib
