import Mathlib.Data.List.Nodup
import Mathlib.Data.List.Perm.Basic

/-! # Tables with unique columns

What a uniqueness constraint on some columns of a table says about the rows that a query selects.
-/

namespace Flagship.Lib

variable {α β γ : Type*}

/-- Where pairs are unique, the rows with one first column have their second columns unique. -/
theorem nodup_map_filter {f : α → β} {g : α → γ} {keep : α → Bool} {rows : List α} {first : β}
    (hPairs : (rows.map fun row => (f row, g row)).Nodup) (hKeep : ∀ row, keep row = true → f row = first) :
    ((rows.filter keep).map g).Nodup := by
  refine (hPairs.of_map.filter keep).map_on ?_
  intro row hRow other hOther hSame
  obtain ⟨hMem, hKept⟩ := List.mem_filter.mp hRow
  obtain ⟨hMem', hKept'⟩ := List.mem_filter.mp hOther
  exact List.inj_on_of_nodup_map hPairs hMem hMem'
    (Prod.ext ((hKeep row hKept).trans (hKeep other hKept').symm) hSame)

theorem length_le_one_of_nodup {values : List α} (only : α) (h : values.Nodup)
    (hOnly : ∀ value ∈ values, value = only) : values.length ≤ 1 := by
  rw [List.eq_replicate_of_mem hOnly, List.nodup_replicate] at h
  exact h

theorem length_filter_le_one {f : α → β} {g : α → γ} {keep : α → Bool} {rows : List α} {first : β} {second : γ}
    (hPairs : (rows.map fun row => (f row, g row)).Nodup)
    (hKeep : ∀ row, keep row = true → f row = first ∧ g row = second) : (rows.filter keep).length ≤ 1 := by
  rw [← List.length_map g]
  refine length_le_one_of_nodup second (nodup_map_filter hPairs fun row hKept => (hKeep row hKept).1) ?_
  intro value hValue
  obtain ⟨row, hRow, rfl⟩ := List.mem_map.mp hValue
  exact (hKeep row (List.mem_filter.mp hRow).2).2

theorem filter_eq_singleton [DecidableEq α] {values : List α} {only : α} (h : values.Nodup) (hMem : only ∈ values) :
    values.filter (fun value => decide (value = only)) = [only] := by
  rw [List.filter_eq, List.count_eq_one_of_mem h hMem]
  rfl

/-- A join that finds one row for each of the values keeps their keys. -/
theorem map_flatMap_singleton {f : α → List β} {g : β → γ} {h : α → γ} (values : List α)
    (hOne : ∀ value, ∃ row, f value = [row] ∧ g row = h value) : (values.flatMap f).map g = values.map h := by
  induction values with
  | nil => rfl
  | cons value rest ih =>
    obtain ⟨row, hRow, hKey⟩ := hOne value
    rw [List.flatMap_cons, hRow, List.map_append, ih, List.map_cons, List.map_cons, List.map_nil, hKey]
    rfl

end Flagship.Lib
