import Mathlib.Algebra.BigOperators.Group.Finset.Piecewise
import Mathlib.Data.Finset.Sort
import Mathlib.Data.List.Perm.Basic

/-! # Grouped answers and rollups

Rows are grouped by a key, and an answer has the groups in the order of their keys. A rollup keeps
for every block of rows one entry a key and merges entries of one key in any order: what it holds
for a set of keys is what the rows that came in weigh.
-/

namespace Flagship.Lib

variable {α β κ M : Type*}

/-! ## Groups in the order of their keys -/

section Groups

variable [LinearOrder κ]

def groupedBy (key : α → κ) (rows : List α) : List (κ × List α) :=
  ((rows.map key).toFinset.sort).map fun k => (k, rows.filter (key · = k))

/-- The answer over one list of rows is that over another with the same keys, where each group
gives the same. -/
theorem map_groupedBy_congr {γ : Type*} {key : α → κ} {key' : β → κ} {rows : List α} {rows' : List β}
    {f : κ × List α → γ} {f' : κ × List β → γ} (hKeys : ∀ k, k ∈ rows.map key ↔ k ∈ rows'.map key')
    (hGroups : ∀ k ∈ rows.map key, f (k, rows.filter (key · = k)) = f' (k, rows'.filter (key' · = k))) :
    (groupedBy key rows).map f = (groupedBy key' rows').map f' := by
  have hSame : (rows.map key).toFinset = (rows'.map key').toFinset := by
    ext k
    rw [List.mem_toFinset, List.mem_toFinset, hKeys]
  rw [groupedBy, groupedBy, ← hSame, List.map_map, List.map_map]
  refine List.map_congr_left fun k hk => ?_
  rw [Finset.mem_sort, List.mem_toFinset] at hk
  exact hGroups k hk

end Groups

/-! ## Rollups -/

/-- One entry for each key of a block. -/
def rolled [DecidableEq κ] [AddCommMonoid M] (key : α → κ) (weigh : α → M) (block : List α) : List (κ × M) :=
  (block.map key).dedup.map fun k => (k, ((block.filter (key · = k)).map weigh).sum)

/-- The weight of the entries with these keys. -/
def total [AddCommMonoid M] (keep : κ → Bool) (table : List (κ × M)) : M :=
  ((table.filter fun entry => keep entry.1).map Prod.snd).sum

/-- Two entries made one. -/
def mergedAt [Add M] (table : List (κ × M)) (i j : ℕ) : List (κ × M) :=
  match table[i]?, table[j]? with
  | some a, some b => (a.1, a.2 + b.2) :: (table.eraseIdx j).eraseIdx i
  | _, _ => table

variable {key : α → κ} {weigh : α → M} {keep : κ → Bool} {table table' : List (κ × M)} {i j : ℕ}

/-- The table as two of its entries and the rest. -/
theorem perm_of_getElem? {a b : κ × M} (hBefore : i < j) (ha : table[i]? = some a) (hb : table[j]? = some b) :
    table.Perm (a :: b :: (table.eraseIdx j).eraseIdx i) := by
  obtain ⟨hj, rfl⟩ := List.getElem?_eq_some_iff.mp hb
  obtain ⟨hi, rfl⟩ := List.getElem?_eq_some_iff.mp ha
  have hi' : i < (table.eraseIdx j).length := by
    rw [List.length_eraseIdx_of_lt hj]
    omega
  have hFirst : (table.eraseIdx j)[i] = table[i] := List.getElem_eraseIdx_of_lt hi' hBefore
  calc
    table.Perm (table[j] :: table.eraseIdx j) := (List.getElem_cons_eraseIdx_perm hj).symm
    _ |>.Perm (table[j] :: table[i] :: (table.eraseIdx j).eraseIdx i) :=
      (hFirst ▸ (List.getElem_cons_eraseIdx_perm hi').symm).cons _
    _ |>.Perm (table[i] :: table[j] :: (table.eraseIdx j).eraseIdx i) := .swap _ _ _

section Entries

variable [AddCommMonoid M]

theorem total_append (keep : κ → Bool) (table table' : List (κ × M)) :
    total keep (table ++ table') = total keep table + total keep table' := by
  simp [total]

theorem total_perm (h : table.Perm table') : total keep table = total keep table' :=
  ((h.filter _).map _).sum_eq

theorem total_cons (keep : κ → Bool) (entry : κ × M) (table : List (κ × M)) :
    total keep (entry :: table) = (if keep entry.1 then entry.2 else 0) + total keep table := by
  by_cases hKeep : keep entry.1 = true <;> simp [total, hKeep]

theorem mergedAt_eq {a b : κ × M} (ha : table[i]? = some a) (hb : table[j]? = some b) :
    mergedAt table i j = (a.1, a.2 + b.2) :: (table.eraseIdx j).eraseIdx i := by
  rw [mergedAt, ha, hb]

theorem total_mergedAt {a b : κ × M} (hBefore : i < j) (ha : table[i]? = some a) (hb : table[j]? = some b)
    (hSame : a.1 = b.1) : total keep (mergedAt table i j) = total keep table := by
  rw [mergedAt_eq ha hb, total_perm (perm_of_getElem? hBefore ha hb), total_cons, total_cons, total_cons, ← hSame]
  split
  · exact add_assoc _ _ _
  · simp

theorem keys_mergedAt {a b : κ × M} (hBefore : i < j) (ha : table[i]? = some a) (hb : table[j]? = some b)
    (hSame : a.1 = b.1) (k : κ) : k ∈ (mergedAt table i j).map Prod.fst ↔ k ∈ table.map Prod.fst := by
  rw [mergedAt_eq ha hb, ((perm_of_getElem? hBefore ha hb).map Prod.fst).mem_iff]
  simp [← hSame]

/-- Dropping an entry that is not asked for leaves the answer. -/
theorem total_eraseIdx {entry : κ × M} (hEntry : table[i]? = some entry) (hKeep : keep entry.1 = false) :
    total keep (table.eraseIdx i) = total keep table := by
  obtain ⟨hi, rfl⟩ := List.getElem?_eq_some_iff.mp hEntry
  rw [← total_perm (List.getElem_cons_eraseIdx_perm hi), total_cons, hKeep]
  simp

end Entries

section Blocks

variable [DecidableEq κ] [AddCommMonoid M]

theorem keys_rolled (key : α → κ) (weigh : α → M) (block : List α) (k : κ) :
    k ∈ (rolled key weigh block).map Prod.fst ↔ k ∈ block.map key := by
  simp [rolled]

/-- Every row weighs in one group. -/
theorem sum_groups {keys : List κ} (hNodup : keys.Nodup) {rows : List α} (hKeys : ∀ row ∈ rows, key row ∈ keys) :
    (keys.map fun k => ((rows.filter (key · = k)).map weigh).sum).sum = (rows.map weigh).sum := by
  induction rows with
  | nil => simp
  | cons row rest ih =>
    have hRest := ih fun other hOther => hKeys other (List.mem_cons_of_mem row hOther)
    have hGroup : ∀ k, (((row :: rest).filter (key · = k)).map weigh).sum =
        (if key row = k then weigh row else 0) + ((rest.filter (key · = k)).map weigh).sum := by
      intro k
      by_cases hSame : key row = k <;> simp [hSame]
    have hOwn : (keys.map fun k => if key row = k then weigh row else 0).sum = weigh row := by
      rw [← List.sum_toFinset _ hNodup, Finset.sum_ite_eq, if_pos]
      exact List.mem_toFinset.mpr (hKeys row List.mem_cons_self)
    rw [List.map_congr_left fun k _ => hGroup k, List.sum_map_add, hRest, hOwn, List.map_cons, List.sum_cons]

/-- A block is rolled up to what its rows weigh. -/
theorem total_rolled (key : α → κ) (weigh : α → M) (keep : κ → Bool) (block : List α) :
    total keep (rolled key weigh block) = ((block.filter fun row => keep (key row)).map weigh).sum := by
  have hKept : ∀ row ∈ block.filter (fun row => keep (key row)), key row ∈ (block.map key).dedup.filter keep := by
    intro row hRow
    obtain ⟨hMem, hKeep⟩ := List.mem_filter.mp hRow
    exact List.mem_filter.mpr ⟨List.mem_dedup.mpr (List.mem_map_of_mem hMem), hKeep⟩
  rw [← sum_groups ((List.nodup_dedup _).filter _) hKept, total, rolled, List.filter_map, List.map_map]
  refine congrArg List.sum (List.map_congr_left fun k hk => ?_)
  have hKeep : keep k = true := (List.mem_filter.mp hk).2
  rw [List.filter_filter]
  refine congrArg (fun rows => (rows.map weigh).sum) (List.filter_congr fun row _ => ?_)
  by_cases hSame : key row = k <;> simp [hSame, hKeep]

end Blocks

end Flagship.Lib
