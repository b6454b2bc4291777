import Mathlib.Data.List.Basic

/-! # Guard sets of a recursion over keys

A recursion that refuses the keys on its own path, kept as a list in the order they were
entered, goes no deeper than the number of keys it could still enter.
-/

namespace Flagship.Lib

variable {κ : Type*} [DecidableEq κ]

def fresh (known seen : List κ) : Nat := (known.filter (· ∉ seen)).length

theorem fresh_le (known seen : List κ) : fresh known seen ≤ known.length := List.length_filter_le _ _

theorem fresh_append_lt {known seen : List κ} {key : κ} (hKnown : key ∈ known) (hNew : key ∉ seen) :
    fresh known (seen ++ [key]) < fresh known seen := by
  have hShrinks : known.filter (· ∉ seen ++ [key]) = (known.filter (· ∉ seen)).filter (· ≠ key) := by
    rw [List.filter_filter]
    apply List.filter_congr
    intro other _
    simp [and_comm]
  rw [fresh, fresh, hShrinks, List.length_filter_lt_length_iff_exists]
  refine ⟨key, ?_, by simp⟩
  exact List.mem_filter.mpr ⟨hKnown, by simpa using hNew⟩

theorem erase_append_singleton {seen : List κ} {key : κ} (hNew : key ∉ seen) : (seen ++ [key]).erase key = seen := by
  rw [List.erase_append_right _ hNew, List.erase_cons_head, List.append_nil]

end Flagship.Lib
