import Mathlib.Order.Lattice
import Mathlib.Data.List.Induction

/-! # A register that only moves forward

Of the values offered to it, one by one, the register keeps each that ranks strictly above the
one it holds. What it ends up with is the first value of greatest rank; where values of one rank
are one value, the order of the offers does not matter.
-/

namespace Flagship.Lib

variable {α κ : Type*} [LinearOrder κ] (rank : α → κ)

def isNewer (held : Option α) (next : α) : Bool := held.all fun current => rank current < rank next

def offer (held : Option α) (next : α) : Option α := if isNewer rank held next then some next else held

def newest (offered : List α) : Option α := offered.foldl (offer rank) none

/-- Which of the offers are taken, starting from what is held. -/
def verdicts : Option α → List α → List Bool
  | _, [] => []
  | held, next :: rest => isNewer rank held next :: verdicts (offer rank held next) rest

/-- The first of the values whose rank is the greatest. -/
def IsNewest (values : List α) (found : α) : Prop :=
  ∃ before after, values = before ++ found :: after ∧ (∀ value ∈ before, rank value < rank found) ∧
    ∀ value ∈ after, rank value ≤ rank found

variable {rank} {values : List α} {found next : α}

theorem newest_append_singleton (values : List α) (next : α) :
    newest rank (values ++ [next]) = offer rank (newest rank values) next := by
  rw [newest, List.foldl_append, List.foldl_cons, List.foldl_nil, newest]

theorem verdicts_getElem (held : Option α) (before : List α) (next : α) (after : List α) :
    (verdicts rank held (before ++ next :: after))[before.length]? =
      some (isNewer rank (before.foldl (offer rank) held) next) := by
  induction before generalizing held with
  | nil => rfl
  | cons first rest ih => exact ih (offer rank held first)

theorem foldl_offer_newest (offered more : List α) :
    more.foldl (offer rank) (newest rank offered) = newest rank (offered ++ more) := by
  rw [newest, newest, List.foldl_append]

theorem IsNewest.mem (h : IsNewest rank values found) : found ∈ values := by
  obtain ⟨before, after, rfl, _, _⟩ := h
  exact List.mem_append_right _ List.mem_cons_self

theorem IsNewest.le (h : IsNewest rank values found) : ∀ value ∈ values, rank value ≤ rank found := by
  obtain ⟨before, after, rfl, hBefore, hAfter⟩ := h
  intro value hMem
  rcases List.mem_append.mp hMem with hMem | hMem
  · exact (hBefore value hMem).le
  · rcases List.mem_cons.mp hMem with rfl | hMem
    · exact le_refl _
    · exact hAfter value hMem

theorem isNewer_of_isNewest (h : IsNewest rank values found) :
    isNewer rank (some found) next = true ↔ ∀ value ∈ values, rank value < rank next := by
  rw [isNewer, Option.all_some, decide_eq_true_eq]
  constructor
  · intro hNewer value hMem
    exact (h.le value hMem).trans_lt hNewer
  · intro hAll
    exact hAll found h.mem

/-- One offer keeps the register at the first greatest of what was offered so far. -/
theorem newest_spec (rank : α → κ) (values : List α) :
    (values = [] ∧ newest rank values = none) ∨
      ∃ found, newest rank values = some found ∧ IsNewest rank values found := by
  induction values using List.reverseRecOn with
  | nil => exact Or.inl ⟨rfl, rfl⟩
  | append_singleton values next ih =>
    right
    rw [newest_append_singleton]
    rcases ih with ⟨rfl, hNone⟩ | ⟨held, hHeld, hNewest⟩
    · rw [hNone]
      exact ⟨next, rfl, [], [], rfl, by simp, by simp⟩
    · rw [hHeld, offer]
      split
      · rename_i hNewer
        refine ⟨next, rfl, values, [], rfl, ?_, by simp⟩
        exact (isNewer_of_isNewest hNewest).mp hNewer
      · rename_i hOld
        rw [isNewer, Option.all_some, decide_eq_true_eq, not_lt] at hOld
        obtain ⟨before, after, rfl, hBefore, hAfter⟩ := hNewest
        refine ⟨held, rfl, before, after ++ [next], by simp, hBefore, ?_⟩
        intro value hMem
        rcases List.mem_append.mp hMem with hMem | hMem
        · exact hAfter value hMem
        · obtain rfl := List.mem_singleton.mp hMem
          exact hOld

theorem isNewest_of_newest (h : newest rank values = some found) : IsNewest rank values found := by
  rcases newest_spec rank values with ⟨_, hNone⟩ | ⟨held, hHeld, hNewest⟩
  · rw [hNone] at h
    cases h
  · rw [hHeld] at h
    obtain rfl := Option.some.inj h
    exact hNewest

theorem foldl_offer_of_le {after : List α} (hAfter : ∀ value ∈ after, rank value ≤ rank found) :
    after.foldl (offer rank) (some found) = some found := by
  induction after with
  | nil => rfl
  | cons next rest ih =>
    have hOld : isNewer rank (some found) next = false := by
      rw [isNewer, Option.all_some, decide_eq_false_iff_not, not_lt]
      exact hAfter next List.mem_cons_self
    rw [List.foldl_cons, offer, hOld]
    exact ih fun value hMem => hAfter value (List.mem_cons_of_mem _ hMem)

/-- An offer is taken exactly at the strict maxima, read from the left. -/
theorem isNewer_newest_iff :
    isNewer rank (newest rank values) next = true ↔ ∀ value ∈ values, rank value < rank next := by
  rcases newest_spec rank values with ⟨rfl, hNone⟩ | ⟨held, hHeld, hNewest⟩
  · rw [hNone]
    simp [isNewer]
  · rw [hHeld]
    exact isNewer_of_isNewest hNewest

theorem newest_of_isNewest (h : IsNewest rank values found) : newest rank values = some found := by
  obtain ⟨before, after, rfl, hBefore, hAfter⟩ := h
  rw [← foldl_offer_newest, List.foldl_cons, offer, isNewer_newest_iff.mpr hBefore]
  exact foldl_offer_of_le hAfter

theorem newest_confluent {values' : List α} (hSame : ∀ value, value ∈ values ↔ value ∈ values')
    (hOne : ∀ a ∈ values, ∀ b ∈ values, rank a = rank b → a = b) : newest rank values = newest rank values' := by
  rcases newest_spec rank values with ⟨rfl, hNone⟩ | ⟨held, hHeld, hNewest⟩
  · have hEmpty : values' = [] := List.eq_nil_iff_forall_not_mem.mpr fun value hMem =>
      absurd ((hSame value).mpr hMem) List.not_mem_nil
    rw [hNone, hEmpty]
    rfl
  · rcases newest_spec rank values' with ⟨rfl, _⟩ | ⟨held', hHeld', hNewest'⟩
    · exact absurd ((hSame held).mp hNewest.mem) List.not_mem_nil
    · have hMem' := (hSame held').mpr hNewest'.mem
      have hRank : rank held = rank held' :=
        le_antisymm (hNewest'.le held ((hSame held).mp hNewest.mem)) (hNewest.le held' hMem')
      rw [hHeld, hHeld', hOne held hNewest.mem held' hMem' hRank]

theorem newest_le {held : α} (more : List α) (hHeld : newest rank values = some held) :
    ∃ held', newest rank (values ++ more) = some held' ∧ rank held ≤ rank held' := by
  rcases newest_spec rank (values ++ more) with ⟨hEmpty, _⟩ | ⟨held', hHeld', hNewest⟩
  · obtain ⟨rfl, _⟩ := List.append_eq_nil_iff.mp hEmpty
    cases hHeld
  · exact ⟨held', hHeld', hNewest.le held (List.mem_append_left _ (isNewest_of_newest hHeld).mem)⟩

end Flagship.Lib
