import Flagship.Lib.Hereditary
import Mathlib.Data.List.Basic
import Mathlib.Logic.Function.Basic

/-! # Depth-first search for a cycle

The search marks a node while it is on the current path and once it is finished, and gives the
path back when it meets a node that is still on it. `edges` is partial: a node without an entry
is a dead end. A search that comes back empty-handed has shown every node it was started from
to be well founded, which is all its callers rely on.
-/

namespace Flagship.Lib.CycleSearch

variable {κ : Type*}

inductive Mark where
  | visiting | done
deriving DecidableEq

structure Search (κ : Type*) where
  marks : κ → Option Mark
  path : List κ

def Search.start : Search κ := { marks := fun _ => none, path := [] }

def unmarked (known : List κ) (s : Search κ) : List κ := known.filter fun key => decide (s.marks key = none)

def Grows (s s' : Search κ) : Prop := ∀ key, s.marks key ≠ none → s'.marks key ≠ none

theorem Grows.refl (s : Search κ) : Grows s s := fun _ h => h

theorem Grows.trans {s s' s'' : Search κ} (h : Grows s s') (h' : Grows s' s'') : Grows s s'' :=
  fun key hKey => h' key (h key hKey)

theorem Grows.unmarked_length {known : List κ} {s s' : Search κ} (h : Grows s s') :
    (unmarked known s').length ≤ (unmarked known s).length := by
  unfold unmarked
  rw [← List.countP_eq_length_filter, ← List.countP_eq_length_filter]
  apply List.countP_mono_left
  intro key _ hKey
  rw [decide_eq_true_eq] at hKey ⊢
  by_contra hMarked
  exact h key hMarked hKey

variable [DecidableEq κ]

def Search.enter (s : Search κ) (key : κ) : Search κ :=
  { marks := Function.update s.marks key (some .visiting), path := s.path ++ [key] }

def Search.leave (s : Search κ) (key : κ) : Search κ :=
  { marks := Function.update s.marks key (some .done), path := s.path.dropLast }

def visitAll (visit : κ → Search κ → Option (List κ) × Search κ) :
    List κ → Search κ → Option (List κ) × Search κ
  | [], s => (none, s)
  | key :: rest, s =>
    match visit key s with
    | (some found, s) => (some found, s)
    | (none, s) => visitAll visit rest s

section Visit

variable (edges : κ → Option (List κ))

def visit : Nat → κ → Search κ → Option (List κ) × Search κ
  | 0, _, s => (none, s)
  | fuel + 1, key, s =>
    match s.marks key with
    | some .done => (none, s)
    | some .visiting => (some (s.path.drop (s.path.idxOf key) ++ [key]), s)
    | none =>
      match edges key with
      | none => (none, s)
      | some next =>
        match visitAll (visit fuel) next (s.enter key) with
        | (some found, s) => (some found, s)
        | (none, s) => (none, s.leave key)

/-- One level for each node the search can enter, and one to turn back. -/
def findCycle (keys : List κ) : Option (List κ) := (visitAll (visit edges (keys.length + 1)) keys Search.start).1

def Refers (a b : κ) : Prop := ∃ next, edges a = some next ∧ b ∈ next

abbrev Grounded : κ → Prop := Hereditary (fun _ => True) (Refers edges)

def Settled (s : Search κ) : Prop := ∀ key, s.marks key = some .done → Grounded edges key

end Visit

variable {edges : κ → Option (List κ)}

theorem Grows.enter (s : Search κ) (key : κ) : Grows s (s.enter key) := by
  intro other hOther
  by_cases hSame : other = key
  · subst hSame
    simp [Search.enter]
  · simpa [Search.enter, Function.update_of_ne hSame] using hOther

theorem Grows.leave (s : Search κ) (key : κ) : Grows s (s.leave key) := by
  intro other hOther
  by_cases hSame : other = key
  · subst hSame
    simp [Search.leave]
  · simpa [Search.leave, Function.update_of_ne hSame] using hOther

theorem unmarked_enter {known : List κ} {s : Search κ} {key : κ} (hKnown : key ∈ known)
    (hFresh : s.marks key = none) : (unmarked known (s.enter key)).length < (unmarked known s).length := by
  have hShrinks : unmarked known (s.enter key) = (unmarked known s).filter (· ≠ key) := by
    unfold unmarked
    rw [List.filter_filter]
    apply List.filter_congr
    intro other _
    by_cases hSame : other = key
    · subst hSame
      simp [Search.enter]
    · simp [Search.enter, hSame]
  rw [hShrinks, List.length_filter_lt_length_iff_exists]
  refine ⟨key, ?_, by simp⟩
  exact List.mem_filter.mpr ⟨hKnown, by simpa using hFresh⟩

theorem Settled.enter {s : Search κ} (h : Settled edges s) (key : κ) : Settled edges (s.enter key) := by
  intro other hOther
  by_cases hSame : other = key
  · subst hSame
    simp [Search.enter] at hOther
  · apply h other
    simpa [Search.enter, Function.update_of_ne hSame] using hOther

theorem Settled.leave {s : Search κ} (h : Settled edges s) {key : κ} (hKey : Grounded edges key) :
    Settled edges (s.leave key) := by
  intro other hOther
  by_cases hSame : other = key
  · exact hSame ▸ hKey
  · apply h other
    simpa [Search.leave, Function.update_of_ne hSame] using hOther

/-- What a visit that finds nothing establishes, stated for any function in its place. -/
def Sound (edges : κ → Option (List κ)) (known : List κ) (bound : Nat)
    (visit : κ → Search κ → Option (List κ) × Search κ) : Prop :=
  ∀ key s s', Settled edges s → (unmarked known s).length < bound → visit key s = (none, s') →
    Settled edges s' ∧ Grows s s' ∧ Grounded edges key

omit [DecidableEq κ] in
theorem visitAll_sound {known : List κ} {bound : Nat} {visit : κ → Search κ → Option (List κ) × Search κ}
    (hVisit : Sound edges known bound visit) {keys : List κ} {s s' : Search κ} (hSettled : Settled edges s)
    (hBound : (unmarked known s).length < bound) (h : visitAll visit keys s = (none, s')) :
    Settled edges s' ∧ Grows s s' ∧ ∀ key ∈ keys, Grounded edges key := by
  induction keys generalizing s with
  | nil =>
    obtain rfl : s = s' := (Prod.mk.inj h).2
    exact ⟨hSettled, Grows.refl s, fun key hKey => absurd hKey List.not_mem_nil⟩
  | cons key rest ih =>
    rw [visitAll] at h
    split at h
    · cases h
    · rename_i middle hHead
      obtain ⟨hMiddle, hGrows, hKey⟩ := hVisit key s middle hSettled hBound hHead
      obtain ⟨hAfter, hRestGrows, hRest⟩ := ih hMiddle (Nat.lt_of_le_of_lt hGrows.unmarked_length hBound) h
      refine ⟨hAfter, hGrows.trans hRestGrows, ?_⟩
      intro other hOther
      rcases List.mem_cons.mp hOther with rfl | hOther
      · exact hKey
      · exact hRest other hOther

theorem visit_sound {known : List κ} (hKnown : ∀ key, edges key ≠ none → key ∈ known) (fuel : Nat) :
    Sound edges known fuel (visit edges fuel) := by
  induction fuel with
  | zero =>
    intro key s s' _ hBound _
    exact absurd hBound (Nat.not_lt_zero _)
  | succ fuel ih =>
    intro key s s' hSettled hBound h
    rw [visit] at h
    split at h
    · rename_i hDone
      obtain rfl : s = s' := (Prod.mk.inj h).2
      exact ⟨hSettled, Grows.refl s, hSettled key hDone⟩
    · cases h
    · rename_i hFresh
      split at h
      · rename_i hUnknown
        obtain rfl : s = s' := (Prod.mk.inj h).2
        refine ⟨hSettled, Grows.refl s, Hereditary.intro key trivial ?_⟩
        rintro other ⟨next, hNext, _⟩
        rw [hUnknown] at hNext
        cases hNext
      · rename_i next hNext
        have hMember : key ∈ known := hKnown key (by rw [hNext]; exact Option.some_ne_none next)
        have hInside : (unmarked known (s.enter key)).length < fuel := by
          have hShrinks := unmarked_enter hMember hFresh
          omega
        split at h
        · cases h
        · rename_i inside hAll
          obtain ⟨hInner, hGrows, hChildren⟩ := visitAll_sound ih (hSettled.enter key) hInside hAll
          have hKey : Grounded edges key := by
            refine Hereditary.intro key trivial ?_
            rintro other ⟨next', hNext', hOther⟩
            obtain rfl : next = next' := Option.some.inj (hNext.symm.trans hNext')
            exact hChildren other hOther
          obtain rfl : inside.leave key = s' := (Prod.mk.inj h).2
          exact ⟨hInner.leave hKey, ((Grows.enter s key).trans hGrows).trans (Grows.leave inside key), hKey⟩

/-- A search over all the nodes that have edges comes back empty-handed only when each of them
is well founded. -/
theorem grounded_of_findCycle_eq_none {keys : List κ} (hKeys : ∀ key, edges key ≠ none → key ∈ keys)
    (h : findCycle edges keys = none) : ∀ key ∈ keys, Grounded edges key := by
  have hSettled : Settled edges (Search.start (κ := κ)) := by
    intro key hKey
    cases hKey
  have hBound : (unmarked keys (Search.start (κ := κ))).length < keys.length + 1 :=
    Nat.lt_succ_of_le (List.length_filter_le _ _)
  obtain ⟨_, _, hGrounded⟩ := visitAll_sound (visit_sound hKeys (keys.length + 1)) hSettled hBound
    (Prod.ext h rfl)
  exact hGrounded

end Flagship.Lib.CycleSearch
