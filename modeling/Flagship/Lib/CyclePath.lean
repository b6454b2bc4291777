import Flagship.Lib.CycleSearch
import Mathlib.Data.List.Chain

/-! # What the search for a cycle gives back

`Explores` is the search without a bound on its depth. It is deterministic, the search with its
bound is one of its runs, and every path it gives back is a closed walk along the edges. With the
soundness of an empty-handed search this makes the search exact.
-/

namespace Flagship.Lib.CycleSearch

variable {κ : Type*} [DecidableEq κ]

section Explores

variable (edges : κ → Option (List κ))

/-- The search from a list of nodes, one after the other: what it finds and where it ends. -/
inductive Explores : List κ → Search κ → Option (List κ) → Search κ → Prop where
  | nil (s) : Explores [] s none s
  | done (s s' key rest found) (hMark : s.marks key = some .done) (hRest : Explores rest s found s') :
      Explores (key :: rest) s found s'
  | back (s key rest) (hMark : s.marks key = some .visiting) :
      Explores (key :: rest) s (some (s.path.drop (s.path.idxOf key) ++ [key])) s
  | deadEnd (s s' key rest found) (hMark : s.marks key = none) (hEdges : edges key = none)
      (hRest : Explores rest s found s') : Explores (key :: rest) s found s'
  | inside (s s' key rest next cycle) (hMark : s.marks key = none) (hEdges : edges key = some next)
      (hInside : Explores next (s.enter key) (some cycle) s') : Explores (key :: rest) s (some cycle) s'
  | passed (s middle s' key rest next found) (hMark : s.marks key = none) (hEdges : edges key = some next)
      (hInside : Explores next (s.enter key) none middle) (hRest : Explores rest (middle.leave key) found s') :
      Explores (key :: rest) s found s'

variable {edges} {keys : List κ} {s s' s'' : Search κ} {found found' : Option (List κ)}

theorem Explores.deterministic (h : Explores edges keys s found s') (h' : Explores edges keys s found' s'') :
    found = found' ∧ s' = s'' := by
  induction h generalizing found' s'' with
  | nil s =>
    cases h'
    exact ⟨rfl, rfl⟩
  | done s s' key rest found hMark hRest ih =>
    cases h' with
    | done _ _ _ _ _ _ hRest' => exact ih hRest'
    | back _ _ _ hMark' => simp [hMark] at hMark'
    | deadEnd _ _ _ _ _ hMark' => simp [hMark] at hMark'
    | inside _ _ _ _ _ _ hMark' => simp [hMark] at hMark'
    | passed _ _ _ _ _ _ _ hMark' => simp [hMark] at hMark'
  | back s key rest hMark =>
    cases h' with
    | done _ _ _ _ _ hMark' => simp [hMark] at hMark'
    | back => exact ⟨rfl, rfl⟩
    | deadEnd _ _ _ _ _ hMark' => simp [hMark] at hMark'
    | inside _ _ _ _ _ _ hMark' => simp [hMark] at hMark'
    | passed _ _ _ _ _ _ _ hMark' => simp [hMark] at hMark'
  | deadEnd s s' key rest found hMark hEdges hRest ih =>
    cases h' with
    | done _ _ _ _ _ hMark' => simp [hMark] at hMark'
    | back _ _ _ hMark' => simp [hMark] at hMark'
    | deadEnd _ _ _ _ _ _ _ hRest' => exact ih hRest'
    | inside _ _ _ _ _ _ _ hEdges' => simp [hEdges] at hEdges'
    | passed _ _ _ _ _ _ _ _ hEdges' => simp [hEdges] at hEdges'
  | inside s s' key rest next cycle hMark hEdges hInside ih =>
    cases h' with
    | done _ _ _ _ _ hMark' => simp [hMark] at hMark'
    | back _ _ _ hMark' => simp [hMark] at hMark'
    | deadEnd _ _ _ _ _ _ hEdges' => simp [hEdges] at hEdges'
    | inside _ _ _ _ _ _ _ hEdges' hInside' =>
      obtain rfl := Option.some.inj (hEdges.symm.trans hEdges')
      exact ih hInside'
    | passed _ _ _ _ _ _ _ _ hEdges' hInside' =>
      obtain rfl := Option.some.inj (hEdges.symm.trans hEdges')
      exact absurd (ih hInside').1 (Option.some_ne_none cycle)
  | passed s middle s' key rest next found hMark hEdges hInside hRest ihInside ihRest =>
    cases h' with
    | done _ _ _ _ _ hMark' => simp [hMark] at hMark'
    | back _ _ _ hMark' => simp [hMark] at hMark'
    | deadEnd _ _ _ _ _ _ hEdges' => simp [hEdges] at hEdges'
    | inside _ _ _ _ _ cycle _ hEdges' hInside' =>
      obtain rfl := Option.some.inj (hEdges.symm.trans hEdges')
      exact absurd (ihInside hInside').1.symm (Option.some_ne_none cycle)
    | passed _ _ _ _ _ _ _ _ hEdges' hInside' hRest' =>
      obtain rfl := Option.some.inj (hEdges.symm.trans hEdges')
      obtain ⟨_, rfl⟩ := ihInside hInside'
      exact ihRest hRest'

theorem Explores.grows (h : Explores edges keys s found s') : Grows s s' := by
  induction h with
  | nil s => exact Grows.refl s
  | done s s' key rest found hMark hRest ih => exact ih
  | back s key rest hMark => exact Grows.refl s
  | deadEnd s s' key rest found hMark hEdges hRest ih => exact ih
  | inside s s' key rest next cycle hMark hEdges hInside ih => exact (Grows.enter s key).trans ih
  | passed s middle s' key rest next found hMark hEdges hInside hRest ihInside ihRest =>
    exact (((Grows.enter s key).trans ihInside).trans (Grows.leave middle key)).trans ihRest

/-- A bound above the number of unmarked nodes is never reached. -/
theorem visitAll_explores {known : List κ} (hKnown : ∀ key, edges key ≠ none → key ∈ known) (fuel : Nat)
    (keys : List κ) (s : Search κ) (hBound : (unmarked known s).length < fuel) :
    Explores edges keys s (visitAll (visit edges fuel) keys s).1 (visitAll (visit edges fuel) keys s).2 := by
  induction fuel generalizing keys s with
  | zero => exact absurd hBound (Nat.not_lt_zero _)
  | succ fuel ih =>
    induction keys generalizing s with
    | nil => exact Explores.nil s
    | cons key rest ihRest =>
      rw [visitAll, visit]
      cases hMark : s.marks key with
      | some mark =>
        cases mark with
        | done => exact Explores.done s _ key rest _ hMark (ihRest s hBound)
        | visiting => exact Explores.back s key rest hMark
      | none =>
        cases hEdges : edges key with
        | none => exact Explores.deadEnd s _ key rest _ hMark hEdges (ihRest s hBound)
        | some next =>
          have hMember : key ∈ known := hKnown key (by rw [hEdges]; exact Option.some_ne_none next)
          have hShrinks := unmarked_enter hMember hMark
          have hInside := ih next (s.enter key) (by omega)
          simp only
          cases hResult : visitAll (visit edges fuel) next (s.enter key) with
          | mk result middle =>
            rw [hResult] at hInside
            cases result with
            | some cycle => exact Explores.inside s middle key rest next cycle hMark hEdges hInside
            | none =>
              have hGrows : Grows s (middle.leave key) :=
                ((Grows.enter s key).trans hInside.grows).trans (Grows.leave middle key)
              have hRest := ihRest (middle.leave key) (Nat.lt_of_le_of_lt hGrows.unmarked_length hBound)
              exact Explores.passed s middle _ key rest next _ hMark hEdges hInside hRest

theorem findCycle_explores (hKeys : ∀ key, edges key ≠ none → key ∈ keys) :
    ∃ s', Explores edges keys Search.start (findCycle edges keys) s' :=
  ⟨_, visitAll_explores hKeys (keys.length + 1) keys Search.start (Nat.lt_succ_of_le (List.length_filter_le _ _))⟩

end Explores

section Path

variable {edges : κ → Option (List κ)} {keys : List κ} {s s' : Search κ} {found : Option (List κ)}

/-- The nodes being visited are those on the path, and the path follows the edges. -/
structure OnPath (edges : κ → Option (List κ)) (s : Search κ) : Prop where
  visiting : ∀ key, s.marks key = some .visiting ↔ key ∈ s.path
  distinct : s.path.Nodup
  walk : s.path.IsChain (Refers edges)

/-- A closed walk of at least one edge. -/
structure ClosedWalk (edges : κ → Option (List κ)) (cycle : List κ) : Prop where
  long : 2 ≤ cycle.length
  closed : cycle.head? = cycle.getLast?
  walk : cycle.IsChain (Refers edges)

/-- Every node to be searched next is one the path's last node refers to. -/
def Continues (edges : κ → Option (List κ)) (s : Search κ) (keys : List κ) : Prop :=
  ∀ last ∈ s.path.getLast?, ∀ key ∈ keys, Refers edges last key

omit [DecidableEq κ] in
theorem OnPath.start : OnPath edges (Search.start (κ := κ)) where
  visiting key := by simp [Search.start]
  distinct := List.nodup_nil
  walk := List.IsChain.nil

theorem OnPath.enter {key : κ} (h : OnPath edges s) (hMark : s.marks key = none)
    (hContinues : ∀ last ∈ s.path.getLast?, Refers edges last key) : OnPath edges (s.enter key) := by
  have hFresh : key ∉ s.path := by
    rw [← h.visiting, hMark]
    simp
  constructor
  · intro other
    simp only [Search.enter, List.mem_append, List.mem_singleton]
    by_cases hSame : other = key
    · subst hSame
      simp
    · simp [h.visiting, hSame]
  · exact List.nodup_append.mpr ⟨h.distinct, List.nodup_singleton key, by
      intro a hA b hB hSame
      rw [List.mem_singleton] at hB
      exact hFresh (hB ▸ hSame ▸ hA)⟩
  · refine List.isChain_append.mpr ⟨h.walk, List.IsChain.singleton key, ?_⟩
    intro last hLast other hOther
    obtain rfl := Option.some.inj hOther
    exact hContinues last hLast

theorem Continues.enter {key : κ} {next : List κ} (hEdges : edges key = some next) :
    Continues edges (s.enter key) next := by
  intro last hLast other hOther
  simp only [Search.enter, List.getLast?_append, List.getLast?_singleton, Option.some_or] at hLast
  obtain rfl := Option.some.inj hLast
  exact ⟨next, hEdges, hOther⟩

theorem OnPath.leave {key : κ} {path : List κ} (h : OnPath edges s) (hPath : s.path = path ++ [key]) :
    OnPath edges (s.leave key) ∧ (s.leave key).path = path := by
  have hShorter : (s.leave key).path = path := by
    rw [Search.leave, hPath, List.dropLast_concat]
  have hDistinct := h.distinct
  rw [hPath, List.nodup_append] at hDistinct
  obtain ⟨hOwn, _, hApart⟩ := hDistinct
  refine ⟨⟨?_, ?_, ?_⟩, hShorter⟩
  · intro other
    rw [hShorter]
    by_cases hSame : other = key
    · subst hSame
      have hAway : other ∉ path := fun hMem => hApart other hMem other List.mem_cons_self rfl
      simp [Search.leave, hAway]
    · simp [Search.leave, h.visiting, hPath, hSame]
  · rw [hShorter]
    exact hOwn
  · rw [hShorter]
    have hWalk := h.walk
    rw [hPath] at hWalk
    exact hWalk.left_of_append

omit [DecidableEq κ] in
theorem Continues.tail {key : κ} {rest : List κ} (h : Continues edges s (key :: rest)) : Continues edges s rest :=
  fun last hLast other hOther => h last hLast other (List.mem_cons_of_mem key hOther)

omit [DecidableEq κ] in
theorem Continues.head {key : κ} {rest : List κ} (h : Continues edges s (key :: rest)) :
    ∀ last ∈ s.path.getLast?, Refers edges last key := fun last hLast => h last hLast key List.mem_cons_self

theorem OnPath.closedWalk {key : κ} (h : OnPath edges s) (hMark : s.marks key = some .visiting)
    (hContinues : ∀ last ∈ s.path.getLast?, Refers edges last key) :
    ClosedWalk edges (s.path.drop (s.path.idxOf key) ++ [key]) := by
  have hMem : key ∈ s.path := (h.visiting key).mp hMark
  have hIndex : s.path.idxOf key < s.path.length := List.idxOf_lt_length_of_mem hMem
  have hFirst : s.path.drop (s.path.idxOf key) = key :: s.path.drop (s.path.idxOf key + 1) := by
    rw [List.drop_eq_getElem_cons hIndex, List.getElem_idxOf]
  constructor
  · rw [hFirst]
    simp
  · rw [List.getLast?_concat, hFirst, List.cons_append, List.head?_cons]
  · refine List.isChain_append.mpr ⟨h.walk.drop _, List.IsChain.singleton key, ?_⟩
    intro last hLast other hOther
    obtain rfl := Option.some.inj hOther
    rw [List.getLast?_drop, if_neg (Nat.not_le.mpr hIndex)] at hLast
    exact hContinues last hLast

/-- An empty-handed search leaves the path as it was; any other gives back a closed walk. -/
theorem Explores.spec (h : Explores edges keys s found s') (hOnPath : OnPath edges s)
    (hContinues : Continues edges s keys) :
    (found = none → OnPath edges s' ∧ s'.path = s.path) ∧ ∀ cycle, found = some cycle → ClosedWalk edges cycle := by
  induction h with
  | nil s =>
    constructor
    · intro _
      exact ⟨hOnPath, rfl⟩
    · intro cycle hCycle
      cases hCycle
  | done s s' key rest found hMark hRest ih => exact ih hOnPath hContinues.tail
  | back s key rest hMark =>
    constructor
    · intro hNone
      cases hNone
    · intro cycle hCycle
      obtain rfl := Option.some.inj hCycle
      exact hOnPath.closedWalk hMark hContinues.head
  | deadEnd s s' key rest found hMark hEdges hRest ih => exact ih hOnPath hContinues.tail
  | inside s s' key rest next cycle hMark hEdges hInside ih =>
    constructor
    · intro hNone
      cases hNone
    · exact (ih (hOnPath.enter hMark hContinues.head) (Continues.enter hEdges)).2
  | passed s middle s' key rest next found hMark hEdges hInside hRest ihInside ihRest =>
    obtain ⟨hMiddle, hPath⟩ := (ihInside (hOnPath.enter hMark hContinues.head) (Continues.enter hEdges)).1 rfl
    obtain ⟨hLeft, hRestored⟩ := hMiddle.leave hPath
    have hContinuesRest : Continues edges (middle.leave key) rest := by
      rw [Continues, hRestored]
      exact hContinues.tail
    obtain ⟨hNone, hCycle⟩ := ihRest hLeft hContinuesRest
    rw [hRestored] at hNone
    exact ⟨hNone, hCycle⟩

omit [DecidableEq κ] in
theorem ClosedWalk.transGen {cycle : List κ} (h : ClosedWalk edges cycle) :
    ∃ key, Relation.TransGen (Refers edges) key key := by
  obtain ⟨hLong, hClosed, hWalk⟩ := h
  match cycle, hLong with
  | first :: second :: rest, _ =>
    rw [List.isChain_cons_cons] at hWalk
    have hLast : (second :: rest).getLast (List.cons_ne_nil _ _) = first := by
      rw [List.head?_cons, List.getLast?_cons_cons, List.getLast?_eq_some_getLast (List.cons_ne_nil _ _)] at hClosed
      exact (Option.some.inj hClosed).symm
    have hBack := List.relationReflTransGen_of_exists_isChain_cons rest hWalk.2 hLast
    exact ⟨first, Relation.TransGen.head' hWalk.1 hBack⟩

omit [DecidableEq κ] in
/-- Every node of a closed walk is left by one of its edges, the last one as the first. -/
theorem ClosedWalk.source {cycle : List κ} (h : ClosedWalk edges cycle) : ∀ key ∈ cycle, edges key ≠ none := by
  intro key hKey
  obtain ⟨index, hIndex, rfl⟩ := List.getElem_of_mem hKey
  have hLeaves : ∀ i (hNext : i + 1 < cycle.length), edges cycle[i] ≠ none := by
    intro i hNext
    obtain ⟨next, hEdges, _⟩ := List.isChain_iff_getElem.mp h.walk i hNext
    rw [hEdges]
    exact Option.some_ne_none next
  have hLong := h.long
  by_cases hLast : index + 1 < cycle.length
  · exact hLeaves index hLast
  · have hSame : cycle[index] = cycle[0] := by
      have hClosed := h.closed
      rw [List.head?_eq_getElem?, List.getLast?_eq_getElem?] at hClosed
      have hEnd : cycle.length - 1 = index := by omega
      rw [hEnd, List.getElem?_eq_getElem (by omega), List.getElem?_eq_getElem hIndex] at hClosed
      exact (Option.some.inj hClosed).symm
    rw [hSame]
    exact hLeaves 0 (by omega)

theorem closedWalk_of_findCycle {cycle : List κ} (hKeys : ∀ key, edges key ≠ none → key ∈ keys)
    (h : findCycle edges keys = some cycle) : ClosedWalk edges cycle := by
  obtain ⟨s', hExplores⟩ := findCycle_explores hKeys
  have hContinues : Continues edges (Search.start (κ := κ)) keys := by
    intro last hLast
    cases hLast
  exact (hExplores.spec OnPath.start hContinues).2 cycle h

/-- The search is exact on the nodes that have edges. -/
theorem findCycle_eq_none_iff (hKeys : ∀ key, edges key ≠ none → key ∈ keys) :
    findCycle edges keys = none ↔ ∀ key, ¬ Relation.TransGen (Refers edges) key key := by
  constructor
  · intro hNone key hCycle
    obtain ⟨other, ⟨next, hNext, _⟩, _⟩ := Relation.TransGen.head'_iff.mp hCycle
    have hKey : key ∈ keys := hKeys key (by rw [hNext]; exact Option.some_ne_none next)
    exact (grounded_of_findCycle_eq_none hKeys hNone key hKey).irreflexive hCycle
  · intro hAcyclic
    cases hFound : findCycle edges keys with
    | none => rfl
    | some cycle =>
      obtain ⟨key, hCycle⟩ := (closedWalk_of_findCycle hKeys hFound).transGen
      exact absurd hCycle (hAcyclic key)

end Path

end Flagship.Lib.CycleSearch
