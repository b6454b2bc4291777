import Flagship.ControlPlane.Accepted
import Flagship.Lib.CyclePath

/-! # Prerequisite cycles

`findPrerequisiteCycle` of `apps/control-plane/src/ruleset.ts` against the graph it searches. Its
callers have read `flagKey` off every prerequisite before, so none of them is null.
-/

namespace Flagship.ControlPlane

open Lib Flagship.Core

/-- A prerequisite edge: a listed flag and a key, listed or dangling, that it requires. -/
def Prerequires (flags : List RawFlag) (a b : String) : Prop :=
  ∃ flag ∈ flags, flag.key = a ∧ b ∈ prerequisiteKeys flag.prerequisites

/-- The prerequisite graph restricted to the listed flags. -/
def ListedPrerequires (flags : List RawFlag) (a b : String) : Prop :=
  Prerequires flags a b ∧ b ∈ flags.map RawFlag.key

theorem prerequires_iff {flags : List RawFlag} (hDistinct : (flags.map RawFlag.key).Nodup) {a b : String} :
    CycleSearch.Refers (prerequisiteEdges flags) a b ↔ Prerequires flags a b := by
  constructor
  · rintro ⟨next, hEdges, hNext⟩
    obtain ⟨flag, hFlag, rfl⟩ := Option.map_eq_some_iff.mp hEdges
    obtain ⟨listed, hListed, hEntry⟩ := List.mem_map.mp (mem_of_keyGet hFlag)
    obtain ⟨rfl, rfl⟩ := Prod.mk.inj hEntry
    exact ⟨listed, hListed, rfl, hNext⟩
  · rintro ⟨flag, hFlag, rfl, hNext⟩
    have hKeys : ((flags.map fun flag => (flag.key, flag)).map Prod.fst).Nodup := by
      rwa [List.map_map]
    refine ⟨prerequisiteKeys flag.prerequisites, ?_, hNext⟩
    rw [prerequisiteEdges, keyGet_of_mem hKeys (List.mem_map.mpr ⟨flag, hFlag, rfl⟩)]
    rfl

theorem source_of_refers {flags : List RawFlag} {a b : String}
    (h : CycleSearch.Refers (prerequisiteEdges flags) a b) : prerequisiteEdges flags a ≠ none := by
  obtain ⟨next, hNext, _⟩ := h
  rw [hNext]
  exact Option.some_ne_none next

theorem listed_of_path {flags : List RawFlag} (hDistinct : (flags.map RawFlag.key).Nodup) {a b : String}
    (hPath : Relation.TransGen (CycleSearch.Refers (prerequisiteEdges flags)) a b)
    (hSource : prerequisiteEdges flags b ≠ none) : Relation.TransGen (ListedPrerequires flags) a b := by
  induction hPath with
  | single hRefers =>
    exact Relation.TransGen.single ⟨(prerequires_iff hDistinct).mp hRefers, mem_of_prerequisiteEdges hSource⟩
  | tail _ hRefers ih =>
    have hBefore := ih (source_of_refers hRefers)
    exact hBefore.tail ⟨(prerequires_iff hDistinct).mp hRefers, mem_of_prerequisiteEdges hSource⟩

/-- A cycle never leaves the listed flags: its nodes all have a flag of their own. -/
theorem cyclic_iff {flags : List RawFlag} (hDistinct : (flags.map RawFlag.key).Nodup) (key : String) :
    Relation.TransGen (CycleSearch.Refers (prerequisiteEdges flags)) key key ↔
      Relation.TransGen (ListedPrerequires flags) key key := by
  constructor
  · intro hCycle
    obtain ⟨_, hFirst, _⟩ := Relation.TransGen.head'_iff.mp hCycle
    exact listed_of_path hDistinct hCycle (source_of_refers hFirst)
  · intro hCycle
    exact Relation.TransGen.mono (fun _ _ hListed => (prerequires_iff hDistinct).mpr hListed.1) key key hCycle

theorem findPrerequisiteCycle_eq_none_iff {flags : List RawFlag} (hDistinct : (flags.map RawFlag.key).Nodup) :
    findPrerequisiteCycle flags = none ↔ ∀ key, ¬ Relation.TransGen (ListedPrerequires flags) key key := by
  rw [findPrerequisiteCycle, CycleSearch.findCycle_eq_none_iff fun _ => mem_of_prerequisiteEdges]
  exact forall_congr' fun key => not_congr (cyclic_iff hDistinct key)

/-- The search ends, with one outcome, finds a cycle exactly when the listed flags have one, and
what it gives back is one. -/
theorem findPrerequisiteCycle_exact (flags : List RawFlag) (hDistinct : (flags.map RawFlag.key).Nodup) :
    (∃ s, CycleSearch.Explores (prerequisiteEdges flags) (flags.map RawFlag.key) CycleSearch.Search.start
      (findPrerequisiteCycle flags) s) ∧
    (∀ found s, CycleSearch.Explores (prerequisiteEdges flags) (flags.map RawFlag.key) CycleSearch.Search.start
      found s → found = findPrerequisiteCycle flags) ∧
    (findPrerequisiteCycle flags = none ↔ ∀ key, ¬ Relation.TransGen (ListedPrerequires flags) key key) ∧
    ∀ path, findPrerequisiteCycle flags = some path →
      2 ≤ path.length ∧ path.head? = path.getLast? ∧ path.IsChain (ListedPrerequires flags) := by
  have hKnown : ∀ key, prerequisiteEdges flags key ≠ none → key ∈ flags.map RawFlag.key :=
    fun _ => mem_of_prerequisiteEdges
  obtain ⟨s, hExplores⟩ := CycleSearch.findCycle_explores hKnown
  refine ⟨⟨s, hExplores⟩, ?_, findPrerequisiteCycle_eq_none_iff hDistinct, ?_⟩
  · intro found s' hFound
    exact (hFound.deterministic hExplores).1
  · intro path hPath
    have hClosed := CycleSearch.closedWalk_of_findCycle hKnown hPath
    refine ⟨hClosed.long, hClosed.closed, hClosed.walk.imp_of_mem_imp ?_⟩
    intro a b _ hB hRefers
    exact ⟨(prerequires_iff hDistinct).mp hRefers, hKnown b (hClosed.source b hB)⟩

section Example

def requiring (key : String) (required : List String) : RawFlag where
  key := key
  enabled := true
  salt := ""
  bucketBy := "id"
  variations := []
  defaultVariationKey := ""
  offVariationKey := ""
  prerequisites := required.map fun flagKey => .obj [("flagKey", .str flagKey), ("variationKey", .str "on")]
  rules := []

def exampleFlags : List RawFlag :=
  [requiring "a" ["missing", "b"], requiring "b" ["d", "c"], requiring "c" ["b"], requiring "d" []]

theorem findPrerequisiteCycle_exact_example :
    findPrerequisiteCycle exampleFlags = some ["b", "c", "b"] ∧
      (["b", "c", "b"].IsChain (ListedPrerequires exampleFlags)) ∧
      ¬ ∀ key, ¬ Relation.TransGen (ListedPrerequires exampleFlags) key key := by
  have hFound : findPrerequisiteCycle exampleFlags = some ["b", "c", "b"] := by decide +kernel
  have hExact := findPrerequisiteCycle_exact exampleFlags (by decide +kernel)
  refine ⟨hFound, (hExact.2.2.2 _ hFound).2.2, fun hAcyclic => ?_⟩
  have hNone := hExact.2.2.1.mpr hAcyclic
  rw [hFound] at hNone
  cases hNone

end Example

end Flagship.ControlPlane
