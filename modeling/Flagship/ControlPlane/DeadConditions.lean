import Flagship.ControlPlane.Published
import Flagship.Core.Satisfiable

/-! # Conditions that nothing can match

The validator asks of a condition that its operator is a string and that there are values; what
the evaluator makes of the two together it does not ask.
-/

namespace Flagship.ControlPlane

open Lib Flagship.Core

/-- The trees of the rows, as the source casts them. -/
def rowTrees (options : CompileOptions) : List RuleNode :=
  (options.flags.flatMap fun row => (RawFlag.ofRow row).rules.filterMap readRule).map TargetingRule.when ++
    (options.segments.filterMap readSegment).map Segment.when

def snapshotTrees (snapshot : RulesetSnapshot) : List RuleNode :=
  (snapshot.flags.flatMap Flag.rules).map TargetingRule.when ++ snapshot.segments.map Segment.when

theorem rules_of_read {rows : List FlagRow} {flags : List Flag}
    (h : (rows.map RawFlag.ofRow).mapM readFlag = some flags) :
    (rows.flatMap fun row => (RawFlag.ofRow row).rules.filterMap readRule) = flags.flatMap Flag.rules := by
  rw [mapM_eq_some, List.forall₂_map_left_iff] at h
  induction h with
  | nil => rfl
  | cons hHead _ ih =>
    obtain ⟨_, _, _, hRules, _, _⟩ := readFlag_eq_some hHead
    rw [List.flatMap_cons, List.flatMap_cons, filterMap_of_mapM hRules, ih]

theorem snapshotTrees_eq {options : CompileOptions} {now : String} {compiled : CompiledRuleset}
    (h : compileRuleset options now = .ok compiled) : snapshotTrees compiled.server = rowTrees options := by
  obtain ⟨_, hServer, _⟩ := compileRuleset_ok h
  obtain ⟨flags, hFlags, hServer⟩ := Option.bind_eq_some_iff.mp hServer
  obtain ⟨segments, hSegments, hServer⟩ := Option.bind_eq_some_iff.mp hServer
  rw [← Option.some.inj hServer, snapshotTrees, rowTrees, rules_of_read hFlags, filterMap_of_mapM hSegments]
  rfl

/-- Some attribute value matches. -/
def Matchable (regExp : RegExp) (c : Condition) : Prop :=
  ∃ value : AttributeValue, value.IsScriptValue ∧ applyOperator regExp c.operator (some value) c.values = true

/-- A published ruleset has no dead condition exactly if the values of each leave its operator
something to match. -/
theorem published_matchable_iff (regExp : RegExp) (options : CompileOptions) (now : String)
    (compiled : CompiledRuleset) (h : compileRuleset options now = .ok compiled) :
    (∀ tree ∈ snapshotTrees compiled.server, ∀ c ∈ tree.conditions, Matchable regExp c) ↔
      ∀ tree ∈ rowTrees options, ∀ c ∈ tree.conditions, CanMatch regExp c.operator c.values := by
  rw [snapshotTrees_eq h]
  constructor
  · intro hAll tree hTree c hMem
    exact (exists_applyOperator_iff regExp c.operator c.values).mp (hAll tree hTree c hMem)
  · intro hAll tree hTree c hMem
    exact (exists_applyOperator_iff regExp c.operator c.values).mpr (hAll tree hTree c hMem)

theorem sample_matchable : ∃ compiled, compileRuleset sampleOptions "now" = .ok compiled ∧
    ∀ tree ∈ snapshotTrees compiled.server, ∀ c ∈ tree.conditions, Matchable noRegExp c := by
  obtain ⟨compiled, hCompiled⟩ : ∃ compiled, compileRuleset sampleOptions "now" = .ok compiled :=
    exists_compiled (by decide) (by decide +kernel)
  refine ⟨compiled, hCompiled, (published_matchable_iff noRegExp _ _ _ hCompiled).mpr ?_⟩
  have hConditions : (rowTrees sampleOptions).flatMap RuleNode.conditions = [
      { «attribute» := "email", operator := .endsWith, values := [.str "@example.com"], visibility := .server },
      { «attribute» := "plan", operator := .eq, values := [.str "beta"], visibility := .client }] := rfl
  intro tree hTree c hMem
  have hListed := List.mem_flatMap.mpr ⟨tree, hTree, hMem⟩
  rw [hConditions] at hListed
  rcases List.mem_cons.mp hListed with rfl | hRest
  · exact ⟨"@example.com", List.mem_singleton_self _⟩
  · rw [List.mem_singleton.mp hRest]
    exact ⟨.str "beta", List.mem_singleton_self _, trivial⟩

/-- A bound that is written as a string. -/
def quotedBound : Json :=
  .obj [("kind", .str "condition"), ("attribute", .str "age"), ("operator", .str "gt"),
    ("values", .arr [.str "18"]), ("visibility", .str "client")]

def quotedOptions : CompileOptions where
  environmentKey := "production"
  version := .ofNat 1
  flags := []
  segments := [{ key := "adults", ruleTree := quotedBound }]
  servedAt := none

theorem dead_condition_published : ¬ ∀ (regExp : RegExp) (options : CompileOptions) (now : String)
    (compiled : CompiledRuleset), compileRuleset options now = .ok compiled →
    ∀ tree ∈ snapshotTrees compiled.server, ∀ c ∈ tree.conditions, Matchable regExp c := by
  intro hAll
  obtain ⟨compiled, hCompiled⟩ : ∃ compiled, compileRuleset quotedOptions "now" = .ok compiled :=
    exists_compiled (by decide) (by decide +kernel)
  have hTrees : snapshotTrees compiled.server = [.condition {
      «attribute» := "age", operator := .gt, values := [.str "18"], visibility := .client }] :=
    (snapshotTrees_eq hCompiled).trans rfl
  have hMatchable := hAll noRegExp quotedOptions "now" compiled hCompiled _ (hTrees ▸ List.mem_singleton_self _) _
    (List.mem_singleton_self _)
  obtain ⟨q, hMem, _⟩ := (exists_applyOperator_iff noRegExp .gt [.str "18"]).mp hMatchable
  cases List.mem_singleton.mp hMem

end Flagship.ControlPlane
