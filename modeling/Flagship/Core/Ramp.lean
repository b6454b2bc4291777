import Flagship.Core.Additive
import Flagship.Core.BlastRadius

/-! # A rollout that is raised step by step

From one version to the next a ruleset is edited elsewhere, or the rollouts of a flag are given
other weights, among them those of the rule that serves an arm. As long as these keep everyone in
the arm, whoever is in it stays in it, through any number of edits.
-/

namespace Flagship.Core

open Lib

section Edits

variable (regExp : RegExp) (context : EvaluationContext) (flagKey : String) (index : ℕ) (variationKey : JsValue)

/-- An edit that leaves what the flag reaches as it is, or gives one of its rollouts other weights. -/
inductive Edit (before after : RulesetSnapshot) : Prop
  | elsewhere (same : SameReach before flagKey after)
  | reweighted {flag : Flag} {position : ℕ} {old new : List Distribution} (named : flag.key = flagKey)
      (edit : Reweighted flag position old new before after) (keeps : position = index → Keeps variationKey old new)

/-- The flag serves the context the arm, through the rule at the position. -/
def InArm (fallback : JsValue) (snapshot : RulesetSnapshot) : Prop :=
  ∃ flag, flagOf snapshot.flags flagKey = some flag ∧
    ServedThrough regExp context snapshot flag index variationKey
      (evaluateFlag regExp context (indexSnapshot snapshot) flagKey fallback)

end Edits

variable {regExp : RegExp} {context : EvaluationContext} {flagKey : String} {index : ℕ} {variationKey : JsValue}
variable {fallback : JsValue} {before after : RulesetSnapshot}

section Elsewhere

theorem evaluateFlag_elsewhere (h : SameReach before flagKey after) :
    evaluateFlag regExp context (indexSnapshot after) flagKey fallback =
      evaluateFlag regExp context (indexSnapshot before) flagKey fallback := by
  obtain ⟨result, hRun⟩ : ∃ result, Evaluates regExp context (indexSnapshot before) (.flag flagKey fallback) []
      result [] := evaluates_total _ _
  have hNamed : SameNamed before flagKey context context := ⟨rfl, fun _ _ => rfl⟩
  have hAfter := hRun.frame h hNamed (show (Call.flag flagKey fallback).Within before flagKey from .refl)
  rw [evaluateFlag_of_evaluates hRun, evaluateFlag_of_evaluates hAfter]

theorem inArm_elsewhere (h : SameReach before flagKey after)
    (hArm : InArm regExp context flagKey index variationKey fallback before) :
    InArm regExp context flagKey index variationKey fallback after := by
  obtain ⟨flag, hFlag, hSkipped, rule, hRule, hMatch, hServed⟩ := hArm
  have hNamed : SameNamed before flagKey context context := ⟨rfl, fun _ _ => rfl⟩
  have hSame : ∀ other ∈ flag.rules, matchRule regExp context (indexSnapshot before) other =
      matchRule regExp context (indexSnapshot after) other :=
    fun other hOther => matchRule_frame h hNamed .refl hFlag hOther
  refine ⟨flag, (h.flags flagKey .refl).symm.trans hFlag, ?_, rule, hRule, ?_, ?_⟩
  · intro other hOther
    rw [← hSame other (List.mem_of_mem_take hOther)]
    exact hSkipped other hOther
  · rw [← hSame rule (List.mem_of_getElem? hRule)]
    exact hMatch
  · rw [evaluateFlag_elsewhere h]
    exact hServed

end Elsewhere

section Weights

variable {flag : Flag} {position : ℕ} {old new : List Distribution}

/-- The rule at a place, after the rollout at a position has got other weights. -/
def reweightedRule (position : ℕ) (new : List Distribution) (place : ℕ) (rule : TargetingRule) : TargetingRule :=
  if position = place then { rule with serve := .rollout new } else rule

theorem matchRule_reweightedRule (env : EvaluationEnvironment) (place : ℕ) (rule : TargetingRule) :
    matchRule regExp context env (reweightedRule position new place rule) = matchRule regExp context env rule := by
  rw [reweightedRule]
  split <;> rfl

theorem id_reweightedRule (place : ℕ) (rule : TargetingRule) :
    (reweightedRule position new place rule).id = rule.id := by
  rw [reweightedRule]
  split <;> rfl

theorem getElem?_withRollout (place : ℕ) :
    (withRollout flag position new).rules[place]? = flag.rules[place]?.map (reweightedRule position new place) := by
  rw [withRollout, List.getElem?_modify]
  cases flag.rules[place]? with
  | none => rfl
  | some rule =>
    rw [Option.map_some, reweightedRule]
    split <;> rfl

theorem mem_take_iff {α : Type*} {entries : List α} {count : ℕ} {entry : α} :
    entry ∈ entries.take count ↔ ∃ place < count, entries[place]? = some entry := by
  rw [List.mem_iff_getElem?]
  constructor
  · rintro ⟨place, hPlace⟩
    rw [List.getElem?_take] at hPlace
    split at hPlace
    · exact ⟨place, by assumption, hPlace⟩
    · cases hPlace
  · rintro ⟨place, hBefore, hPlace⟩
    exact ⟨place, by rw [List.getElem?_take, if_pos hBefore, hPlace]⟩

theorem evaluateRules_at {env : EvaluationEnvironment} {compiled : CompiledFlag} {rules : List TargetingRule}
    {rule : TargetingRule} (hSkipped : ∀ other ∈ rules.take index, matchRule regExp context env other = false)
    (hRule : rules[index]? = some rule) (hMatch : matchRule regExp context env rule = true) :
    evaluateRules regExp context env compiled fallback rules = serveRule context compiled fallback rule := by
  obtain ⟨hIndex, rfl⟩ := List.getElem?_eq_some_iff.mp hRule
  have hSplit : rules = rules.take index ++ rules[index] :: rules.drop (index + 1) := by
    rw [List.getElem_cons_drop, List.take_append_drop]
  rw [congrArg (evaluateRules regExp context env compiled fallback) hSplit]
  exact evaluateRules_first hSkipped hMatch

/-- Other weights leave it to the rules to answer, where one of them did. -/
theorem Reweighted.answers (h : Reweighted flag position old new before after) {id : JsValue}
    (hReason : (evaluateFlag regExp context (indexSnapshot before) flag.key fallback).reason = .ruleMatch id) :
    evaluateFlag regExp context (indexSnapshot before) flag.key fallback = settle fallback
        (evaluateRules regExp context (indexSnapshot before) (compileFlag flag) fallback flag.rules) ∧
      evaluateFlag regExp context (indexSnapshot after) flag.key fallback = settle fallback
        (evaluateRules regExp context (indexSnapshot after) (compileFlag (withRollout flag position new)) fallback
          (withRollout flag position new).rules) := by
  obtain ⟨result, hRun⟩ : ∃ result, Evaluates regExp context (indexSnapshot before) (.flag flag.key fallback) []
      result [] := evaluates_total _ _
  have hFlag : keyGet (indexSnapshot before).flags flag.key = some (compileFlag flag) := by
    rw [keyGet_flags, h.before, Option.map_some]
  have hAfter : keyGet (indexSnapshot after).flags flag.key = some (compileFlag (withRollout flag position new)) := by
    rw [keyGet_flags, h.after, Option.map_some]
  rw [evaluateFlag_of_evaluates hRun] at hReason ⊢
  rcases hRun.flag_cases with ⟨hNone, _⟩ | ⟨compiled, hCompiled, ⟨hSeen, _⟩ | ⟨_, _, rfl⟩ | ⟨hNew, hEnabled, failed,
    hLoop, rfl⟩⟩
  · rw [hFlag] at hNone
    cases hNone
  · cases hSeen
  · cases (resultFor_ruleMatch hReason).1
  · obtain rfl := Option.some.inj (hFlag.symm.trans hCompiled)
    cases failed with
    | error error => cases hReason
    | ok failed =>
      cases failed with
      | some failed => cases (resultFor_ruleMatch hReason).1
      | none =>
        have hRunAfter := Evaluates.of_answer hAfter hNew hEnabled (h.transfer hLoop) fallback
        exact ⟨rfl, evaluateFlag_of_evaluates hRunAfter⟩

/-- Whichever rollout of the flag gets other weights: what the rule at the place serves is kept. -/
theorem serveRule_reweightedRule (h : Reweighted flag position old new before after)
    (hKeeps : position = index → Keeps variationKey old new) {rule : TargetingRule}
    (hRule : flag.rules[index]? = some rule)
    (hReason : (settle fallback (serveRule context (compileFlag flag) fallback rule)).reason = .ruleMatch rule.id)
    (hServed : (settle fallback (serveRule context (compileFlag flag) fallback rule)).variationKey = variationKey) :
    serveRule context (compileFlag (withRollout flag position new)) fallback (reweightedRule position new index rule) =
      serveRule context (compileFlag flag) fallback rule := by
  by_cases hHere : position = index
  · subst hHere
    obtain ⟨listed, hListed, hServe⟩ := h.rollout
    obtain rfl := Option.some.inj (hRule.symm.trans hListed)
    rw [reweightedRule, if_pos rfl]
    exact serveRule_reweighted hServe hReason (hServed ▸ hKeeps rfl)
  · rw [reweightedRule, if_neg hHere]
    rfl

theorem Reweighted.keeps (h : Reweighted flag position old new before after)
    (hKeeps : position = index → Keeps variationKey old new)
    (hArm : InArm regExp context flag.key index variationKey fallback before) :
    InArm regExp context flag.key index variationKey fallback after ∧
      evaluateFlag regExp context (indexSnapshot after) flag.key fallback =
        evaluateFlag regExp context (indexSnapshot before) flag.key fallback := by
  obtain ⟨listed, hListed, hSkipped, rule, hRule, hMatch, hReason, hServed⟩ := hArm
  obtain rfl := Option.some.inj (h.before.symm.trans hListed)
  have hSegments : (indexSnapshot after).segments = (indexSnapshot before).segments := by
    rw [indexSnapshot, indexSnapshot, h.segments]
  have hMatches : ∀ place other,
      matchRule regExp context (indexSnapshot after) (reweightedRule position new place other) =
        matchRule regExp context (indexSnapshot before) other := by
    intro place other
    rw [matchRule_reweightedRule, matchRule_of_segments hSegments]
  have hSkippedAfter : ∀ other ∈ (withRollout flag position new).rules.take index,
      matchRule regExp context (indexSnapshot after) other = false := by
    intro other hOther
    obtain ⟨place, hBefore, hPlace⟩ := mem_take_iff.mp hOther
    rw [getElem?_withRollout] at hPlace
    obtain ⟨skipped, hSkip, rfl⟩ := Option.map_eq_some_iff.mp hPlace
    rw [hMatches]
    exact hSkipped skipped (mem_take_iff.mpr ⟨place, hBefore, hSkip⟩)
  have hRuleAfter : (withRollout flag position new).rules[index]? = some (reweightedRule position new index rule) := by
    rw [getElem?_withRollout, hRule, Option.map_some]
  have hMatchAfter := (hMatches index rule).trans hMatch
  obtain ⟨hBefore, hAfter⟩ := h.answers hReason
  rw [evaluateRules_at hSkipped hRule hMatch] at hBefore
  rw [evaluateRules_at hSkippedAfter hRuleAfter hMatchAfter] at hAfter
  have hSame : evaluateFlag regExp context (indexSnapshot after) flag.key fallback =
      evaluateFlag regExp context (indexSnapshot before) flag.key fallback := by
    have hKept := serveRule_reweightedRule h hKeeps hRule (hBefore ▸ hReason) (hBefore ▸ hServed)
    rw [hAfter, hBefore, hKept]
  refine ⟨⟨withRollout flag position new, h.after, hSkippedAfter, _, hRuleAfter, hMatchAfter, ?_, ?_⟩, hSame⟩
  · rw [hSame, hReason, id_reweightedRule]
  · rw [hSame]
    exact hServed

end Weights

theorem Edit.keeps (h : Edit flagKey index variationKey before after)
    (hArm : InArm regExp context flagKey index variationKey fallback before) :
    InArm regExp context flagKey index variationKey fallback after ∧
      evaluateFlag regExp context (indexSnapshot after) flagKey fallback =
        evaluateFlag regExp context (indexSnapshot before) flagKey fallback := by
  cases h with
  | elsewhere same => exact ⟨inArm_elsewhere same hArm, evaluateFlag_elsewhere same⟩
  | reweighted named edit keeps =>
    subst named
    exact edit.keeps keeps hArm

/-- Any number of edits, each of which keeps the arm. -/
def Ramps (flagKey : String) (index : ℕ) (variationKey : JsValue) : RulesetSnapshot → RulesetSnapshot → Prop :=
  Relation.ReflTransGen (Edit flagKey index variationKey)

theorem Ramps.keeps (h : Ramps flagKey index variationKey before after)
    (hArm : InArm regExp context flagKey index variationKey fallback before) :
    InArm regExp context flagKey index variationKey fallback after ∧
      evaluateFlag regExp context (indexSnapshot after) flagKey fallback =
        evaluateFlag regExp context (indexSnapshot before) flagKey fallback := by
  induction h with
  | refl => exact ⟨hArm, rfl⟩
  | tail _ hEdit ih =>
    obtain ⟨hKept, hSame⟩ := hEdit.keeps ih.1
    exact ⟨hKept, hSame.trans ih.2⟩

end Flagship.Core
