import Flagship.Core.Matching
import Flagship.Core.Outcome

/-! # Every evaluation ends, and leaves the guard sets as it found them

The recursion of `evaluate.ts` as it runs, call by call and without a count of levels: a
derivation is one finished run, with the guard set each call is given and the one it leaves.
Every call has a derivation, whatever the references of the snapshot look like; the count of
levels that the functions carry is never used up.
-/

namespace Flagship.Core

open Lib

section Walk

variable (regExp : RegExp) (context : EvaluationContext) (env : EvaluationEnvironment)

/-- A call of `matchNode`, or one of its loops with the children it has left. -/
inductive Walk where
  | node (node : RuleNode)
  | every (children : List RuleNode)
  | any (children : List RuleNode)

inductive Matches : Walk → Option (List String) → Bool → Option (List String) → Prop where
  | condition {c : Condition} {seen : Option (List String)} : Matches (.node (.condition c)) seen
      (applyOperator regExp c.operator (resolveAttribute context c.attribute) c.values) seen
  | and {children : List RuleNode} {seen after : Option (List String)} {matched : Bool}
      (hLoop : Matches (.every children) seen matched after) :
      Matches (.node (.boolean .and children)) seen matched after
  | or {children : List RuleNode} {seen after : Option (List String)} {matched : Bool}
      (hLoop : Matches (.any children) seen matched after) :
      Matches (.node (.boolean .or children)) seen matched after
  | not {children : List RuleNode} {seen after : Option (List String)} {matched : Bool}
      (hLoop : Matches (.every children) seen matched after) :
      Matches (.node (.boolean .not children)) seen (!matched) after
  | cycle {reference : SegmentRef} {seen : Option (List String)}
      (hSeen : reference.segmentKey ∈ seen.getD []) : Matches (.node (.segment reference)) seen false seen
  | unknown {reference : SegmentRef} {seen : Option (List String)} (hNew : reference.segmentKey ∉ seen.getD [])
      (hSegment : keyGet env.segments reference.segmentKey = none) :
      Matches (.node (.segment reference)) seen false seen
  -- `add` before the call, `delete` in the `finally`; a set allocated here is dropped
  | segment {reference : SegmentRef} {segment : Segment} {seen inside : Option (List String)} {matched : Bool}
      (hNew : reference.segmentKey ∉ seen.getD [])
      (hSegment : keyGet env.segments reference.segmentKey = some segment)
      (hCall : Matches (.node segment.when) (some (seen.getD [] ++ [reference.segmentKey])) matched inside) :
      Matches (.node (.segment reference)) seen (if reference.negate then !matched else matched)
        (seen.bind fun _ => inside.map (·.erase reference.segmentKey))
  | everyEnd {seen : Option (List String)} : Matches (.every []) seen true seen
  | everyStop {child : RuleNode} {rest : List RuleNode} {seen after : Option (List String)}
      (hChild : Matches (.node child) seen false after) : Matches (.every (child :: rest)) seen false after
  | everyNext {child : RuleNode} {rest : List RuleNode} {seen between after : Option (List String)} {matched : Bool}
      (hChild : Matches (.node child) seen true between) (hRest : Matches (.every rest) between matched after) :
      Matches (.every (child :: rest)) seen matched after
  | anyEnd {seen : Option (List String)} : Matches (.any []) seen false seen
  | anyStop {child : RuleNode} {rest : List RuleNode} {seen after : Option (List String)}
      (hChild : Matches (.node child) seen true after) : Matches (.any (child :: rest)) seen true after
  | anyNext {child : RuleNode} {rest : List RuleNode} {seen between after : Option (List String)} {matched : Bool}
      (hChild : Matches (.node child) seen false between) (hRest : Matches (.any rest) between matched after) :
      Matches (.any (child :: rest)) seen matched after

/-- What `holdsAt` takes a segment reference for. -/
def enterHolds (levels : Nat) (seen : List String) (reference : SegmentRef) : Bool :=
  if reference.segmentKey ∈ seen then false
  else
    match keyGet env.segments reference.segmentKey with
    | none => false
    | some segment =>
      let matched := holdsAt regExp context env levels segment.when (seen ++ [reference.segmentKey])
      if reference.negate then !matched else matched

def Walk.holds (holds : SegmentRef → Bool) : Walk → Bool
  | .node tree => treeHolds regExp context holds tree
  | .every children => everyHolds regExp context holds children
  | .any children => someHolds regExp context holds children

variable {regExp context env}

theorem holdsAt_succ (levels : Nat) (node : RuleNode) (seen : List String) :
    holdsAt regExp context env (levels + 1) node seen =
      treeHolds regExp context (enterHolds regExp context env levels seen) node := rfl

theorem Matches.holds {walk : Walk} {seen after : Option (List String)} {matched : Bool}
    (h : Matches regExp context env walk seen matched after) :
    after = seen ∧ ∀ levels, fresh (env.segments.map Prod.fst) (seen.getD []) ≤ levels →
      matched = walk.holds regExp context (enterHolds regExp context env levels (seen.getD [])) := by
  induction h with
  | condition => exact ⟨rfl, fun _ _ => by rw [Walk.holds, treeHolds]⟩
  | and _ ih => exact ⟨ih.1, fun levels hEnough => by rw [Walk.holds, treeHolds, ih.2 levels hEnough, Walk.holds]⟩
  | or _ ih => exact ⟨ih.1, fun levels hEnough => by rw [Walk.holds, treeHolds, ih.2 levels hEnough, Walk.holds]⟩
  | not _ ih => exact ⟨ih.1, fun levels hEnough => by rw [Walk.holds, treeHolds, ih.2 levels hEnough, Walk.holds]⟩
  | cycle hSeen => exact ⟨rfl, fun _ _ => by rw [Walk.holds, treeHolds, enterHolds, if_pos hSeen]⟩
  | unknown hNew hSegment =>
    exact ⟨rfl, fun _ _ => by rw [Walk.holds, treeHolds, enterHolds, if_neg hNew, hSegment]⟩
  | @segment reference segment seen inside matched hNew hSegment _ ih =>
    obtain ⟨rfl, hMatched⟩ := ih
    constructor
    · cases seen with
      | none => rfl
      | some seen => exact congrArg some (erase_append_singleton hNew)
    · intro levels hEnough
      have hShrinks := fresh_append_lt (mem_keys_of_keyGet hSegment) hNew
      obtain ⟨levels, rfl⟩ := Nat.exists_eq_add_one_of_ne_zero (show levels ≠ 0 by omega)
      rw [Walk.holds, treeHolds, enterHolds, if_neg hNew, hSegment]
      simp only [holdsAt_succ]
      rw [hMatched levels (by rw [Option.getD_some]; omega), Walk.holds, Option.getD_some]
  | everyEnd => exact ⟨rfl, fun _ _ => by rw [Walk.holds, everyHolds]⟩
  | everyStop _ ih =>
    refine ⟨ih.1, fun levels hEnough => ?_⟩
    have hChild := ih.2 levels hEnough
    rw [Walk.holds] at hChild
    rw [Walk.holds, everyHolds, ← hChild, Bool.false_and]
  | everyNext _ _ ihChild ihRest =>
    obtain ⟨rfl, hChild⟩ := ihChild
    refine ⟨ihRest.1, fun levels hEnough => ?_⟩
    have hChild := hChild levels hEnough
    rw [Walk.holds] at hChild
    rw [ihRest.2 levels hEnough, Walk.holds, Walk.holds, everyHolds, ← hChild, Bool.true_and]
  | anyEnd => exact ⟨rfl, fun _ _ => by rw [Walk.holds, someHolds]⟩
  | anyStop _ ih =>
    refine ⟨ih.1, fun levels hEnough => ?_⟩
    have hChild := ih.2 levels hEnough
    rw [Walk.holds] at hChild
    rw [Walk.holds, someHolds, ← hChild, Bool.true_or]
  | anyNext _ _ ihChild ihRest =>
    obtain ⟨rfl, hChild⟩ := ihChild
    refine ⟨ihRest.1, fun levels hEnough => ?_⟩
    have hChild := hChild levels hEnough
    rw [Walk.holds] at hChild
    rw [ihRest.2 levels hEnough, Walk.holds, Walk.holds, someHolds, ← hChild, Bool.false_or]

theorem Matches.every {children : List RuleNode} {seen : Option (List String)}
    (hChild : ∀ child ∈ children, ∃ matched, Matches regExp context env (.node child) seen matched seen) :
    ∃ matched, Matches regExp context env (.every children) seen matched seen := by
  induction children with
  | nil => exact ⟨true, .everyEnd⟩
  | cons child rest ih =>
    obtain ⟨matched, hHead⟩ := hChild child List.mem_cons_self
    cases matched with
    | false => exact ⟨false, .everyStop hHead⟩
    | true =>
      obtain ⟨matched, hRest⟩ := ih fun other hOther => hChild other (List.mem_cons_of_mem _ hOther)
      exact ⟨matched, .everyNext hHead hRest⟩

theorem Matches.any {children : List RuleNode} {seen : Option (List String)}
    (hChild : ∀ child ∈ children, ∃ matched, Matches regExp context env (.node child) seen matched seen) :
    ∃ matched, Matches regExp context env (.any children) seen matched seen := by
  induction children with
  | nil => exact ⟨false, .anyEnd⟩
  | cons child rest ih =>
    obtain ⟨matched, hHead⟩ := hChild child List.mem_cons_self
    cases matched with
    | true => exact ⟨true, .anyStop hHead⟩
    | false =>
      obtain ⟨matched, hRest⟩ := ih fun other hOther => hChild other (List.mem_cons_of_mem _ hOther)
      exact ⟨matched, .anyNext hHead hRest⟩

/-- The measure is the number of segments not yet entered, and within one segment the tree. -/
theorem Matches.exists {bound : Nat} {seen : Option (List String)}
    (hBound : fresh (env.segments.map Prod.fst) (seen.getD []) < bound) (node : RuleNode) :
    ∃ matched, Matches regExp context env (.node node) seen matched seen := by
  induction bound generalizing seen node with
  | zero => exact absurd hBound (Nat.not_lt_zero _)
  | succ bound ihBound =>
    induction node using RuleNode.induct with
    | condition c => exact ⟨_, .condition⟩
    | boolean kind children ih =>
      cases kind with
      | and =>
        obtain ⟨matched, hLoop⟩ := Matches.every ih
        exact ⟨matched, .and hLoop⟩
      | or =>
        obtain ⟨matched, hLoop⟩ := Matches.any ih
        exact ⟨matched, .or hLoop⟩
      | not =>
        obtain ⟨matched, hLoop⟩ := Matches.every ih
        exact ⟨!matched, .not hLoop⟩
    | segment reference =>
      by_cases hSeen : reference.segmentKey ∈ seen.getD []
      · exact ⟨false, .cycle hSeen⟩
      · cases hSegment : keyGet env.segments reference.segmentKey with
        | none => exact ⟨false, .unknown hSeen hSegment⟩
        | some segment =>
          have hShrinks := fresh_append_lt (mem_keys_of_keyGet hSegment) hSeen
          have hFewer : fresh (env.segments.map Prod.fst)
              ((some (seen.getD [] ++ [reference.segmentKey])).getD []) < bound := by
            rw [Option.getD_some]
            omega
          obtain ⟨matched, hCall⟩ := ihBound hFewer segment.when
          have hRun := Matches.segment hSeen hSegment hCall
          rw [hRun.holds.1] at hRun
          exact ⟨_, hRun⟩

theorem matches_total (node : RuleNode) (seen : Option (List String)) :
    ∃ matched, Matches regExp context env (.node node) seen matched seen :=
  Matches.exists (Nat.lt_succ_self _) node

/-- The function that counts levels computes the run, as soon as there are enough of them. -/
theorem matches_iff {levels : Nat} {node : RuleNode} {seen after : Option (List String)} {matched : Bool}
    (hEnough : fresh (env.segments.map Prod.fst) (seen.getD []) < levels) :
    Matches regExp context env (.node node) seen matched after ↔
      matchNode regExp context env levels node seen = (matched, after) := by
  obtain ⟨levels, rfl⟩ := Nat.exists_eq_add_one_of_ne_zero (show levels ≠ 0 by omega)
  have hComputes : ∀ {found : Bool} {left : Option (List String)},
      Matches regExp context env (.node node) seen found left →
        matchNode regExp context env (levels + 1) node seen = (found, left) := by
    intro found left hRun
    obtain ⟨rfl, hFound⟩ := hRun.holds
    rw [matchNode_eq, holdsAt_succ, hFound levels (by omega)]
    rfl
  constructor
  · exact hComputes
  · intro hResult
    obtain ⟨found, hRun⟩ : ∃ found, Matches regExp context env (.node node) seen found seen :=
      matches_total node seen
    rw [hComputes hRun] at hResult
    obtain ⟨rfl, rfl⟩ := Prod.mk.inj hResult
    exact hRun

theorem matchRule_iff {rule : TargetingRule} {matched : Bool} :
    (∃ after, Matches regExp context env (.node rule.when) none matched after) ↔
      matchRule regExp context env rule = matched := by
  have hEnough : fresh (env.segments.map Prod.fst) ((none : Option (List String)).getD []) <
      env.segments.length + 1 := by
    have hLe := fresh_le (env.segments.map Prod.fst) ((none : Option (List String)).getD [])
    rw [List.length_map] at hLe
    omega
  rw [matchRule]
  constructor
  · rintro ⟨after, hRun⟩
    rw [(matches_iff hEnough).mp hRun]
  · rintro rfl
    exact ⟨_, (matches_iff hEnough).mpr rfl⟩

end Walk

section Rules

variable (regExp : RegExp) (context : EvaluationContext) (env : EvaluationEnvironment)
variable (compiled : CompiledFlag) (fallback : JsValue)

inductive Decides : List TargetingRule → Except ScriptError EvaluationResult → Prop where
  | default : Decides [] (defaultResult compiled fallback)
  | skip {rule : TargetingRule} {rest : List TargetingRule} {result : Except ScriptError EvaluationResult}
      {after : Option (List String)} (hRule : Matches regExp context env (.node rule.when) none false after)
      (hRest : Decides rest result) : Decides (rule :: rest) result
  | serve {rule : TargetingRule} {rest : List TargetingRule} {after : Option (List String)}
      (hRule : Matches regExp context env (.node rule.when) none true after) :
      Decides (rule :: rest) (serveRule context compiled fallback rule)

variable {regExp context env compiled fallback}

theorem Decides.computes {rules : List TargetingRule} {result : Except ScriptError EvaluationResult}
    (h : Decides regExp context env compiled fallback rules result) :
    evaluateRules regExp context env compiled fallback rules = result := by
  induction h with
  | default => rfl
  | skip hRule _ ih =>
    have hMatched := matchRule_iff.mp ⟨_, hRule⟩
    rw [evaluateRules, hMatched]
    exact ih
  | serve hRule =>
    have hMatched := matchRule_iff.mp ⟨_, hRule⟩
    rw [evaluateRules, hMatched]
    rfl

theorem decides_total (rules : List TargetingRule) :
    Decides regExp context env compiled fallback rules
      (evaluateRules regExp context env compiled fallback rules) := by
  induction rules with
  | nil => exact .default
  | cons rule rest ih =>
    rw [evaluateRules]
    cases hMatched : matchRule regExp context env rule with
    | true =>
      obtain ⟨after, hRule⟩ := matchRule_iff.mpr hMatched
      exact .serve hRule
    | false =>
      obtain ⟨after, hRule⟩ := matchRule_iff.mpr hMatched
      exact .skip hRule ih

end Rules

section Evaluation

/-- A call of `evaluateInternal`, or its prerequisite loop with what is left of it. -/
inductive Call where
  | flag (flagKey : String) (fallback : JsValue)
  | prerequisites (remaining : List Prerequisite)

abbrev Call.Answer : Call → Type
  | .flag _ _ => Except ScriptError EvaluationResult
  | .prerequisites _ => Except ScriptError (Option Prerequisite)

variable (regExp : RegExp) (context : EvaluationContext) (env : EvaluationEnvironment)

inductive Evaluates : (call : Call) → List String → call.Answer → List String → Prop where
  | unknown {flagKey : String} {fallback : JsValue} {seen : List String} (hFlag : keyGet env.flags flagKey = none) :
      Evaluates (.flag flagKey fallback) seen (.ok (errorResult fallback s!"unknown flag \"{flagKey}\"")) seen
  | cycle {flagKey : String} {fallback : JsValue} {seen : List String} {compiled : CompiledFlag}
      (hFlag : keyGet env.flags flagKey = some compiled) (hSeen : flagKey ∈ seen) :
      Evaluates (.flag flagKey fallback) seen
        (.ok (errorResult fallback s!"prerequisite cycle at \"{flagKey}\"")) seen
  -- past the guard the key is added, and deleted in the `finally` whatever happened between
  | disabled {flagKey : String} {fallback : JsValue} {seen : List String} {compiled : CompiledFlag}
      (hFlag : keyGet env.flags flagKey = some compiled) (hNew : flagKey ∉ seen)
      (hEnabled : compiled.flag.enabled = false) :
      Evaluates (.flag flagKey fallback) seen (offResult compiled fallback .off) ((seen ++ [flagKey]).erase flagKey)
  | thrown {flagKey : String} {fallback : JsValue} {seen inside : List String} {compiled : CompiledFlag}
      {error : ScriptError} (hFlag : keyGet env.flags flagKey = some compiled) (hNew : flagKey ∉ seen)
      (hEnabled : compiled.flag.enabled = true)
      (hLoop : Evaluates (.prerequisites compiled.flag.prerequisites) (seen ++ [flagKey]) (.error error) inside) :
      Evaluates (.flag flagKey fallback) seen (.error error) (inside.erase flagKey)
  | unmet {flagKey : String} {fallback : JsValue} {seen inside : List String} {compiled : CompiledFlag}
      {failed : Prerequisite} (hFlag : keyGet env.flags flagKey = some compiled) (hNew : flagKey ∉ seen)
      (hEnabled : compiled.flag.enabled = true)
      (hLoop : Evaluates (.prerequisites compiled.flag.prerequisites) (seen ++ [flagKey])
        (.ok (some failed)) inside) :
      Evaluates (.flag flagKey fallback) seen (offResult compiled fallback (.prerequisiteFailed failed.flagKey))
        (inside.erase flagKey)
  | rules {flagKey : String} {fallback : JsValue} {seen inside : List String} {compiled : CompiledFlag}
      {result : Except ScriptError EvaluationResult} (hFlag : keyGet env.flags flagKey = some compiled)
      (hNew : flagKey ∉ seen) (hEnabled : compiled.flag.enabled = true)
      (hLoop : Evaluates (.prerequisites compiled.flag.prerequisites) (seen ++ [flagKey]) (.ok none) inside)
      (hRules : Decides regExp context env compiled fallback compiled.flag.rules result) :
      Evaluates (.flag flagKey fallback) seen result (inside.erase flagKey)
  | done {seen : List String} : Evaluates (.prerequisites []) seen (.ok none) seen
  | threw {prerequisite : Prerequisite} {rest : List Prerequisite} {seen after : List String} {error : ScriptError}
      (hUpstream : Evaluates (.flag prerequisite.flagKey none) seen (.error error) after) :
      Evaluates (.prerequisites (prerequisite :: rest)) seen (.error error) after
  | refused {prerequisite : Prerequisite} {rest : List Prerequisite} {seen after : List String}
      {upstream : EvaluationResult}
      (hUpstream : Evaluates (.flag prerequisite.flagKey none) seen (.ok upstream) after)
      (hOther : JsValue.strictEquals upstream.variationKey prerequisite.variationKey = false) :
      Evaluates (.prerequisites (prerequisite :: rest)) seen (.ok (some prerequisite)) after
  | met {prerequisite : Prerequisite} {rest : List Prerequisite} {seen between after : List String}
      {upstream : EvaluationResult} {failed : Except ScriptError (Option Prerequisite)}
      (hUpstream : Evaluates (.flag prerequisite.flagKey none) seen (.ok upstream) between)
      (hServed : JsValue.strictEquals upstream.variationKey prerequisite.variationKey = true)
      (hRest : Evaluates (.prerequisites rest) between failed after) :
      Evaluates (.prerequisites (prerequisite :: rest)) seen failed after

def Call.run (levels : Nat) : (call : Call) → List String → call.Answer × List String
  | .flag flagKey fallback, seen => evaluateInternal regExp context env levels flagKey fallback seen
  | .prerequisites remaining, seen => firstUnmet (evaluateInternal regExp context env levels · none) remaining seen

variable {regExp context env}

theorem evaluateInternal_entered {levels : Nat} {flagKey : String} {fallback : JsValue} {seen : List String}
    {compiled : CompiledFlag} (hFlag : keyGet env.flags flagKey = some compiled) (hNew : flagKey ∉ seen)
    (hEnabled : compiled.flag.enabled = true) {failed : Except ScriptError (Option Prerequisite)}
    (hLoop : firstUnmet (evaluateInternal regExp context env levels · none) compiled.flag.prerequisites
      (seen ++ [flagKey]) = (failed, seen ++ [flagKey])) :
    evaluateInternal regExp context env (levels + 1) flagKey fallback seen =
      (answer regExp context env Flag.rules compiled fallback failed, seen) := by
  rw [evaluateInternal, hFlag]
  simp only [if_neg hNew, hEnabled, Bool.not_true, Bool.false_eq_true, if_false, hLoop]
  cases failed with
  | error error => simp only [answer, erase_append_singleton hNew]
  | ok failed =>
    cases failed with
    | none => simp only [answer, erase_append_singleton hNew]
    | some prerequisite => simp only [answer, erase_append_singleton hNew]

/-- Entering a flag uses up one level and one key that could still be entered. -/
theorem enter_computes {levels : Nat} {flagKey : String} {fallback : JsValue} {seen : List String}
    {compiled : CompiledFlag} (hFlag : keyGet env.flags flagKey = some compiled) (hNew : flagKey ∉ seen)
    (hEnabled : compiled.flag.enabled = true) {failed : Except ScriptError (Option Prerequisite)}
    (hLoop : ∀ levels, fresh (env.flags.map Prod.fst) (seen ++ [flagKey]) < levels →
      (Call.prerequisites compiled.flag.prerequisites).run regExp context env levels (seen ++ [flagKey]) =
        (failed, seen ++ [flagKey]))
    (hEnough : fresh (env.flags.map Prod.fst) seen < levels) :
    (Call.flag flagKey fallback).run regExp context env levels seen =
      (answer regExp context env Flag.rules compiled fallback failed, seen) := by
  obtain ⟨levels, rfl⟩ := Nat.exists_eq_add_one_of_ne_zero (show levels ≠ 0 by omega)
  have hShrinks := fresh_append_lt (mem_keys_of_keyGet hFlag) hNew
  exact evaluateInternal_entered hFlag hNew hEnabled (hLoop levels (by omega))

theorem Evaluates.computes {call : Call} {seen after : List String} {result : call.Answer}
    (h : Evaluates regExp context env call seen result after) :
    after = seen ∧ ∀ levels, fresh (env.flags.map Prod.fst) seen < levels →
      call.run regExp context env levels seen = (result, seen) := by
  induction h with
  | unknown hFlag =>
    refine ⟨rfl, fun levels hEnough => ?_⟩
    obtain ⟨levels, rfl⟩ := Nat.exists_eq_add_one_of_ne_zero (show levels ≠ 0 by omega)
    rw [Call.run, evaluateInternal, hFlag]
  | cycle hFlag hSeen =>
    refine ⟨rfl, fun levels hEnough => ?_⟩
    obtain ⟨levels, rfl⟩ := Nat.exists_eq_add_one_of_ne_zero (show levels ≠ 0 by omega)
    rw [Call.run, evaluateInternal, hFlag]
    simp only [if_pos hSeen]
  | disabled hFlag hNew hEnabled =>
    refine ⟨erase_append_singleton hNew, fun levels hEnough => ?_⟩
    obtain ⟨levels, rfl⟩ := Nat.exists_eq_add_one_of_ne_zero (show levels ≠ 0 by omega)
    rw [Call.run, evaluateInternal, hFlag]
    simp only [if_neg hNew, hEnabled, Bool.not_false, if_true, erase_append_singleton hNew]
  | thrown hFlag hNew hEnabled _ ih =>
    obtain ⟨rfl, hLoop⟩ := ih
    refine ⟨erase_append_singleton hNew, fun levels hEnough => ?_⟩
    rw [enter_computes hFlag hNew hEnabled hLoop hEnough, answer]
  | unmet hFlag hNew hEnabled _ ih =>
    obtain ⟨rfl, hLoop⟩ := ih
    refine ⟨erase_append_singleton hNew, fun levels hEnough => ?_⟩
    rw [enter_computes hFlag hNew hEnabled hLoop hEnough, answer]
  | rules hFlag hNew hEnabled _ hRules ih =>
    obtain ⟨rfl, hLoop⟩ := ih
    refine ⟨erase_append_singleton hNew, fun levels hEnough => ?_⟩
    rw [enter_computes hFlag hNew hEnabled hLoop hEnough, answer, hRules.computes]
  | done => exact ⟨rfl, fun _ _ => rfl⟩
  | threw _ ih =>
    obtain ⟨rfl, hUpstream⟩ := ih
    refine ⟨rfl, fun levels hEnough => ?_⟩
    have hUpstream := hUpstream levels hEnough
    rw [Call.run] at hUpstream
    rw [Call.run, firstUnmet, hUpstream]
  | refused _ hOther ih =>
    obtain ⟨rfl, hUpstream⟩ := ih
    refine ⟨rfl, fun levels hEnough => ?_⟩
    have hUpstream := hUpstream levels hEnough
    rw [Call.run] at hUpstream
    rw [Call.run, firstUnmet, hUpstream]
    simp only [hOther, Bool.false_eq_true, if_false]
  | met _ hServed _ ihUpstream ihRest =>
    obtain ⟨rfl, hUpstream⟩ := ihUpstream
    obtain ⟨rfl, hRest⟩ := ihRest
    refine ⟨rfl, fun levels hEnough => ?_⟩
    have hUpstream := hUpstream levels hEnough
    have hRest := hRest levels hEnough
    rw [Call.run] at hUpstream
    rw [Call.run] at hRest
    rw [Call.run, firstUnmet, hUpstream]
    simp only [hServed, if_true, hRest]

theorem Evaluates.prerequisites {seen : List String}
    (hFlag : ∀ flagKey, ∃ result, Evaluates regExp context env (.flag flagKey none) seen result seen)
    (remaining : List Prerequisite) :
    ∃ failed, Evaluates regExp context env (.prerequisites remaining) seen failed seen := by
  induction remaining with
  | nil => exact ⟨.ok none, .done⟩
  | cons prerequisite rest ih =>
    obtain ⟨result, hUpstream⟩ := hFlag prerequisite.flagKey
    cases result with
    | error error => exact ⟨.error error, .threw hUpstream⟩
    | ok upstream =>
      cases hServed : JsValue.strictEquals upstream.variationKey prerequisite.variationKey with
      | false => exact ⟨.ok (some prerequisite), .refused hUpstream hServed⟩
      | true =>
        obtain ⟨failed, hRest⟩ := ih
        exact ⟨failed, .met hUpstream hServed hRest⟩

/-- A flag that is entered answers with what its prerequisites leave to it. -/
theorem Evaluates.of_answer {flagKey : String} {seen : List String} {compiled : CompiledFlag}
    {failed : Except ScriptError (Option Prerequisite)} (hFlag : keyGet env.flags flagKey = some compiled)
    (hNew : flagKey ∉ seen) (hEnabled : compiled.flag.enabled = true)
    (hLoop : Evaluates regExp context env (.prerequisites compiled.flag.prerequisites) (seen ++ [flagKey]) failed
      (seen ++ [flagKey])) (fallback : JsValue) :
    Evaluates regExp context env (.flag flagKey fallback) seen
      (answer regExp context env Flag.rules compiled fallback failed) seen := by
  have hErase := erase_append_singleton hNew
  cases failed with
  | error error =>
    have hRun : Evaluates regExp context env (.flag flagKey fallback) seen (.error error) _ :=
      .thrown hFlag hNew hEnabled hLoop
    rwa [hErase] at hRun
  | ok failed =>
    cases failed with
    | some prerequisite =>
      have hRun : Evaluates regExp context env (.flag flagKey fallback) seen _ _ := .unmet hFlag hNew hEnabled hLoop
      rwa [hErase] at hRun
    | none =>
      have hRun : Evaluates regExp context env (.flag flagKey fallback) seen _ _ :=
        .rules hFlag hNew hEnabled hLoop (decides_total _)
      rwa [hErase] at hRun

theorem Evaluates.exists {bound : Nat} {seen : List String}
    (hBound : fresh (env.flags.map Prod.fst) seen < bound) (flagKey : String) (fallback : JsValue) :
    ∃ result, Evaluates regExp context env (.flag flagKey fallback) seen result seen := by
  induction bound generalizing seen flagKey fallback with
  | zero => exact absurd hBound (Nat.not_lt_zero _)
  | succ bound ih =>
    cases hFlag : keyGet env.flags flagKey with
    | none => exact ⟨_, .unknown hFlag⟩
    | some compiled =>
      by_cases hSeen : flagKey ∈ seen
      · exact ⟨_, .cycle hFlag hSeen⟩
      · have hRestored := erase_append_singleton hSeen
        cases hEnabled : compiled.flag.enabled with
        | false =>
          have hRun : Evaluates regExp context env (.flag flagKey fallback) seen (offResult compiled fallback .off)
              ((seen ++ [flagKey]).erase flagKey) := .disabled hFlag hSeen hEnabled
          rw [hRestored] at hRun
          exact ⟨_, hRun⟩
        | true =>
          have hShrinks := fresh_append_lt (mem_keys_of_keyGet hFlag) hSeen
          have hUpstream : ∀ key, ∃ result,
              Evaluates regExp context env (.flag key none) (seen ++ [flagKey]) result (seen ++ [flagKey]) :=
            fun key => ih (by omega) key none
          obtain ⟨failed, hLoop⟩ := Evaluates.prerequisites hUpstream compiled.flag.prerequisites
          exact ⟨_, .of_answer hFlag hSeen hEnabled hLoop fallback⟩

theorem evaluates_total (call : Call) (seen : List String) :
    ∃ result, Evaluates regExp context env call seen result seen := by
  have hFlag : ∀ flagKey fallback, ∃ result,
      Evaluates regExp context env (.flag flagKey fallback) seen result seen :=
    Evaluates.exists (Nat.lt_succ_self _)
  cases call with
  | flag flagKey fallback => exact hFlag flagKey fallback
  | prerequisites remaining => exact Evaluates.prerequisites (hFlag · none) remaining

/-- A call for a flag, taken apart. -/
theorem Evaluates.flag_cases {flagKey : String} {fallback : JsValue} {seen after : List String}
    {result : Except ScriptError EvaluationResult}
    (h : Evaluates regExp context env (.flag flagKey fallback) seen result after) :
    (keyGet env.flags flagKey = none ∧ result = .ok (errorResult fallback s!"unknown flag \"{flagKey}\"")) ∨
    ∃ compiled, keyGet env.flags flagKey = some compiled ∧
      (flagKey ∈ seen ∧ result = .ok (errorResult fallback s!"prerequisite cycle at \"{flagKey}\"") ∨
        flagKey ∉ seen ∧ compiled.flag.enabled = false ∧ result = offResult compiled fallback .off ∨
        flagKey ∉ seen ∧ compiled.flag.enabled = true ∧ ∃ failed,
          Evaluates regExp context env (.prerequisites compiled.flag.prerequisites) (seen ++ [flagKey]) failed
            (seen ++ [flagKey]) ∧
          result = answer regExp context env Flag.rules compiled fallback failed) := by
  cases h with
  | unknown hFlag => exact Or.inl ⟨hFlag, rfl⟩
  | cycle hFlag hSeen => exact Or.inr ⟨_, hFlag, Or.inl ⟨hSeen, rfl⟩⟩
  | disabled hFlag hNew hEnabled => exact Or.inr ⟨_, hFlag, Or.inr (Or.inl ⟨hNew, hEnabled, rfl⟩)⟩
  | thrown hFlag hNew hEnabled hLoop =>
    obtain rfl := hLoop.computes.1
    exact Or.inr ⟨_, hFlag, Or.inr (Or.inr ⟨hNew, hEnabled, _, hLoop, rfl⟩)⟩
  | unmet hFlag hNew hEnabled hLoop =>
    obtain rfl := hLoop.computes.1
    exact Or.inr ⟨_, hFlag, Or.inr (Or.inr ⟨hNew, hEnabled, _, hLoop, rfl⟩)⟩
  | rules hFlag hNew hEnabled hLoop hRules =>
    obtain rfl := hLoop.computes.1
    exact Or.inr ⟨_, hFlag, Or.inr (Or.inr ⟨hNew, hEnabled, _, hLoop, hRules.computes.symm⟩)⟩

theorem evaluateFlag_of_evaluates {flagKey : String} {fallback : JsValue} {after : List String}
    {result : Except ScriptError EvaluationResult}
    (h : Evaluates regExp context env (.flag flagKey fallback) [] result after) :
    evaluateFlag regExp context env flagKey fallback = settle fallback result := by
  have hFresh := fresh_le (env.flags.map Prod.fst) ([] : List String)
  rw [List.length_map] at hFresh
  have hRun := h.computes.2 (env.flags.length + 1) (by omega)
  rw [Call.run] at hRun
  rw [evaluateFlag, hRun]
  cases result with
  | error error => rfl
  | ok result => rfl

end Evaluation

/-- Every call of `matchNode` and `evaluateInternal` on every snapshot, with any guard set, has a
finished run, and every finished run gives the guard set back as it was. -/
theorem evaluation_terminates (regExp : RegExp) (context : EvaluationContext) (snapshot : RulesetSnapshot) :
    (∀ node seen, ∃ matched after, Matches regExp context (indexSnapshot snapshot) (.node node) seen matched after) ∧
    (∀ walk seen matched after, Matches regExp context (indexSnapshot snapshot) walk seen matched after →
      after = seen) ∧
    (∀ call seen, ∃ result after, Evaluates regExp context (indexSnapshot snapshot) call seen result after) ∧
    (∀ call seen result after, Evaluates regExp context (indexSnapshot snapshot) call seen result after →
      after = seen) ∧
    ∀ flagKey fallback, ∃ result, Evaluates regExp context (indexSnapshot snapshot) (.flag flagKey fallback) []
      result [] ∧ evaluateFlag regExp context (indexSnapshot snapshot) flagKey fallback = settle fallback result := by
  refine ⟨?_, fun _ _ _ _ hRun => hRun.holds.1, ?_, fun _ _ _ _ hRun => hRun.computes.1, ?_⟩
  · intro node seen
    obtain ⟨matched, hRun⟩ := matches_total node seen
    exact ⟨matched, seen, hRun⟩
  · intro call seen
    obtain ⟨result, hRun⟩ := evaluates_total call seen
    exact ⟨result, seen, hRun⟩
  · intro flagKey fallback
    obtain ⟨result, hRun⟩ := evaluates_total (.flag flagKey fallback) []
    exact ⟨result, hRun, evaluateFlag_of_evaluates hRun⟩

end Flagship.Core
