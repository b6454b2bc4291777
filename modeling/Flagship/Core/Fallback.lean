import Flagship.Core.Evaluate

/-! # The fallback of the caller

It is the value of an evaluation that ends in an error, and of no other; what is decided does not
depend on it.
-/

namespace Flagship.Core

open Lib

/-- A result with the fallback taken out. -/
def EvaluationResult.decided (result : EvaluationResult) : EvaluationResult :=
  if result.reason.isError then { result with value := none } else result

variable (regExp : RegExp) (context : EvaluationContext) (env : EvaluationEnvironment) (compiled : CompiledFlag)
  (fallback fallback' : JsValue)

theorem decided_resultFor (variationKey : JsValue) (reason : EvaluationReason) (bucket : Option Nat) :
    (resultFor compiled variationKey reason fallback bucket).map EvaluationResult.decided =
      (resultFor compiled variationKey reason fallback' bucket).map EvaluationResult.decided := by
  rw [resultFor, resultFor]
  cases findVariation compiled variationKey with
  | none => cases variationKey.toText <;> rfl
  | some variation => rfl

theorem decided_serveRule (rule : TargetingRule) :
    (serveRule context compiled fallback rule).map EvaluationResult.decided =
      (serveRule context compiled fallback' rule).map EvaluationResult.decided := by
  rw [serveRule, serveRule]
  cases rule.serve with
  | variation variationKey => exact decided_resultFor compiled fallback fallback' _ _ _
  | rollout distribution =>
    cases resolveBucketKey compiled.flag context with
    | none => exact decided_resultFor compiled fallback fallback' _ _ _
    | some bucketKey =>
      dsimp only
      cases variationForBucket distribution (bucketOf compiled.flag bucketKey) with
      | none => cases JsValue.toText rule.id <;> rfl
      | some variationKey => exact decided_resultFor compiled fallback fallback' _ _ _

theorem decided_evaluateRules (rules : List TargetingRule) :
    (evaluateRules regExp context env compiled fallback rules).map EvaluationResult.decided =
      (evaluateRules regExp context env compiled fallback' rules).map EvaluationResult.decided := by
  induction rules with
  | nil => exact decided_resultFor compiled fallback fallback' _ _ _
  | cons rule rest ih =>
    rw [evaluateRules, evaluateRules]
    split
    · exact decided_serveRule context compiled fallback fallback' rule
    · exact ih

/-- Prerequisites are evaluated without the caller's fallback. -/
theorem decided_evaluateInternal (levels : Nat) (flagKey : String) (seen : List String) :
    (evaluateInternal regExp context env levels flagKey fallback seen).1.map EvaluationResult.decided =
      (evaluateInternal regExp context env levels flagKey fallback' seen).1.map EvaluationResult.decided := by
  cases levels with
  | zero => rfl
  | succ levels =>
    rw [evaluateInternal, evaluateInternal]
    cases keyGet env.flags flagKey with
    | none => rfl
    | some compiled =>
      dsimp only
      split
      · rfl
      split
      · exact decided_resultFor compiled fallback fallback' _ _ _
      split
      · rfl
      · exact decided_resultFor compiled fallback fallback' _ _ _
      · exact decided_evaluateRules regExp context env compiled fallback fallback' _

theorem decided_evaluateFlag (flagKey : String) :
    (evaluateFlag regExp context env flagKey fallback).decided =
      (evaluateFlag regExp context env flagKey fallback').decided := by
  have hInternal := decided_evaluateInternal regExp context env fallback fallback' (env.flags.length + 1) flagKey []
  rw [evaluateFlag, evaluateFlag]
  cases hFirst : (evaluateInternal regExp context env (env.flags.length + 1) flagKey fallback []).1 with
  | error error =>
    cases hSecond : (evaluateInternal regExp context env (env.flags.length + 1) flagKey fallback' []).1 with
    | error error' =>
      rw [hFirst, hSecond] at hInternal
      obtain rfl := Except.error.inj hInternal
      rfl
    | ok result' =>
      rw [hFirst, hSecond] at hInternal
      cases hInternal
  | ok result =>
    cases hSecond : (evaluateInternal regExp context env (env.flags.length + 1) flagKey fallback' []).1 with
    | error error' =>
      rw [hFirst, hSecond] at hInternal
      cases hInternal
    | ok result' =>
      rw [hFirst, hSecond] at hInternal
      exact Except.ok.inj hInternal

theorem variationKey_decided (result : EvaluationResult) : result.decided.variationKey = result.variationKey := by
  rw [EvaluationResult.decided]
  split <;> rfl

theorem reason_decided (result : EvaluationResult) : result.decided.reason = result.reason := by
  rw [EvaluationResult.decided]
  split <;> rfl

end Flagship.Core
