import Flagship.Core.Bucketing
import Flagship.Core.Operators
import Flagship.Lib.ScriptMap

/-! # Rule evaluation

The functions of `packages/core/src/evaluate.ts`. The two guard sets are shared and mutable
in the source: here each call takes the set and returns it as it leaves it, on every path. The
recursion through references counts levels; `evaluateFlag` starts with one more than there are
keys to enter, and a guard set never lets a key be entered twice.
-/

namespace Flagship.Core

open Lib

structure CompiledFlag where
  flag : Flag
  variations : List (JsValue × Variation)

structure EvaluationEnvironment where
  flags : List (String × CompiledFlag)
  segments : List (String × Segment)

def compileFlag (flag : Flag) : CompiledFlag :=
  { flag, variations := flag.variations.map fun variation => (variation.key, variation) }

def indexSnapshot (snapshot : RulesetSnapshot) : EvaluationEnvironment where
  flags := snapshot.flags.map fun flag => (flag.key, compileFlag flag)
  segments := snapshot.segments.map fun segment => (segment.key, segment)

/-- `key` names the context itself, so that rules can target it without a special case. -/
def resolveAttribute (context : EvaluationContext) («attribute» : String) : Option AttributeValue :=
  if «attribute» = "key" then some (.str context.key) else context.attributes «attribute»

section MatchNode

variable (regExp : RegExp) (context : EvaluationContext)

/-- What a walk does at a segment reference: the answer, and the guard set it leaves. -/
abbrev Enter := SegmentRef → Option (List String) → Bool × Option (List String)

mutual
def matchTree (enter : Enter) : RuleNode → Option (List String) → Bool × Option (List String)
  | .condition c, seen => (applyOperator regExp c.operator (resolveAttribute context c.attribute) c.values, seen)
  | .boolean .and children, seen => matchEvery enter children seen
  | .boolean .or children, seen => matchSome enter children seen
  | .boolean .not children, seen =>
    match matchEvery enter children seen with
    | (matched, seen) => (!matched, seen)
  | .segment reference, seen => enter reference seen

def matchEvery (enter : Enter) : List RuleNode → Option (List String) → Bool × Option (List String)
  | [], seen => (true, seen)
  | child :: rest, seen =>
    match matchTree enter child seen with
    | (true, seen) => matchEvery enter rest seen
    | (false, seen) => (false, seen)

def matchSome (enter : Enter) : List RuleNode → Option (List String) → Bool × Option (List String)
  | [], seen => (false, seen)
  | child :: rest, seen =>
    match matchTree enter child seen with
    | (true, seen) => (true, seen)
    | (false, seen) => matchSome enter rest seen
end

variable (env : EvaluationEnvironment)

/-- Without a set the walk is outside every segment: one is allocated for this reference and
dropped after it. -/
def matchNode : Nat → RuleNode → Option (List String) → Bool × Option (List String)
  | 0, _, seenSegments => (false, seenSegments)
  | levels + 1, node, seenSegments =>
    matchTree regExp context (fun reference seenSegments =>
      let seen := seenSegments.getD []
      if reference.segmentKey ∈ seen then (false, seenSegments)
      else
        match keyGet env.segments reference.segmentKey with
        | none => (false, seenSegments)
        | some segment =>
          let (matched, inside) := matchNode levels segment.when (some (seen ++ [reference.segmentKey]))
          (if reference.negate then !matched else matched,
            seenSegments.bind fun _ => inside.map (·.erase reference.segmentKey)))
      node seenSegments

def matchRule (rule : TargetingRule) : Bool :=
  (matchNode regExp context env (env.segments.length + 1) rule.when none).1

end MatchNode

def AttributeValue.toText : AttributeValue → String
  | .str value => value
  | .num value => value.toText
  | .bool value => if value then "true" else "false"
  | .null => "null"

def resolveBucketKey (flag : Flag) (context : EvaluationContext) : Option String :=
  match resolveAttribute context flag.bucketBy with
  | none | some .null => none
  | some raw => some raw.toText

def findVariation (compiled : CompiledFlag) (variationKey : JsValue) : Option Variation :=
  mapGet JsValue.sameValueZero compiled.variations variationKey

def resultFor (compiled : CompiledFlag) (variationKey : JsValue) (reason : EvaluationReason)
    (fallback : JsValue) (bucket : Option Nat) : Except ScriptError EvaluationResult :=
  match findVariation compiled variationKey with
  | none => do
    let text ← variationKey.toText
    .ok { value := fallback, variationKey, reason := .error s!"unknown variation \"{text}\"", bucket := none }
  | some variation => .ok { value := variation.value, variationKey, reason, bucket }

def errorResult (fallback : JsValue) (message : String) : EvaluationResult :=
  { value := fallback, variationKey := some (.str ""), reason := .error message, bucket := none }

def bucketOf (flag : Flag) (bucketKey : String) : Nat :=
  bucketFor (CodeUnits.ofString flag.key) (CodeUnits.ofString flag.salt) (CodeUnits.ofString bucketKey)

section Rules

variable (regExp : RegExp) (context : EvaluationContext) (env : EvaluationEnvironment)
variable (compiled : CompiledFlag) (fallback : JsValue)

def defaultResult : Except ScriptError EvaluationResult :=
  resultFor compiled (some (.str compiled.flag.defaultVariationKey)) .default fallback none

def offResult (reason : EvaluationReason) : Except ScriptError EvaluationResult :=
  resultFor compiled (some (.str compiled.flag.offVariationKey)) reason fallback none

def serveRule (rule : TargetingRule) : Except ScriptError EvaluationResult :=
  match rule.serve with
  | .variation variationKey => resultFor compiled variationKey (.ruleMatch rule.id) fallback none
  | .rollout distribution =>
    match resolveBucketKey compiled.flag context with
    | none => defaultResult compiled fallback
    | some bucketKey =>
      let bucket := bucketOf compiled.flag bucketKey
      match variationForBucket distribution bucket with
      | none => do
        let id ← JsValue.toText rule.id
        .ok (errorResult fallback s!"malformed rollout in rule \"{id}\"")
      | variationKey => resultFor compiled variationKey (.ruleMatch rule.id) fallback (some bucket)

def evaluateRules : List TargetingRule → Except ScriptError EvaluationResult
  | [] => defaultResult compiled fallback
  | rule :: rest =>
    if matchRule regExp context env rule then serveRule context compiled fallback rule else evaluateRules rest

end Rules

/-- The prerequisite loop: the first requirement not served, with the guard set it leaves. -/
def firstUnmet (evaluate : String → List String → Except ScriptError EvaluationResult × List String) :
    List Prerequisite → List String → Except ScriptError (Option Prerequisite) × List String
  | [], seen => (.ok none, seen)
  | prerequisite :: rest, seen =>
    match evaluate prerequisite.flagKey seen with
    | (.error error, seen) => (.error error, seen)
    | (.ok upstream, seen) =>
      if JsValue.strictEquals upstream.variationKey prerequisite.variationKey then firstUnmet evaluate rest seen
      else (.ok (some prerequisite), seen)

section Evaluate

variable (regExp : RegExp) (context : EvaluationContext) (env : EvaluationEnvironment)

def evaluateInternal : Nat → String → JsValue → List String → Except ScriptError EvaluationResult × List String
  | 0, _, _, seenFlags => (.error .stackOverflow, seenFlags)
  | levels + 1, flagKey, fallback, seenFlags =>
    match keyGet env.flags flagKey with
    | none => (.ok (errorResult fallback s!"unknown flag \"{flagKey}\""), seenFlags)
    | some compiled =>
      if flagKey ∈ seenFlags then
        (.ok (errorResult fallback s!"prerequisite cycle at \"{flagKey}\""), seenFlags)
      else
        let seenFlags := seenFlags ++ [flagKey]
        let (result, seenFlags) :=
          if !compiled.flag.enabled then (offResult compiled fallback .off, seenFlags)
          else
            match firstUnmet (evaluateInternal levels · none) compiled.flag.prerequisites seenFlags with
            | (.error error, seenFlags) => (.error error, seenFlags)
            | (.ok (some prerequisite), seenFlags) =>
              (offResult compiled fallback (.prerequisiteFailed prerequisite.flagKey), seenFlags)
            | (.ok none, seenFlags) =>
              (evaluateRules regExp context env compiled fallback compiled.flag.rules, seenFlags)
        (result, seenFlags.erase flagKey)

def evaluateFlag (flagKey : String) (fallback : JsValue) : EvaluationResult :=
  match (evaluateInternal regExp context env (env.flags.length + 1) flagKey fallback []).1 with
  | .ok result => result
  | .error error => errorResult fallback error.message

end Evaluate

end Flagship.Core
