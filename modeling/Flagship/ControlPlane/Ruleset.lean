import Flagship.ControlPlane.RuleTree
import Flagship.Core.Bucketing
import Flagship.Core.Visibility
import Flagship.Lib.CycleSearch

/-! # Compiling database rows into the payloads SDKs receive

`compileRuleset` of `apps/control-plane/src/ruleset.ts`. The checks run over the documents of
the JSONB columns, where any read can throw; the payloads are built from their readings.
-/

namespace Flagship.ControlPlane

open Lib Flagship.Core

structure FlagRow where
  key : String
  salt : String
  bucketBy : String
  variations : Json
  enabled : Bool
  defaultVariationKey : String
  offVariationKey : String
  rules : Json
  prerequisites : Json

structure SegmentRow where
  key : String
  ruleTree : Json

structure CompiledRuleset where
  server : RulesetSnapshot
  client : RulesetSnapshot

/-- `invalid` is `RulesetValidationError`, `thrown` any other exception, and `unreadable` the
place of a cast that the document does not bear out, which is never reached. -/
inductive CompileError where
  | invalid (problems : List String)
  | thrown (error : ScriptError)
  | unreadable

structure CompileOptions where
  environmentKey : String
  version : Number
  flags : List FlagRow
  segments : List SegmentRow
  servedAt : Option String

def asArray : Json → List Json
  | .arr items => items
  | _ => []

/-- A flag as `compileRuleset` maps it from its row, its documents not yet looked into. -/
structure RawFlag where
  key : String
  enabled : Bool
  salt : String
  bucketBy : String
  variations : List Json
  defaultVariationKey : String
  offVariationKey : String
  prerequisites : List Json
  rules : List Json

def RawFlag.ofRow (row : FlagRow) : RawFlag where
  key := row.key
  enabled := row.enabled
  salt := row.salt
  bucketBy := row.bucketBy
  variations := asArray row.variations
  defaultVariationKey := row.defaultVariationKey
  offVariationKey := row.offVariationKey
  prerequisites := asArray row.prerequisites
  rules := asArray row.rules

def keySet (keys : List String) : List JsValue := keys.map fun key => some (.str key)

/-! ## The checks -/

/-- `distribution.length === 0` -/
def isEmptyDistribution : JsValue → Except ScriptError Bool
  | none | some .null => .error (.read "length")
  | some (.arr items) => .ok items.isEmpty
  | some (.str s) => .ok (s = "")
  | some doc => .ok (JsValue.strictEquals (doc.field? "length") (some (.num (.ofNat 0))))

def weightsTotal (total : Number) : List JsValue → Except ScriptError (Option Number)
  | [] => .ok (some total)
  | entry :: rest => do
    match ← entry.get "weight" with
    | some (.num weight) =>
      if !weight.isInteger || weight.lt (.ofNat 0) then .ok none else weightsTotal (total.add weight) rest
    | _ => .ok none

/-- `isValidDistribution` before anything is known about its argument. -/
def isValidRollout (distribution : JsValue) : Except ScriptError Bool := do
  if ← isEmptyDistribution distribution then .ok false
  else
    let total ← weightsTotal (.ofNat 0) (← distribution.iterate)
    .ok (total = some (.ofNat BUCKET_SPACE))

def sliceProblems (variationKeys : List JsValue) (path : String) (slice : JsValue) :
    Except ScriptError (List String) := do
  let variationKey ← slice.get "variationKey"
  if JsValue.has variationKeys variationKey then .ok []
  else
    let text ← variationKey.toText
    .ok [s!"{path}: rollout references undeclared variation \"{text}\""]

def serveProblems (variationKeys : List JsValue) (path : String) (serve : JsValue) :
    Except ScriptError (List String) := do
  if ← JsValue.hasProperty "variationKey" serve then
    let variationKey ← serve.get "variationKey"
    if JsValue.has variationKeys variationKey then .ok []
    else
      let text ← variationKey.toText
      .ok [s!"{path}: serves undeclared variation \"{text}\""]
  else
    let rollout ← serve.get "rollout"
    let valid ← isValidRollout rollout
    let undeclared ← (← rollout.iterate).mapM (sliceProblems variationKeys path)
    .ok (report (!valid) s!"{path}: rollout weights must be non-negative integers summing to 100000" ++
      undeclared.flatten)

def missingSegment (segmentKeys : List String) (path : String) (segmentKey : JsValue) :
    Except ScriptError (List String) := do
  if JsValue.has (keySet segmentKeys) segmentKey then .ok []
  else
    let text ← segmentKey.toText
    .ok [s!"{path}: references unknown segment \"{text}\""]

def ruleProblems (segmentKeys : List String) (variationKeys : List JsValue) (path : String) (rule : Json) :
    Except ScriptError (List String) := do
  let tree ← JsValue.get (some rule) "when"
  let missing ← (← collectSegmentKeys tree []).mapM (missingSegment segmentKeys path)
  let served ← serveProblems variationKeys path (← JsValue.get (some rule) "serve")
  .ok (validateRuleNode (MAX_DEPTH + 1) tree path ++ missing.flatten ++ served)

def validateFlag (flag : RawFlag) (segmentKeys : List String) : Except ScriptError (List String) := do
  let variationKeys := JsValue.distinct (← flag.variations.mapM fun variation => JsValue.get (some variation) "key")
  if variationKeys.isEmpty then .ok [s!"flag \"{flag.key}\": needs at least one variation"]
  else
    let rules ← flag.rules.zipIdx.mapM fun (rule, index) =>
      ruleProblems segmentKeys variationKeys s!"flag \"{flag.key}\" rule[{index}]" rule
    .ok (report (variationKeys.length ≠ flag.variations.length)
        s!"flag \"{flag.key}\": duplicate variation keys" ++
      report (!JsValue.has variationKeys (some (.str flag.defaultVariationKey)))
        s!"flag \"{flag.key}\": defaultVariationKey is not a declared variation" ++
      report (!JsValue.has variationKeys (some (.str flag.offVariationKey)))
        s!"flag \"{flag.key}\": offVariationKey is not a declared variation" ++
      rules.flatten)

def missingPrerequisite (flagKeys : List String) (flag : RawFlag) (prerequisite : Json) :
    Except ScriptError (List String) := do
  let flagKey ← JsValue.get (some prerequisite) "flagKey"
  if JsValue.has (keySet flagKeys) flagKey then .ok []
  else
    let text ← flagKey.toText
    .ok [s!"flag \"{flag.key}\": prerequisite \"{text}\" does not exist"]

def flagProblems (segmentKeys flagKeys : List String) (flag : RawFlag) : Except ScriptError (List String) := do
  let own ← validateFlag flag segmentKeys
  let missing ← flag.prerequisites.mapM (missingPrerequisite flagKeys flag)
  .ok (own ++ missing.flatten)

/-- Prerequisite keys that are strings; the search turns back at once on any other. -/
def prerequisiteKeys (prerequisites : List Json) : List String :=
  prerequisites.filterMap fun prerequisite => (prerequisite.field? "flagKey").string?

def prerequisiteEdges (flags : List RawFlag) (key : String) : Option (List String) :=
  (keyGet (flags.map fun flag => (flag.key, flag)) key).map fun flag => prerequisiteKeys flag.prerequisites

def findPrerequisiteCycle (flags : List RawFlag) : Option (List String) :=
  CycleSearch.findCycle (prerequisiteEdges flags) (flags.map RawFlag.key)

def cycleProblems (flags : List RawFlag) : List String :=
  match findPrerequisiteCycle flags with
  | some cycle =>
    let path := String.intercalate " -> " cycle
    [s!"prerequisite cycle: {path}"]
  | none => []

def validationProblems (flagRows : List FlagRow) (segmentRows : List SegmentRow) :
    Except ScriptError (List String) := do
  let segments := segmentRows.flatMap fun row =>
    validateRuleNode (MAX_DEPTH + 1) (some row.ruleTree) s!"segment \"{row.key}\""
  let flags := flagRows.map RawFlag.ofRow
  let flagProblems ← flags.mapM (flagProblems (segmentRows.map SegmentRow.key) (flags.map RawFlag.key))
  .ok (segments ++ flagProblems.flatten ++ cycleProblems flags)

/-! ## Readings -/

def readVariation : Json → Option Variation
  | .null => none
  | doc => some { key := doc.field? "key", value := doc.field? "value" }

def readDistribution (doc : Json) : Option Distribution :=
  match doc.field? "weight" with
  | some (.num weight) => some { variationKey := doc.field? "variationKey", weight }
  | _ => none

def readServe (doc : JsValue) : Option Serve :=
  match doc.object? with
  | none => none
  | some doc =>
    match doc.field? "variationKey" with
    | some variationKey => some (.variation (some variationKey))
    | none => do
      let rollout ← (doc.field? "rollout").array?
      let distribution ← rollout.mapM readDistribution
      some (.rollout distribution)

def readRule (doc : Json) : Option TargetingRule := do
  let tree ← doc.field? "when"
  let when ← readRuleNode (MAX_DEPTH + 1) tree
  let serve ← readServe (doc.field? "serve")
  some { id := doc.field? "id", description := doc.field? "description", when, serve }

def readPrerequisite (doc : Json) : Option Prerequisite := do
  let flagKey ← (doc.field? "flagKey").string?
  some { flagKey, variationKey := doc.field? "variationKey" }

def readFlag (raw : RawFlag) : Option Flag := do
  let variations ← raw.variations.mapM readVariation
  let prerequisites ← raw.prerequisites.mapM readPrerequisite
  let rules ← raw.rules.mapM readRule
  some {
    key := raw.key
    enabled := raw.enabled
    salt := raw.salt
    variations := variations
    defaultVariationKey := raw.defaultVariationKey
    offVariationKey := raw.offVariationKey
    prerequisites := prerequisites
    rules := rules
    bucketBy := raw.bucketBy }

def readSegment (row : SegmentRow) : Option Segment := do
  let when ← readRuleNode (MAX_DEPTH + 1) row.ruleTree
  some { key := row.key, when }

def snapshotOf (options : CompileOptions) (now : String) (flags : List Flag) (segments : List Segment) :
    RulesetSnapshot where
  environmentKey := options.environmentKey
  version := options.version
  flags := flags
  segments := segments
  servedAt := options.servedAt.getD now

def serverPayload (options : CompileOptions) (now : String) : Option RulesetSnapshot := do
  let flags ← (options.flags.map RawFlag.ofRow).mapM readFlag
  let segments ← options.segments.mapM readSegment
  some (snapshotOf options now flags segments)

/-- The part of `compileRuleset` after its checks: filter, search for leaks, return. -/
def finish (server : RulesetSnapshot) : Except CompileError CompiledRuleset :=
  let client := filterSnapshotForKey server .client
  match findServerOnlyLeaks client with
  | .error error => .error (.thrown error)
  | .ok [] => .ok { server, client }
  | .ok leaks =>
    let places := String.intercalate ", " leaks
    .error (.invalid [s!"client payload would leak server-only material: {places}"])

def compileRuleset (options : CompileOptions) (now : String) : Except CompileError CompiledRuleset :=
  match validationProblems options.flags options.segments with
  | .error error => .error (.thrown error)
  | .ok (problem :: problems) => .error (.invalid (problem :: problems))
  | .ok [] =>
    match serverPayload options now with
    | none => .error .unreadable
    | some server => finish server

end Flagship.ControlPlane
