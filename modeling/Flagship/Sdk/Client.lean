import Flagship.Core.Evaluate
import Flagship.Lib.Relational

/-! # The in-process client

The class of `packages/sdk-js/src/client.ts`. What it is handed may be a typed snapshot or a
document parsed from the network, whose shape nothing checks; `SnapshotKind` says how the client
reads the one or the other.
-/

namespace Flagship.Sdk

open Lib Flagship.Core

structure SnapshotKind (σ ε : Type) where
  version : σ → Except ScriptError JsValue
  index : σ → Except ScriptError ε

structure FlagshipClient (σ ε : Type) where
  snapshot : Option σ
  env : Option ε

structure ExposureRecord where
  flagKey : String
  variationKey : JsValue
  contextKey : String
  rulesetVersion : JsValue
  reason : EvaluationReason

namespace FlagshipClient

variable {σ ε : Type} (kind : SnapshotKind σ ε) (client : FlagshipClient σ ε)

/-- `#apply`. The snapshot is in place before the loop of `indexSnapshot` runs over it. -/
def apply (snapshot : σ) : Except ScriptError Unit × FlagshipClient σ ε :=
  let client := { client with snapshot := some snapshot }
  match kind.index snapshot with
  | .error error => (.error error, client)
  | .ok env => (.ok (), { client with env := some env })

def new (bootstrap : Option σ) : Except ScriptError (FlagshipClient σ ε) :=
  let client : FlagshipClient σ ε := { snapshot := none, env := none }
  match bootstrap with
  | none => .ok client
  | some bootstrap =>
    match client.apply kind bootstrap with
    | (.error error, _) => .error error
    | (.ok (), client) => .ok client

/-- The guard of `applySnapshot`, which compares only once something is held. -/
def isStale (next : σ) : Except ScriptError Bool :=
  match client.snapshot with
  | none => .ok false
  | some held => do
    let version ← kind.version next
    let current ← kind.version held
    version.lessOrEqual current

def applySnapshot (next : σ) : Except ScriptError Bool × FlagshipClient σ ε :=
  match client.isStale kind next with
  | .error error => (.error error, client)
  | .ok true => (.ok false, client)
  | .ok false =>
    match client.apply kind next with
    | (.error error, client) => (.error error, client)
    | (.ok (), client) => (.ok true, client)

/-- `this.#snapshot?.version ?? -1` -/
def version : JsValue :=
  match client.snapshot.map kind.version with
  | some (.ok (some .null)) | some (.ok none) | some (.error _) | none => some (.num (.finite (-1)))
  | some (.ok version) => version

/-- Frames as they arrive: what each call returned, and the client after the last one. -/
def deliver : FlagshipClient σ ε → List σ → List (Except ScriptError Bool) × FlagshipClient σ ε
  | client, [] => ([], client)
  | client, next :: rest =>
    let (result, client) := client.applySnapshot kind next
    let (results, client) := client.deliver rest
    (result :: results, client)

end FlagshipClient

/-! ## Typed snapshots -/

def rulesets : SnapshotKind RulesetSnapshot EvaluationEnvironment where
  version := fun snapshot => .ok (some (.num snapshot.version))
  index := fun snapshot => .ok (indexSnapshot snapshot)

abbrev RulesetClient := FlagshipClient RulesetSnapshot EvaluationEnvironment

namespace RulesetClient

variable (client : RulesetClient) (regExp : RegExp)

/-- The answer, and the record that `onExposure` is called with. -/
def evaluate (flagKey : String) (context : EvaluationContext) (fallback : JsValue) :
    EvaluationResult × Option ExposureRecord :=
  match client.env with
  | none => (errorResult fallback "no ruleset loaded", none)
  | some env =>
    let result := evaluateFlag regExp context env flagKey fallback
    let exposure := {
      flagKey
      variationKey := result.variationKey
      contextKey := context.key
      rulesetVersion := FlagshipClient.version rulesets client
      reason := result.reason }
    (result, if result.reason.isError then none else some exposure)

def isEnabled (flagKey : String) (context : EvaluationContext) (fallback : Bool) : Bool :=
  ((client.evaluate regExp flagKey context (some (.bool fallback))).1.value.boolean?).getD fallback

end RulesetClient

/-! ## Documents of unknown shape -/

structure DocumentFlag where
  flag : JsValue
  variations : List (JsValue × JsValue)

structure DocumentEnvironment where
  flags : List (JsValue × DocumentFlag)
  segments : List (JsValue × JsValue)

/-- What a `for … of` loop over a property visits. -/
def itemsOf (value : JsValue) (name : String) : Except ScriptError (List JsValue) := do
  (← value.get name).iterate

def indexKeyed (item : JsValue) : Except ScriptError (JsValue × JsValue) := do
  let key ← item.get "key"
  .ok (key, item)

def indexFlag (flag : JsValue) : Except ScriptError (JsValue × DocumentFlag) := do
  let variations ← itemsOf flag "variations"
  let variations ← variations.mapM indexKeyed
  let key ← flag.get "key"
  .ok (key, { flag, variations })

def indexDocument (document : Json) : Except ScriptError DocumentEnvironment := do
  let flags ← itemsOf (some document) "flags"
  let flags ← flags.mapM indexFlag
  let segments ← itemsOf (some document) "segments"
  let segments ← segments.mapM indexKeyed
  .ok { flags, segments }

def documents : SnapshotKind Json DocumentEnvironment where
  version := fun document => JsValue.get (some document) "version"
  index := indexDocument

end Flagship.Sdk
