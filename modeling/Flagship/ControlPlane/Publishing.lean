import Flagship.ControlPlane.Ruleset
import Flagship.Lib.Transition
import Mathlib.Logic.Function.Basic

/-! # Publishing as a database transaction

The tables of `apps/control-plane/migrations/001_initial.sql` that a publish touches, and
`publishRuleset` of `apps/control-plane/src/repository.ts` with one step for each statement.
Statements of all transactions and the writes of the configuration interleave. A statement
sees what is committed when it runs, the lock an `UPDATE` takes on a row is held until the
transaction ends, and only `COMMIT` lets others see what it wrote.
-/

namespace Flagship.ControlPlane

open Lib Flagship.Core

/-! ## Tables -/

structure EnvironmentRecord where
  tenantId : String
  key : String
  version : Nat

structure FlagRecord where
  id : String
  tenantId : String
  key : String
  salt : String
  bucketBy : String
  variations : Json
  archived : Bool

structure FlagConfigRecord where
  flagId : String
  environmentId : String
  enabled : Bool
  defaultVariationKey : String
  offVariationKey : String
  rules : Json
  prerequisites : Json

structure SegmentRecord where
  tenantId : String
  key : String
  ruleTree : Json

structure Configuration where
  flags : List FlagRecord
  flagConfigs : List FlagConfigRecord
  segments : List SegmentRecord

/-- The collation that `ORDER BY` follows, and the hash of a serialized payload. -/
structure Runtime where
  collation : String → String → Bool
  etag : RulesetSnapshot → String

/-- A flag beside a configuration of it, with the defaults of the `COALESCE`s. -/
def flagRow (flag : FlagRecord) (config : Option FlagConfigRecord) : FlagRow where
  key := flag.key
  salt := flag.salt
  bucketBy := flag.bucketBy
  variations := flag.variations
  enabled := (config.map FlagConfigRecord.enabled).getD false
  defaultVariationKey := (config.map FlagConfigRecord.defaultVariationKey).getD ""
  offVariationKey := (config.map FlagConfigRecord.offVariationKey).getD ""
  rules := (config.map FlagConfigRecord.rules).getD (.arr [])
  prerequisites := (config.map FlagConfigRecord.prerequisites).getD (.arr [])

def leftJoin (matching : List FlagConfigRecord) : List (Option FlagConfigRecord) :=
  if matching.isEmpty then [none] else matching.map some

def loadFlags (runtime : Runtime) (configuration : Configuration) (tenantId environmentId : String) : List FlagRow :=
  let flags := configuration.flags.filter fun flag => flag.tenantId = tenantId ∧ flag.archived = false
  let rows := flags.flatMap fun flag =>
    (leftJoin (configuration.flagConfigs.filter fun config =>
      config.flagId = flag.id ∧ config.environmentId = environmentId)).map (flagRow flag)
  rows.mergeSort fun first second => runtime.collation first.key second.key

def loadSegments (runtime : Runtime) (configuration : Configuration) (tenantId : String) : List SegmentRow :=
  let segments := configuration.segments.filter fun segment => segment.tenantId = tenantId
  (segments.map fun segment => { key := segment.key, ruleTree := segment.ruleTree }).mergeSort
    fun first second => runtime.collation first.key second.key

/-! ## Transactions -/

/-- Rows with the time at which they were read, and how many configurations came before. -/
structure Reading (α : Type) where
  rows : List α
  time : Nat
  revision : Nat

structure PublishOptions where
  tenantId : String
  environmentId : String
  environmentKey : String
  publishedBy : String

/-- A row of `ruleset_snapshots`, beside the rows it was compiled from. -/
structure SnapshotRecord where
  tenantId : String
  environmentId : String
  version : Nat
  compiled : CompiledRuleset
  etag : String
  publishedBy : String
  flags : Reading FlagRow
  segments : Reading SegmentRow

inductive Stage where
  | begun
  | bumped (version : Nat)
  | readFlags (version : Nat) (flags : Reading FlagRow)
  | readSegments (version : Nat) (flags : Reading FlagRow) (segments : Reading SegmentRow)
  | compiled (version : Nat) (flags : Reading FlagRow) (segments : Reading SegmentRow) (compiled : CompiledRuleset)
  | inserted (version : Nat) (record : SnapshotRecord)
  | committed (record : SnapshotRecord)
  /-- `COMMIT` took effect and its answer was lost, so the caller is told of a failure. -/
  | lost (record : SnapshotRecord)
  | thrown

structure Transaction where
  options : PublishOptions
  stage : Stage

structure Database where
  environments : String → Option EnvironmentRecord
  snapshots : List SnapshotRecord
  configuration : Configuration
  past : List Configuration
  transactions : Nat → Transaction
  begun : Nat
  clock : Nat

/-- `Number(versionResult.rows[0].version)` -/
def versionNumber (version : Nat) : Number := .ofRat version

/-- A number as the `BIGINT` it is inserted as. -/
def bigint : Number → Option Nat
  | .finite q => if q.den = 1 ∧ 0 ≤ q ∧ q < 2 ^ 63 then some q.num.toNat else none
  | _ => none

/-- The row of the environment is locked: its version is bumped, and the transaction goes on. -/
def Stage.locks : Stage → Bool
  | .bumped _ | .readFlags _ _ | .readSegments _ _ _ | .compiled _ _ _ _ | .inserted _ _ => true
  | .begun | .committed _ | .lost _ | .thrown => false

def Stage.isOpen : Stage → Bool
  | .committed _ | .lost _ | .thrown => false
  | _ => true

/-- The row that the transaction has committed, whatever its caller was told. -/
def Stage.landed : Stage → Option SnapshotRecord
  | .committed record | .lost record => some record
  | _ => none

/-- The call of `publishRuleset` ends in an exception. -/
def Stage.throws : Stage → Bool
  | .lost _ | .thrown => true
  | _ => false

namespace Database

def new (environments : String → Option (String × String)) (configuration : Configuration) : Database where
  environments := fun id => (environments id).map fun (tenantId, key) => { tenantId, key, version := 0 }
  snapshots := []
  configuration := configuration
  past := []
  transactions := fun _ => { options := ⟨"", "", "", ""⟩, stage := .thrown }
  begun := 0
  clock := 0

inductive Action where
  | configure (configuration : Configuration)
  | begin (options : PublishOptions)
  | bump (t : Nat)
  | readFlags (t : Nat)
  | readSegments (t : Nat)
  | compile (t : Nat) (now : String)
  | insert (t : Nat)
  | commit (t : Nat)
  | loseCommit (t : Nat)
  | fail (t : Nat)

variable (db : Database)

def stage (t : Nat) : Stage := (db.transactions t).stage

def options (t : Nat) : PublishOptions := (db.transactions t).options

def setStage (t : Nat) (stage : Stage) : Database :=
  { db with transactions := Function.update db.transactions t { db.transactions t with stage } }

def tick : Database := { db with clock := db.clock + 1 }

def isUnlocked (environmentId : String) : Bool :=
  decide (∀ t < db.begun, (db.options t).environmentId = environmentId → (db.stage t).locks = false)

/-- The row that `WHERE id = $1 AND tenant_id = $2` selects. -/
def environmentFor (options : PublishOptions) : Option EnvironmentRecord :=
  (db.environments options.environmentId).filter fun environment => environment.tenantId = options.tenantId

/-- A transaction that finds no row, or whose version is no `BIGINT`, can only fail. -/
def enabled : Action → Bool
  | .configure _ | .begin _ => true
  | .bump t => decide (t < db.begun) && (match db.stage t with | .begun => true | _ => false) &&
      (db.environmentFor (db.options t)).any (fun environment => environment.version + 1 < 2 ^ 63) &&
      db.isUnlocked (db.options t).environmentId
  | .readFlags t => decide (t < db.begun) && (match db.stage t with | .bumped _ => true | _ => false)
  | .readSegments t => decide (t < db.begun) && (match db.stage t with | .readFlags _ _ => true | _ => false)
  | .compile t _ => decide (t < db.begun) && (match db.stage t with | .readSegments _ _ _ => true | _ => false)
  | .insert t => decide (t < db.begun) && (match db.stage t with | .compiled _ _ _ _ => true | _ => false)
  | .commit t | .loseCommit t =>
    decide (t < db.begun) && (match db.stage t with | .inserted _ _ => true | _ => false)
  | .fail t => decide (t < db.begun) && (db.stage t).isOpen

def readFlagRows (runtime : Runtime) (options : PublishOptions) : Reading FlagRow where
  rows := loadFlags runtime db.configuration options.tenantId options.environmentId
  time := db.clock
  revision := db.past.length

def readSegmentRows (runtime : Runtime) (options : PublishOptions) : Reading SegmentRow where
  rows := loadSegments runtime db.configuration options.tenantId
  time := db.clock
  revision := db.past.length

def compileOptions (options : PublishOptions) (version : Nat) (flags : List FlagRow) (segments : List SegmentRow) :
    CompileOptions :=
  { environmentKey := options.environmentKey, version := versionNumber version, flags, segments, servedAt := none }

/-- Whether `UNIQUE (environment_id, version)` turns a row away. -/
def isTaken (environmentId : String) (version : Nat) : Bool :=
  db.snapshots.any fun record => record.environmentId = environmentId ∧ record.version = version

def next (runtime : Runtime) (options : PublishOptions) : Action → Stage → Stage
  | .bump _, .begun =>
    match db.environmentFor options with
    | some environment => .bumped (environment.version + 1)
    | none => .thrown
  | .readFlags _, .bumped version => .readFlags version (db.readFlagRows runtime options)
  | .readSegments _, .readFlags version flags => .readSegments version flags (db.readSegmentRows runtime options)
  | .compile _ now, .readSegments version flags segments =>
    match compileRuleset (compileOptions options version flags.rows segments.rows) now with
    | .ok compiled => .compiled version flags segments compiled
    -- any exception leads to `ROLLBACK`, a `RulesetValidationError` among them
    | .error _ => .thrown
  | .insert _, .compiled version flags segments compiled =>
    match bigint (versionNumber version) with
    | none => .thrown
    | some inserted =>
      if db.isTaken options.environmentId inserted then .thrown
      else .inserted version {
        tenantId := options.tenantId
        environmentId := options.environmentId
        version := inserted
        compiled := compiled
        etag := runtime.etag compiled.server
        publishedBy := options.publishedBy
        flags := flags
        segments := segments }
  | .commit _, .inserted _ record => .committed record
  | .loseCommit _, .inserted _ record => .lost record
  | _, _ => .thrown

/-- What `COMMIT` makes of the two tables. -/
def publish (environmentId : String) (version : Nat) (record : SnapshotRecord) : Database :=
  { db with
    environments := Function.update db.environments environmentId
      ((db.environments environmentId).map fun environment => { environment with version })
    snapshots := db.snapshots ++ [record] }

def advance (runtime : Runtime) (a : Action) (t : Nat) : Database :=
  db.setStage t (db.next runtime (db.options t) a (db.stage t))

def effect (runtime : Runtime) (a : Action) : Database :=
  match a with
  | .configure configuration =>
    { db.tick with configuration, past := db.past ++ [db.configuration] }
  | .begin options =>
    { db.tick with
      transactions := Function.update db.transactions db.begun { options, stage := .begun }
      begun := db.begun + 1 }
  -- until here the bump and the insert are the transaction's own
  | .commit t | .loseCommit t =>
    match db.stage t with
    | .inserted version record => ((db.advance runtime a t).publish (db.options t).environmentId version record).tick
    | _ => db
  | .bump t | .readFlags t | .readSegments t | .compile t _ | .insert t | .fail t => (db.advance runtime a t).tick

def machine (runtime : Runtime) : Machine Database Action where
  enabled := enabled
  effect := fun db => db.effect runtime

end Database

end Flagship.ControlPlane
