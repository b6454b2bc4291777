import Flagship.ControlPlane.ApiKeys
import Flagship.ControlPlane.FlagConfig

/-! # The admin routes

The routes of `apps/control-plane/src/server.ts` that write, one request at a time, over the
statements of `repository.ts`. Any statement of a request can fail, and the answer of one that
took effect can be lost; what was committed by then stays, and the request ends there. Requests
are those that `requireAdmin` lets through, and `tenants`, `environments` and `segments` are
tables that no route writes.
-/

namespace Flagship.ControlPlane

open Lib Flagship.Core

inductive Statement where
  | begin | commit | rollback
  | updateEnvironment | selectFlags | selectSegments | insertSnapshot
  | insertFlag | selectEnvironments | insertFlagConfig (i : ℕ)
  | insertApiKey
  | selectFlag | updateFlagConfig | updateFlag | reselectFlag
  | insertAudit

/-- How a request goes: which of its statements fail, which of the others lose their answer, what
the clock shows at each, and whether the data plane takes the push of a publish. -/
structure Course where
  fails : Statement → Bool
  loses : Statement → Bool
  now : Statement → String
  pushed : Bool

/-- The statement is an exception to the request, with or without its effect. -/
def Course.throws (course : Course) (statement : Statement) : Bool :=
  course.fails statement || course.loses statement

/-! ## Publishing -/

/-- What a publish leaves: the row that landed, and what the call returns or throws. -/
structure PublishResult where
  database : Database
  landed : Option SnapshotRecord
  record : Option SnapshotRecord
  error : Option CompileError

namespace Database

variable (runtime : Runtime)

/-- A step of transaction `t`. A statement that fails, or that finds nothing to do, ends it. -/
def attempt (t : ℕ) (db : Database) (a : Action) (fails : Bool) : Database :=
  if !fails && db.enabled a then db.effect runtime a else db.effect runtime (.fail t)

/-- The transaction up to the time both tables are read. -/
def readInputs (db : Database) (options : PublishOptions) (course : Course) : Database :=
  let t := db.begun
  let db := db.effect runtime (.begin options)
  let db := db.attempt runtime t (.bump t) (course.throws .updateEnvironment)
  let db := db.attempt runtime t (.readFlags t) (course.throws .selectFlags)
  db.attempt runtime t (.readSegments t) (course.throws .selectSegments)

/-- What `compileRuleset` throws at a transaction that comes to call it. -/
def compileError (options : PublishOptions) (now : String) : Stage → Option CompileError
  | .readSegments version flags segments =>
    match compileRuleset (compileOptions options version flags.rows segments.rows) now with
    | .ok _ => none
    | .error error => some error
  | _ => none

def committedRecord : Stage → Option SnapshotRecord
  | .committed record => some record
  | _ => none

/-- `COMMIT`, whose answer can be lost after it took effect. -/
def commitStep (t : ℕ) (course : Course) : Action :=
  if course.loses .commit then .loseCommit t else .commit t

def publishRuleset (db : Database) (options : PublishOptions) (course : Course) : PublishResult :=
  if course.throws .begin then { database := db, landed := none, record := none, error := none }
  else
    let t := db.begun
    let now := course.now .insertSnapshot
    let read := db.readInputs runtime options course
    let db := read.attempt runtime t (.compile t now) false
    let db := db.attempt runtime t (.insert t) (course.throws .insertSnapshot)
    let db := db.attempt runtime t (commitStep t course) (course.fails .commit)
    { database := db
      landed := (db.stage t).landed
      record := committedRecord (db.stage t)
      error := compileError options now (read.stage t) }

end Database

/-! ## The tables -/

structure AuditEntry where
  tenantId : String
  environmentId : Option String
  actorId : String
  actorEmail : String
  action : String
  resourceType : String
  resourceKey : String
  previousValue : JsValue
  newValue : JsValue

/-- The two variation keys are those of the request, of whatever type they are there. -/
structure CreateFlagInput where
  tenantId : String
  key : String
  description : String
  variations : Json
  defaultVariationKey : Json
  offVariationKey : Json

/-- A change that has been committed. -/
inductive Change where
  | published (record : SnapshotRecord)
  | flagCreated (input : CreateFlagInput)
  | configChanged (input : UpdateFlagConfigInput) (before after : FlagDetail)

structure Admin where
  database : Database
  tables : Tables
  segments : List SegmentRecord
  tenants : List String
  /-- The ids of the environments, in the order of the table. -/
  environmentIds : List String
  apiKeys : List ApiKeyRecord
  auditLog : List AuditEntry
  /-- Every change the routes have committed, in order. -/
  changes : List Change

/-! ## Statements -/

namespace Admin

variable (runtime : Runtime) (sha256 : String → List UInt8) (s : Admin)

def configurationOf (tables : Tables) (segments : List SegmentRecord) : Configuration where
  flags := tables.flags.map FlagEntry.toFlagRecord
  flagConfigs := tables.flagConfigs.map FlagConfigEntry.toFlagConfigRecord
  segments := segments

def new (environments : String → Option (String × String)) (environmentIds tenants : List String) (tables : Tables)
    (segments : List SegmentRecord) : Admin where
  database := .new environments (configurationOf tables segments)
  tables := tables
  segments := segments
  tenants := tenants
  environmentIds := environmentIds
  apiKeys := []
  auditLog := []
  changes := []

def write (tables : Tables) : Admin :=
  { s with
    tables
    database := s.database.effect runtime (.configure (configurationOf tables s.segments)) }

/-- The foreign keys of a row that names a tenant and an environment. -/
def refers (tenantId : String) (environmentId : Option String) : Bool :=
  decide (tenantId ∈ s.tenants) && environmentId.all fun id => (s.database.environments id).isSome

/-- The row of an entry, whose values are of type `jsonb`. -/
def auditRow (entry : AuditEntry) : AuditEntry :=
  { entry with
    previousValue := entry.previousValue.map Json.stored
    newValue := entry.newValue.map Json.stored }

/-- The state after the statement, and whether the call returns. -/
def writeAudit (entry : AuditEntry) (course : Course) : Admin × Bool :=
  if course.fails .insertAudit || !s.refers entry.tenantId entry.environmentId then (s, false)
  else ({ s with auditLog := s.auditLog ++ [auditRow entry] }, !course.loses .insertAudit)

def insertApiKey (record : ApiKeyRecord) (course : Course) : Admin × Bool :=
  if course.fails .insertApiKey || !s.refers record.tenantId (some record.environmentId) then (s, false)
  else ({ s with apiKeys := s.apiKeys ++ [record] }, !course.loses .insertApiKey)

inductive CreateFlagError where
  | uniqueViolation
  | failed

def environmentsOf (tenantId : String) : List String :=
  s.environmentIds.filter fun id => (s.database.environments id).any fun environment => environment.tenantId = tenantId

/-- How `pg` sends a text, a number or a boolean for a column of type `TEXT`. An array or an object
is no declared variation, and the route turns it away before. -/
def sentText : Json → String
  | .str text => text
  | .num value => value.toText
  | .bool value => if value then "true" else "false"
  | doc => doc.stringify

def flagEntry (input : CreateFlagInput) (id salt now : String) : FlagEntry where
  id := id
  tenantId := input.tenantId
  key := input.key
  salt := salt
  bucketBy := "key"
  variations := input.variations.stored
  archived := false
  description := input.description
  updatedAt := now

def flagConfigEntry (input : CreateFlagInput) (flagId now environmentId : String) : FlagConfigEntry where
  flagId := flagId
  environmentId := environmentId
  enabled := false
  defaultVariationKey := sentText input.defaultVariationKey
  offVariationKey := sentText input.offVariationKey
  rules := .arr []
  prerequisites := .arr []
  tenantId := input.tenantId
  updatedAt := now

/-- One transaction, up to the effect of its `COMMIT`, whose answer can still be lost; the time in
it is the time at which it began. -/
def createFlag (input : CreateFlagInput) (id salt : String) (course : Course) : Except CreateFlagError Tables :=
  if course.throws .begin || course.throws .insertFlag then .error .failed
  else if s.tables.flags.any fun flag => flag.id = id ∨ flag.tenantId = input.tenantId ∧ flag.key = input.key then
    .error (if course.throws .rollback then .failed else .uniqueViolation)
  else if !s.refers input.tenantId none then .error .failed
  else
    let environments := s.environmentsOf input.tenantId
    if course.throws .selectEnvironments ||
        (List.range environments.length).any (fun i => course.throws (.insertFlagConfig i)) || course.fails .commit then
      .error .failed
    else
      .ok {
        flags := s.tables.flags ++ [flagEntry input id salt (course.now .begin)]
        flagConfigs := s.tables.flagConfigs ++ environments.map (flagConfigEntry input id (course.now .begin)) }

/-- The `UPDATE` of a configuration, which is committed at once: a change if it met a row. -/
def updateFlagConfig (input : UpdateFlagConfigInput) (previous : FlagDetail) (now : String) : Admin :=
  let tables := s.tables.updateConfig input previous now
  let after := tables.getFlag input.tenantId input.environmentId input.key
  let changed := s.tables.flagConfigs.any (s.tables.isTarget input)
  { s.write runtime tables with
    changes := s.changes ++ if changed then (after.map (Change.configChanged input previous)).toList else [] }

/-! ## The requests -/

/-- What `!value` lets through. -/
def given (value : Option String) : Option String := value.filter fun text => text ≠ ""

structure PublishBody where
  tenantId : Option String
  environmentId : Option String
  environmentKey : Option String
  actorEmail : Option String

structure ApiKeyBody where
  tenantId : Option String
  environmentId : Option String
  name : Option String
  kind : Option String

structure CreateFlagBody where
  tenantId : Option String
  key : Option String
  description : Option String
  variations : JsValue
  defaultVariationKey : JsValue
  offVariationKey : JsValue

structure PatchFlagBody where
  tenantId : Option String
  environmentId : Option String
  enabled : Option Bool
  defaultVariationKey : Option String
  offVariationKey : Option String
  rules : JsValue

def publishAudit (options : PublishOptions) (record : SnapshotRecord) : AuditEntry where
  tenantId := options.tenantId
  environmentId := some options.environmentId
  actorId := options.publishedBy
  actorEmail := options.publishedBy
  action := "publish"
  resourceType := "ruleset"
  resourceKey := options.environmentKey
  previousValue := none
  newValue := some (.obj [("version", .num (versionNumber record.version))])

def publishReply (record : SnapshotRecord) (pushed : Bool) : Reply where
  code := 200
  body := .obj [("version", .num (versionNumber record.version)), ("etag", .str record.etag), ("pushed", .bool pushed)]

/-- The `catch` of the route: any other exception is thrown on. -/
def publishFailed : Option CompileError → Option Reply
  | some (.invalid problems) =>
    let reported := String.intercalate "; " problems
    some {
      code := 422
      body := .obj [("error", .str s!"ruleset is invalid: {reported}"), ("problems", .arr (problems.map .str))] }
  | _ => none

/-- A request leaves a database, and a reply unless it throws. -/
def postPublish (body : PublishBody) (course : Course) : Admin × Option Reply :=
  match given body.tenantId, given body.environmentId, given body.environmentKey with
  | some tenantId, some environmentId, some environmentKey =>
    let options : PublishOptions :=
      { tenantId, environmentId, environmentKey, publishedBy := body.actorEmail.getD "unknown" }
    let result := s.database.publishRuleset runtime options course
    let s := { s with
      database := result.database
      changes := s.changes ++ (result.landed.map Change.published).toList }
    match result.record with
    | none => (s, if course.throws .rollback then none else publishFailed result.error)
    | some record =>
      match s.writeAudit (publishAudit options record) course with
      | (s, false) => (s, none)
      | (s, true) => (s, some (publishReply record course.pushed))
  | _, _, _ => (s, some (.error 400 "tenantId, environmentId and environmentKey are required"))

def kindOf : Option String → Option KeyKind
  | some "client" => some .client
  | some "server" => some .server
  | _ => none

def apiKeyAudit (record : ApiKeyRecord) : AuditEntry where
  tenantId := record.tenantId
  environmentId := some record.environmentId
  actorId := "admin"
  actorEmail := "admin"
  action := "create"
  resourceType := "api_key"
  resourceKey := record.name
  previousValue := none
  newValue := some (.obj [("kind", .str (keyKind record.kind)), ("prefix", .str record.keyPrefix)])

def apiKeyReply (id : String) (generated : GeneratedKey) : Reply where
  code := 201
  body := .obj [("id", .str id), ("key", .str generated.plaintext), ("kind", .str (keyKind generated.kind)),
    ("prefix", .str generated.keyPrefix)]

def apiKeyRecord (tenantId environmentId name id : String) (generated : GeneratedKey) : ApiKeyRecord where
  id := id
  tenantId := tenantId
  environmentId := environmentId
  name := name
  kind := generated.kind
  keyPrefix := generated.keyPrefix
  keyHash := generated.hash
  revoked := false

def postApiKeys (body : ApiKeyBody) (id secret : String) (course : Course) : Admin × Option Reply :=
  match given body.tenantId, given body.environmentId, given body.name with
  | some tenantId, some environmentId, some name =>
    match kindOf body.kind with
    | none => (s, some (.error 400 "kind must be \"client\" or \"server\""))
    | some kind =>
      let generated := generateApiKey sha256 kind secret
      let record := apiKeyRecord tenantId environmentId name id generated
      match s.insertApiKey record course with
      | (s, false) => (s, none)
      | (s, true) =>
        match s.writeAudit (apiKeyAudit record) course with
        | (s, false) => (s, none)
        | (s, true) => (s, some (apiKeyReply id generated))
  | _, _, _ => (s, some (.error 400 "tenantId, environmentId and name are required"))

def isKeyCharacter (c : Char) : Bool :=
  c.isAlphanum || c = '.' || c = '_' || c = '-'

def defaultVariations : Json :=
  .arr [.obj [("key", .str "on"), ("value", .bool true)], .obj [("key", .str "off"), ("value", .bool false)]]

/-- `variations.map((variation) => variation.key)`, `none` where it throws. -/
def variationKeys : Json → Option (List JsValue)
  | .arr items => items.mapM fun item => (JsValue.get (some item) "key").toOption
  | _ => none

/-- `variationKeys.has(key)` -/
def declares (keys : List JsValue) (key : Json) : Bool := keys.any (JsValue.sameValueZero (some key))

def createFlagAudit (input : CreateFlagInput) : AuditEntry where
  tenantId := input.tenantId
  environmentId := none
  actorId := "admin"
  actorEmail := "admin"
  action := "create"
  resourceType := "flag"
  resourceKey := input.key
  previousValue := none
  newValue := some (.obj [("variations", input.variations), ("defaultVariationKey", input.defaultVariationKey),
    ("offVariationKey", input.offVariationKey)])

/-- The route from the call of `createFlag` on. -/
def postChecked (input : CreateFlagInput) (id salt : String) (course : Course) : Admin × Option Reply :=
  match s.createFlag input id salt course with
  | .error .uniqueViolation => (s, some (.error 409 s!"flag \"{input.key}\" already exists"))
  | .error .failed => (s, none)
  | .ok tables =>
    let s := { s.write runtime tables with changes := s.changes ++ [.flagCreated input] }
    if course.loses .commit then (s, none)
    else
      match s.writeAudit (createFlagAudit input) course with
      | (s, false) => (s, none)
      | (s, true) => (s, some { code := 201, body := .obj [("key", .str input.key)] })

def postFlags (body : CreateFlagBody) (id salt : String) (course : Course) : Admin × Option Reply :=
  match given body.tenantId, given body.key with
  | some tenantId, some key =>
    if !key.toList.all isKeyCharacter then
      (s, some (.error 400 "key may contain only letters, digits, . _ and -"))
    else
      let variations := Tables.orPrevious body.variations defaultVariations
      let defaultVariationKey := Tables.orPrevious body.defaultVariationKey (.str "off")
      let offVariationKey := Tables.orPrevious body.offVariationKey (.str "off")
      match variationKeys variations with
      | none => (s, none)
      | some keys =>
        if !declares keys defaultVariationKey || !declares keys offVariationKey then
          (s, some (.error 400 "defaultVariationKey and offVariationKey must be declared variations"))
        else
          s.postChecked runtime {
            tenantId
            key
            description := body.description.getD ""
            variations
            defaultVariationKey
            offVariationKey } id salt course
  | _, _ => (s, some (.error 400 "tenantId and key are required"))

def patchInput (tenantId environmentId key : String) (body : PatchFlagBody) : UpdateFlagConfigInput where
  tenantId := tenantId
  environmentId := environmentId
  key := key
  enabled := body.enabled
  defaultVariationKey := body.defaultVariationKey
  offVariationKey := body.offVariationKey
  rules := body.rules

def patchAudit (input : UpdateFlagConfigInput) (previous : FlagDetail) : AuditEntry where
  tenantId := input.tenantId
  environmentId := some input.environmentId
  actorId := "admin"
  actorEmail := "admin"
  action := "update"
  resourceType := "flag"
  resourceKey := input.key
  previousValue := some (.obj [("enabled", .bool previous.enabled), ("rules", previous.rules)])
  newValue := some (.obj [("enabled", .bool (input.enabled.getD previous.enabled)),
    ("rules", Tables.orPrevious input.rules previous.rules)])

def flagReply (flag : FlagDetail) : Reply where
  code := 200
  body := .obj [("key", .str flag.key), ("description", .str flag.description), ("salt", .str flag.salt),
    ("bucketBy", .str flag.bucketBy), ("variations", flag.variations), ("enabled", .bool flag.enabled),
    ("defaultVariationKey", .str flag.defaultVariationKey), ("offVariationKey", .str flag.offVariationKey),
    ("rules", flag.rules), ("prerequisites", flag.prerequisites), ("updatedAt", .str flag.updatedAt)]

/-- The route once the flag has been read. -/
def patchFound (input : UpdateFlagConfigInput) (previous : FlagDetail) (course : Course) : Admin × Option Reply :=
  if course.fails .updateFlagConfig then (s, none)
  else
    let s := s.updateFlagConfig runtime input previous (course.now .updateFlagConfig)
    if course.loses .updateFlagConfig || course.fails .updateFlag then (s, none)
    else
      let s := s.write runtime (s.tables.updateFlag input (course.now .updateFlag))
      if course.loses .updateFlag then (s, none)
      else
        match s.writeAudit (patchAudit input previous) course with
        | (s, false) => (s, none)
        | (s, true) =>
          if course.throws .reselectFlag then (s, none)
          else (s, (s.tables.getFlag input.tenantId input.environmentId input.key).map flagReply)

def patchFlag (key : String) (body : PatchFlagBody) (course : Course) : Admin × Option Reply :=
  match given body.tenantId, given body.environmentId with
  | some tenantId, some environmentId =>
    if course.throws .selectFlag then (s, none)
    else
      match s.tables.getFlag tenantId environmentId key with
      | none => (s, some (.error 404 "flag not found"))
      | some previous => s.patchFound runtime (patchInput tenantId environmentId key body) previous course
  | _, _ => (s, some (.error 400 "tenantId and environmentId are required"))

inductive Request where
  | publish (body : PublishBody)
  | createApiKey (body : ApiKeyBody) (id secret : String)
  | createFlag (body : CreateFlagBody) (id salt : String)
  | patchFlag (key : String) (body : PatchFlagBody)

def handle (course : Course) : Request → Admin × Option Reply
  | .publish body => s.postPublish runtime body course
  | .createApiKey body id secret => s.postApiKeys sha256 body id secret course
  | .createFlag body id salt => s.postFlags runtime body id salt course
  | .patchFlag key body => s.patchFlag runtime key body course

def machine : Machine Admin (Request × Course) where
  enabled _ _ := true
  effect s step := (s.handle runtime sha256 step.2 step.1).1

end Admin

end Flagship.ControlPlane
