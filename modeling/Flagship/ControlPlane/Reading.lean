import Flagship.ControlPlane.Admin

/-! # The admin routes that only read

`listFlags`, `listEnvironments`, `listSegments` and `listAudit` of
`apps/control-plane/src/repository.ts`, with the routes of `server.ts` that serve them and
`getFlag`. The clock that stamps the rows of `audit_log` does not go back, so that the latest
rows come first when the log is read from its end.
-/

namespace Flagship.ControlPlane

open Lib Flagship.Core

/-- The columns of `environments` and `segments` that are only ever shown. -/
structure Directory where
  environmentName : String → String
  segmentDescription : String → String → String

/-! ## The queries -/

def Tables.listFlags (tables : Tables) (runtime : Runtime) (tenantId environmentId : String) : List FlagDetail :=
  let flags := tables.flags.filter fun flag => flag.tenantId = tenantId ∧ flag.archived = false
  let rows := flags.flatMap fun flag =>
    (leftJoin ((tables.configsFor flag environmentId).map FlagConfigEntry.toFlagConfigRecord)).map (flagDetail flag)
  rows.mergeSort fun first second => runtime.collation first.key second.key

def flagSummary (flag : FlagDetail) : Json :=
  .obj [("key", .str flag.key), ("description", .str flag.description), ("enabled", .bool flag.enabled),
    ("variations", flag.variations), ("updatedAt", .str flag.updatedAt)]

def environmentSummary (directory : Directory) (row : String × EnvironmentRecord) : Json :=
  .obj [("id", .str row.1), ("key", .str row.2.key), ("name", .str (directory.environmentName row.1)),
    ("version", .num (versionNumber row.2.version))]

def segmentSummary (directory : Directory) (segment : SegmentRecord) : Json :=
  .obj [("key", .str segment.key), ("description", .str (directory.segmentDescription segment.tenantId segment.key)),
    ("ruleTree", segment.ruleTree)]

def auditSummary (entry : AuditEntry) : Json :=
  .obj [("action", .str entry.action), ("resource_type", .str entry.resourceType),
    ("resource_key", .str entry.resourceKey), ("actor_email", .str entry.actorEmail),
    ("previous_value", entry.previousValue.getD .null), ("new_value", entry.newValue.getD .null)]

/-- `Math.min(options.limit ?? 50, 200)`; no route gives a limit. -/
def auditLimit (limit : Option ℕ) : ℕ := min (limit.getD 50) 200

namespace Admin

variable (s : Admin) (runtime : Runtime) (directory : Directory)

def listEnvironments (tenantId : String) : List (String × EnvironmentRecord) :=
  let rows := s.environmentIds.filterMap fun id =>
    ((s.database.environments id).filter fun environment => environment.tenantId = tenantId).map (id, ·)
  rows.mergeSort fun first second => runtime.collation first.2.key second.2.key

def listSegments (tenantId : String) : List SegmentRecord :=
  (s.segments.filter fun segment => segment.tenantId = tenantId).mergeSort fun first second =>
    runtime.collation first.key second.key

def listAudit (tenantId : String) (resourceKey : Option String) (limit : Option ℕ) : List AuditEntry :=
  let rows := s.auditLog.filter fun entry => entry.tenantId = tenantId ∧ resourceKey.all (entry.resourceKey = ·)
  rows.reverse.take (auditLimit limit)

/-! ## The routes -/

inductive Query where
  | flags (tenantId environmentId : Option String)
  | flag (key : String) (tenantId environmentId : Option String)
  | environments (tenantId : Option String)
  | segments (tenantId : Option String)
  | audit (tenantId resourceKey : Option String)

def listReply (name : String) (rows : List Json) : Reply where
  code := 200
  body := .obj [(name, .arr rows)]

/-- The reply to a query, unless its `SELECT` fails. -/
def read (fails : Bool) : Query → Option Reply
  | .flags tenantId environmentId =>
    match given tenantId, given environmentId with
    | some tenantId, some environmentId =>
      if fails then none
      else some (listReply "flags" ((s.tables.listFlags runtime tenantId environmentId).map flagSummary))
    | _, _ => some (.error 400 "tenantId and environmentId are required")
  | .flag key tenantId environmentId =>
    match given tenantId, given environmentId with
    | some tenantId, some environmentId =>
      if fails then none
      else some (((s.tables.getFlag tenantId environmentId key).map flagReply).getD (.error 404 "flag not found"))
    | _, _ => some (.error 400 "tenantId and environmentId are required")
  | .environments tenantId =>
    match given tenantId with
    | some tenantId =>
      if fails then none
      else some (listReply "environments" ((s.listEnvironments runtime tenantId).map (environmentSummary directory)))
    | none => some (.error 400 "tenantId is required")
  | .segments tenantId =>
    match given tenantId with
    | some tenantId =>
      if fails then none
      else some (listReply "segments" ((s.listSegments runtime tenantId).map (segmentSummary directory)))
    | none => some (.error 400 "tenantId is required")
  | .audit tenantId resourceKey =>
    match given tenantId with
    | some tenantId =>
      if fails then none
      else some (listReply "entries" ((s.listAudit tenantId (given resourceKey) none).map auditSummary))
    | none => some (.error 400 "tenantId is required")

end Admin

end Flagship.ControlPlane
