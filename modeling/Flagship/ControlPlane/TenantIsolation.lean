import Flagship.ControlPlane.TenantRoutes
import Flagship.Lib.Noninterference

/-! # What a tenant can tell of the others

Over whole runs of admin calls: what a tenant is answered, what the tables hold of it and what
its SDK keys are served are what they would be if no other tenant had ever called. Whether the
data plane takes a push is not for the control plane to say, and does depend on other tenants
where they publish under the same key; answers are compared without it.
-/

namespace Flagship.ControlPlane

open Lib Flagship.Core

namespace Admin

variable {runtime : Runtime} {sha256 : String → List UInt8} {s s' : Admin} {tenantId : String} {course : Course}

/-! ## Calls -/

inductive Call where
  | write (request : Request) (course : Course)
  | read (query : Query) (fails : Bool)

def Request.tenant : Request → Option String
  | .publish body => given body.tenantId
  | .createApiKey body _ _ => given body.tenantId
  | .createFlag body _ _ => given body.tenantId
  | .patchFlag _ body => given body.tenantId

def Query.tenant : Query → Option String
  | .flags tenantId _ | .flag _ tenantId _ | .environments tenantId | .segments tenantId | .audit tenantId _ =>
    given tenantId

/-- The tenant that a call is made for. -/
def Call.tenant : Call → Option String
  | .write request _ => request.tenant
  | .read query _ => query.tenant

def isFor (tenantId : String) (call : Call) : Bool := call.tenant = some tenantId

/-- The reply without what the data plane said to the push. -/
def unpushed (reply : Reply) : Reply :=
  match reply.body with
  | .obj fields => { reply with body := .obj (fields.filter fun field => field.1 ≠ "pushed") }
  | _ => reply

/-- The same call, whatever the data plane says to the push. -/
inductive SameCall : Call → Call → Prop where
  | write (request : Request) (course : Course) (pushed : Bool) :
      SameCall (.write request course) (.write request { course with pushed })
  | read (query : Query) (fails : Bool) : SameCall (.read query fails) (.read query fails)

def service (runtime : Runtime) (sha256 : String → List UInt8) (directory : Directory) :
    Responder Admin Call (Option Reply) where
  respond s
    | .write request course => (s.handle runtime sha256 course request).map id (Option.map unpushed)
    | .read query fails => (s, s.read runtime directory fails query)

/-- The id a new flag is given is one that no flag has. -/
def drawsUnused (s : Admin) : Call → Prop
  | .write (.createFlag _ id _) _ => s.Unused id
  | _ => True

theorem Tidy.commits (h : s.Tidy) {request : Request} {s' : Admin} {entry : AuditEntry}
    (hCommits : Commits runtime s course request s' entry) (hOther : ∀ body, request ≠ .publish body) : s'.Tidy := by
  cases hCommits with
  | published body database options record hOwner hPublishes => exact absurd rfl (hOther body)
  | keyed body id secret record hRow => exact h.of_same rfl rfl h.settled rfl
  | created body id salt input tables hTables =>
    have hWritten : (s.write runtime tables).Tidy := h.write (aligned_created h.aligned hTables)
    exact hWritten.of_same rfl rfl hWritten.settled rfl
  | stamped key body input previous hPatches hStamp => exact (h.patched input previous course).stamped input course

theorem Tidy.leaves (h : s.Tidy) {request : Request} {s' : Admin} (hLeaves : Leaves runtime s course request s')
    (hOther : ∀ body, request ≠ .publish body) : s'.Tidy := by
  cases hLeaves with
  | nothing => exact h
  | unpublished body database hOwner hSnapshots => exact absurd rfl (hOther body)
  | patched key body input previous hPatches hStamp => exact h.patched input previous course
  | unanswered hCommits hLost => exact h.commits hCommits hOther
  | audited hCommits hAnswered => exact (h.commits hCommits hOther).audited _ course

theorem Tidy.handle (h : s.Tidy) (request : Request) (course : Course) :
    (s.handle runtime sha256 course request).1.Tidy := by
  have hLeaves := leaves_handle runtime sha256 s course request
  cases request with
  | publish body =>
    change (s.postPublish runtime body course).1.Tidy
    rw [postPublish_eq]
    split
    · exact h
    · exact h.finishPublish _ course
  | createApiKey body id secret => exact h.leaves hLeaves nofun
  | createFlag body id salt => exact h.leaves hLeaves nofun
  | patchFlag key body => exact h.leaves hLeaves nofun

theorem Alike.handle (h : Alike tenantId s s') (hTidy : s.Tidy) (hTidy' : s'.Tidy) {request : Request}
    {course : Course} (hUnused : s.drawsUnused (.write request course)) (hOwn : request.tenant = some tenantId) :
    Corresponds tenantId (s.handle runtime sha256 course request) (s'.handle runtime sha256 course request) := by
  cases request with
  | publish body =>
    change Corresponds tenantId (s.postPublish runtime body course) (s'.postPublish runtime body course)
    rw [postPublish_eq, postPublish_eq]
    cases hOptions : publishOptions body with
    | none => exact ⟨rfl, h⟩
    | some options =>
      obtain rfl := Option.some.inj (hOwn.symm.trans (publishOptions_tenantId hOptions))
      exact h.finishPublish hTidy hTidy' course
  | createApiKey body id secret => exact h.postApiKeys body id secret course
  | createFlag body id salt => exact h.postFlags hOwn hUnused salt course
  | patchFlag key body => exact h.patchFlag hTidy hTidy' hOwn key course

theorem publishRuleset_pushed (database : Database) (options : PublishOptions) (course : Course) (pushed : Bool) :
    database.publishRuleset runtime options { course with pushed } = database.publishRuleset runtime options course :=
  rfl

/-- The data plane's answer to the push shows in the reply alone. -/
theorem handle_pushed (s : Admin) (request : Request) (course : Course) (pushed : Bool) :
    (s.handle runtime sha256 { course with pushed } request).map id (Option.map unpushed) =
      (s.handle runtime sha256 course request).map id (Option.map unpushed) := by
  cases request with
  | publish body =>
    change (s.postPublish runtime body { course with pushed }).map id (Option.map unpushed) =
      (s.postPublish runtime body course).map id (Option.map unpushed)
    rw [postPublish_eq, postPublish_eq]
    split
    · rfl
    · rename_i options _
      rw [publishRuleset_pushed, Admin.finishPublish, Admin.finishPublish]
      cases (s.database.publishRuleset runtime options course).record with
      | none => rfl
      | some record =>
        have hEntry : (s.ended (s.database.publishRuleset runtime options course)).writeAudit
            (publishAudit options record) { course with pushed } =
              (s.ended (s.database.publishRuleset runtime options course)).writeAudit (publishAudit options record)
                course := rfl
        simp only [hEntry]
        generalize Admin.writeAudit _ _ course = written
        obtain ⟨after, _ | _⟩ := written
        · rfl
        · rfl
  | createApiKey body id secret => rfl
  | createFlag body id salt => rfl
  | patchFlag key body => rfl

theorem handle_other (h : Alike tenantId s s') (hTidy : s.Tidy) {request : Request} (course : Course)
    (hOther : request.tenant ≠ some tenantId) :
    Alike tenantId (s.handle runtime sha256 course request).1 s' := by
  cases request with
  | publish body =>
    change Alike tenantId (s.postPublish runtime body course).1 s'
    rw [postPublish_eq]
    split
    · exact h
    · rename_i options hOptions
      have hTenant : options.tenantId ≠ tenantId := fun hSame =>
        hOther ((publishOptions_tenantId hOptions).trans (congrArg some hSame))
      exact (finishPublish_other hTidy hTenant course).trans h
  | createApiKey body id secret => exact postApiKeys_other h hOther id secret course
  | createFlag body id salt => exact postFlags_other h hOther id salt course
  | patchFlag key body => exact patchFlag_other h hOther key course

/-! ### Queries -/

theorem Alike.listEnvironments (h : Alike tenantId s s') (runtime : Runtime) :
    s.listEnvironments runtime tenantId = s'.listEnvironments runtime tenantId := by
  have hRows : ∀ id, (s.database.environments id).filter (fun environment => environment.tenantId = tenantId) =
      (s'.database.environments id).filter fun environment => environment.tenantId = tenantId := h.environments
  simp only [Admin.listEnvironments, h.environmentIds, hRows]

theorem Alike.listAudit (h : Alike tenantId s s') (resourceKey : Option String) (limit : Option ℕ) :
    s.listAudit tenantId resourceKey limit = s'.listAudit tenantId resourceKey limit := by
  have hRows : ∀ s : Admin, s.auditLog.filter (fun entry => decide (entry.tenantId = tenantId ∧
      resourceKey.all (entry.resourceKey = ·))) = (s.auditLog.filter fun entry => entry.tenantId = tenantId).filter
        fun entry => resourceKey.all (entry.resourceKey = ·) := by
    intro s
    rw [List.filter_filter]
    exact List.filter_congr fun entry _ => by simp [Bool.and_comm]
  rw [Admin.listAudit, Admin.listAudit, hRows, hRows, h.auditLog]

theorem Alike.read (h : Alike tenantId s s') (hTidy : s.Tidy) (hTidy' : s'.Tidy) {query : Query}
    (hOwn : query.tenant = some tenantId) (runtime : Runtime) (directory : Directory) (fails : Bool) :
    s.read runtime directory fails query = s'.read runtime directory fails query := by
  cases query with
  | flags named environmentId =>
    have hFlags : ∀ id, s.tables.listFlags runtime tenantId id = s'.tables.listFlags runtime tenantId id := by
      intro id
      rw [← hTidy.aligned.listFlags_own, ← hTidy'.aligned.listFlags_own, h.tables]
    simp only [Query.tenant] at hOwn
    cases hNamed : given environmentId <;> simp only [Admin.read, hOwn, hNamed, hFlags]
  | flag key named environmentId =>
    simp only [Query.tenant] at hOwn
    cases hNamed : given environmentId <;> simp only [Admin.read, hOwn, hNamed, h.getFlag hTidy hTidy']
  | environments named =>
    simp only [Query.tenant] at hOwn
    simp only [Admin.read, hOwn, h.listEnvironments]
  | segments named =>
    simp only [Query.tenant] at hOwn
    simp only [Admin.read, hOwn, Admin.listSegments, h.segments]
  | audit named resourceKey =>
    simp only [Query.tenant] at hOwn
    simp only [Admin.read, hOwn, h.listAudit]

/-! ## Runs -/

def KeptAlike (tenantId : String) (s s' : Admin) : Prop := s.Tidy ∧ s'.Tidy ∧ Alike tenantId s s'

theorem unwinds (runtime : Runtime) (sha256 : String → List UInt8) (directory : Directory) (tenantId : String) :
    (service runtime sha256 directory).Unwinds (isFor tenantId) drawsUnused SameCall (KeptAlike tenantId) where
  others := by
    rintro s s' (⟨request, course⟩ | ⟨query, fails⟩) ⟨hTidy, hTidy', h⟩ hUnused hOther
    · exact ⟨hTidy.handle request course, hTidy', handle_other h hTidy course (of_decide_eq_false hOther)⟩
    · exact ⟨hTidy, hTidy', h⟩
  same := by
    rintro _ _ hOwn (⟨request, course, pushed⟩ | ⟨query, fails⟩)
    · exact hOwn
    · exact hOwn
  own := by
    rintro s s' _ _ ⟨hTidy, hTidy', h⟩ hUnused hOwn (⟨request, course, pushed⟩ | ⟨query, fails⟩)
    · have hSame : (service runtime sha256 directory).respond s' (.write request { course with pushed }) =
          (service runtime sha256 directory).respond s' (.write request course) :=
        handle_pushed s' request course pushed
      obtain ⟨hReply, hNext⟩ := @Alike.handle runtime sha256 s s' tenantId h hTidy hTidy' request course hUnused
        (of_decide_eq_true hOwn)
      rw [hSame]
      exact ⟨congrArg (Option.map unpushed) hReply, hTidy.handle request course, hTidy'.handle request course, hNext⟩
    · exact ⟨h.read hTidy hTidy' (of_decide_eq_true hOwn) runtime directory fails, hTidy, hTidy', h⟩

theorem latestSnapshot_plain (snapshots : List SnapshotRecord) (environmentId : String) (kind : KeyKind) :
    latestSnapshot (snapshots.map SnapshotRecord.plain) environmentId kind =
      latestSnapshot snapshots environmentId kind := by
  have hSorted : ∀ rows : List SnapshotRecord, (rows.map SnapshotRecord.plain).mergeSort
      (fun first second => decide (second.version ≤ first.version)) =
      (rows.mergeSort fun first second => decide (second.version ≤ first.version)).map SnapshotRecord.plain := by
    intro rows
    refine (List.map_mergeSort ?_).symm
    intro first _ second _
    rfl
  rw [latestSnapshot, latestRecord, List.filter_map, hSorted, List.head?_map, Option.map_map]
  rfl

theorem latestSnapshot_own (hTidy : s.Tidy) {environmentId key : String}
    (hOwner : s.database.owner environmentId = some (tenantId, key)) (kind : KeyKind) :
    latestSnapshot (s.database.snapshotsOf tenantId) environmentId kind =
      latestSnapshot s.database.snapshots environmentId kind := by
  have hOwn : (s.database.snapshots.filter fun record => decide (record.tenantId = tenantId)).filter
      (fun record => decide (record.environmentId = environmentId)) =
      s.database.snapshots.filter fun record => decide (record.environmentId = environmentId) := by
    rw [List.filter_filter]
    refine List.filter_congr fun record hRecord => ?_
    have hSame : record.environmentId = environmentId → record.tenantId = tenantId := by
      rintro rfl
      obtain ⟨_, hRecordOwner⟩ := hTidy.settled.owns record hRecord
      exact congrArg Prod.fst (Option.some.inj (hRecordOwner.symm.trans hOwner))
    grind
  rw [Database.snapshotsOf, latestSnapshot_plain, latestSnapshot, latestRecord, hOwn, latestSnapshot, latestRecord]

/-- What SDK keys of an environment of the tenant are served. -/
def ServesAlike (tenantId : String) (s s' : Admin) : Prop :=
  ∀ environmentId key kind, s.database.owner environmentId = some (tenantId, key) →
    latestSnapshot s.database.snapshots environmentId kind = latestSnapshot s'.database.snapshots environmentId kind

theorem KeptAlike.serves (h : KeptAlike tenantId s s') : ServesAlike tenantId s s' := by
  obtain ⟨hTidy, hTidy', hAlike⟩ := h
  intro environmentId key kind hOwner
  rw [← latestSnapshot_own hTidy hOwner, hAlike.snapshots,
    latestSnapshot_own hTidy' ((hAlike.owners environmentId).symm.trans hOwner)]

/-- The answers to a tenant's calls, but for what the data plane says to its pushes, what the
tables then hold of it and what its SDK keys are served are what they would be had no other tenant
called and had the data plane said anything else. -/
theorem tenants_do_not_interfere {start : Admin} (hTidy : start.Tidy) (directory : Directory) {calls alone : List Call}
    (hUnused : (service runtime sha256 directory).Follows drawsUnused start calls) (tenantId : String)
    (hAlone : List.Forall₂ SameCall (calls.filter (isFor tenantId)) alone) :
    let after := (service runtime sha256 directory).after start
    (service runtime sha256 directory).answers (isFor tenantId) start calls =
        (service runtime sha256 directory).answers (isFor tenantId) start alone ∧
      Alike tenantId (after calls) (after alone) ∧ ServesAlike tenantId (after calls) (after alone) := by
  obtain ⟨hAnswers, hAfter⟩ := (unwinds runtime sha256 directory tenantId).purge
    ⟨hTidy, hTidy, Alike.refl tenantId start⟩ hUnused hAlone
  exact ⟨hAnswers, hAfter.2.2, hAfter.serves⟩

/-! ## Two tenants at work -/

instance (s : Admin) (id : String) : Decidable (s.Unused id) :=
  inferInstanceAs (Decidable (∀ flag ∈ s.tables.flags, flag.id ≠ id))

def sharedPlatform : Admin :=
  new (fun id => if id = "env-a" then some ("acme", "production")
    else if id = "env-b" then some ("globex", "production") else none)
    ["env-a", "env-b"] ["acme", "globex"] { flags := [], flagConfigs := [] } []

def creates (tenantId id : String) : Call :=
  .write (.createFlag {
    tenantId := some tenantId
    key := some "checkout"
    description := none
    variations := none
    defaultVariationKey := none
    offVariationKey := none } id "salt") smooth

/-- A publish, and what the data plane says to its push. -/
def publishes (tenantId environmentId : String) (pushed : Bool) : Call :=
  .write (.publish {
    tenantId := some tenantId
    environmentId := some environmentId
    environmentKey := some "production"
    actorEmail := none }) { smooth with pushed }

def lists (tenantId environmentId : String) : Call := .read (.flags (some tenantId) (some environmentId)) false

/-- Both publish under one key, and the data plane takes the first. -/
def bothAtWork : List Call :=
  [creates "globex" "flag-1", creates "acme" "flag-2", publishes "globex" "env-b" true, publishes "acme" "env-a" false,
    publishes "globex" "env-a" false, lists "acme" "env-a"]

def acmeAlone : List Call := [creates "acme" "flag-2", publishes "acme" "env-a" true, lists "acme" "env-a"]

theorem tenants_do_not_interfere_shared :
    let respond := service Database.plainRuntime (fun _ => []) ⟨id, fun _ key => key⟩
    (respond.answers (isFor "acme") sharedPlatform bothAtWork).map (Option.map Reply.code) =
        [some 201, some 200, some 200] ∧
      respond.answers (isFor "acme") sharedPlatform bothAtWork =
        respond.answers (isFor "acme") sharedPlatform acmeAlone := by
  have hTidy : sharedPlatform.Tidy :=
    ⟨⟨List.nodup_nil, nofun⟩, ⟨nofun, nofun⟩, rfl⟩
  have hAlone : List.Forall₂ SameCall (bothAtWork.filter (isFor "acme")) acmeAlone :=
    .cons (.write _ smooth false) (.cons (.write _ { smooth with pushed := false } true) (.cons (.read _ _) .nil))
  refine ⟨by decide +kernel, (tenants_do_not_interfere hTidy _ ?_ "acme" hAlone).1⟩
  refine ⟨?_, ?_, trivial, trivial, trivial, trivial, trivial⟩
  · change sharedPlatform.Unused "flag-1"
    decide +kernel
  · change Unused _ "flag-2"
    decide +kernel

end Admin

end Flagship.ControlPlane
