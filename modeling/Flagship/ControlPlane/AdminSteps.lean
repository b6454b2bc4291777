import Flagship.ControlPlane.Admin
import Flagship.ControlPlane.Serial

/-! # What the admin routes leave

One lemma for each route: what is committed when it ends, whichever of its statements fail.
-/

namespace Flagship.ControlPlane

open Lib Flagship.Core

/-! ## Publishing -/

namespace Database

variable {runtime : Runtime} {before db : Database} {options : PublishOptions} {course : Course}

/-- The tenant and the key of an environment, which no publish changes. -/
def owner (db : Database) (id : String) : Option (String × String) :=
  (db.environments id).map fun environment => (environment.tenantId, environment.key)

/-- What a stage short of the commit says about the publish. -/
def Prepares (before : Database) (options : PublishOptions) : Stage → Prop
  | .begun | .thrown => True
  | .bumped _ | .readFlags _ _ | .readSegments _ _ _ | .compiled _ _ _ _ => (before.environmentFor options).isSome
  | .inserted _ record =>
    (before.environmentFor options).isSome ∧ record.tenantId = options.tenantId ∧
      record.environmentId = options.environmentId ∧ record.version < 2 ^ 63
  | .committed _ | .lost _ => False

structure Pending (before : Database) (options : PublishOptions) (db : Database) : Prop where
  asked : db.options before.begun = options
  environments : db.environments = before.environments
  snapshots : db.snapshots = before.snapshots
  stage : Prepares before options (db.stage before.begun)

theorem pending_begin (before : Database) (options : PublishOptions) :
    Pending before options (before.effect runtime (.begin options)) where
  asked := by simp only [effect, Database.options, Function.update_self]
  environments := rfl
  snapshots := rfl
  stage := by
    simp only [effect, Database.stage, Function.update_self]
    trivial

theorem lt_of_bigint {value : Number} {n : ℕ} (h : bigint value = some n) : n < 2 ^ 63 := by
  cases value with
  | finite q =>
    rw [bigint] at h
    split at h
    · rename_i hBounds
      obtain ⟨hWhole, hNonneg, hBelow⟩ := hBounds
      obtain rfl := Option.some.inj h
      have hNum : (q.num : ℚ) = q := Rat.coe_int_num_of_den_eq_one hWhole
      have hInt : q.num < 2 ^ 63 := by
        rw [← hNum] at hBelow
        exact_mod_cast hBelow
      omega
    · cases h
  | _ => cases h

theorem prepares_next {a : Action} {stage : Stage} (h : Prepares before options stage)
    (hSame : db.environments = before.environments) (hOther : a.commits = none) :
    Prepares before options (db.next runtime options a stage) := by
  have hRow : db.environmentFor options = before.environmentFor options := by
    rw [environmentFor, environmentFor, hSame]
  unfold next
  split
  · split
    · rename_i environment hFound
      exact Option.isSome_iff_exists.mpr ⟨environment, hRow.symm.trans hFound⟩
    · trivial
  · exact h
  · exact h
  · split
    · exact h
    · trivial
  · split
    · trivial
    · rename_i hInserted
      split
      · trivial
      · exact ⟨h, rfl, rfl, lt_of_bigint hInserted⟩
  · cases hOther
  · cases hOther
  · trivial

theorem Pending.advance (h : Pending before options db) {a : Action} (hOther : a.commits = none) :
    Pending before options (db.advance runtime a before.begun).tick where
  asked := (options_setStage ..).trans h.asked
  environments := h.environments
  snapshots := h.snapshots
  stage := by
    have hStage : (db.advance runtime a before.begun).tick.stage before.begun =
        db.next runtime (db.options before.begun) a (db.stage before.begun) :=
      (stage_setStage ..).trans (if_pos rfl)
    rw [hStage, h.asked]
    exact prepares_next h.stage h.environments hOther

theorem Pending.attempt (h : Pending before options db) {a : Action} {fails : Bool} (hOther : a.commits = none)
    (hOwn : db.effect runtime a = (db.advance runtime a before.begun).tick) :
    Pending before options (db.attempt runtime before.begun a fails) := by
  rw [Database.attempt]
  split
  · rw [hOwn]
    exact h.advance hOther
  · exact h.advance rfl

theorem pending_readInputs (before : Database) (options : PublishOptions) (course : Course) :
    Pending before options (before.readInputs runtime options course) := by
  rw [readInputs]
  exact Pending.attempt (Pending.attempt (Pending.attempt (pending_begin before options) rfl rfl) rfl rfl) rfl rfl

/-- A publish that was committed: its row names the environment it was asked for, under the
tenant that owns it. -/
structure Publishes (before : Database) (options : PublishOptions) (record : SnapshotRecord) (after : Database) :
    Prop where
  environment : (before.environmentFor options).isSome
  tenantId : record.tenantId = options.tenantId
  environmentId : record.environmentId = options.environmentId
  version : record.version < 2 ^ 63
  snapshots : after.snapshots = before.snapshots ++ [record]

theorem owner_publish (db : Database) (environmentId : String) (version : Nat) (record : SnapshotRecord)
    (id : String) :
    (db.publish environmentId version record).owner id = db.owner id := by
  simp only [owner, publish, Function.update_apply]
  split
  · rename_i hSame
    rw [hSame, Option.map_map]
    rfl
  · rfl

theorem commits_commitStep (t : ℕ) (course : Course) : (commitStep t course).commits = some t := by
  rw [commitStep]
  split <;> rfl

theorem Pending.commit (h : Pending before options db) (course : Course) {after : Database}
    (hAfter : after = db.attempt runtime before.begun (commitStep before.begun course) (course.fails .commit)) :
    (∀ id, after.owner id = before.owner id) ∧
      ((after.stage before.begun).landed = none ∧ after.snapshots = before.snapshots ∨
        ∃ record, (after.stage before.begun).landed = some record ∧ Publishes before options record after) ∧
      committedRecord (after.stage before.begun) =
        if course.loses .commit then none else (after.stage before.begun).landed := by
  have hOwner : ∀ id, db.owner id = before.owner id := by
    intro id
    rw [owner, owner, h.environments]
  have hCommits := commits_commitStep before.begun course
  rw [Database.attempt] at hAfter
  split at hAfter
  · rename_i hStep
    rw [Bool.and_eq_true] at hStep
    rcases effect_own runtime hStep.2 (transaction_of_commits hCommits) with
      ⟨hNone, _⟩ | ⟨version, record, _, hStage, hLanded, hEffect⟩
    · rw [hCommits] at hNone
      cases hNone
    · rw [hEffect] at hAfter
      subst hAfter
      have hPrepares := h.stage
      rw [hStage] at hPrepares
      obtain ⟨hEnvironment, hTenant, hId, hVersion⟩ := hPrepares
      have hEnds : ∀ {a : Action}, (db.advance runtime a before.begun).stage before.begun =
          db.next runtime (db.options before.begun) a (db.stage before.begun) :=
        (stage_setStage ..).trans (if_pos rfl)
      refine ⟨fun id => (owner_publish _ _ _ record id).trans (hOwner id),
        Or.inr ⟨record, (congrArg Stage.landed hEnds).trans hLanded, hEnvironment, hTenant, hId, hVersion,
          ?_⟩, ?_⟩
      · exact congrArg (· ++ [record]) h.snapshots
      · refine (congrArg committedRecord hEnds).trans (.trans ?_ (congrArg _ (congrArg Stage.landed hEnds).symm))
        rw [hStage, commitStep]
        cases course.loses .commit <;> rfl
  · subst hAfter
    have hThrown : (db.advance runtime (.fail before.begun) before.begun).stage before.begun = .thrown :=
      (stage_setStage ..).trans (if_pos rfl)
    refine ⟨hOwner, Or.inl ⟨congrArg Stage.landed hThrown, h.snapshots⟩, ?_⟩
    refine (congrArg committedRecord hThrown).trans (.trans ?_ (congrArg _ (congrArg Stage.landed hThrown).symm))
    cases course.loses .commit <;> rfl

/-- A publish either commits its snapshot or leaves the tables as they were, and returns what it
has committed unless the answer of `COMMIT` is lost. -/
theorem publishRuleset_cases (runtime : Runtime) (before : Database) (options : PublishOptions) (course : Course)
    {result : PublishResult} (hResult : result = before.publishRuleset runtime options course) :
    (∀ id, result.database.owner id = before.owner id) ∧
      (result.landed = none ∧ result.database.snapshots = before.snapshots ∨
        ∃ record, result.landed = some record ∧ Publishes before options record result.database) ∧
      result.record = if course.loses .commit then none else result.landed := by
  rw [publishRuleset] at hResult
  split at hResult
  · subst hResult
    refine ⟨fun _ => rfl, Or.inl ⟨rfl, rfl⟩, ?_⟩
    cases course.loses .commit <;> rfl
  · subst hResult
    exact Pending.commit (Pending.attempt (Pending.attempt (pending_readInputs before options course) rfl rfl) rfl rfl)
      course rfl

end Database

/-! ## The routes -/

namespace Admin

variable {runtime : Runtime} {sha256 : String → List UInt8} {s : Admin} {course : Course}

/-- The state when a route has tried to write an entry. -/
def audited (s : Admin) (entry : AuditEntry) (course : Course) : Admin := (s.writeAudit entry course).1

theorem tables_writeAudit {s after : Admin} {entry : AuditEntry} {answered : Bool}
    (h : s.writeAudit entry course = (after, answered)) :
    after.tables = s.tables := by
  rw [writeAudit] at h
  split at h
  · rw [← (Prod.mk.inj h).1]
  · rw [← (Prod.mk.inj h).1]

theorem segments_writeAudit {s after : Admin} {entry : AuditEntry} {answered : Bool}
    (h : s.writeAudit entry course = (after, answered)) :
    after.segments = s.segments := by
  rw [writeAudit] at h
  split at h
  · rw [← (Prod.mk.inj h).1]
  · rw [← (Prod.mk.inj h).1]

theorem audited_cases (s : Admin) (entry : AuditEntry) (course : Course) :
    (course.fails .insertAudit = true ∨ s.refers entry.tenantId entry.environmentId = false) ∧
        s.audited entry course = s ∨
      course.fails .insertAudit = false ∧ s.refers entry.tenantId entry.environmentId = true ∧
        s.audited entry course = { s with auditLog := s.auditLog ++ [auditRow entry] } := by
  rw [audited, writeAudit]
  split
  · rename_i hFails
    simp only [Bool.or_eq_true, Bool.not_eq_true'] at hFails
    exact Or.inl ⟨hFails, rfl⟩
  · rename_i hWritten
    simp only [Bool.or_eq_true, Bool.not_eq_true', not_or, Bool.not_eq_true, Bool.not_eq_false] at hWritten
    exact Or.inr ⟨hWritten.1, hWritten.2, rfl⟩

/-- What holds with the entry and without it. -/
@[elab_as_elim]
theorem audited_elim {motive : Admin → Prop} (s : Admin) (entry : AuditEntry) (course : Course)
    (unwritten : motive s) (written : motive { s with auditLog := s.auditLog ++ [auditRow entry] }) :
    motive (s.audited entry course) := by
  rcases audited_cases s entry course with ⟨_, hSame⟩ | ⟨_, _, hWritten⟩
  · exact hSame.symm ▸ unwritten
  · exact hWritten.symm ▸ written

theorem audited_database (s : Admin) (entry : AuditEntry) (course : Course) :
    (s.audited entry course).database = s.database := by
  refine audited_elim s entry course ?_ ?_
  · rfl
  · rfl

theorem audited_apiKeys (s : Admin) (entry : AuditEntry) (course : Course) :
    (s.audited entry course).apiKeys = s.apiKeys := by
  refine audited_elim s entry course ?_ ?_
  · rfl
  · rfl

theorem audited_changes (s : Admin) (entry : AuditEntry) (course : Course) :
    (s.audited entry course).changes = s.changes := by
  refine audited_elim s entry course ?_ ?_
  · rfl
  · rfl

/-- The tenant and the environment that a request for a key is about to name in a row, if nothing
turns it away. -/
def keyRow (s : Admin) (body : ApiKeyBody) (course : Course) : Option (String × String) :=
  match given body.tenantId, given body.environmentId, given body.name, kindOf body.kind with
  | some tenantId, some environmentId, some _, some _ =>
    if !course.fails .insertApiKey && s.refers tenantId (some environmentId) then some (tenantId, environmentId)
    else none
  | _, _, _, _ => none

/-- The states in which a route has committed something: a snapshot, a key, a flag, a
configuration, and a configuration whose flag has been stamped too. -/
def published (s : Admin) (database : Database) (record : SnapshotRecord) : Admin :=
  { s with database, changes := s.changes ++ [.published record] }

def keyed (s : Admin) (record : ApiKeyRecord) : Admin := { s with apiKeys := s.apiKeys ++ [record] }

def created (s : Admin) (runtime : Runtime) (tables : Tables) (input : CreateFlagInput) : Admin :=
  { s.write runtime tables with changes := s.changes ++ [.flagCreated input] }

def patched (s : Admin) (runtime : Runtime) (input : UpdateFlagConfigInput) (previous : FlagDetail) (course : Course) :
    Admin :=
  s.updateFlagConfig runtime input previous (course.now .updateFlagConfig)

def stamped (s : Admin) (runtime : Runtime) (input : UpdateFlagConfigInput) (course : Course) : Admin :=
  s.write runtime (s.tables.updateFlag input (course.now .updateFlag))

/-- A `PATCH` that has found its flag and whose first `UPDATE` took effect. -/
structure Patches (s : Admin) (key : String) (body : PatchFlagBody) (course : Course) (input : UpdateFlagConfigInput)
    (previous : FlagDetail) : Prop where
  tenantId : given body.tenantId = some input.tenantId
  environmentId : given body.environmentId = some input.environmentId
  asked : input = patchInput input.tenantId input.environmentId key body
  found : s.tables.getFlag input.tenantId input.environmentId input.key = some previous
  selected : course.throws .selectFlag = false
  updated : course.fails .updateFlagConfig = false

/-- The statement after whose answer a request writes its entry. -/
def landing : Request → Statement
  | .publish _ | .createFlag _ _ _ => .commit
  | .createApiKey _ _ _ => .insertApiKey
  | .patchFlag _ _ => .updateFlag

/-- What a request has committed by then, and the entry it is to write. -/
inductive Commits (runtime : Runtime) (s : Admin) (course : Course) : Request → Admin → AuditEntry → Prop where
  | published (body : PublishBody) (database : Database) (options : PublishOptions) (record : SnapshotRecord)
      (hOwner : ∀ id, database.owner id = s.database.owner id)
      (hPublishes : s.database.Publishes options record database) :
      Commits runtime s course (.publish body) (s.published database record) (publishAudit options record)
  | keyed (body : ApiKeyBody) (id secret : String) (record : ApiKeyRecord)
      (hRow : s.keyRow body course = some (record.tenantId, record.environmentId)) :
      Commits runtime s course (.createApiKey body id secret) (s.keyed record) (apiKeyAudit record)
  | created (body : CreateFlagBody) (id salt : String) (input : CreateFlagInput) (tables : Tables)
      (hTables : s.createFlag input id salt course = .ok tables) :
      Commits runtime s course (.createFlag body id salt) (s.created runtime tables input) (createFlagAudit input)
  | stamped (key : String) (body : PatchFlagBody) (input : UpdateFlagConfigInput) (previous : FlagDetail)
      (hPatches : s.Patches key body course input previous)
      (hStamp : course.loses .updateFlagConfig = false ∧ course.fails .updateFlag = false) :
      Commits runtime s course (.patchFlag key body) ((s.patched runtime input previous course).stamped runtime input
        course) (patchAudit input previous)

/-- Everything a request can leave behind. -/
inductive Leaves (runtime : Runtime) (s : Admin) (course : Course) : Request → Admin → Prop where
  | nothing (request : Request) : Leaves runtime s course request s
  | unpublished (body : PublishBody) (database : Database) (hOwner : ∀ id, database.owner id = s.database.owner id)
      (hSnapshots : database.snapshots = s.database.snapshots) :
      Leaves runtime s course (.publish body) { s with database }
  | patched (key : String) (body : PatchFlagBody) (input : UpdateFlagConfigInput) (previous : FlagDetail)
      (hPatches : s.Patches key body course input previous)
      (hStamp : course.loses .updateFlagConfig = true ∨ course.fails .updateFlag = true) :
      Leaves runtime s course (.patchFlag key body) (s.patched runtime input previous course)
  | unanswered {request : Request} {s' : Admin} {entry : AuditEntry}
      (hCommits : Commits runtime s course request s' entry) (hLost : course.loses (landing request) = true) :
      Leaves runtime s course request s'
  | audited {request : Request} {s' : Admin} {entry : AuditEntry}
      (hCommits : Commits runtime s course request s' entry) (hAnswered : course.loses (landing request) = false) :
      Leaves runtime s course request (s'.audited entry course)

/-- The end of every route: an entry is written, and what follows it writes nothing. -/
theorem leaves_audited {s s' : Admin} {request : Request} {entry : AuditEntry} {reply : Admin → Admin × Option Reply}
    (h : Leaves runtime s course request (s'.audited entry course)) (hKeeps : ∀ s, (reply s).1 = s) :
    Leaves runtime s course request (match s'.writeAudit entry course with
      | (s, false) => (s, none)
      | (s, true) => reply s).1 := by
  rw [audited] at h
  match hWritten : s'.writeAudit entry course with
  | (s, false) =>
    rw [hWritten] at h
    exact h
  | (s, true) =>
    rw [hWritten] at h
    exact (hKeeps s).symm ▸ h

theorem leaves_postPublish (s : Admin) (body : PublishBody) (course : Course) :
    Leaves runtime s course (.publish body) (s.postPublish runtime body course).1 := by
  rw [postPublish]
  split
  · rename_i tenantId environmentId environmentKey _ _ _
    obtain ⟨hOwner, hResult, hRecord⟩ := Database.publishRuleset_cases runtime s.database
      { tenantId, environmentId, environmentKey, publishedBy := body.actorEmail.getD "unknown" } course rfl
    rcases hResult with ⟨hNone, hSnapshots⟩ | ⟨record, hSome, hPublishes⟩
    · rw [hNone, ite_self] at hRecord
      simp only [hNone, hRecord, Option.map_none, Option.toList_none, List.append_nil]
      exact .unpublished body _ hOwner hSnapshots
    · have hCommits : Commits runtime s course _ _ _ := .published body _ _ record hOwner hPublishes
      rw [hSome] at hRecord
      cases hLost : course.loses .commit with
      | true =>
        rw [hLost, if_pos rfl] at hRecord
        simp only [hSome, hRecord]
        exact .unanswered hCommits hLost
      | false =>
        rw [hLost, if_neg Bool.false_ne_true] at hRecord
        simp only [hSome, hRecord]
        exact leaves_audited (.audited hCommits hLost) fun _ => rfl
  · exact .nothing _

theorem insertApiKey_cases (s : Admin) (record : ApiKeyRecord) (course : Course) :
    s.insertApiKey record course = (s, false) ∨
    course.fails .insertApiKey = false ∧ s.refers record.tenantId (some record.environmentId) = true ∧
      s.insertApiKey record course = (s.keyed record, !course.loses .insertApiKey) := by
  rw [insertApiKey]
  split
  · exact Or.inl rfl
  · rename_i hInserted
    simp only [Bool.or_eq_true, Bool.not_eq_true', not_or, Bool.not_eq_true, Bool.not_eq_false] at hInserted
    exact Or.inr ⟨hInserted.1, hInserted.2, rfl⟩

theorem leaves_postApiKeys (sha256 : String → List UInt8) (s : Admin) (body : ApiKeyBody) (id secret : String)
    (course : Course) :
    Leaves runtime s course (.createApiKey body id secret) (s.postApiKeys sha256 body id secret course).1 := by
  rw [postApiKeys]
  split
  · rename_i tenantId environmentId name hTenant hEnvironment hName
    split
    · exact .nothing _
    · rename_i kind hKind
      obtain ⟨record, hRecord⟩ :
        ∃ record, record = apiKeyRecord tenantId environmentId name id (generateApiKey sha256 kind secret) := ⟨_, rfl⟩
      simp only [← hRecord]
      rcases insertApiKey_cases s record course with hNone | ⟨hFails, hRefers, hInserted⟩
      · simp only [hNone]
        exact .nothing _
      · have hCommits : Commits runtime s course (.createApiKey body id secret) (s.keyed record)
            (apiKeyAudit record) := by
          refine .keyed body id secret record ?_
          rw [hRecord] at hRefers ⊢
          simp only [apiKeyRecord] at hRefers
          simp only [keyRow, hTenant, hEnvironment, hName, hKind, hFails, hRefers, Bool.not_false, Bool.and_self,
            if_true]
          rfl
        cases hLost : course.loses .insertApiKey with
        | true =>
          simp only [hInserted, hLost, Bool.not_true]
          exact .unanswered hCommits hLost
        | false =>
          simp only [hInserted, hLost, Bool.not_false]
          exact leaves_audited (.audited hCommits hLost) fun _ => rfl
  · exact .nothing _

theorem createFlag_eq_ok {input : CreateFlagInput} {id salt : String} {tables : Tables}
    (h : s.createFlag input id salt course = .ok tables) :
    input.tenantId ∈ s.tenants ∧ tables = {
      flags := s.tables.flags ++ [flagEntry input id salt (course.now .begin)]
      flagConfigs := s.tables.flagConfigs ++
        (s.environmentsOf input.tenantId).map (flagConfigEntry input id (course.now .begin)) } := by
  rw [createFlag] at h
  split at h
  · cases h
  split at h
  · cases h
  split at h
  · cases h
  rename_i hRefers
  simp only at h
  split at h
  · cases h
  simp only [refers, Option.all_none, Bool.and_true, Bool.not_eq_true', decide_eq_false_iff_not, not_not] at hRefers
  exact ⟨hRefers, (Except.ok.inj h).symm⟩

theorem leaves_postFlags (s : Admin) (body : CreateFlagBody) (id salt : String) (course : Course) :
    Leaves runtime s course (.createFlag body id salt) (s.postFlags runtime body id salt course).1 := by
  rw [postFlags]
  split
  · split
    · exact .nothing _
    simp only
    split
    · exact .nothing _
    split
    · exact .nothing _
    rw [postChecked]
    split
    · exact .nothing _
    · exact .nothing _
    · rename_i tables hTables
      have hCommits : Commits runtime s course _ _ _ := .created body id salt _ tables hTables
      simp only
      split
      · rename_i hLost
        exact .unanswered hCommits hLost
      · rename_i hAnswered
        exact leaves_audited (.audited hCommits (Bool.eq_false_of_not_eq_true hAnswered)) fun _ => rfl
  · exact .nothing _

theorem leaves_patchFlag (s : Admin) (key : String) (body : PatchFlagBody) (course : Course) :
    Leaves runtime s course (.patchFlag key body) (s.patchFlag runtime key body course).1 := by
  rw [patchFlag]
  split
  · rename_i tenantId environmentId hTenant hEnvironment
    split
    · exact .nothing _
    rename_i hSelect
    split
    · exact .nothing _
    rename_i previous hPrevious
    rw [patchFound]
    split
    · exact .nothing _
    rename_i hUpdate
    have hPatches : s.Patches key body course (patchInput tenantId environmentId key body) previous := {
      tenantId := hTenant
      environmentId := hEnvironment
      asked := rfl
      found := hPrevious
      selected := Bool.eq_false_of_not_eq_true hSelect
      updated := Bool.eq_false_of_not_eq_true hUpdate }
    simp only
    split
    · rename_i hStamp
      exact .patched key body _ previous hPatches (Bool.or_eq_true_iff.mp hStamp)
    · rename_i hStamp
      have hCommits : Commits runtime s course _ _ _ := .stamped key body _ previous hPatches
        (Bool.or_eq_false_iff.mp (Bool.eq_false_of_not_eq_true hStamp))
      split
      · rename_i hLost
        exact .unanswered hCommits hLost
      · rename_i hAnswered
        refine leaves_audited (.audited hCommits (Bool.eq_false_of_not_eq_true hAnswered)) ?_
        intro s
        split <;> rfl
  · exact .nothing _

theorem leaves_handle (runtime : Runtime) (sha256 : String → List UInt8) (s : Admin) (course : Course)
    (request : Request) : Leaves runtime s course request (s.handle runtime sha256 course request).1 := by
  cases request with
  | publish body => exact leaves_postPublish s body course
  | createApiKey body id secret => exact leaves_postApiKeys sha256 s body id secret course
  | createFlag body id salt => exact leaves_postFlags s body id salt course
  | patchFlag key body => exact leaves_patchFlag s key body course

/-- A course in which nothing fails, and no data plane is there to push to. -/
def smooth : Course := { fails := fun _ => false, loses := fun _ => false, now := fun _ => "now", pushed := false }

end Admin

end Flagship.ControlPlane
