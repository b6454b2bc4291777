import Flagship.ControlPlane.Abreast
import Flagship.ControlPlane.Keyed
import Flagship.ControlPlane.TenantViews

/-! # What the routes show a tenant of the others

Two states that hold the same for a tenant, and each admin route on both: a request of the
tenant gets the same reply and leaves states that hold the same for it, a request of another
tenant leaves a state that holds the same for it. The one thing tenants share is the set of ids
that the flags are given, which are drawn at random.
-/

namespace Flagship.ControlPlane

open Lib Flagship.Core

namespace Admin

variable {runtime : Runtime} {sha256 : String → List UInt8} {s s' s'' : Admin} {tenantId : String} {course : Course}

/-- What every request finds: the tables refer to each other as they should, and no publish is
under way. -/
structure Tidy (s : Admin) : Prop where
  aligned : s.tables.Aligned
  settled : s.database.Settled
  loaded : s.database.configuration = configurationOf s.tables s.segments

/-- Two states that hold the same for a tenant. -/
structure Alike (tenantId : String) (s s' : Admin) : Prop where
  environments : ∀ id, s.database.environmentOf tenantId id = s'.database.environmentOf tenantId id
  snapshots : s.database.snapshotsOf tenantId = s'.database.snapshotsOf tenantId
  tables : s.tables.own tenantId = s'.tables.own tenantId
  segments : s.segments.filter (fun segment => segment.tenantId = tenantId) =
    s'.segments.filter fun segment => segment.tenantId = tenantId
  apiKeys : s.apiKeys.filter (fun record => record.tenantId = tenantId) =
    s'.apiKeys.filter fun record => record.tenantId = tenantId
  auditLog : s.auditLog.filter (fun entry => entry.tenantId = tenantId) =
    s'.auditLog.filter fun entry => entry.tenantId = tenantId
  tenants : s.tenants = s'.tenants
  environmentIds : s.environmentIds = s'.environmentIds
  owners : ∀ id, s.database.owner id = s'.database.owner id
  ids : ∀ flag ∈ s'.tables.flags, ∃ other ∈ s.tables.flags, other.id = flag.id

namespace Alike

theorem refl (tenantId : String) (s : Admin) : Alike tenantId s s :=
  ⟨fun _ => rfl, rfl, rfl, rfl, rfl, rfl, rfl, rfl, fun _ => rfl, fun flag hFlag => ⟨flag, hFlag, rfl⟩⟩

theorem trans (h : Alike tenantId s s') (h' : Alike tenantId s' s'') : Alike tenantId s s'' where
  environments id := (h.environments id).trans (h'.environments id)
  snapshots := h.snapshots.trans h'.snapshots
  tables := h.tables.trans h'.tables
  segments := h.segments.trans h'.segments
  apiKeys := h.apiKeys.trans h'.apiKeys
  auditLog := h.auditLog.trans h'.auditLog
  tenants := h.tenants.trans h'.tenants
  environmentIds := h.environmentIds.trans h'.environmentIds
  owners id := (h.owners id).trans (h'.owners id)
  ids flag hFlag := by
    obtain ⟨middle, hMiddle, hId⟩ := h'.ids flag hFlag
    obtain ⟨other, hOther, hSame⟩ := h.ids middle hMiddle
    exact ⟨other, hOther, hSame.trans hId⟩

theorem loadSegments_filter (runtime : Runtime) (tables : Tables) (segments : List SegmentRecord) (tenantId : String) :
    loadSegments runtime (configurationOf tables segments) tenantId =
      ((segments.filter fun segment => segment.tenantId = tenantId).map fun segment =>
        ({ key := segment.key, ruleTree := segment.ruleTree } : SegmentRow)).mergeSort
        fun first second => runtime.collation first.key second.key := rfl

/-- A publish of the tenant reads the same. -/
theorem agree (h : Alike tenantId s s') (hTidy : s.Tidy) (hTidy' : s'.Tidy) (runtime : Runtime) :
    s.database.Agree runtime tenantId s'.database where
  environments := h.environments
  snapshots := h.snapshots
  flags environmentId := by
    rw [hTidy.loaded, hTidy'.loaded, ← hTidy.aligned.loadFlags_own runtime s.segments [],
      ← hTidy'.aligned.loadFlags_own runtime s'.segments [], h.tables]
  segments := by
    rw [hTidy.loaded, hTidy'.loaded, loadSegments_filter, loadSegments_filter, h.segments]

theorem getFlag (h : Alike tenantId s s') (hTidy : s.Tidy) (hTidy' : s'.Tidy) (environmentId key : String) :
    s.tables.getFlag tenantId environmentId key = s'.tables.getFlag tenantId environmentId key := by
  rw [← hTidy.aligned.getFlag_own, ← hTidy'.aligned.getFlag_own, h.tables]

theorem refers (h : Alike tenantId s s') (named : String) (environmentId : Option String) :
    s.refers named environmentId = s'.refers named environmentId := by
  have hKnown : ∀ id, (s.database.environments id).isSome = (s'.database.environments id).isSome := by
    intro id
    have hOwner := congrArg Option.isSome (h.owners id)
    simpa only [Database.owner, Option.isSome_map] using hOwner
  simp only [Admin.refers, h.tenants, hKnown]

theorem environmentsOf (h : Alike tenantId s s') : s.environmentsOf tenantId = s'.environmentsOf tenantId := by
  have hEach : ∀ s : Admin, s.environmentsOf tenantId =
      s.environmentIds.filter fun id => (s.database.environmentOf tenantId id).isSome := by
    intro s
    rw [Admin.environmentsOf]
    refine List.filter_congr fun id _ => ?_
    cases hFound : s.database.environments id with
    | none => simp [Database.environmentOf, hFound]
    | some environment =>
      rw [Database.environmentOf, hFound, Option.filter_some, Option.any_some]
      split <;> simp_all
  rw [hEach, hEach, h.environmentIds]
  exact List.filter_congr fun id _ => by rw [h.environments]

end Alike

/-! ## What a request keeps -/

section Tidy

variable {input : CreateFlagInput} {id salt : String} {tables : Tables}

theorem Tidy.of_same (h : s.Tidy) (hTables : s'.tables = s.tables) (hSegments : s'.segments = s.segments)
    (hSettled : s'.database.Settled) (hConfiguration : s'.database.configuration = s.database.configuration) :
    s'.Tidy where
  aligned := hTables ▸ h.aligned
  settled := hSettled
  loaded := by rw [hConfiguration, hTables, hSegments, h.loaded]

theorem Tidy.audited (h : s.Tidy) (entry : AuditEntry) (course : Course) : (s.audited entry course).Tidy := by
  refine audited_elim s entry course h ?_
  exact h.of_same rfl rfl h.settled rfl

/-- The tables can be written when no publish is under way. -/
theorem Tidy.write (h : s.Tidy) (hAligned : tables.Aligned) : (s.write runtime tables).Tidy where
  aligned := hAligned
  settled := ⟨h.settled.owns, h.settled.free⟩
  loaded := rfl

theorem aligned_created (h : s.tables.Aligned) (hTables : s.createFlag input id salt course = .ok tables) :
    tables.Aligned := by
  have hFresh := createFlag_fresh hTables
  obtain ⟨_, rfl⟩ := createFlag_eq_ok hTables
  refine ⟨?_, ?_⟩
  · rw [List.map_append]
    refine h.ids.append (List.nodup_singleton _) ?_
    intro other hOld hNew
    obtain ⟨flag, hFlag, rfl⟩ := List.mem_map.mp hOld
    exact (hFresh flag hFlag).1 (List.mem_singleton.mp hNew)
  · intro config hConfig
    rcases List.mem_append.mp hConfig with hOld | hNew
    · obtain ⟨flag, hFlag, hRefers⟩ := h.configs config hOld
      exact ⟨flag, List.mem_append_left _ hFlag, hRefers⟩
    · obtain ⟨environmentId, _, rfl⟩ := List.mem_map.mp hNew
      exact ⟨_, List.mem_append_right _ (List.mem_singleton_self _), rfl, rfl⟩

theorem aligned_updateConfig (h : s.tables.Aligned) (input : UpdateFlagConfigInput) (previous : FlagDetail)
    (now : String) : (s.tables.updateConfig input previous now).Aligned where
  ids := h.ids
  configs config hConfig := by
    obtain ⟨before, hBefore, rfl⟩ := List.mem_map.mp hConfig
    obtain ⟨flag, hFlag, hRefers⟩ := h.configs before hBefore
    refine ⟨flag, hFlag, ?_⟩
    split
    · exact hRefers
    · exact hRefers

theorem aligned_updateFlag (h : s.tables.Aligned) (input : UpdateFlagConfigInput) (now : String) :
    (s.tables.updateFlag input now).Aligned where
  ids := by
    refine (congrArg List.Nodup ?_).mpr h.ids
    refine (List.map_map).trans (List.map_congr_left fun flag _ => ?_)
    simp only [Function.comp_apply]
    split <;> rfl
  configs config hConfig := by
    obtain ⟨flag, hFlag, hId, hTenant⟩ := h.configs config hConfig
    refine ⟨_, List.mem_map.mpr ⟨flag, hFlag, rfl⟩, ?_⟩
    split
    · exact ⟨hId, hTenant⟩
    · exact ⟨hId, hTenant⟩

end Tidy

/-! ## Publishes -/

def publishOptions (body : PublishBody) : Option PublishOptions :=
  match given body.tenantId, given body.environmentId, given body.environmentKey with
  | some tenantId, some environmentId, some environmentKey =>
    some { tenantId, environmentId, environmentKey, publishedBy := body.actorEmail.getD "unknown" }
  | _, _, _ => none

/-- The state in which a publish leaves the route. -/
def ended (s : Admin) (result : PublishResult) : Admin :=
  { s with
    database := result.database
    changes := s.changes ++ (result.landed.map Change.published).toList }

/-- The route once the publish has ended. -/
def finishPublish (s : Admin) (options : PublishOptions) (course : Course) (result : PublishResult) :
    Admin × Option Reply :=
  match result.record with
  | none => (s.ended result, if course.throws .rollback then none else publishFailed result.error)
  | some record =>
    match (s.ended result).writeAudit (publishAudit options record) course with
    | (s, false) => (s, none)
    | (s, true) => (s, some (publishReply record course.pushed))

theorem postPublish_eq (s : Admin) (body : PublishBody) (course : Course) :
    s.postPublish runtime body course =
      match publishOptions body with
      | none => (s, some (.error 400 "tenantId, environmentId and environmentKey are required"))
      | some options => s.finishPublish options course (s.database.publishRuleset runtime options course) := by
  rw [postPublish, publishOptions]
  cases given body.tenantId with
  | none => rfl
  | some tenantId =>
    cases given body.environmentId with
    | none => rfl
    | some environmentId => cases given body.environmentKey <;> rfl

theorem publishOptions_tenantId {body : PublishBody} {options : PublishOptions}
    (h : publishOptions body = some options) : given body.tenantId = some options.tenantId := by
  rw [publishOptions] at h
  split at h
  · rename_i hTenant _ _
    rw [← Option.some.inj h, hTenant]
  · cases h

/-- Replies that are the same, and states that hold the same for a tenant. -/
def Corresponds (tenantId : String) (left right : Admin × Option Reply) : Prop :=
  left.2 = right.2 ∧ Alike tenantId left.1 right.1

theorem Alike.entry (h : Alike tenantId s s') (entry : AuditEntry) :
    Alike tenantId { s with auditLog := s.auditLog ++ [entry] } { s' with auditLog := s'.auditLog ++ [entry] } :=
  { h with auditLog := by rw [List.filter_append, List.filter_append, h.auditLog] }

/-- The end of every route: an entry is written, or that fails, or its answer is lost, in both. -/
theorem Alike.finish (h : Alike tenantId s s') (entry : AuditEntry) (course : Course)
    {reply reply' : Admin → Admin × Option Reply}
    (hReply : Corresponds tenantId (reply { s with auditLog := s.auditLog ++ [auditRow entry] })
      (reply' { s' with auditLog := s'.auditLog ++ [auditRow entry] })) :
    Corresponds tenantId
      (match s.writeAudit entry course with
        | (s, false) => (s, none)
        | (s, true) => reply s)
      (match s'.writeAudit entry course with
        | (s, false) => (s, none)
        | (s, true) => reply' s) := by
  rw [writeAudit, writeAudit, h.refers]
  cases course.fails .insertAudit || !s'.refers entry.tenantId entry.environmentId with
  | true => exact ⟨rfl, h⟩
  | false =>
    cases course.loses .insertAudit with
    | true => exact ⟨rfl, h.entry _⟩
    | false => exact hReply

theorem Alike.entry_other {entry : AuditEntry} (hOther : entry.tenantId ≠ tenantId) (h : Alike tenantId s s') :
    Alike tenantId { s with auditLog := s.auditLog ++ [entry] } s' :=
  { h with
    auditLog := by
      rw [List.filter_append, List.filter_cons_of_neg (by simpa using hOther), List.filter_nil, List.append_nil,
        h.auditLog] }

/-- What holds with the entry and without it holds at the end of a route. -/
theorem finish_elim {motive : Admin → Prop} {entry : AuditEntry} {reply : Admin → Admin × Option Reply}
    (unwritten : motive s) (written : motive { s with auditLog := s.auditLog ++ [auditRow entry] })
    (hKeeps : ∀ s, (reply s).1 = s) :
    motive (match s.writeAudit entry course with
      | (s, false) => (s, none)
      | (s, true) => reply s).1 := by
  rw [writeAudit]
  cases course.fails .insertAudit || !s.refers entry.tenantId entry.environmentId with
  | true => exact unwritten
  | false =>
    cases course.loses .insertAudit with
    | true => exact written
    | false => exact (hKeeps _).symm ▸ written

theorem Alike.finishPublish {options : PublishOptions} (h : Alike options.tenantId s s') (hTidy : s.Tidy)
    (hTidy' : s'.Tidy) (course : Course) :
    Corresponds options.tenantId
      (s.finishPublish options course (s.database.publishRuleset runtime options course))
      (s'.finishPublish options course (s'.database.publishRuleset runtime options course)) := by
  have hOwner := (s.database.publishRuleset_cases runtime options course rfl).1
  have hOwner' := (s'.database.publishRuleset_cases runtime options course rfl).1
  obtain ⟨hAgree, _, hRecord, hError⟩ := Database.publishRuleset_own (h.agree hTidy hTidy' runtime) hTidy.settled
    hTidy'.settled course rfl rfl
  generalize s.database.publishRuleset runtime options course = result at hOwner hAgree hRecord hError ⊢
  generalize s'.database.publishRuleset runtime options course = result' at hOwner' hAgree hRecord hError ⊢
  have hEnded : Alike options.tenantId (s.ended result) (s'.ended result') :=
    { h with
      environments := hAgree.environments
      snapshots := hAgree.snapshots
      owners := fun id => (hOwner id).trans ((h.owners id).trans (hOwner' id).symm) }
  rw [Admin.finishPublish, Admin.finishPublish]
  cases hLeft : result.record with
  | none =>
    rw [hLeft, Option.map_none, eq_comm, Option.map_eq_none_iff] at hRecord
    rw [hRecord, hError]
    exact ⟨rfl, hEnded⟩
  | some record =>
    rw [hLeft, Option.map_some, eq_comm] at hRecord
    obtain ⟨record', hRight, hPlain⟩ := Option.map_eq_some_iff.mp hRecord
    have hVersion : record'.version = record.version := (congrArg SnapshotRecord.version hPlain :)
    have hEtag : record'.etag = record.etag := (congrArg SnapshotRecord.etag hPlain :)
    have hEntry : publishAudit options record' = publishAudit options record := by
      rw [publishAudit, hVersion, publishAudit]
    have hReply : publishReply record' course.pushed = publishReply record course.pushed := by
      rw [publishReply, hVersion, hEtag, publishReply]
    rw [hRight]
    simp only [hEntry, hReply]
    exact hEnded.finish _ course ⟨rfl, hEnded.entry _⟩

theorem finishPublish_other (hTidy : s.Tidy) {options : PublishOptions} (hOther : options.tenantId ≠ tenantId)
    (course : Course) :
    Alike tenantId (s.finishPublish options course (s.database.publishRuleset runtime options course)).1 s := by
  have hOwner := (s.database.publishRuleset_cases runtime options course rfl).1
  have hAgree : Database.Agree runtime tenantId (s.database.publishRuleset runtime options course).database
    s.database := Database.publishRuleset_other hTidy.settled hOther course
  generalize s.database.publishRuleset runtime options course = result at hOwner hAgree ⊢
  have hEnded : Alike tenantId (s.ended result) s :=
    { Alike.refl tenantId s with
      environments := hAgree.environments
      snapshots := hAgree.snapshots
      owners := hOwner }
  rw [Admin.finishPublish]
  cases result.record with
  | none => exact hEnded
  | some record =>
    refine finish_elim (motive := fun left => Alike tenantId left s) hEnded ?_ fun _ => rfl
    exact hEnded.entry_other hOther

theorem Tidy.finishPublish (h : s.Tidy) (options : PublishOptions) (course : Course) :
    (s.finishPublish options course (s.database.publishRuleset runtime options course)).1.Tidy := by
  have hSettled := @Database.publishRuleset_settled runtime _ h.settled options course
  have hConfiguration : (s.database.publishRuleset runtime options course).database.configuration =
      s.database.configuration := Database.publishRuleset_configuration h.settled options course
  generalize s.database.publishRuleset runtime options course = result at hSettled hConfiguration ⊢
  rw [Admin.finishPublish]
  cases result.record with
  | none => exact h.of_same rfl rfl hSettled hConfiguration
  | some record =>
    refine finish_elim ?_ ?_ fun _ => rfl
    · exact h.of_same rfl rfl hSettled hConfiguration
    · exact h.of_same rfl rfl hSettled hConfiguration

/-! ## The other routes -/

theorem write_own {tables tables' : Tables} (h : Alike tenantId s s')
    (hOwn : tables.own tenantId = tables'.own tenantId)
    (hIds : ∀ flag ∈ tables'.flags, ∃ other ∈ tables.flags, other.id = flag.id) :
    Alike tenantId (s.write runtime tables) (s'.write runtime tables') :=
  { h with tables := hOwn, ids := hIds }

theorem write_other {tables : Tables} (h : Alike tenantId s s') (hOwn : tables.own tenantId = s.tables.own tenantId)
    (hIds : ∀ flag ∈ s.tables.flags, ∃ other ∈ tables.flags, other.id = flag.id) :
    Alike tenantId (s.write runtime tables) s' where
  environments := h.environments
  snapshots := h.snapshots
  tables := hOwn.trans h.tables
  segments := h.segments
  apiKeys := h.apiKeys
  auditLog := h.auditLog
  tenants := h.tenants
  environmentIds := h.environmentIds
  owners := h.owners
  ids flag hFlag := by
    obtain ⟨middle, hMiddle, hId⟩ := h.ids flag hFlag
    obtain ⟨other, hOther, hSame⟩ := hIds middle hMiddle
    exact ⟨other, hOther, hSame.trans hId⟩

theorem ids_updateFlag (tables : Tables) (input : UpdateFlagConfigInput) (now : String) :
    ∀ flag ∈ tables.flags, ∃ other ∈ (tables.updateFlag input now).flags, other.id = flag.id := by
  intro flag hFlag
  refine ⟨_, List.mem_map.mpr ⟨flag, hFlag, rfl⟩, ?_⟩
  split <;> rfl

theorem ids_of_updateFlag (tables : Tables) (input : UpdateFlagConfigInput) (now : String) :
    ∀ flag ∈ (tables.updateFlag input now).flags, ∃ other ∈ tables.flags, other.id = flag.id := by
  intro flag hFlag
  obtain ⟨before, hBefore, rfl⟩ := List.mem_map.mp hFlag
  refine ⟨before, hBefore, ?_⟩
  split <;> rfl

/-! ### Keys -/

theorem Alike.keyed (h : Alike tenantId s s') (record : ApiKeyRecord) :
    Alike tenantId (s.keyed record) (s'.keyed record) :=
  { h with
    apiKeys := by
      change (s.apiKeys ++ [record]).filter _ = (s'.apiKeys ++ [record]).filter _
      rw [List.filter_append, List.filter_append, h.apiKeys] }

theorem Alike.keyed_other {record : ApiKeyRecord} (hOther : record.tenantId ≠ tenantId) (h : Alike tenantId s s') :
    Alike tenantId (s.keyed record) s' :=
  { h with
    apiKeys := by
      change (s.apiKeys ++ [record]).filter _ = _
      rw [List.filter_append, List.filter_cons_of_neg (by simpa using hOther), List.filter_nil, List.append_nil,
        h.apiKeys] }

theorem Alike.postApiKeys (h : Alike tenantId s s') (body : ApiKeyBody) (id secret : String) (course : Course) :
    Corresponds tenantId (s.postApiKeys sha256 body id secret course)
      (s'.postApiKeys sha256 body id secret course) := by
  rw [Admin.postApiKeys, Admin.postApiKeys]
  split
  · split
    · exact ⟨rfl, h⟩
    · simp only
      rw [insertApiKey, insertApiKey, h.refers]
      cases course.fails .insertApiKey || !s'.refers _ _ with
      | true => exact ⟨rfl, h⟩
      | false =>
        cases course.loses .insertApiKey with
        | true => exact ⟨rfl, h.keyed _⟩
        | false => exact (h.keyed _).finish _ course ⟨rfl, (h.keyed _).entry _⟩
  · exact ⟨rfl, h⟩

/-! ### Flags -/

section Create

variable {input : CreateFlagInput} {id salt : String}

/-- No flag has been given the id. -/
def Unused (s : Admin) (id : String) : Prop := ∀ flag ∈ s.tables.flags, flag.id ≠ id

theorem Alike.unused (h : Alike tenantId s s') (hUnused : s.Unused id) : s'.Unused id := by
  intro flag hFlag hId
  obtain ⟨other, hOther, hSame⟩ := h.ids flag hFlag
  exact hUnused other hOther (hSame.trans hId)

def createdTables (s : Admin) (input : CreateFlagInput) (id salt now : String) : Tables where
  flags := s.tables.flags ++ [flagEntry input id salt now]
  flagConfigs := s.tables.flagConfigs ++ (s.environmentsOf input.tenantId).map (flagConfigEntry input id now)

theorem isTaken_own (hUnused : s.Unused id) :
    s.tables.flags.any (fun flag => flag.id = id ∨ flag.tenantId = input.tenantId ∧ flag.key = input.key) =
      (s.tables.own input.tenantId).flags.any fun flag => flag.key = input.key := by
  rw [Tables.own, List.any_filter, Bool.eq_iff_iff]
  simp only [List.any_eq_true, decide_eq_true_eq, Bool.and_eq_true]
  exact exists_congr fun flag => and_congr_right fun hFlag => or_iff_right (hUnused flag hFlag)

theorem Alike.createFlag (h : Alike input.tenantId s s') (hUnused : s.Unused id) (course : Course) :
    (∃ error, s.createFlag input id salt course = .error error ∧ s'.createFlag input id salt course = .error error) ∨
      s.createFlag input id salt course = .ok (s.createdTables input id salt (course.now .begin)) ∧
        s'.createFlag input id salt course = .ok (s'.createdTables input id salt (course.now .begin)) := by
  rw [Admin.createFlag, Admin.createFlag, isTaken_own hUnused, isTaken_own (h.unused hUnused), h.tables, h.refers,
    h.environmentsOf, createdTables, createdTables, h.environmentsOf]
  generalize (s'.tables.own input.tenantId).flags.any _ = taken
  generalize s'.refers input.tenantId none = known
  split
  · exact Or.inl ⟨_, rfl, rfl⟩
  · cases taken with
    | true => exact Or.inl ⟨_, rfl, rfl⟩
    | false =>
      cases known with
      | false => exact Or.inl ⟨_, rfl, rfl⟩
      | true =>
        simp only [Bool.false_eq_true, if_false, Bool.not_true]
        split
        · exact Or.inl ⟨_, rfl, rfl⟩
        · exact Or.inr ⟨rfl, rfl⟩

theorem Alike.created (h : Alike input.tenantId s s') (now : String) :
    Alike input.tenantId (s.created runtime (s.createdTables input id salt now) input)
      (s'.created runtime (s'.createdTables input id salt now) input) := by
  have hWritten : Alike input.tenantId (s.write runtime (s.createdTables input id salt now))
      (s'.write runtime (s'.createdTables input id salt now)) := by
    refine write_own h ?_ ?_
    · have hFlags := congrArg Tables.flags h.tables
      have hConfigs := congrArg Tables.flagConfigs h.tables
      simp only [Tables.own] at hFlags hConfigs
      simp only [Tables.own, createdTables, List.filter_append, hFlags, hConfigs, h.environmentsOf]
    · intro flag hFlag
      rcases List.mem_append.mp hFlag with hOld | hNew
      · obtain ⟨other, hOther, hId⟩ := h.ids flag hOld
        exact ⟨other, List.mem_append_left _ hOther, hId⟩
      · exact ⟨flag, List.mem_append_right _ hNew, rfl⟩
  exact { hWritten with }

theorem created_other (h : Alike tenantId s s') (hOther : input.tenantId ≠ tenantId) {tables : Tables}
    (hTables : s.createFlag input id salt course = .ok tables) :
    Alike tenantId (s.created runtime tables input) s' := by
  obtain ⟨_, rfl⟩ := createFlag_eq_ok hTables
  have hWritten : Alike tenantId (s.write runtime (s.createdTables input id salt (course.now .begin))) s' := by
    refine write_other h ?_ ?_
    · simp only [Tables.own, createdTables, List.filter_append, List.filter_cons, List.filter_map, flagEntry,
        flagConfigEntry, Function.comp_def, hOther, decide_false, List.filter_nil]
      simp
    · intro flag hFlag
      exact ⟨flag, List.mem_append_left _ hFlag, rfl⟩
  exact { hWritten with }

theorem Alike.postChecked (h : Alike input.tenantId s s') (hUnused : s.Unused id) (course : Course) :
    Corresponds input.tenantId (s.postChecked runtime input id salt course)
      (s'.postChecked runtime input id salt course) := by
  rw [Admin.postChecked, Admin.postChecked]
  rcases @Alike.createFlag s s' input id salt h hUnused course with ⟨error, hLeft, hRight⟩ | ⟨hLeft, hRight⟩
  · rw [hLeft, hRight]
    cases error with
    | uniqueViolation => exact ⟨rfl, h⟩
    | failed => exact ⟨rfl, h⟩
  · rw [hLeft, hRight]
    simp only
    split
    · exact ⟨rfl, h.created _⟩
    · exact (h.created _).finish _ course ⟨rfl, (h.created _).entry _⟩

end Create

theorem Alike.postFlags (h : Alike tenantId s s') {body : CreateFlagBody}
    (hTenant : given body.tenantId = some tenantId) {id : String} (hUnused : s.Unused id) (salt : String)
    (course : Course) :
    Corresponds tenantId (s.postFlags runtime body id salt course) (s'.postFlags runtime body id salt course) := by
  rw [Admin.postFlags, Admin.postFlags, hTenant]
  cases given body.key with
  | none => exact ⟨rfl, h⟩
  | some key =>
    simp only
    split
    · exact ⟨rfl, h⟩
    · split
      · exact ⟨rfl, h⟩
      · split
        · exact ⟨rfl, h⟩
        · exact Alike.postChecked h hUnused course

theorem postFlags_other (h : Alike tenantId s s') {body : CreateFlagBody} (hOther : given body.tenantId ≠ some tenantId)
    (id salt : String) (course : Course) : Alike tenantId (s.postFlags runtime body id salt course).1 s' := by
  rw [Admin.postFlags]
  split
  · rename_i named key hNamed _
    split
    · exact h
    · simp only
      split
      · exact h
      · split
        · exact h
        · have hTenant : named ≠ tenantId := fun hSame => hOther (hSame ▸ hNamed)
          rw [postChecked]
          split
          · exact h
          · exact h
          · rename_i tables hTables
            have hCreated : Alike tenantId (s.created runtime tables _) s' := created_other h hTenant hTables
            simp only
            split
            · exact hCreated
            · refine finish_elim (motive := fun left => Alike tenantId left s') hCreated ?_ fun _ => rfl
              exact hCreated.entry_other hTenant
  · exact h

section Patch

variable {input : UpdateFlagConfigInput} {previous : FlagDetail}

theorem Tidy.patched (h : s.Tidy) (input : UpdateFlagConfigInput) (previous : FlagDetail) (course : Course) :
    (s.patched runtime input previous course).Tidy := by
  have hWritten : (s.write runtime (s.tables.updateConfig input previous (course.now .updateFlagConfig))).Tidy :=
    h.write (aligned_updateConfig h.aligned input previous _)
  exact hWritten.of_same rfl rfl hWritten.settled rfl

theorem Tidy.stamped (h : s.Tidy) (input : UpdateFlagConfigInput) (course : Course) :
    (s.stamped runtime input course).Tidy := h.write (aligned_updateFlag h.aligned input _)

theorem Alike.patched (h : Alike input.tenantId s s') (hTidy : s.Tidy) (hTidy' : s'.Tidy) (previous : FlagDetail)
    (course : Course) : Alike input.tenantId (s.patched runtime input previous course)
      (s'.patched runtime input previous course) := by
  have hWritten : Alike input.tenantId
      (s.write runtime (s.tables.updateConfig input previous (course.now .updateFlagConfig)))
      (s'.write runtime (s'.tables.updateConfig input previous (course.now .updateFlagConfig))) := by
    refine write_own h ?_ h.ids
    rw [hTidy.aligned.own_updateConfig, hTidy'.aligned.own_updateConfig, h.tables]
  exact { hWritten with }

theorem Alike.stamped (h : Alike tenantId s s') (input : UpdateFlagConfigInput) (course : Course) :
    Alike tenantId (s.stamped runtime input course) (s'.stamped runtime input course) := by
  refine write_own h ?_ ?_
  · rw [Tables.own_updateFlag, Tables.own_updateFlag, h.tables]
  · intro flag hFlag
    obtain ⟨before, hBefore, hId⟩ := ids_of_updateFlag _ _ _ flag hFlag
    obtain ⟨other, hOther, hSame⟩ := h.ids before hBefore
    obtain ⟨after, hAfter, hAfterId⟩ := ids_updateFlag s.tables input (course.now .updateFlag) other hOther
    exact ⟨after, hAfter, hAfterId.trans (hSame.trans hId)⟩

theorem patchFound_eq (s : Admin) (input : UpdateFlagConfigInput) (previous : FlagDetail) (course : Course) :
    s.patchFound runtime input previous course =
      if course.fails .updateFlagConfig then (s, none)
      else if course.loses .updateFlagConfig || course.fails .updateFlag then
        (s.patched runtime input previous course, none)
      else if course.loses .updateFlag then
        ((s.patched runtime input previous course).stamped runtime input course, none)
      else
        match ((s.patched runtime input previous course).stamped runtime input course).writeAudit
          (patchAudit input previous) course with
        | (s, false) => (s, none)
        | (s, true) =>
          if course.throws .reselectFlag then (s, none)
          else (s, (s.tables.getFlag input.tenantId input.environmentId input.key).map flagReply) := rfl

theorem Alike.patchFound (h : Alike input.tenantId s s') (hTidy : s.Tidy) (hTidy' : s'.Tidy) (previous : FlagDetail)
    (course : Course) : Corresponds input.tenantId (s.patchFound runtime input previous course)
      (s'.patchFound runtime input previous course) := by
  rw [patchFound_eq, patchFound_eq]
  split
  · exact ⟨rfl, h⟩
  · split
    · exact ⟨rfl, h.patched hTidy hTidy' previous course⟩
    · have hStamped : Alike input.tenantId ((s.patched runtime input previous course).stamped runtime input course)
          ((s'.patched runtime input previous course).stamped runtime input course) :=
        (h.patched hTidy hTidy' previous course).stamped input course
      have hWritten : ((s.patched runtime input previous course).stamped runtime input course).Tidy :=
        (hTidy.patched input previous course).stamped input course
      have hWritten' : ((s'.patched runtime input previous course).stamped runtime input course).Tidy :=
        (hTidy'.patched input previous course).stamped input course
      split
      · exact ⟨rfl, hStamped⟩
      refine hStamped.finish _ course ?_
      split
      · exact ⟨rfl, hStamped.entry _⟩
      · refine ⟨congrArg (Option.map flagReply) ?_, hStamped.entry _⟩
        exact hStamped.getFlag hWritten hWritten' input.environmentId input.key

theorem patchFound_other (h : Alike tenantId s s') (hOther : input.tenantId ≠ tenantId) (previous : FlagDetail)
    (course : Course) : Alike tenantId (s.patchFound runtime input previous course).1 s' := by
  have hPatched : Alike tenantId (s.patched runtime input previous course) s' := by
    have hWritten : Alike tenantId
        (s.write runtime (s.tables.updateConfig input previous (course.now .updateFlagConfig))) s' :=
      write_other h (Tables.own_updateConfig_other hOther) fun flag hFlag => ⟨flag, hFlag, rfl⟩
    exact { hWritten with }
  rw [patchFound_eq]
  split
  · exact h
  · split
    · exact hPatched
    · have hStamped : Alike tenantId ((s.patched runtime input previous course).stamped runtime input course) s' :=
        write_other hPatched (Tables.own_updateFlag_other hOther) (ids_updateFlag _ _ _)
      split
      · exact hStamped
      refine finish_elim (motive := fun left => Alike tenantId left s') hStamped (hStamped.entry_other hOther) ?_
      intro s
      split <;> rfl

end Patch

theorem Alike.patchFlag (h : Alike tenantId s s') (hTidy : s.Tidy) (hTidy' : s'.Tidy) {body : PatchFlagBody}
    (hTenant : given body.tenantId = some tenantId) (key : String) (course : Course) :
    Corresponds tenantId (s.patchFlag runtime key body course) (s'.patchFlag runtime key body course) := by
  rw [Admin.patchFlag, Admin.patchFlag, hTenant]
  cases given body.environmentId with
  | none => exact ⟨rfl, h⟩
  | some environmentId =>
    simp only
    split
    · exact ⟨rfl, h⟩
    · rw [h.getFlag hTidy hTidy' environmentId key]
      cases s'.tables.getFlag tenantId environmentId key with
      | none => exact ⟨rfl, h⟩
      | some previous =>
        exact @Alike.patchFound runtime s s' (patchInput tenantId environmentId key body) h hTidy hTidy' previous course

theorem patchFlag_other (h : Alike tenantId s s') {body : PatchFlagBody} (hOther : given body.tenantId ≠ some tenantId)
    (key : String) (course : Course) : Alike tenantId (s.patchFlag runtime key body course).1 s' := by
  rw [Admin.patchFlag]
  split
  · rename_i named environmentId hNamed _
    have hTenant : named ≠ tenantId := fun hSame => hOther (hSame ▸ hNamed)
    split
    · exact h
    · split
      · exact h
      · exact patchFound_other h hTenant _ course
  · exact h

theorem postApiKeys_other (h : Alike tenantId s s') {body : ApiKeyBody} (hOther : given body.tenantId ≠ some tenantId)
    (id secret : String) (course : Course) : Alike tenantId (s.postApiKeys sha256 body id secret course).1 s' := by
  rw [Admin.postApiKeys]
  split
  · rename_i named environmentId name hNamed _ _
    have hTenant : named ≠ tenantId := fun hSame => hOther (hSame ▸ hNamed)
    split
    · exact h
    · rename_i kind _
      rcases insertApiKey_cases s (apiKeyRecord named environmentId name id (generateApiKey sha256 kind secret)) course
        with hNone | ⟨_, _, hInserted⟩
      · simp only [hNone]
        exact h
      · simp only [hInserted]
        have hKeyed : Alike tenantId
            (s.keyed (apiKeyRecord named environmentId name id (generateApiKey sha256 kind secret))) s' :=
          h.keyed_other hTenant
        cases course.loses .insertApiKey with
        | true => exact hKeyed
        | false =>
          refine finish_elim (motive := fun left => Alike tenantId left s') hKeyed ?_ fun _ => rfl
          exact hKeyed.entry_other hTenant
  · exact h

end Admin

end Flagship.ControlPlane
