import Flagship.ControlPlane.AdminSteps

/-! # The audit log

The routes write a change and the entry that describes it in different statements, and what an
entry holds of a configuration is two of the four fields that a request can change.
-/

namespace Flagship.ControlPlane

open Lib Flagship.Core

def ConfigField.name : ConfigField → String
  | .enabled => "enabled"
  | .defaultVariationKey => "defaultVariationKey"
  | .offVariationKey => "offVariationKey"
  | .rules => "rules"

def entryField (value : JsValue) (name : String) : JsValue := value.bind (·.field? name)

/-- What a recorded change must show: every field that it holds as it was and as it is, and a
difference in every field that is different. -/
structure ShowsChange (entry : AuditEntry) (before after : FlagDetail) : Prop where
  previous : ∀ field : ConfigField, ∀ value, entryField entry.previousValue field.name = some value →
    value = before.read field
  current : ∀ field : ConfigField, ∀ value, entryField entry.newValue field.name = some value →
    value = after.read field
  differs : ∀ field : ConfigField, before.read field ≠ after.read field →
    entryField entry.previousValue field.name ≠ entryField entry.newValue field.name

def Describes (entry : AuditEntry) : Change → Prop
  | .published record =>
    (entry.action = "publish" ∧ entry.resourceType = "ruleset") ∧ entry.tenantId = record.tenantId ∧
      entry.environmentId = some record.environmentId ∧
      entryField entry.newValue "version" = some (.num (versionNumber record.version))
  | .flagCreated input =>
    (entry.action = "create" ∧ entry.resourceType = "flag") ∧ entry.tenantId = input.tenantId ∧
      entry.resourceKey = input.key ∧ entryField entry.newValue "variations" = some input.variations.stored ∧
      entryField entry.newValue "defaultVariationKey" = some input.defaultVariationKey.stored ∧
      entryField entry.newValue "offVariationKey" = some input.offVariationKey.stored
  | .configChanged input before after =>
    (entry.action = "update" ∧ entry.resourceType = "flag") ∧ entry.tenantId = input.tenantId ∧
      entry.environmentId = some input.environmentId ∧ entry.resourceKey = input.key ∧
      ShowsChange entry before after

namespace Admin

variable {runtime : Runtime} {sha256 : String → List UInt8} {s : Admin} {course : Course}

/-- The entries about rulesets and flags; the others are those of keys. -/
def isAboutFlags (entry : AuditEntry) : Bool := entry.resourceType != "api_key"

def flagEntries (s : Admin) : List AuditEntry := s.auditLog.filter isAboutFlags

/-- The committed changes and the entries stand side by side, each entry with the change it
describes. -/
def Faithful (s : Admin) : Prop := List.Forall₂ Describes s.flagEntries s.changes

/-- Whether the first `UPDATE` of a `PATCH` meets a row. -/
def meetsRow (s : Admin) (input : UpdateFlagConfigInput) : Bool := s.tables.flagConfigs.any (s.tables.isTarget input)

/-- A `PATCH` hears of both its updates, and comes to write its entry. -/
def answered (course : Course) : Prop :=
  course.loses .updateFlagConfig = false ∧ course.fails .updateFlag = false ∧ course.loses .updateFlag = false

/-- A change of a configuration that comes to be shown: nothing fails after it and no answer is
lost, the row is the flag's own, its two variation keys stay as they were, and the entry can hold
the rules that were read. -/
structure Auditable (s : Admin) (input : UpdateFlagConfigInput) (previous : FlagDetail) (course : Course) : Prop where
  answered : Admin.answered course
  written : course.fails .insertAudit = false
  row : s.tables.hasRow input = true
  defaultVariationKey : input.defaultVariationKey.getD previous.defaultVariationKey = previous.defaultVariationKey
  offVariationKey : input.offVariationKey.getD previous.offVariationKey = previous.offVariationKey
  rules : previous.rules.isPlain = true

/-- A `PATCH` whose first `UPDATE` takes effect, for an environment there is, changes what its
entry can show, or meets no row and writes no entry. -/
def patchRecords (s : Admin) (input : UpdateFlagConfigInput) (course : Course) : Prop :=
  ∀ previous, s.tables.getFlag input.tenantId input.environmentId input.key = some previous →
    (s.database.environments input.environmentId).isSome →
    course.throws .selectFlag = false → course.fails .updateFlagConfig = false →
      if s.meetsRow input then s.Auditable input previous course
      else ¬ answered course ∨ course.fails .insertAudit = true

/-- No statement fails after the one that has committed a change, whose answer arrives. -/
def recordsChange (s : Admin) (step : Request × Course) : Prop :=
  match step with
  | (.publish _, course) | (.createFlag _ _ _, course) =>
    course.loses .commit = false ∧ course.fails .insertAudit = false
  | (.createApiKey _ _ _, _) => True
  | (.patchFlag key body, course) =>
    ∀ tenantId environmentId, given body.tenantId = some tenantId → given body.environmentId = some environmentId →
      s.patchRecords (patchInput tenantId environmentId key body) course

/-- The foreign keys of the tables that an entry depends on. -/
structure References (s : Admin) : Prop where
  environments : ∀ id tenantId key, s.database.owner id = some (tenantId, key) → tenantId ∈ s.tenants
  flags : ∀ flag ∈ s.tables.flags, flag.tenantId ∈ s.tenants
  flagConfigs : ∀ config ∈ s.tables.flagConfigs, (s.database.owner config.environmentId).isSome

/-! ## The committed changes -/

/-- Two states with the same snapshots, flags and configurations, up to the time at which a flag
was last changed. -/
structure SameRecords (s s' : Admin) : Prop where
  snapshots : s'.database.snapshots = s.database.snapshots
  flags : s'.tables.flags.map FlagEntry.toFlagRecord = s.tables.flags.map FlagEntry.toFlagRecord
  flagConfigs : s'.tables.flagConfigs = s.tables.flagConfigs

theorem SameRecords.audited {s' : Admin} (h : s.SameRecords s') (entry : AuditEntry) (course : Course) :
    s.SameRecords (s'.audited entry course) := by
  refine audited_elim s' entry course ?_ ?_
  · exact h
  · exact ⟨h.snapshots, h.flags, h.flagConfigs⟩

theorem flagConfigs_of_noRow {input : UpdateFlagConfigInput} {previous : FlagDetail} {now : String}
    (hNoRow : s.meetsRow input = false) :
    (s.tables.updateConfig input previous now).flagConfigs = s.tables.flagConfigs := by
  rw [Tables.updateConfig]
  refine (List.map_congr_left ?_).trans (List.map_id _)
  intro config hMem
  exact if_neg (List.any_eq_false.mp hNoRow config hMem)

theorem isSome_getFlag_updateConfig {input : UpdateFlagConfigInput} {previous : FlagDetail}
    (hFound : s.tables.getFlag input.tenantId input.environmentId input.key = some previous) (now : String) :
    ((s.tables.updateConfig input previous now).getFlag input.tenantId input.environmentId input.key).isSome := by
  rw [Tables.getFlag_eq] at hFound ⊢
  obtain ⟨flag, hFlag, _⟩ := Option.map_eq_some_iff.mp hFound
  rw [Tables.flagFor_updateConfig, hFlag]
  rfl

theorem flagRecords_updateFlag (tables : Tables) (input : UpdateFlagConfigInput) (now : String) :
    (tables.updateFlag input now).flags.map FlagEntry.toFlagRecord = tables.flags.map FlagEntry.toFlagRecord := by
  rw [Tables.updateFlag, List.map_map]
  refine List.map_congr_left ?_
  intro flag _
  simp only [Function.comp_apply]
  split <;> rfl

/-- A `PATCH` that changes a configuration adds it to the changes. -/
theorem flagConfigs_patched (runtime : Runtime) {input : UpdateFlagConfigInput} {previous : FlagDetail}
    (hFound : s.tables.getFlag input.tenantId input.environmentId input.key = some previous)
    (hSame : (s.patched runtime input previous course).changes = s.changes) :
    (s.patched runtime input previous course).tables.flagConfigs = s.tables.flagConfigs := by
  cases hRow : s.meetsRow input with
  | false => exact flagConfigs_of_noRow hRow
  | true =>
    obtain ⟨after, hAfter⟩ := Option.isSome_iff_exists.mp
      (isSome_getFlag_updateConfig hFound (course.now .updateFlagConfig))
    rw [meetsRow] at hRow
    simp only [patched, updateFlagConfig, hRow, hAfter, if_true, Option.map_some, Option.toList_some] at hSame
    cases List.append_right_eq_self.mp hSame

/-- Whatever a request changes of these is among the changes. -/
theorem Commits.sameRecords {request : Request} {s' : Admin} {entry : AuditEntry}
    (h : Commits runtime s course request s' entry) (hSame : s'.changes = s.changes) : s.SameRecords s' := by
  cases h with
  | published body database options record hOwner hPublishes => cases List.append_right_eq_self.mp hSame
  | keyed body id secret record hRow => exact ⟨rfl, rfl, rfl⟩
  | created body id salt input tables hTables => cases List.append_right_eq_self.mp hSame
  | stamped key body input previous hPatches hStamp =>
    exact ⟨rfl, flagRecords_updateFlag s.tables input _, flagConfigs_patched runtime hPatches.found hSame⟩

theorem Leaves.sameRecords {request : Request} {s' : Admin} (h : Leaves runtime s course request s')
    (hSame : s'.changes = s.changes) : s.SameRecords s' := by
  cases h with
  | nothing => exact ⟨rfl, rfl, rfl⟩
  | unpublished body database hOwner hSnapshots => exact ⟨hSnapshots, rfl, rfl⟩
  | patched key body input previous hPatches hStamp =>
    exact ⟨rfl, rfl, flagConfigs_patched runtime hPatches.found hSame⟩
  | unanswered hCommits hLost => exact hCommits.sameRecords hSame
  | audited hCommits hAnswered =>
    rw [audited_changes] at hSame
    exact (hCommits.sameRecords hSame).audited _ _

/-! ## The foreign keys -/

theorem refers_eq_true {tenantId : String} {environmentId : Option String} (hTenant : tenantId ∈ s.tenants)
    (hEnvironment : ∀ id, environmentId = some id → (s.database.owner id).isSome) :
    s.refers tenantId environmentId = true := by
  rw [refers, Bool.and_eq_true, decide_eq_true_eq]
  refine ⟨hTenant, ?_⟩
  cases environmentId with
  | none => rfl
  | some id =>
    have hOwner := hEnvironment id rfl
    rw [Database.owner, Option.isSome_map] at hOwner
    exact hOwner

/-- States that agree on what the foreign keys are about. -/
theorem References.of_eq {s' : Admin} (h : s.References) (hTenants : s'.tenants = s.tenants)
    (hOwner : ∀ id, s'.database.owner id = s.database.owner id) (hTables : s'.tables = s.tables) : s'.References where
  environments id tenantId key hFound := hTenants ▸ h.environments id tenantId key (hOwner id ▸ hFound)
  flags flag hMem := hTenants ▸ h.flags flag (hTables ▸ hMem)
  flagConfigs config hMem := hOwner _ ▸ h.flagConfigs config (hTables ▸ hMem)

theorem References.audited (h : s.References) (entry : AuditEntry) (course : Course) :
    (s.audited entry course).References := by
  refine audited_elim s entry course ?_ ?_
  · exact h
  · exact h.of_eq rfl (fun _ => rfl) rfl

theorem References.write (h : s.References) (runtime : Runtime) {tables : Tables}
    (hFlags : ∀ flag ∈ tables.flags, flag.tenantId ∈ s.tenants)
    (hConfigs : ∀ config ∈ tables.flagConfigs, (s.database.owner config.environmentId).isSome) :
    (s.write runtime tables).References where
  environments := h.environments
  flags := hFlags
  flagConfigs := hConfigs

theorem References.created (h : s.References) {input : CreateFlagInput} {id salt : String} {tables : Tables}
    (hTables : s.createFlag input id salt course = .ok tables) : (s.created runtime tables input).References := by
  obtain ⟨hTenant, rfl⟩ := createFlag_eq_ok hTables
  refine (h.write runtime ?_ ?_).of_eq rfl (fun _ => rfl) rfl
  · intro flag hMem
    rcases List.mem_append.mp hMem with hOld | hNew
    · exact h.flags flag hOld
    · rw [List.mem_singleton.mp hNew]
      exact hTenant
  · intro config hMem
    rcases List.mem_append.mp hMem with hOld | hNew
    · exact h.flagConfigs config hOld
    · obtain ⟨environmentId, hEnvironment, rfl⟩ := List.mem_map.mp hNew
      have hOwned := (List.mem_filter.mp hEnvironment).2
      obtain ⟨environment, hFound, _⟩ := (Option.any_eq_true ..).mp hOwned
      exact Option.isSome_map.trans (Option.isSome_iff_exists.mpr ⟨environment, hFound⟩)

theorem References.patched (h : s.References) (input : UpdateFlagConfigInput) (previous : FlagDetail)
    (course : Course) : (s.patched runtime input previous course).References := by
  have hWritten : (s.write runtime
      (s.tables.updateConfig input previous (course.now .updateFlagConfig))).References := by
    refine h.write runtime h.flags ?_
    intro config hMem
    obtain ⟨old, hOld, rfl⟩ := List.mem_map.mp hMem
    split
    · exact h.flagConfigs old hOld
    · exact h.flagConfigs old hOld
  exact hWritten.of_eq rfl (fun _ => rfl) rfl

theorem References.stamped (h : s.References) (input : UpdateFlagConfigInput) (course : Course) :
    (s.stamped runtime input course).References := by
  refine h.write runtime ?_ h.flagConfigs
  intro flag hMem
  obtain ⟨old, hOld, rfl⟩ := List.mem_map.mp hMem
  split
  · exact h.flags old hOld
  · exact h.flags old hOld

theorem References.commits (h : s.References) {request : Request} {s' : Admin} {entry : AuditEntry}
    (hCommits : Commits runtime s course request s' entry) : s'.References := by
  cases hCommits with
  | published body database options record hOwner hPublishes => exact h.of_eq rfl hOwner rfl
  | keyed body id secret record hRow => exact h.of_eq rfl (fun _ => rfl) rfl
  | created body id salt input tables hTables => exact h.created hTables
  | stamped key body input previous hPatches hStamp => exact (h.patched input previous course).stamped input course

theorem References.leaves (h : s.References) {request : Request} {s' : Admin}
    (hLeaves : Leaves runtime s course request s') : s'.References := by
  cases hLeaves with
  | nothing => exact h
  | unpublished body database hOwner hSnapshots => exact h.of_eq rfl hOwner rfl
  | patched key body input previous hPatches hStamp => exact h.patched input previous course
  | unanswered hCommits hLost => exact h.commits hCommits
  | audited hCommits hAnswered => exact (h.commits hCommits).audited _ _

/-! ## The entries -/

/-- An entry about a flag or a ruleset, beside the change that it describes. -/
theorem Faithful.record {entry : AuditEntry} {s' : Admin} (h : s.Faithful) (change : Change)
    (hDescribes : Describes (auditRow entry) change) (hKind : isAboutFlags entry = true)
    (hLog : s'.auditLog = s.auditLog ++ [auditRow entry]) (hChanges : s'.changes = s.changes ++ [change]) :
    s'.Faithful := by
  have hEntries : s'.flagEntries = s.flagEntries ++ [auditRow entry] := by
    have hRow : isAboutFlags (auditRow entry) = true := hKind
    rw [flagEntries, hLog, List.filter_append, List.filter_cons_of_pos hRow]
    rfl
  rw [Faithful, hEntries, hChanges]
  exact List.rel_append h (.cons hDescribes .nil)

theorem Faithful.of_eq {s' : Admin} (h : s.Faithful) (hLog : s'.flagEntries = s.flagEntries)
    (hChanges : s'.changes = s.changes) : s'.Faithful := by
  rw [Faithful, hLog, hChanges]
  exact h

/-- The state after a statement that does not fail and whose foreign keys are in order. -/
theorem audited_of_refers {entry : AuditEntry} (hWritten : course.fails .insertAudit = false)
    (hRefers : s.refers entry.tenantId entry.environmentId = true) :
    s.audited entry course = { s with auditLog := s.auditLog ++ [auditRow entry] } := by
  rcases audited_cases s entry course with ⟨hFails | hDangling, _⟩ | ⟨_, _, hDone⟩
  · rw [hWritten] at hFails
    cases hFails
  · rw [hRefers] at hDangling
    cases hDangling
  · exact hDone

theorem flagEntries_apiKey (s : Admin) (record : ApiKeyRecord) (course : Course) :
    (s.audited (apiKeyAudit record) course).flagEntries = s.flagEntries := by
  have hOther : ¬ isAboutFlags (auditRow (apiKeyAudit record)) = true := Bool.false_ne_true
  refine audited_elim s (apiKeyAudit record) course ?_ ?_
  · rfl
  · rw [flagEntries, List.filter_append, List.filter_cons_of_neg hOther, List.filter_nil, List.append_nil]
    rfl

theorem entryField_stored (value : JsValue) (name : String) :
    entryField (value.map Json.stored) name = (entryField value name).map Json.stored := by
  cases value with
  | none => rfl
  | some doc => exact Json.field?_stored doc name

theorem describes_publish {before after : Database} {options : PublishOptions} {record : SnapshotRecord}
    (h : before.Publishes options record after) :
    Describes (auditRow (publishAudit options record)) (.published record) := by
  refine ⟨⟨rfl, rfl⟩, h.tenantId.symm, congrArg some h.environmentId.symm, ?_⟩
  have hVersion : (Json.num (versionNumber record.version)).stored = .num (versionNumber record.version) := by
    rw [Json.stored_eq_self_iff, Json.isPlain]
    exact versionNumber_isFinite h.version
  exact (entryField_stored (publishAudit options record).newValue "version").trans (congrArg some hVersion)

theorem describes_createFlag (input : CreateFlagInput) :
    Describes (auditRow (createFlagAudit input)) (.flagCreated input) := by
  have hField := entryField_stored (createFlagAudit input).newValue
  exact ⟨⟨rfl, rfl⟩, rfl, rfl, hField "variations", hField "defaultVariationKey", hField "offVariationKey"⟩

/-! ## The configuration that a `PATCH` writes -/

theorem meetsRow_of_hasRow {input : UpdateFlagConfigInput} (hRow : s.tables.hasRow input = true) :
    s.meetsRow input = true := by
  obtain ⟨flag, config, hFlag, hConfig, hTenant⟩ := Tables.hasRow_iff.mp hRow
  exact List.any_eq_true.mpr
    ⟨config, (Tables.mem_of_configFor hConfig).1, Tables.isTarget_of_configFor hFlag hConfig hTenant⟩

/-- The entry shows the change when the two variation keys stay as they were. -/
theorem shows_patch {input : UpdateFlagConfigInput} {previous : FlagDetail} {flag : FlagEntry}
    {config : FlagConfigEntry} {now : String} (hPlain : previous.rules.isPlain = true)
    (hDefault : input.defaultVariationKey.getD previous.defaultVariationKey = previous.defaultVariationKey)
    (hOff : input.offVariationKey.getD previous.offVariationKey = previous.offVariationKey) :
    ShowsChange (auditRow (patchAudit input previous)) previous
      (flagDetail flag (some (Tables.merged input previous now config).toFlagConfigRecord)) := by
  have hPrevious := entryField_stored (patchAudit input previous).previousValue
  have hCurrent := entryField_stored (patchAudit input previous).newValue
  have hOld : entryField (auditRow (patchAudit input previous)).previousValue "rules" = some previous.rules :=
    (hPrevious "rules").trans (congrArg some (Json.stored_of_isPlain hPlain))
  have hNew : entryField (auditRow (patchAudit input previous)).newValue "rules" =
      some (Tables.orPrevious input.rules previous.rules).stored := hCurrent "rules"
  constructor
  case previous =>
    intro field value hValue
    cases field with
    | enabled => exact (Option.some.inj ((hPrevious "enabled").symm.trans hValue)).symm
    | rules => exact (Option.some.inj (hOld.symm.trans hValue)).symm
    | defaultVariationKey => cases (hPrevious "defaultVariationKey").symm.trans hValue
    | offVariationKey => cases (hPrevious "offVariationKey").symm.trans hValue
  case current =>
    intro field value hValue
    cases field with
    | enabled => exact (Option.some.inj ((hCurrent "enabled").symm.trans hValue)).symm
    | rules => exact (Option.some.inj (hNew.symm.trans hValue)).symm
    | defaultVariationKey => cases (hCurrent "defaultVariationKey").symm.trans hValue
    | offVariationKey => cases (hCurrent "offVariationKey").symm.trans hValue
  case differs =>
    intro field hDiffers hSame
    cases field with
    | enabled => exact hDiffers (Option.some.inj ((hPrevious "enabled").symm.trans (hSame.trans (hCurrent "enabled"))))
    | rules => exact hDiffers (Option.some.inj (hOld.symm.trans (hSame.trans hNew)))
    | defaultVariationKey => exact hDiffers (congrArg Json.str hDefault).symm
    | offVariationKey => exact hDiffers (congrArg Json.str hOff).symm

theorem patched_changes (runtime : Runtime) {input : UpdateFlagConfigInput} (hRow : s.tables.hasRow input = true)
    (previous : FlagDetail) (course : Course) :
    ∃ flag config, (s.patched runtime input previous course).changes = s.changes ++
      [.configChanged input previous (flagDetail flag
        (some (Tables.merged input previous (course.now .updateFlagConfig) config).toFlagConfigRecord))] := by
  obtain ⟨flag, config, hAfter⟩ := Tables.getFlag_updateConfig hRow previous (course.now .updateFlagConfig)
  have hMeets : s.tables.flagConfigs.any (s.tables.isTarget input) = true := meetsRow_of_hasRow hRow
  refine ⟨flag, config, ?_⟩
  simp only [patched, updateFlagConfig, hMeets, hAfter, if_true, Option.map_some, Option.toList_some]

theorem patched_changes_of_noRow (runtime : Runtime) {input : UpdateFlagConfigInput}
    (hNoRow : s.meetsRow input = false) (previous : FlagDetail) (course : Course) :
    (s.patched runtime input previous course).changes = s.changes := by
  rw [meetsRow] at hNoRow
  simp only [patched, updateFlagConfig, hNoRow, Bool.false_eq_true, if_false, List.append_nil]

/-- Where there is no environment there is no configuration to change. -/
theorem noRow_of_none (hReferences : s.References) {input : UpdateFlagConfigInput}
    (hNone : s.database.environments input.environmentId = none) : s.meetsRow input = false := by
  rw [meetsRow, List.any_eq_false]
  intro config hMem hTarget
  rw [Tables.isTarget, Bool.and_eq_true, decide_eq_true_eq] at hTarget
  have hOwned := hReferences.flagConfigs config hMem
  rw [hTarget.2.2, Database.owner, hNone] at hOwned
  cases hOwned

/-- What a `PATCH` past its first `UPDATE` is, when it records what it changes. -/
theorem patch_of_recordsChange {key : String} {body : PatchFlagBody} {input : UpdateFlagConfigInput}
    {previous : FlagDetail} (hRecords : s.recordsChange (.patchFlag key body, course))
    (hPatches : s.Patches key body course input previous)
    (hEnvironment : (s.database.environments input.environmentId).isSome) :
    s.Auditable input previous course ∨
      s.meetsRow input = false ∧ (¬ answered course ∨ course.fails .insertAudit = true) := by
  have hInput : s.patchRecords input course := by
    rw [hPatches.asked]
    exact hRecords input.tenantId input.environmentId hPatches.tenantId hPatches.environmentId
  have hCases := hInput previous hPatches.found hEnvironment hPatches.selected hPatches.updated
  cases hRow : s.meetsRow input with
  | true =>
    rw [hRow] at hCases
    exact Or.inl hCases
  | false =>
    rw [hRow] at hCases
    exact Or.inr ⟨rfl, hCases⟩

theorem mem_tenants_of_getFlag (hReferences : s.References) {tenantId environmentId key : String} {flag : FlagDetail}
    (hFound : s.tables.getFlag tenantId environmentId key = some flag) : tenantId ∈ s.tenants := by
  rw [Tables.getFlag_eq] at hFound
  obtain ⟨entry, hEntry, _⟩ := Option.map_eq_some_iff.mp hFound
  obtain ⟨hMem, rfl, _⟩ := Tables.mem_of_flagFor hEntry
  exact hReferences.flags entry hMem

/-- A `PATCH` that meets no row and whose entry is not written leaves no trace. -/
theorem Faithful.patch_unwritten (h : s.Faithful) {input : UpdateFlagConfigInput} {previous : FlagDetail}
    (hNoRow : s.meetsRow input = false)
    (hUnwritten : course.fails .insertAudit = true ∨ (s.database.environments input.environmentId).isSome = false) :
    (((s.patched runtime input previous course).stamped runtime input course).audited (patchAudit input previous)
      course).Faithful := by
  have hChanges := patched_changes_of_noRow runtime hNoRow previous course
  rcases audited_cases ((s.patched runtime input previous course).stamped runtime input course)
      (patchAudit input previous) course with ⟨_, hSame⟩ | ⟨hWritten, hRefers, _⟩
  · rw [hSame]
    exact h.of_eq rfl hChanges
  · rcases hUnwritten with hFails | hMissing
    · rw [hWritten] at hFails
      cases hFails
    · exact absurd (hMissing.symm.trans (Bool.and_eq_true_iff.mp hRefers).2) Bool.false_ne_true

theorem Faithful.patch (h : s.Faithful) (hReferences : s.References) {input : UpdateFlagConfigInput}
    {previous : FlagDetail} (hAuditable : s.Auditable input previous course)
    (hFound : s.tables.getFlag input.tenantId input.environmentId input.key = some previous)
    (hEnvironment : (s.database.environments input.environmentId).isSome) :
    (((s.patched runtime input previous course).stamped runtime input course).audited (patchAudit input previous)
      course).Faithful := by
  have hRefers : ((s.patched runtime input previous course).stamped runtime input course).refers input.tenantId
      (some input.environmentId) = true := by
    refine refers_eq_true (mem_tenants_of_getFlag hReferences hFound) ?_
    rintro id ⟨⟩
    exact Option.isSome_map.trans hEnvironment
  obtain ⟨flag, config, hChanges⟩ := patched_changes runtime hAuditable.row previous course
  rw [audited_of_refers hAuditable.written hRefers]
  refine h.record (.configChanged input previous _) ⟨⟨rfl, rfl⟩, rfl, rfl, rfl, ?_⟩ rfl rfl hChanges
  exact shows_patch hAuditable.rules hAuditable.defaultVariationKey hAuditable.offVariationKey

/-! ## Runs -/

theorem Faithful.commits (h : s.Faithful) (hReferences : s.References) {request : Request} {s' : Admin}
    {entry : AuditEntry} (hCommits : Commits runtime s course request s' entry)
    (hRecords : s.recordsChange (request, course)) (hAnswered : course.loses (landing request) = false) :
    (s'.audited entry course).Faithful := by
  cases hCommits with
  | published body database options record hOwner hPublishes =>
    obtain ⟨environment, hEnvironment⟩ := Option.isSome_iff_exists.mp hPublishes.environment
    obtain ⟨hFound, hTenant⟩ := Option.filter_eq_some_iff.mp hEnvironment
    have hOwned : s.database.owner options.environmentId = some (options.tenantId, environment.key) := by
      rw [Database.owner, hFound, Option.map_some, of_decide_eq_true hTenant]
    have hRefers : (s.published database record).refers options.tenantId (some options.environmentId) = true := by
      refine refers_eq_true (hReferences.environments _ _ _ hOwned) ?_
      rintro id ⟨⟩
      exact (hOwner options.environmentId).symm ▸ Option.isSome_iff_exists.mpr ⟨_, hOwned⟩
    rw [audited_of_refers hRecords.2 hRefers]
    exact h.record _ (describes_publish hPublishes) rfl rfl rfl
  | keyed body id secret record hRow =>
    exact h.of_eq (flagEntries_apiKey _ record course) (audited_changes ..)
  | created body id salt input tables hTables =>
    have hRefers : (s.created runtime tables input).refers input.tenantId none = true := by
      refine refers_eq_true (createFlag_eq_ok hTables).1 ?_
      intro id hNone
      cases hNone
    rw [audited_of_refers hRecords.2 hRefers]
    exact h.record _ (describes_createFlag input) rfl rfl rfl
  | stamped key body input previous hPatches hStamp =>
    cases hEnvironment : s.database.environments input.environmentId with
    | none =>
      refine h.patch_unwritten (noRow_of_none hReferences hEnvironment) (Or.inr ?_)
      rw [hEnvironment]
      rfl
    | some environment =>
      have hSome := Option.isSome_iff_exists.mpr ⟨environment, hEnvironment⟩
      rcases patch_of_recordsChange hRecords hPatches hSome with hAuditable | ⟨hNoRow, hUnanswered | hFails⟩
      · exact h.patch hReferences hAuditable hPatches.found hSome
      · exact absurd ⟨hStamp.1, hStamp.2, hAnswered⟩ hUnanswered
      · exact h.patch_unwritten hNoRow (Or.inl hFails)

variable (runtime) in
/-- A `PATCH` that does not hear of its updates has met no row. -/
theorem Faithful.patch_unanswered (h : s.Faithful) (hReferences : s.References) {key : String} {body : PatchFlagBody}
    {input : UpdateFlagConfigInput} {previous : FlagDetail} (hPatches : s.Patches key body course input previous)
    (hRecords : s.recordsChange (.patchFlag key body, course)) (hUnanswered : ¬ answered course) {s' : Admin}
    (hLog : s'.flagEntries = s.flagEntries)
    (hChanges : s'.changes = (s.patched runtime input previous course).changes) : s'.Faithful := by
  refine h.of_eq hLog (hChanges.trans ?_)
  cases hEnvironment : s.database.environments input.environmentId with
  | none => exact patched_changes_of_noRow runtime (noRow_of_none hReferences hEnvironment) _ course
  | some environment =>
    have hSome := Option.isSome_iff_exists.mpr ⟨environment, hEnvironment⟩
    rcases patch_of_recordsChange hRecords hPatches hSome with hAuditable | ⟨hNoRow, _⟩
    · exact absurd hAuditable.answered hUnanswered
    · exact patched_changes_of_noRow runtime hNoRow previous course

theorem Faithful.unanswered (h : s.Faithful) (hReferences : s.References) {request : Request} {s' : Admin}
    {entry : AuditEntry} (hCommits : Commits runtime s course request s' entry)
    (hRecords : s.recordsChange (request, course)) (hLost : course.loses (landing request) = true) :
    s'.Faithful := by
  cases hCommits with
  | published body database options record hOwner hPublishes => exact absurd (hRecords.1.symm.trans hLost) nofun
  | keyed body id secret record hRow => exact h.of_eq rfl rfl
  | created body id salt input tables hTables => exact absurd (hRecords.1.symm.trans hLost) nofun
  | stamped key body input previous hPatches hStamp =>
    refine h.patch_unanswered runtime hReferences hPatches hRecords ?_ rfl rfl
    intro hAnswered
    exact absurd (hAnswered.2.2.symm.trans hLost) nofun

theorem Faithful.leaves (h : s.Faithful) (hReferences : s.References) {request : Request} {s' : Admin}
    (hLeaves : Leaves runtime s course request s') (hRecords : s.recordsChange (request, course)) : s'.Faithful := by
  cases hLeaves with
  | nothing => exact h
  | unpublished body database hOwner hSnapshots => exact h.of_eq rfl rfl
  | patched key body input previous hPatches hStamp =>
    refine h.patch_unanswered runtime hReferences hPatches hRecords ?_ rfl rfl
    rintro ⟨hHeard, hStamped, _⟩
    rcases hStamp with hLost | hFails
    · exact absurd (hHeard.symm.trans hLost) nofun
    · exact absurd (hStamped.symm.trans hFails) nofun
  | unanswered hCommits hLost => exact h.unanswered hReferences hCommits hRecords hLost
  | audited hCommits hAnswered => exact h.commits hReferences hCommits hRecords hAnswered

/-- In a run whose requests all record what they change, every committed change has its entry and
every entry its change, whatever else fails; and what is not among the changes did not change. -/
theorem audit_faithful {start : Admin} (hReferences : start.References) (hStart : start.Faithful)
    (hReach : (machine runtime sha256).Reachable recordsChange start s) :
    s.Faithful ∧ ∀ step, ((machine runtime sha256).effect s step).changes = s.changes →
      s.SameRecords ((machine runtime sha256).effect s step) := by
  have hBoth : s.References ∧ s.Faithful := by
    refine hReach.invariant (fun s => s.References ∧ s.Faithful) ⟨hReferences, hStart⟩ ?_
    rintro s ⟨request, course⟩ _ ⟨hReferences, hFaithful⟩ _ hRecords
    have hLeaves := leaves_handle runtime sha256 s course request
    exact ⟨hReferences.leaves hLeaves, hFaithful.leaves hReferences hLeaves hRecords⟩
  exact ⟨hBoth.2, fun step => (leaves_handle runtime sha256 s step.2 step.1).sameRecords⟩

/-! ## What the log misses -/

/-- The statement that writes the entry fails, and no other. -/
def unaudited : Course where
  fails
    | .insertAudit => true
    | _ => false
  loses := fun _ => false
  now := fun _ => "now"
  pushed := false

def checkoutFlag : FlagEntry where
  id := "flag-1"
  tenantId := "acme"
  key := "checkout"
  salt := "salt"
  bucketBy := "key"
  variations := defaultVariations
  archived := false
  description := ""
  updatedAt := "then"

def checkoutConfig : FlagConfigEntry where
  flagId := "flag-1"
  environmentId := "env-1"
  enabled := false
  defaultVariationKey := "off"
  offVariationKey := "off"
  rules := .arr []
  prerequisites := .arr []
  tenantId := "acme"
  updatedAt := "then"

def oneFlag : Admin :=
  new Database.oneEnvironment ["env-1"] ["acme"] { flags := [checkoutFlag], flagConfigs := [checkoutConfig] } []

def noDigest (_ : String) : List UInt8 := []

def publishOnce : Request :=
  .publish {
    tenantId := some "acme"
    environmentId := some "env-1"
    environmentKey := some "production"
    actorEmail := none }

def patchOf (enabled : Option Bool) (defaultVariationKey : Option String) : Request :=
  .patchFlag "checkout" {
    tenantId := some "acme"
    environmentId := some "env-1"
    enabled
    defaultVariationKey
    offVariationKey := none
    rules := none }

theorem references_oneFlag : oneFlag.References where
  environments := by
    intro id tenantId key hFound
    simp only [oneFlag, new, Database.new, Database.owner, Option.map_map, Database.oneEnvironment] at hFound
    split at hFound
    · cases hFound
      exact List.mem_singleton_self _
    · cases hFound
  flags flag hMem := by
    rw [List.mem_singleton.mp hMem]
    exact List.mem_singleton_self _
  flagConfigs config hMem := by
    rw [List.mem_singleton.mp hMem]
    rfl

theorem audit_faithful_patch_publish :
    ((machine Database.plainRuntime noDigest).effect
      ((machine Database.plainRuntime noDigest).effect oneFlag (patchOf (some true) none, smooth))
      (publishOnce, smooth)).Faithful := by
  have hPatch : oneFlag.recordsChange (patchOf (some true) none, smooth) := by
    rintro tenantId environmentId ⟨⟩ ⟨⟩ previous hPrevious _ _ _
    have hFound : oneFlag.tables.getFlag "acme" "env-1" "checkout" =
        some (flagDetail checkoutFlag (some checkoutConfig.toFlagConfigRecord)) := rfl
    obtain rfl := Option.some.inj (hFound.symm.trans hPrevious)
    rw [if_pos (by decide +kernel)]
    exact ⟨⟨rfl, rfl, rfl⟩, rfl, by decide +kernel, rfl, rfl, rfl⟩
  have hPublish : ((machine Database.plainRuntime noDigest).effect oneFlag
      (patchOf (some true) none, smooth)).recordsChange (publishOnce, smooth) :=
    (⟨rfl, rfl⟩ : smooth.loses .commit = false ∧ smooth.fails .insertAudit = false)
  have hReach := Machine.Reachable.step _ _ (.step _ _ .start rfl hPatch) rfl hPublish
  exact (audit_faithful references_oneFlag List.Forall₂.nil hReach).1

def afterPublishUnaudited : Admin := (machine Database.plainRuntime noDigest).effect oneFlag (publishOnce, unaudited)

def afterVariationPatch : Admin :=
  (machine Database.plainRuntime noDigest).effect oneFlag (patchOf none (some "on"), smooth)

def variationInput : UpdateFlagConfigInput where
  tenantId := "acme"
  environmentId := "env-1"
  key := "checkout"
  enabled := none
  defaultVariationKey := some "on"
  offVariationKey := none
  rules := none

theorem changes_variationPatch : afterVariationPatch.changes = [.configChanged variationInput
    (flagDetail checkoutFlag (some checkoutConfig.toFlagConfigRecord))
    (flagDetail checkoutFlag (some { checkoutConfig.toFlagConfigRecord with defaultVariationKey := "on" }))] := rfl

theorem auditLog_variationPatch : afterVariationPatch.auditLog =
    [patchAudit variationInput (flagDetail checkoutFlag (some checkoutConfig.toFlagConfigRecord))] := rfl

/-- A publish whose entry is lost; and a change of the default variation, every statement of
which succeeds, whose entry shows no difference at all. -/
theorem audit_log_unfaithful :
    ((machine Database.plainRuntime noDigest).Reachable Machine.anyStep oneFlag afterPublishUnaudited ∧
      afterPublishUnaudited.database.snapshots.length = 1 ∧ afterPublishUnaudited.auditLog.length = 0 ∧
      ¬ afterPublishUnaudited.Faithful) ∧
    ((machine Database.plainRuntime noDigest).Reachable Machine.anyStep oneFlag afterVariationPatch ∧
      (∃ entry, afterVariationPatch.auditLog = [entry] ∧ entry.previousValue = entry.newValue) ∧
      ¬ afterVariationPatch.Faithful) := by
  constructor
  · have hChanges : afterPublishUnaudited.changes.length = 1 := by decide +kernel
    have hEntries : afterPublishUnaudited.flagEntries.length = 0 := by decide +kernel
    refine ⟨.step _ _ .start rfl trivial, by decide +kernel, by decide +kernel, ?_⟩
    intro hFaithful
    have hLength := hFaithful.length_eq
    rw [hEntries, hChanges] at hLength
    cases hLength
  · refine ⟨.step _ _ .start rfl trivial, ⟨_, auditLog_variationPatch, rfl⟩, ?_⟩
    intro hFaithful
    rw [Faithful, flagEntries, auditLog_variationPatch, changes_variationPatch] at hFaithful
    cases hFaithful with
    | cons hDescribes _ =>
      obtain ⟨_, _, _, _, hShows⟩ := hDescribes
      exact hShows.differs .defaultVariationKey (by simp [FlagDetail.read, flagDetail, flagRow, checkoutConfig]) rfl

end Admin

end Flagship.ControlPlane
