import Flagship.ControlPlane.AdminSteps

/-! # The same publish on two databases

Two databases that hold the same for a tenant, in each the same publish of the tenant under way,
and in neither a lock held by anyone else: each statement leaves them so, and the publish comes
to the same end in both. When its rows were read, and how often the configuration had changed
by then, may differ.
-/

namespace Flagship.ControlPlane

open Lib Flagship.Core

/-! ## What the tables hold of a publish -/

def Reading.plain {α : Type} (reading : Reading α) : Reading α := { reading with time := 0, revision := 0 }

def SnapshotRecord.plain (record : SnapshotRecord) : SnapshotRecord :=
  { record with flags := record.flags.plain, segments := record.segments.plain }

@[simp] theorem SnapshotRecord.plain_environmentId (record : SnapshotRecord) :
    record.plain.environmentId = record.environmentId := rfl

@[simp] theorem SnapshotRecord.plain_version (record : SnapshotRecord) : record.plain.version = record.version := rfl

/-- The same stage of the same publish. -/
inductive Stage.Same : Stage → Stage → Prop where
  | begun : Same .begun .begun
  | bumped (version : Nat) : Same (.bumped version) (.bumped version)
  | readFlags (version : Nat) {flags flags' : Reading FlagRow} (hFlags : flags.rows = flags'.rows) :
      Same (.readFlags version flags) (.readFlags version flags')
  | readSegments (version : Nat) {flags flags' : Reading FlagRow} {segments segments' : Reading SegmentRow}
      (hFlags : flags.rows = flags'.rows) (hSegments : segments.rows = segments'.rows) :
      Same (.readSegments version flags segments) (.readSegments version flags' segments')
  | compiled (version : Nat) {flags flags' : Reading FlagRow} {segments segments' : Reading SegmentRow}
      (hFlags : flags.rows = flags'.rows) (hSegments : segments.rows = segments'.rows) (ruleset : CompiledRuleset) :
      Same (.compiled version flags segments ruleset) (.compiled version flags' segments' ruleset)
  | inserted (version : Nat) {record record' : SnapshotRecord} (hRecord : record.plain = record'.plain) :
      Same (.inserted version record) (.inserted version record')
  | committed {record record' : SnapshotRecord} (hRecord : record.plain = record'.plain) :
      Same (.committed record) (.committed record')
  | lost {record record' : SnapshotRecord} (hRecord : record.plain = record'.plain) :
      Same (.lost record) (.lost record')
  | thrown : Same .thrown .thrown

theorem Stage.Same.locks_eq {stage stage' : Stage} (h : stage.Same stage') : stage.locks = stage'.locks := by
  cases h <;> rfl

theorem Stage.Same.inserted_iff {stage stage' : Stage} (h : stage.Same stage') :
    (∀ version record, stage ≠ .inserted version record) ↔ ∀ version record, stage' ≠ .inserted version record := by
  cases h <;> simp

namespace Database

variable {runtime : Runtime} {options : PublishOptions} {before before' db db' : Database} {t t' : Nat}

def environmentOf (db : Database) (tenantId id : String) : Option EnvironmentRecord :=
  (db.environments id).filter fun environment => environment.tenantId = tenantId

def snapshotsOf (db : Database) (tenantId : String) : List SnapshotRecord :=
  (db.snapshots.filter fun record => record.tenantId = tenantId).map SnapshotRecord.plain

structure Agree (runtime : Runtime) (tenantId : String) (db db' : Database) : Prop where
  environments : ∀ id, db.environmentOf tenantId id = db'.environmentOf tenantId id
  snapshots : db.snapshotsOf tenantId = db'.snapshotsOf tenantId
  flags : ∀ environmentId, loadFlags runtime db.configuration tenantId environmentId =
    loadFlags runtime db'.configuration tenantId environmentId
  segments : loadSegments runtime db.configuration tenantId = loadSegments runtime db'.configuration tenantId

/-- A snapshot of an environment is of the tenant of the environment. -/
def Owns (db : Database) : Prop :=
  ∀ record ∈ db.snapshots, ∃ key, db.owner record.environmentId = some (record.tenantId, key)

/-- Between requests no transaction holds a lock. -/
structure Settled (db : Database) : Prop where
  owns : db.Owns
  free : ∀ t < db.begun, (db.stage t).locks = false

/-- A publish that has begun on a settled database, and is short of its commit. -/
structure Publishing (before : Database) (options : PublishOptions) (db : Database) : Prop
    extends Pending before options db where
  begun : db.begun = before.begun + 1
  configuration : db.configuration = before.configuration
  free : ∀ t < before.begun, (db.stage t).locks = false

structure Abreast (runtime : Runtime) (options : PublishOptions) (before before' db db' : Database) : Prop where
  agree : Agree runtime options.tenantId before before'
  left : Publishing before options db
  right : Publishing before' options db'
  stages : (db.stage before.begun).Same (db'.stage before'.begun)

/-! ## Statements -/

/-- The statements of a publish short of the commit, for the transaction that makes them. -/
inductive PublishStep where
  | bump | readFlags | readSegments | compile (now : String) | insert

def PublishStep.action (t : Nat) : PublishStep → Action
  | .bump => .bump t
  | .readFlags => .readFlags t
  | .readSegments => .readSegments t
  | .compile now => .compile t now
  | .insert => .insert t

theorem effect_action (step : PublishStep) : db.effect runtime (step.action t) =
    (db.advance runtime (step.action t) t).tick := by
  cases step <;> rfl

theorem stage_advance (a : Action) (t t' : Nat) : (db.advance runtime a t).tick.stage t' =
    if t' = t then db.next runtime (db.options t) a (db.stage t) else db.stage t' := stage_setStage ..

theorem action_commits (step : PublishStep) (t : Nat) : (step.action t).commits = none := by
  cases step <;> rfl

theorem environmentFor_eq (h : Agree runtime options.tenantId before before') :
    before.environmentFor options = before'.environmentFor options := h.environments options.environmentId

namespace Publishing

theorem environmentFor (h : Publishing before options db) :
    db.environmentFor options = before.environmentFor options := by
  rw [Database.environmentFor, h.environments, Database.environmentFor]

theorem isUnlocked (h : Publishing before options db) (hFree : (db.stage before.begun).locks = false) :
    db.isUnlocked options.environmentId = true := by
  refine isUnlocked_iff.mpr fun other hBegun _ => ?_
  have hOther : other < before.begun ∨ other = before.begun := by
    have := h.begun
    omega
  rcases hOther with hOld | rfl
  · exact h.free other hOld
  · exact hFree

/-- Whoever holds the lock has found the environment. -/
theorem found (h : Publishing before options db) (hLocks : (db.stage before.begun).locks = true) :
    (before.environmentFor options).isSome = true := by
  have hStage := h.stage
  cases hCases : db.stage before.begun <;> rw [hCases] at hStage hLocks
  case inserted => exact hStage.1
  all_goals first | exact hStage | cases hLocks

theorem fail (h : Publishing before options db) :
    Publishing before options (db.advance runtime (.fail before.begun) before.begun).tick where
  toPending := h.toPending.advance rfl
  begun := h.begun
  configuration := h.configuration
  free t hOld := by
    rw [stage_advance, if_neg (by omega)]
    exact h.free t hOld

theorem advance (h : Publishing before options db) (step : PublishStep) :
    Publishing before options (db.advance runtime (step.action before.begun) before.begun).tick where
  toPending := h.toPending.advance (action_commits step before.begun)
  begun := h.begun
  configuration := h.configuration
  free t hOld := by
    rw [stage_advance, if_neg (by omega)]
    exact h.free t hOld

end Publishing

/-- In an environment of the tenant the snapshots of the tenant are all there are. -/
theorem isTaken_snapshotsOf (hOwns : before.Owns) (hFound : (before.environmentFor options).isSome = true)
    (version : Nat) : before.isTaken options.environmentId version = (before.snapshotsOf options.tenantId).any
      fun record => decide (record.environmentId = options.environmentId ∧ record.version = version) := by
  obtain ⟨environment, hEnvironment⟩ := Option.isSome_iff_exists.mp hFound
  obtain ⟨hStored, hTenant⟩ := Option.filter_eq_some_iff.mp hEnvironment
  rw [isTaken, snapshotsOf, List.any_map, List.any_filter, Bool.eq_iff_iff]
  simp only [List.any_eq_true, decide_eq_true_eq, Function.comp_apply, Bool.and_eq_true]
  simp only [SnapshotRecord.plain_environmentId, SnapshotRecord.plain_version]
  refine exists_congr fun record => and_congr_right fun hRecord => (and_iff_right_of_imp fun hTaken => ?_).symm
  obtain ⟨key, hOwner⟩ := hOwns record hRecord
  rw [hTaken.1, owner, hStored] at hOwner
  exact (congrArg Prod.fst (Option.some.inj hOwner)).symm.trans (of_decide_eq_true hTenant)

theorem Abreast.isTaken_eq (h : Abreast runtime options before before' db db') (hOwns : before.Owns)
    (hOwns' : before'.Owns) (hLocks : (db.stage before.begun).locks = true) (version : Nat) :
    db.isTaken options.environmentId version = db'.isTaken options.environmentId version := by
  have hLeft := isTaken_snapshotsOf hOwns (h.left.found hLocks) version
  have hRight := isTaken_snapshotsOf hOwns' (h.right.found (h.stages.locks_eq ▸ hLocks)) version
  rw [isTaken, h.left.snapshots, isTaken, h.right.snapshots]
  exact hLeft.trans ((congrArg (List.any · _) h.agree.snapshots).trans hRight.symm)

theorem Abreast.enabled_eq (h : Abreast runtime options before before' db db') (step : PublishStep) :
    db.enabled (step.action before.begun) = db'.enabled (step.action before'.begun) := by
  have hBegun : decide (before.begun < db.begun) = decide (before'.begun < db'.begun) := by
    rw [h.left.begun, h.right.begun]
    simp
  have hStages := h.stages
  generalize hLeft : db.stage before.begun = stage at hStages
  generalize hRight : db'.stage before'.begun = stage' at hStages
  cases step with
  | bump =>
    cases hStages with
    | begun =>
      have hFree : db.isUnlocked options.environmentId = db'.isUnlocked options.environmentId := by
        rw [h.left.isUnlocked (congrArg Stage.locks hLeft), h.right.isUnlocked (congrArg Stage.locks hRight)]
      simp only [PublishStep.action, enabled, hLeft, hRight, hBegun, h.left.asked, h.right.asked,
        h.left.environmentFor, h.right.environmentFor, environmentFor_eq h.agree, hFree]
    | _ => simp only [PublishStep.action, enabled, hLeft, hRight, hBegun, Bool.and_false, Bool.false_and]
  | _ => cases hStages <;> simp only [PublishStep.action, enabled, hLeft, hRight, hBegun]

theorem next_bump (db : Database) : db.next runtime options (.bump t) .begun =
    match db.environmentFor options with
    | some environment => .bumped (environment.version + 1)
    | none => .thrown := rfl

theorem next_compile (db : Database) (now : String) (version : Nat) (flags : Reading FlagRow)
    (segments : Reading SegmentRow) : db.next runtime options (.compile t now) (.readSegments version flags segments) =
    match compileRuleset (compileOptions options version flags.rows segments.rows) now with
    | .ok ruleset => .compiled version flags segments ruleset
    | .error _ => .thrown := rfl

theorem next_insert (db : Database) (version : Nat) (flags : Reading FlagRow) (segments : Reading SegmentRow)
    (ruleset : CompiledRuleset) : db.next runtime options (.insert t) (.compiled version flags segments ruleset) =
    match bigint (versionNumber version) with
    | none => .thrown
    | some inserted =>
      if db.isTaken options.environmentId inserted then .thrown
      else .inserted version {
        tenantId := options.tenantId
        environmentId := options.environmentId
        version := inserted
        compiled := ruleset
        etag := runtime.etag ruleset.server
        publishedBy := options.publishedBy
        flags := flags
        segments := segments } := rfl

/-- From the same stage, on the same tables, a statement leads to the same stage. -/
theorem Abreast.next_same (h : Abreast runtime options before before' db db') (hOwns : before.Owns)
    (hOwns' : before'.Owns) (step : PublishStep) :
    (db.next runtime options (step.action before.begun) (db.stage before.begun)).Same
      (db'.next runtime options (step.action before'.begun) (db'.stage before'.begun)) := by
  have hTaken := h.isTaken_eq hOwns hOwns'
  have hStages := h.stages
  generalize db.stage before.begun = stage at hStages hTaken
  generalize db'.stage before'.begun = stage' at hStages
  cases step with
  | bump =>
    cases hStages with
    | begun =>
      simp only [PublishStep.action, next_bump, h.left.environmentFor, h.right.environmentFor,
        environmentFor_eq h.agree]
      split
      · exact .bumped _
      · exact .thrown
    | _ => exact .thrown
  | readFlags =>
    cases hStages with
    | bumped version =>
      refine .readFlags version ?_
      rw [readFlagRows, readFlagRows, h.left.configuration, h.right.configuration]
      exact h.agree.flags options.environmentId
    | _ => exact .thrown
  | readSegments =>
    cases hStages with
    | readFlags version hFlags =>
      refine .readSegments version hFlags ?_
      rw [readSegmentRows, readSegmentRows, h.left.configuration, h.right.configuration]
      exact h.agree.segments
    | _ => exact .thrown
  | compile now =>
    cases hStages with
    | readSegments version hFlags hSegments =>
      simp only [PublishStep.action, next_compile, hFlags, hSegments]
      split
      · exact .compiled version hFlags hSegments _
      · exact .thrown
    | _ => exact .thrown
  | insert =>
    cases hStages with
    | compiled version hFlags hSegments ruleset =>
      simp only [PublishStep.action, next_insert, hTaken rfl]
      split
      · exact .thrown
      · split
        · exact .thrown
        · refine .inserted version ?_
          simp only [SnapshotRecord.plain, Reading.plain, hFlags, hSegments]
    | _ => exact .thrown

theorem Abreast.fail (h : Abreast runtime options before before' db db') :
    Abreast runtime options before before' (db.advance runtime (.fail before.begun) before.begun).tick
      (db'.advance runtime (.fail before'.begun) before'.begun).tick where
  agree := h.agree
  left := h.left.fail
  right := h.right.fail
  stages := by
    rw [stage_advance, stage_advance, if_pos rfl, if_pos rfl]
    exact .thrown

theorem Abreast.attempt (h : Abreast runtime options before before' db db') (hOwns : before.Owns)
    (hOwns' : before'.Owns) (step : PublishStep) (fails : Bool) :
    Abreast runtime options before before' (db.attempt runtime before.begun (step.action before.begun) fails)
      (db'.attempt runtime before'.begun (step.action before'.begun) fails) := by
  rw [Database.attempt, Database.attempt, h.enabled_eq step]
  split
  · rw [effect_action, effect_action]
    refine ⟨h.agree, h.left.advance step, h.right.advance step, ?_⟩
    rw [stage_advance, stage_advance, if_pos rfl, if_pos rfl, h.left.asked, h.right.asked]
    exact h.next_same hOwns hOwns' step
  · exact h.fail

theorem Publishing.attempt (h : Publishing before options db) (step : PublishStep) (fails : Bool) :
    Publishing before options (db.attempt runtime before.begun (step.action before.begun) fails) := by
  rw [Database.attempt]
  split
  · exact @effect_action runtime db before.begun step ▸ h.advance step
  · exact h.fail

/-! ## The whole publish -/

theorem publishing_begin (h : before.Settled) (options : PublishOptions) :
    Publishing before options (before.effect runtime (.begin options)) where
  toPending := pending_begin before options
  begun := rfl
  configuration := rfl
  free t hOld := by
    have hOther : t ≠ before.begun := by omega
    have hStage : (before.effect runtime (.begin options)).stage t = before.stage t :=
      congrArg Transaction.stage (Function.update_of_ne hOther ..)
    rw [hStage]
    exact h.free t hOld

theorem abreast_begin (hAgree : Agree runtime options.tenantId before before') (h : before.Settled)
    (h' : before'.Settled) : Abreast runtime options before before' (before.effect runtime (.begin options))
      (before'.effect runtime (.begin options)) where
  agree := hAgree
  left := publishing_begin h options
  right := publishing_begin h' options
  stages := by
    simp only [effect, Database.stage, Function.update_self]
    exact .begun

/-- What is left to do once the tables have been read. -/
def compileAndInsert (runtime : Runtime) (db : Database) (t : Nat) (course : Course) : Database :=
  (db.attempt runtime t (.compile t (course.now .insertSnapshot)) false).attempt runtime t (.insert t)
    (course.throws .insertSnapshot)

theorem publishing_readInputs (h : before.Settled) (options : PublishOptions) (course : Course) :
    Publishing before options (before.readInputs runtime options course) :=
  (((publishing_begin h options).attempt .bump _).attempt .readFlags _).attempt .readSegments _

theorem Publishing.compileAndInsert (h : Publishing before options db) (course : Course) :
    Publishing before options (db.compileAndInsert runtime before.begun course) :=
  (h.attempt (.compile _) _).attempt .insert _

theorem abreast_readInputs (hAgree : Agree runtime options.tenantId before before') (h : before.Settled)
    (h' : before'.Settled) (course : Course) :
    Abreast runtime options before before' (before.readInputs runtime options course)
      (before'.readInputs runtime options course) :=
  (((abreast_begin hAgree h h').attempt h.owns h'.owns .bump _).attempt h.owns h'.owns .readFlags _).attempt
    h.owns h'.owns .readSegments _

theorem Abreast.compileAndInsert (h : Abreast runtime options before before' db db') (hOwns : before.Owns)
    (hOwns' : before'.Owns) (course : Course) :
    Abreast runtime options before before' (db.compileAndInsert runtime before.begun course)
      (db'.compileAndInsert runtime before'.begun course) :=
  (h.attempt hOwns hOwns' (.compile _) _).attempt hOwns hOwns' .insert _

/-- How a publish ends whose `COMMIT` takes effect. -/
def endedAs (course : Course) (record : SnapshotRecord) : Stage :=
  if course.loses .commit then .lost record else .committed record

theorem endedAs_locks (course : Course) (record : SnapshotRecord) : (endedAs course record).locks = false := by
  rw [endedAs]
  split <;> rfl

theorem endedAs_same {record record' : SnapshotRecord} (course : Course) (hRecord : record.plain = record'.plain) :
    (endedAs course record).Same (endedAs course record') := by
  rw [endedAs, endedAs]
  split
  · exact .lost hRecord
  · exact .committed hRecord

theorem next_commitStep (db : Database) (course : Course) (version : Nat) (record : SnapshotRecord) :
    db.next runtime options (commitStep t course) (.inserted version record) = endedAs course record := by
  rw [commitStep, endedAs]
  split <;> rfl

/-- A commit of a transaction that has inserted its row goes through unless it fails. -/
theorem Publishing.commit_cases (h : Publishing before options db) (course : Course) {after : Database}
    (hAfter : after = db.attempt runtime before.begun (commitStep before.begun course) (course.fails .commit)) :
    (course.fails .commit = false ∧ ∃ version record, db.stage before.begun = .inserted version record ∧
      after = ((db.setStage before.begun (endedAs course record)).publish options.environmentId version record).tick) ∨
    ((course.fails .commit = true ∨ ∀ version record, db.stage before.begun ≠ .inserted version record) ∧
      after = (db.advance runtime (.fail before.begun) before.begun).tick) := by
  have hCommits := commits_commitStep before.begun course
  rw [Database.attempt] at hAfter
  split at hAfter
  · rename_i hStep
    obtain ⟨hGoes, hEnabled⟩ := Bool.and_eq_true_iff.mp hStep
    rcases effect_own runtime hEnabled (transaction_of_commits hCommits) with
      ⟨hNone, _⟩ | ⟨version, record, _, hStage, _, hEffect⟩
    · rw [hCommits] at hNone
      cases hNone
    · rw [hEffect, Database.advance, hStage, next_commitStep, h.asked] at hAfter
      exact Or.inl ⟨by simpa using hGoes, version, record, hStage, hAfter⟩
  · rename_i hStep
    refine Or.inr ⟨?_, hAfter⟩
    by_contra hNot
    simp only [not_or, Bool.not_eq_true, not_forall, not_not] at hNot
    obtain ⟨hGoes, version, record, hStage⟩ := hNot
    refine hStep ?_
    rw [commitStep]
    split <;> simp [enabled, hGoes, hStage, h.begun]

theorem Publishing.commit_settled (h : Publishing before options db) (hSettled : before.Settled) (course : Course)
    {after : Database}
    (hAfter : after = db.attempt runtime before.begun (commitStep before.begun course) (course.fails .commit)) :
    after.Settled := by
  obtain ⟨hOwner, hCommitted, _⟩ := h.toPending.commit course hAfter
  refine ⟨?_, ?_⟩
  · have hOld : ∀ record ∈ before.snapshots, ∃ key,
        after.owner record.environmentId = some (record.tenantId, key) := by
      intro record hMem
      rw [hOwner]
      exact hSettled.owns record hMem
    rcases hCommitted with ⟨_, hSame⟩ | ⟨record, _, hPublishes⟩
    · intro record hMem
      exact hOld record (hSame ▸ hMem)
    · intro other hMem
      rcases List.mem_append.mp (hPublishes.snapshots ▸ hMem) with hMem | hMem
      · exact hOld other hMem
      · obtain rfl := List.mem_singleton.mp hMem
        obtain ⟨environment, hFound⟩ := Option.isSome_iff_exists.mp hPublishes.environment
        obtain ⟨hStored, hTenant⟩ := Option.filter_eq_some_iff.mp hFound
        refine ⟨environment.key, ?_⟩
        rw [hOwner, hPublishes.environmentId, hPublishes.tenantId, owner, hStored, ← of_decide_eq_true hTenant]
        rfl
  · rcases h.commit_cases course hAfter with ⟨_, version, record, _, rfl⟩ | ⟨_, rfl⟩
    · intro t hBegun
      change ((db.setStage before.begun (endedAs course record)).stage t).locks = false
      rw [stage_setStage]
      split
      · exact endedAs_locks course record
      · refine h.free t ?_
        have : t < db.begun := hBegun
        have := h.begun
        omega
    · intro t hBegun
      rw [stage_advance]
      split
      · rfl
      · refine h.free t ?_
        have : t < db.begun := hBegun
        have := h.begun
        omega

theorem Publishing.environmentOf (h : Publishing before options db) (tenantId id : String) :
    db.environmentOf tenantId id = before.environmentOf tenantId id := by
  rw [Database.environmentOf, h.environments, Database.environmentOf]

theorem Publishing.snapshotsOf (h : Publishing before options db) (tenantId : String) :
    db.snapshotsOf tenantId = before.snapshotsOf tenantId := by
  rw [Database.snapshotsOf, h.snapshots, Database.snapshotsOf]

theorem environmentOf_publish (db : Database) (stage : Stage) (environmentId : String) (version : Nat)
    (record : SnapshotRecord) (tenantId id : String) :
    ((db.setStage t stage).publish environmentId version record).tick.environmentOf tenantId id =
      if id = environmentId then (db.environmentOf tenantId id).map fun environment => { environment with version }
      else db.environmentOf tenantId id := by
  simp only [environmentOf, publish, setStage, tick, Function.update_apply]
  split
  · rename_i hSame
    rw [hSame, Option.filter_map]
    rfl
  · rfl

theorem snapshotsOf_publish (db : Database) (stage : Stage) (environmentId : String) (version : Nat)
    (record : SnapshotRecord) (tenantId : String) :
    ((db.setStage t stage).publish environmentId version record).tick.snapshotsOf tenantId =
      db.snapshotsOf tenantId ++ if record.tenantId = tenantId then [record.plain] else [] := by
  simp only [snapshotsOf, publish, setStage, tick, List.filter_append, List.map_append, List.filter_cons,
    List.filter_nil, decide_eq_true_eq]
  split <;> rfl

/-- What a tenant publishes is not seen in what is another tenant's. -/
theorem Publishing.commit_other (h : Publishing before options db) (course : Course) {tenantId : String}
    (hOther : options.tenantId ≠ tenantId) {after : Database}
    (hAfter : after = db.attempt runtime before.begun (commitStep before.begun course) (course.fails .commit)) :
    Agree runtime tenantId after before := by
  rcases h.commit_cases course hAfter with ⟨_, version, record, hStage, rfl⟩ | ⟨_, rfl⟩
  · have hPrepares := h.stage
    rw [hStage] at hPrepares
    obtain ⟨hFound, hTenant, _⟩ := hPrepares
    obtain ⟨environment, hEnvironment⟩ := Option.isSome_iff_exists.mp hFound
    obtain ⟨hStored, hOwner⟩ := Option.filter_eq_some_iff.mp hEnvironment
    have hNone : before.environmentOf tenantId options.environmentId = none := by
      rw [Database.environmentOf, hStored, Option.filter_some, if_neg]
      exact fun hOwn => hOther ((of_decide_eq_true hOwner).symm.trans (of_decide_eq_true hOwn))
    refine ⟨fun id => ?_, ?_, fun _ => by rw [← h.configuration]; rfl, by rw [← h.configuration]; rfl⟩
    · rw [environmentOf_publish, h.environmentOf]
      split
      · rename_i hSame
        rw [hSame, hNone, Option.map_none]
      · rfl
    · rw [snapshotsOf_publish, if_neg (hTenant ▸ hOther), List.append_nil, h.snapshotsOf]
  · refine ⟨h.environmentOf tenantId, h.snapshotsOf tenantId, fun _ => ?_, ?_⟩
    · rw [← h.configuration]
      rfl
    · rw [← h.configuration]
      rfl

theorem Abreast.agree_of_same (h : Abreast runtime options before before' db db') {after after' : Database}
    (hEnvironments : ∀ id, after.environmentOf options.tenantId id = after'.environmentOf options.tenantId id)
    (hSnapshots : after.snapshotsOf options.tenantId = after'.snapshotsOf options.tenantId)
    (hLeft : after.configuration = db.configuration) (hRight : after'.configuration = db'.configuration) :
    Agree runtime options.tenantId after after' where
  environments := hEnvironments
  snapshots := hSnapshots
  flags environmentId := by
    rw [hLeft, hRight, h.left.configuration, h.right.configuration]
    exact h.agree.flags environmentId
  segments := by
    rw [hLeft, hRight, h.left.configuration, h.right.configuration]
    exact h.agree.segments

theorem Abreast.commit (h : Abreast runtime options before before' db db') (course : Course)
    {after after' : Database}
    (hAfter : after = db.attempt runtime before.begun (commitStep before.begun course) (course.fails .commit))
    (hAfter' : after' = db'.attempt runtime before'.begun (commitStep before'.begun course) (course.fails .commit)) :
    Agree runtime options.tenantId after after' ∧ (after.stage before.begun).Same (after'.stage before'.begun) := by
  have hStages := h.stages
  rcases h.left.commit_cases course hAfter with ⟨hGoes, version, record, hStage, rfl⟩ | ⟨hNot, rfl⟩ <;>
    rcases h.right.commit_cases course hAfter' with ⟨hGoes', version', record', hStage', rfl⟩ | ⟨hNot', rfl⟩
  · rw [hStage, hStage'] at hStages
    obtain ⟨rfl, hRecord⟩ : version = version' ∧ record.plain = record'.plain := by
      cases hStages with
      | inserted _ hRecord => exact ⟨rfl, hRecord⟩
    have hTenant : record.tenantId = record'.tenantId := (congrArg SnapshotRecord.tenantId hRecord :)
    refine ⟨h.agree_of_same (fun id => ?_) ?_ rfl rfl, ?_⟩
    · rw [environmentOf_publish, environmentOf_publish, h.left.environmentOf, h.right.environmentOf,
        h.agree.environments]
    · rw [snapshotsOf_publish, snapshotsOf_publish, h.left.snapshotsOf, h.right.snapshotsOf, h.agree.snapshots,
        hRecord, hTenant]
    · change ((db.setStage before.begun (endedAs course record)).stage before.begun).Same
        ((db'.setStage before'.begun (endedAs course record')).stage before'.begun)
      rw [stage_setStage, stage_setStage, if_pos rfl, if_pos rfl]
      exact endedAs_same course hRecord
  · rcases hNot' with hFails | hNone
    · simp [hGoes] at hFails
    · exact absurd hStage (hStages.inserted_iff.mpr hNone version record)
  · rcases hNot with hFails | hNone
    · simp [hGoes'] at hFails
    · exact absurd hStage' (hStages.inserted_iff.mp hNone version' record')
  · refine ⟨h.agree_of_same (fun id => ?_) ?_ rfl rfl, ?_⟩
    · exact (h.left.environmentOf _ id).trans ((h.agree.environments id).trans (h.right.environmentOf _ id).symm)
    · exact (h.left.snapshotsOf _).trans (h.agree.snapshots.trans (h.right.snapshotsOf _).symm)
    · rw [stage_advance, stage_advance, if_pos rfl, if_pos rfl]
      exact .thrown

theorem publishRuleset_eq (runtime : Runtime) (before : Database) (options : PublishOptions) (course : Course) :
    before.publishRuleset runtime options course =
      if course.throws .begin then { database := before, landed := none, record := none, error := none }
      else
        let read := before.readInputs runtime options course
        let after := (read.compileAndInsert runtime before.begun course).attempt runtime before.begun
          (commitStep before.begun course) (course.fails .commit)
        { database := after
          landed := (after.stage before.begun).landed
          record := committedRecord (after.stage before.begun)
          error := compileError options (course.now .insertSnapshot) (read.stage before.begun) } := rfl

/-- A publish leaves no transaction open, whatever fails. -/
theorem publishRuleset_settled (h : before.Settled) (options : PublishOptions) (course : Course) :
    (before.publishRuleset runtime options course).database.Settled := by
  rw [publishRuleset_eq]
  split
  · exact h
  · exact ((publishing_readInputs h options course).compileAndInsert course).commit_settled h _ rfl

theorem publishRuleset_configuration (h : before.Settled) (options : PublishOptions) (course : Course) :
    (before.publishRuleset runtime options course).database.configuration = before.configuration := by
  rw [publishRuleset_eq]
  split
  · rfl
  · have hPublishing : Publishing before options
        ((before.readInputs runtime options course).compileAndInsert runtime before.begun course) :=
      (publishing_readInputs h options course).compileAndInsert course
    rcases @Publishing.commit_cases runtime options before _ hPublishing course _ rfl with
      ⟨_, _, _, _, hSame⟩ | ⟨_, hSame⟩
    · exact (congrArg Database.configuration hSame).trans hPublishing.configuration
    · exact (congrArg Database.configuration hSame).trans hPublishing.configuration

theorem publishRuleset_other (h : before.Settled) {tenantId : String} (hOther : options.tenantId ≠ tenantId)
    (course : Course) : Agree runtime tenantId (before.publishRuleset runtime options course).database before := by
  rw [publishRuleset_eq]
  split
  · exact ⟨fun _ => rfl, rfl, fun _ => rfl, rfl⟩
  · exact ((publishing_readInputs h options course).compileAndInsert course).commit_other _ hOther rfl

theorem compileError_same {stage stage' : Stage} (h : stage.Same stage') (now : String) :
    compileError options now stage = compileError options now stage' := by
  cases h with
  | readSegments version hFlags hSegments => simp only [compileError, hFlags, hSegments]
  | _ => rfl

theorem committedRecord_same {stage stage' : Stage} (h : stage.Same stage') :
    (committedRecord stage).map SnapshotRecord.plain = (committedRecord stage').map SnapshotRecord.plain := by
  cases h with
  | committed hRecord => exact congrArg some hRecord
  | _ => rfl

theorem landed_same {stage stage' : Stage} (h : stage.Same stage') :
    stage.landed.map SnapshotRecord.plain = stage'.landed.map SnapshotRecord.plain := by
  cases h with
  | committed hRecord => exact congrArg some hRecord
  | lost hRecord => exact congrArg some hRecord
  | _ => rfl

/-- A publish comes to the same on databases that hold the same for its tenant. -/
theorem publishRuleset_own (hAgree : Agree runtime options.tenantId before before') (h : before.Settled)
    (h' : before'.Settled) (course : Course) {result result' : PublishResult}
    (hResult : result = before.publishRuleset runtime options course)
    (hResult' : result' = before'.publishRuleset runtime options course) :
    Agree runtime options.tenantId result.database result'.database ∧
      result.landed.map SnapshotRecord.plain = result'.landed.map SnapshotRecord.plain ∧
      result.record.map SnapshotRecord.plain = result'.record.map SnapshotRecord.plain ∧
      result.error = result'.error := by
  rw [publishRuleset_eq] at hResult hResult'
  split at hResult
  · rename_i hFails
    rw [if_pos hFails] at hResult'
    subst hResult hResult'
    exact ⟨hAgree, rfl, rfl, rfl⟩
  · rename_i hGoes
    rw [if_neg hGoes] at hResult'
    subst hResult hResult'
    have hRead := abreast_readInputs hAgree h h' course
    obtain ⟨hAfter, hStages⟩ := (hRead.compileAndInsert h.owns h'.owns course).commit course rfl rfl
    exact ⟨hAfter, landed_same hStages, committedRecord_same hStages, compileError_same hRead.stages _⟩

end Database

end Flagship.ControlPlane
