import Flagship.ControlPlane.Publishing

/-! # Publishes of an environment are serial

A publish holds the lock on its environment's row from the bump of the version to its end, so
the versions that get committed are consecutive, and what goes into one is read after
everything that went into those before it. The version passes through a double on its way
from the bump to the insert; where that rounds, the insert is turned away.
-/

namespace Flagship.ControlPlane

open Lib Flagship.Core

def Reading.Before {α β : Type} (earlier : Reading α) (later : Reading β) : Prop :=
  earlier.time < later.time ∧ earlier.revision ≤ later.revision

/-! ## Versions as doubles -/

theorem bigint_ofNat {n : Nat} (h : n < 2 ^ 63) : bigint (.ofNat n) = some n := by
  have hBound : (n : ℚ) < 2 ^ 63 := by exact_mod_cast h
  simp [bigint, Number.ofNat, hBound]

theorem bigint_versionNumber {version : Nat} (h : version ≤ 2 ^ 53 + 1) :
    bigint (versionNumber version) = some (min version (2 ^ 53)) := by
  rcases Nat.lt_or_ge version (2 ^ 53) with hExact | hLarge
  · rw [versionNumber, Number.ofRat_natCast hExact, bigint_ofNat (by omega), Nat.min_eq_left (by omega)]
  · have hEnd : version = 2 ^ 53 ∨ version = 2 ^ 53 + 1 := by omega
    rcases hEnd with rfl | rfl
    · decide +kernel
    · decide +kernel

theorem versionNumber_isFinite {version : Nat} (h : version < 2 ^ 63) : (versionNumber version).isFinite = true := by
  have hBound : (version : ℚ) ≤ 2 ^ (63 : ℤ) := by exact_mod_cast h.le
  have hBelow := Number.ofRat_le_zpow (Nat.cast_nonneg version) hBound (by norm_num) (by norm_num)
  rcases Number.ofRat_lower (n := 0) (q := version) (by norm_num) (by simp) with hInfinite | ⟨value, hValue, _⟩
  · rw [hInfinite] at hBelow
    cases hBelow
  · rw [versionNumber, hValue]
    rfl

namespace Database

variable {runtime : Runtime} {db : Database}

/-! ## The invariant -/

def configurations (db : Database) : List Configuration := db.past ++ [db.configuration]

def versionsOf (db : Database) (environmentId : String) : List Nat :=
  (db.snapshots.filter fun record => record.environmentId = environmentId).map SnapshotRecord.version

/-- The reading is one of a configuration that was there at the time. -/
def Took {α : Type} (db : Database) (load : Configuration → List α) (reading : Reading α) : Prop :=
  reading.time < db.clock ∧
    ∃ configuration, db.configurations[reading.revision]? = some configuration ∧ reading.rows = load configuration

def After {α : Type} (db : Database) (environmentId : String) (reading : Reading α) : Prop :=
  ∀ record ∈ db.snapshots, record.environmentId = environmentId →
    record.flags.Before reading ∧ record.segments.Before reading

def Bumped (db : Database) (options : PublishOptions) (version : Nat) : Prop :=
  ∃ environment, db.environments options.environmentId = some environment ∧ version = environment.version + 1

def TookFlags (runtime : Runtime) (db : Database) (options : PublishOptions) : Reading FlagRow → Prop :=
  db.Took fun configuration => loadFlags runtime configuration options.tenantId options.environmentId

def TookSegments (runtime : Runtime) (db : Database) (options : PublishOptions) : Reading SegmentRow → Prop :=
  db.Took fun configuration => loadSegments runtime configuration options.tenantId

/-- The payloads of the record were compiled from what the tables held for its environment. -/
structure CompiledFrom (runtime : Runtime) (db : Database) (options : PublishOptions) (record : SnapshotRecord) :
    Prop where
  tenantId : record.tenantId = options.tenantId
  environmentId : record.environmentId = options.environmentId
  flags : TookFlags runtime db options record.flags
  segments : TookSegments runtime db options record.segments
  compiled : ∃ version now,
    compileRuleset (compileOptions options version record.flags.rows record.segments.rows) now = .ok record.compiled

def Knows (runtime : Runtime) (db : Database) (options : PublishOptions) : Stage → Prop
  | .begun | .thrown => True
  | .bumped version => db.Bumped options version
  | .readFlags version flags =>
    db.Bumped options version ∧ TookFlags runtime db options flags ∧ db.After options.environmentId flags
  | .readSegments version flags segments =>
    db.Bumped options version ∧ (TookFlags runtime db options flags ∧ db.After options.environmentId flags) ∧
      TookSegments runtime db options segments ∧ db.After options.environmentId segments
  | .compiled version flags segments compiled =>
    db.Bumped options version ∧ (TookFlags runtime db options flags ∧ db.After options.environmentId flags) ∧
      (TookSegments runtime db options segments ∧ db.After options.environmentId segments) ∧
      ∃ now, compileRuleset (compileOptions options version flags.rows segments.rows) now = .ok compiled
  | .inserted version record =>
    db.Bumped options version ∧ record.version = version ∧ version ≤ 2 ^ 53 ∧
      db.After options.environmentId record.flags ∧ db.After options.environmentId record.segments ∧
      CompiledFrom runtime db options record
  | .committed record | .lost record => CompiledFrom runtime db options record

structure Serial (runtime : Runtime) (db : Database) : Prop where
  versions : ∀ id environment, db.environments id = some environment →
    db.versionsOf id = List.range' 1 environment.version
  bounded : ∀ id environment, db.environments id = some environment → environment.version ≤ 2 ^ 53
  exclusive : ∀ t < db.begun, ∀ t' < db.begun, (db.stage t).locks = true → (db.stage t').locks = true →
    (db.options t).environmentId = (db.options t').environmentId → t = t'
  knows : ∀ t < db.begun, Knows runtime db (db.options t) (db.stage t)
  ordered : db.snapshots.Pairwise fun older newer => older.environmentId = newer.environmentId →
    older.version < newer.version ∧ (older.flags.Before newer.flags ∧ older.segments.Before newer.flags) ∧
      older.flags.Before newer.segments ∧ older.segments.Before newer.segments
  recorded : ∀ record ∈ db.snapshots, ∃ options, CompiledFrom runtime db options record

/-! ## What later states keep -/

structure Grows (db db' : Database) : Prop where
  clock : db.clock ≤ db'.clock
  configurations : ∃ later, db'.configurations = db.configurations ++ later

theorem Grows.of_eq {db' : Database} (hClock : db.clock ≤ db'.clock)
    (hSame : db'.configurations = db.configurations) : Grows db db' :=
  ⟨hClock, [], hSame.trans (List.append_nil _).symm⟩

theorem Took.grow {α : Type} {db' : Database} {load : Configuration → List α} {reading : Reading α}
    (hTook : db.Took load reading) (hGrows : Grows db db') : db'.Took load reading := by
  obtain ⟨hTime, configuration, hFound, hRows⟩ := hTook
  obtain ⟨later, hLater⟩ := hGrows.configurations
  refine ⟨Nat.lt_of_lt_of_le hTime hGrows.clock, configuration, ?_, hRows⟩
  obtain ⟨hBound, _⟩ := List.getElem?_eq_some_iff.mp hFound
  rw [hLater, List.getElem?_append_left hBound]
  exact hFound

theorem Took.revision_le {α : Type} {load : Configuration → List α} {reading : Reading α}
    (hTook : db.Took load reading) : reading.revision ≤ db.past.length := by
  obtain ⟨_, configuration, hFound, _⟩ := hTook
  obtain ⟨hBound, _⟩ := List.getElem?_eq_some_iff.mp hFound
  rw [configurations, List.length_append, List.length_singleton] at hBound
  omega

theorem CompiledFrom.grow {db' : Database} {options : PublishOptions} {record : SnapshotRecord}
    (hFrom : CompiledFrom runtime db options record) (hGrows : Grows db db') :
    CompiledFrom runtime db' options record :=
  { hFrom with flags := hFrom.flags.grow hGrows, segments := hFrom.segments.grow hGrows }

/-- While a transaction holds the lock nobody else changes the environment's row or its snapshots. -/
theorem Knows.grow {db' : Database} {options : PublishOptions} {stage : Stage}
    (hKnows : Knows runtime db options stage) (hGrows : Grows db db')
    (hLocked : stage.locks = true → db'.environments options.environmentId = db.environments options.environmentId ∧
      ∀ record ∈ db'.snapshots, record.environmentId = options.environmentId → record ∈ db.snapshots) :
    Knows runtime db' options stage := by
  have hBumped : ∀ {version}, stage.locks = true → db.Bumped options version → db'.Bumped options version := by
    rintro version hLocks ⟨environment, hFound, hVersion⟩
    exact ⟨environment, (hLocked hLocks).1.trans hFound, hVersion⟩
  have hAfter : ∀ {α : Type} {reading : Reading α}, stage.locks = true → db.After options.environmentId reading →
      db'.After options.environmentId reading := by
    intro α reading hLocks hAfter record hMem hSame
    exact hAfter record ((hLocked hLocks).2 record hMem hSame) hSame
  cases stage with
  | begun => trivial
  | thrown => trivial
  | bumped version => exact hBumped rfl hKnows
  | readFlags version flags =>
    obtain ⟨hVersion, hFlags, hFlagsAfter⟩ := hKnows
    exact ⟨hBumped rfl hVersion, hFlags.grow hGrows, hAfter rfl hFlagsAfter⟩
  | readSegments version flags segments =>
    obtain ⟨hVersion, ⟨hFlags, hFlagsAfter⟩, hSegments, hSegmentsAfter⟩ := hKnows
    exact ⟨hBumped rfl hVersion, ⟨hFlags.grow hGrows, hAfter rfl hFlagsAfter⟩, hSegments.grow hGrows,
      hAfter rfl hSegmentsAfter⟩
  | compiled version flags segments compiled =>
    obtain ⟨hVersion, ⟨hFlags, hFlagsAfter⟩, ⟨hSegments, hSegmentsAfter⟩, hCompiled⟩ := hKnows
    exact ⟨hBumped rfl hVersion, ⟨hFlags.grow hGrows, hAfter rfl hFlagsAfter⟩,
      ⟨hSegments.grow hGrows, hAfter rfl hSegmentsAfter⟩, hCompiled⟩
  | inserted version record =>
    obtain ⟨hVersion, hSame, hBound, hFlagsAfter, hSegmentsAfter, hFrom⟩ := hKnows
    exact ⟨hBumped rfl hVersion, hSame, hBound, hAfter rfl hFlagsAfter, hAfter rfl hSegmentsAfter, hFrom.grow hGrows⟩
  | committed record => exact CompiledFrom.grow hKnows hGrows
  | lost record => exact CompiledFrom.grow hKnows hGrows

/-! ## Steps -/

theorem stage_setStage (db : Database) (t t' : Nat) (stage : Stage) :
    (db.setStage t stage).stage t' = if t' = t then stage else db.stage t' := by
  simp only [Database.stage, setStage, Function.update_apply]
  split <;> rfl

theorem options_setStage (db : Database) (t t' : Nat) (stage : Stage) :
    (db.setStage t stage).options t' = db.options t' := by
  simp only [Database.options, setStage, Function.update_apply]
  split
  · rename_i hSame
    rw [hSame]
  · rfl

theorem isUnlocked_iff {environmentId : String} : db.isUnlocked environmentId = true ↔
    ∀ t < db.begun, (db.options t).environmentId = environmentId → (db.stage t).locks = false := by
  rw [isUnlocked, decide_eq_true_eq]

/-- A transaction that goes to a stage it knows about, taking the lock only when it is free. -/
theorem Serial.advance (hSerial : Serial runtime db) {t : Nat} (hBegun : t < db.begun) {stage : Stage}
    (hKnows : Knows runtime db.tick (db.options t) stage)
    (hLocks : stage.locks = true → (db.stage t).locks = true ∨ db.isUnlocked (db.options t).environmentId = true) :
    Serial runtime (db.setStage t stage).tick where
  versions := hSerial.versions
  bounded := hSerial.bounded
  exclusive := by
    have hOwn : ∀ t' < db.begun, stage.locks = true → (db.stage t').locks = true →
        (db.options t).environmentId = (db.options t').environmentId → t = t' := by
      intro t' hBegun' hMine hOther hSame
      -- a lock it held before is its own; one it has just taken was free
      rcases hLocks hMine with hHeld | hFree
      · exact hSerial.exclusive t hBegun t' hBegun' hHeld hOther hSame
      · rw [isUnlocked_iff.mp hFree t' hBegun' hSame.symm] at hOther
        cases hOther
    intro t₁ hBegun₁ t₂ hBegun₂ hFirst hSecond hSame
    have hStage : ∀ t', (db.setStage t stage).tick.stage t' = if t' = t then stage else db.stage t' :=
      fun t' => stage_setStage db t t' stage
    have hOptions : ∀ t', (db.setStage t stage).tick.options t' = db.options t' :=
      fun t' => options_setStage db t t' stage
    rw [hStage] at hFirst hSecond
    rw [hOptions, hOptions] at hSame
    split at hFirst <;> split at hSecond
    · rename_i hLeft hRight
      rw [hLeft, hRight]
    · rename_i hLeft _
      subst hLeft
      exact hOwn t₂ hBegun₂ hFirst hSecond hSame
    · rename_i _ hRight
      subst hRight
      exact (hOwn t₁ hBegun₁ hSecond hFirst hSame.symm).symm
    · exact hSerial.exclusive t₁ hBegun₁ t₂ hBegun₂ hFirst hSecond hSame
  knows := by
    intro t' hBegun'
    have hStage : (db.setStage t stage).tick.stage t' = if t' = t then stage else db.stage t' :=
      stage_setStage db t t' stage
    have hOptions : (db.setStage t stage).tick.options t' = db.options t' := options_setStage db t t' stage
    rw [hStage, hOptions]
    split
    · rename_i hSame
      subst hSame
      exact hKnows.grow (Grows.of_eq (Nat.le_refl _) rfl) fun _ => ⟨rfl, fun _ hMem _ => hMem⟩
    · exact (hSerial.knows t' hBegun').grow (Grows.of_eq (Nat.le_succ _) rfl) fun _ => ⟨rfl, fun _ hMem _ => hMem⟩
  ordered := hSerial.ordered
  recorded := by
    intro record hMem
    obtain ⟨options, hFrom⟩ := hSerial.recorded record hMem
    exact ⟨options, hFrom.grow (Grows.of_eq (Nat.le_succ _) rfl)⟩

theorem Serial.configure (hSerial : Serial runtime db) (configuration : Configuration) :
    Serial runtime (db.effect runtime (.configure configuration)) := by
  have hGrows : Grows db (db.effect runtime (.configure configuration)) :=
    ⟨Nat.le_succ _, [configuration], rfl⟩
  refine { hSerial with knows := ?_, recorded := ?_ }
  · intro t hBegun
    exact (hSerial.knows t hBegun).grow hGrows fun _ => ⟨rfl, fun _ hMem _ => hMem⟩
  · intro record hMem
    obtain ⟨options, hFrom⟩ := hSerial.recorded record hMem
    exact ⟨options, hFrom.grow hGrows⟩

theorem Serial.begin (hSerial : Serial runtime db) (options : PublishOptions) :
    Serial runtime (db.effect runtime (.begin options)) := by
  have hTransaction : ∀ t, (db.effect runtime (.begin options)).transactions t =
      if t = db.begun then { options, stage := .begun } else db.transactions t :=
    fun t => Function.update_apply ..
  have hStage : ∀ t, ((db.effect runtime (.begin options)).stage t).locks = true →
      t ≠ db.begun ∧ (db.stage t).locks = true := by
    intro t hLocks
    rw [Database.stage, hTransaction] at hLocks
    split at hLocks
    · cases hLocks
    · exact ⟨‹_›, hLocks⟩
  have hOld : ∀ t, t < db.begun + 1 → t ≠ db.begun → t < db.begun := by omega
  refine { hSerial with exclusive := ?_, knows := ?_, recorded := ?_ }
  · intro t hBegun t' hBegun' hLocks hLocks' hSame
    obtain ⟨hNe, hHeld⟩ := hStage t hLocks
    obtain ⟨hNe', hHeld'⟩ := hStage t' hLocks'
    rw [Database.options, Database.options, hTransaction, hTransaction, if_neg hNe, if_neg hNe'] at hSame
    exact hSerial.exclusive t (hOld t hBegun hNe) t' (hOld t' hBegun' hNe') hHeld hHeld' hSame
  · intro t hBegun
    rw [Database.options, Database.stage, hTransaction]
    split
    · trivial
    · rename_i hNe
      exact (hSerial.knows t (hOld t hBegun hNe)).grow (Grows.of_eq (Nat.le_succ _) rfl)
        fun _ => ⟨rfl, fun _ hMem _ => hMem⟩
  · intro record hMem
    obtain ⟨options, hFrom⟩ := hSerial.recorded record hMem
    exact ⟨options, hFrom.grow (Grows.of_eq (Nat.le_succ _) rfl)⟩

theorem Serial.after (hSerial : Serial runtime db) (environmentId : String) {α : Type} {reading : Reading α}
    (hTime : reading.time = db.clock) (hRevision : reading.revision = db.past.length) :
    db.After environmentId reading := by
  intro record hMem _
  obtain ⟨options, hFrom⟩ := hSerial.recorded record hMem
  rw [Reading.Before, Reading.Before, hTime, hRevision]
  exact ⟨⟨hFrom.flags.1, hFrom.flags.revision_le⟩, hFrom.segments.1, hFrom.segments.revision_le⟩

theorem took_tick {α : Type} (load : Configuration → List α) {reading : Reading α} (hTime : reading.time = db.clock)
    (hRevision : reading.revision = db.past.length) (hRows : reading.rows = load db.configuration) :
    db.tick.Took load reading := by
  refine ⟨hTime ▸ Nat.lt_succ_self _, db.configuration, ?_, hRows⟩
  rw [hRevision]
  simp [configurations, tick]

/-- Of the two versions a double cannot tell apart, the second is turned away. -/
theorem Serial.inserted (hSerial : Serial runtime db) {options : PublishOptions} {version inserted : Nat}
    (hBumped : db.Bumped options version) (hInserted : bigint (versionNumber version) = some inserted)
    (hFree : db.isTaken options.environmentId inserted = false) : inserted = version ∧ version ≤ 2 ^ 53 := by
  obtain ⟨environment, hFound, rfl⟩ := hBumped
  have hBound := hSerial.bounded _ _ hFound
  rw [bigint_versionNumber (by omega)] at hInserted
  obtain rfl := Option.some.inj hInserted
  rcases Nat.lt_or_ge environment.version (2 ^ 53) with hSmall | hLarge
  · exact ⟨Nat.min_eq_left hSmall, hSmall⟩
  · -- the version after 2 ^ 53 rounds to it, and the environment has that one already
    exfalso
    have hMem : 2 ^ 53 ∈ db.versionsOf options.environmentId := by
      rw [hSerial.versions _ _ hFound, List.mem_range'_1]
      omega
    obtain ⟨record, hRecord, hVersion⟩ := List.mem_map.mp hMem
    obtain ⟨hListed, hSame⟩ := List.mem_filter.mp hRecord
    have hTaken : db.isTaken options.environmentId (min (environment.version + 1) (2 ^ 53)) = true := by
      refine List.any_eq_true.mpr ⟨record, hListed, ?_⟩
      rw [decide_eq_true_eq] at hSame ⊢
      exact ⟨hSame, by omega⟩
    rw [hTaken] at hFree
    cases hFree

/-! ## Commits -/

/-- The record is the next version of an environment whose lock nobody holds any more. -/
structure Next (runtime : Runtime) (db : Database) (environment : EnvironmentRecord)
    (record : SnapshotRecord) : Prop where
  found : db.environments record.environmentId = some environment
  version : record.version = environment.version + 1
  bounded : record.version ≤ 2 ^ 53
  flags : db.After record.environmentId record.flags
  segments : db.After record.environmentId record.segments
  compiled : ∃ options, CompiledFrom runtime db options record
  unlocked : db.isUnlocked record.environmentId = true

section Commit

variable {environment : EnvironmentRecord} {record : SnapshotRecord}

theorem environments_publish (hNext : Next runtime db environment record) (id : String) :
    (db.publish record.environmentId record.version record).environments id =
      if id = record.environmentId then some { environment with version := record.version }
      else db.environments id := by
  simp only [publish, Function.update_apply, hNext.found, Option.map_some]

theorem Serial.versions_publish (hSerial : Serial runtime db) (hNext : Next runtime db environment record) :
    ∀ id found, (db.publish record.environmentId record.version record).environments id = some found →
      (db.publish record.environmentId record.version record).versionsOf id = List.range' 1 found.version := by
  intro id found hFound
  rw [environments_publish hNext] at hFound
  have hSplit : (db.publish record.environmentId record.version record).versionsOf id =
      db.versionsOf id ++ ([record].filter fun record => record.environmentId = id).map SnapshotRecord.version := by
    rw [versionsOf, publish, List.filter_append, List.map_append, versionsOf]
  rw [hSplit]
  split at hFound
  · rename_i hHere
    obtain rfl := Option.some.inj hFound
    rw [hHere, hSerial.versions _ _ hNext.found]
    simp [hNext.version, List.range'_concat, Nat.add_comm]
  · rename_i hElsewhere
    have hOther : ¬ record.environmentId = id := fun hSame => hElsewhere hSame.symm
    have hNone : [record].filter (fun record => record.environmentId = id) = [] := by simp [hOther]
    rw [hNone, hSerial.versions _ _ hFound, List.map_nil, List.append_nil]

theorem Serial.ordered_publish (hSerial : Serial runtime db) (hNext : Next runtime db environment record) :
    (db.snapshots ++ [record]).Pairwise fun older newer => older.environmentId = newer.environmentId →
      older.version < newer.version ∧ (older.flags.Before newer.flags ∧ older.segments.Before newer.flags) ∧
        older.flags.Before newer.segments ∧ older.segments.Before newer.segments := by
  refine List.pairwise_append.mpr ⟨hSerial.ordered, List.pairwise_singleton _ _, ?_⟩
  intro older hOlder newer hNewer hShared
  obtain rfl := List.mem_singleton.mp hNewer
  have hListed : older.version ∈ db.versionsOf newer.environmentId :=
    List.mem_map_of_mem (List.mem_filter.mpr ⟨hOlder, decide_eq_true hShared⟩)
  rw [hSerial.versions _ _ hNext.found, List.mem_range'_1] at hListed
  refine ⟨?_, hNext.flags older hOlder hShared, hNext.segments older hOlder hShared⟩
  rw [hNext.version]
  omega

theorem Serial.publish (hSerial : Serial runtime db) (hNext : Next runtime db environment record) :
    Serial runtime (db.publish record.environmentId record.version record) where
  versions := hSerial.versions_publish hNext
  bounded := by
    intro id found hFound
    rw [environments_publish hNext] at hFound
    split at hFound
    · obtain rfl := Option.some.inj hFound
      exact hNext.bounded
    · exact hSerial.bounded _ _ hFound
  exclusive := hSerial.exclusive
  knows := by
    intro t hBegun
    refine (hSerial.knows t hBegun).grow (Grows.of_eq (Nat.le_refl _) rfl) fun hLocks => ?_
    -- who still holds a lock holds that of another environment
    have hApart : (db.options t).environmentId ≠ record.environmentId := by
      intro hShared
      rw [isUnlocked_iff.mp hNext.unlocked t hBegun hShared] at hLocks
      cases hLocks
    refine ⟨(environments_publish hNext _).trans (if_neg hApart), ?_⟩
    intro other hMem hOther
    rcases List.mem_append.mp hMem with hOld | hNew
    · exact hOld
    · rw [List.mem_singleton.mp hNew] at hOther
      exact absurd hOther.symm hApart
  ordered := hSerial.ordered_publish hNext
  recorded := by
    intro other hMem
    have hGrows : Grows db (db.publish record.environmentId record.version record) := Grows.of_eq (Nat.le_refl _) rfl
    rcases List.mem_append.mp hMem with hOld | hNew
    · obtain ⟨options, hOther⟩ := hSerial.recorded other hOld
      exact ⟨options, hOther.grow hGrows⟩
    · obtain ⟨options, hFrom⟩ := hNext.compiled
      rw [List.mem_singleton.mp hNew]
      exact ⟨options, hFrom.grow hGrows⟩

end Commit

theorem landed_iff {stage : Stage} {record : SnapshotRecord} :
    stage.landed = some record ↔ stage = .committed record ∨ stage = .lost record := by
  cases stage <;> simp [Stage.landed]

theorem locks_of_landed {stage : Stage} {record : SnapshotRecord} (h : stage.landed = some record) :
    stage.locks = false := by
  rcases landed_iff.mp h with rfl | rfl <;> rfl

theorem isOpen_of_landed {stage : Stage} {record : SnapshotRecord} (h : stage.landed = some record) :
    stage.isOpen = false := by
  rcases landed_iff.mp h with rfl | rfl <;> rfl

theorem knows_of_landed {options : PublishOptions} {stage : Stage} {record : SnapshotRecord}
    (h : stage.landed = some record) : Knows runtime db options stage ↔ CompiledFrom runtime db options record := by
  rcases landed_iff.mp h with rfl | rfl <;> rfl

/-- `COMMIT` ends the transaction, which gives up the lock, and publishes its record, whether or
not its answer arrives. -/
theorem Serial.commit (hSerial : Serial runtime db) {t : Nat} (hBegun : t < db.begun) {version : Nat}
    {record : SnapshotRecord} (hStage : db.stage t = .inserted version record) {ended : Stage}
    (hEnds : ended.landed = some record) :
    Serial runtime ((db.setStage t ended).publish (db.options t).environmentId version record).tick := by
  obtain ⟨⟨environment, hFound, hVersion⟩, hRecord, hBound, hFlagsAfter, hSegmentsAfter, hFrom⟩ :
      Knows runtime db (db.options t) (.inserted version record) := hStage ▸ hSerial.knows t hBegun
  have hReleased : ended.locks = false := locks_of_landed hEnds
  have hEnded : Serial runtime (db.setStage t ended).tick := by
    refine hSerial.advance hBegun ((knows_of_landed hEnds).mpr (hFrom.grow (Grows.of_eq (Nat.le_succ _) rfl))) ?_
    intro hLocks
    rw [hReleased] at hLocks
    cases hLocks
  rw [← hFrom.environmentId] at hFound hFlagsAfter hSegmentsAfter ⊢
  have hUnlocked : (db.setStage t ended).tick.isUnlocked record.environmentId = true := by
    rw [isUnlocked_iff]
    intro t' hBegun' hShared
    change ((db.setStage t ended).options t').environmentId = record.environmentId at hShared
    change ((db.setStage t ended).stage t').locks = false
    rw [options_setStage, hFrom.environmentId] at hShared
    rw [stage_setStage]
    split
    · exact hReleased
    · rename_i hOther
      by_contra hHeld
      refine hOther (hSerial.exclusive t' hBegun' t hBegun (Bool.not_eq_false _ ▸ hHeld) ?_ hShared)
      rw [hStage]
      rfl
  subst hRecord
  exact hEnded.publish {
    found := hFound
    version := hVersion
    bounded := hBound
    flags := hFlagsAfter
    segments := hSegmentsAfter
    compiled := ⟨db.options t, hFrom.grow (Grows.of_eq (Nat.le_succ _) rfl)⟩
    unlocked := hUnlocked }

theorem Serial.knows_next (hSerial : Serial runtime db) {options : PublishOptions} {stage : Stage}
    (hKnows : Knows runtime db options stage) (a : Action) :
    Knows runtime db.tick options (db.next runtime options a stage) := by
  unfold next
  split
  · split
    · rename_i environment hFound
      obtain ⟨hRow, _⟩ := Option.filter_eq_some_iff.mp hFound
      exact ⟨environment, hRow, rfl⟩
    · trivial
  · exact ⟨hKnows, took_tick _ rfl rfl rfl, hSerial.after _ rfl rfl⟩
  · obtain ⟨hBumped, hFlags, hFlagsAfter⟩ := hKnows
    exact ⟨hBumped, ⟨hFlags.grow (Grows.of_eq (Nat.le_succ _) rfl), hFlagsAfter⟩, took_tick _ rfl rfl rfl,
      hSerial.after _ rfl rfl⟩
  · obtain ⟨hBumped, ⟨hFlags, hFlagsAfter⟩, hSegments, hSegmentsAfter⟩ := hKnows
    split
    · rename_i now _ _ _ _ compiled hCompiled
      exact ⟨hBumped, ⟨hFlags.grow (Grows.of_eq (Nat.le_succ _) rfl), hFlagsAfter⟩,
        ⟨hSegments.grow (Grows.of_eq (Nat.le_succ _) rfl), hSegmentsAfter⟩, now, hCompiled⟩
    · trivial
  · obtain ⟨hBumped, ⟨hFlags, hFlagsAfter⟩, ⟨hSegments, hSegmentsAfter⟩, now, hCompiled⟩ := hKnows
    split
    · trivial
    · rename_i inserted hInserted
      split
      · trivial
      · rename_i hFree
        obtain ⟨hSame, hBound⟩ := hSerial.inserted hBumped hInserted (Bool.eq_false_iff.mpr hFree)
        refine ⟨hBumped, hSame, hBound, hFlagsAfter, hSegmentsAfter, ?_⟩
        exact {
          tenantId := rfl
          environmentId := rfl
          flags := hFlags.grow (Grows.of_eq (Nat.le_succ _) rfl)
          segments := hSegments.grow (Grows.of_eq (Nat.le_succ _) rfl)
          compiled := ⟨_, now, hCompiled⟩ }
  · obtain ⟨_, _, _, _, _, hFrom⟩ := hKnows
    exact hFrom.grow (Grows.of_eq (Nat.le_succ _) rfl)
  · obtain ⟨_, _, _, _, _, hFrom⟩ := hKnows
    exact hFrom.grow (Grows.of_eq (Nat.le_succ _) rfl)
  · trivial

theorem locks_next {options : PublishOptions} {a : Action} {stage : Stage}
    (h : (db.next runtime options a stage).locks = true) : stage.locks = true ∨ ∃ t, a = .bump t := by
  unfold next at h
  split at h
  · exact Or.inr ⟨_, rfl⟩
  all_goals first | exact Or.inl rfl | cases h

theorem Serial.step (hSerial : Serial runtime db) {a : Action} (hEnabled : db.enabled a = true) :
    Serial runtime (db.effect runtime a) := by
  have hAdvance : ∀ t < db.begun, (∀ t', a ≠ .bump t') → Serial runtime (db.advance runtime a t).tick := by
    intro t hBegun hOther
    refine hSerial.advance hBegun (hSerial.knows_next (hSerial.knows t hBegun) a) fun hLocks => ?_
    rcases locks_next hLocks with hHeld | ⟨t', hBump⟩
    · exact Or.inl hHeld
    · exact absurd hBump (hOther t')
  cases a with
  | configure configuration => exact hSerial.configure configuration
  | begin options => exact hSerial.begin options
  | bump t =>
    simp only [enabled, Bool.and_eq_true, decide_eq_true_eq] at hEnabled
    exact hSerial.advance hEnabled.1.1.1 (hSerial.knows_next (hSerial.knows t hEnabled.1.1.1) _)
      fun _ => Or.inr hEnabled.2
  | commit t =>
    simp only [enabled, Bool.and_eq_true, decide_eq_true_eq] at hEnabled
    rw [effect]
    split
    · rename_i version record hStage
      rw [Database.advance, hStage]
      exact hSerial.commit hEnabled.1 hStage rfl
    · exact hSerial
  | loseCommit t =>
    simp only [enabled, Bool.and_eq_true, decide_eq_true_eq] at hEnabled
    rw [effect]
    split
    · rename_i version record hStage
      rw [Database.advance, hStage]
      exact hSerial.commit hEnabled.1 hStage rfl
    · exact hSerial
  | readFlags t => exact hAdvance t (of_decide_eq_true (Bool.and_eq_true_iff.mp hEnabled).1) nofun
  | readSegments t => exact hAdvance t (of_decide_eq_true (Bool.and_eq_true_iff.mp hEnabled).1) nofun
  | compile t now => exact hAdvance t (of_decide_eq_true (Bool.and_eq_true_iff.mp hEnabled).1) nofun
  | insert t => exact hAdvance t (of_decide_eq_true (Bool.and_eq_true_iff.mp hEnabled).1) nofun
  | fail t => exact hAdvance t (of_decide_eq_true (Bool.and_eq_true_iff.mp hEnabled).1) nofun

theorem serial_new (environments : String → Option (String × String)) (configuration : Configuration) :
    Serial runtime (new environments configuration) where
  versions := by
    intro id environment hFound
    obtain ⟨_, _, rfl⟩ := Option.map_eq_some_iff.mp hFound
    rfl
  bounded := by
    intro id environment hFound
    obtain ⟨_, _, rfl⟩ := Option.map_eq_some_iff.mp hFound
    exact Nat.zero_le _
  exclusive t hBegun := absurd hBegun (Nat.not_lt_zero t)
  knows t hBegun := absurd hBegun (Nat.not_lt_zero t)
  ordered := List.Pairwise.nil
  recorded record hMem := by cases hMem

/-! ## Transactions that end -/

def Action.transaction : Action → Option Nat
  | .configure _ | .begin _ => none
  | .bump t | .readFlags t | .readSegments t | .compile t _ | .insert t | .commit t | .loseCommit t | .fail t => some t

theorem begun_of_transaction {a : Action} {t : Nat} (hEnabled : db.enabled a = true) (hOwn : a.transaction = some t) :
    t < db.begun ∧ (db.stage t).isOpen = true := by
  cases a with
  | configure configuration => cases hOwn
  | begin options => cases hOwn
  | _ t' =>
    obtain rfl := Option.some.inj hOwn
    simp only [enabled, Bool.and_eq_true, decide_eq_true_eq] at hEnabled
    cases hStage : db.stage t' <;> simp_all [Stage.isOpen]

theorem stage_effect {a : Action} {t : Nat} (hBegun : t < db.begun) (hOther : a.transaction ≠ some t) :
    (db.effect runtime a).stage t = db.stage t := by
  have hKept : ∀ {t' : Nat}, t ≠ t' → (db.advance runtime a t').stage t = db.stage t := by
    intro t' hNe
    rw [advance, stage_setStage, if_neg hNe]
  cases a with
  | configure configuration => rfl
  | begin options =>
    simp only [effect, Database.stage]
    rw [Function.update_of_ne (Nat.ne_of_lt hBegun)]
  | commit t' =>
    have hNe : t ≠ t' := fun hSame => hOther (hSame ▸ rfl)
    rw [effect]
    split
    · exact hKept hNe
    · rfl
  | loseCommit t' =>
    have hNe : t ≠ t' := fun hSame => hOther (hSame ▸ rfl)
    rw [effect]
    split
    · exact hKept hNe
    · rfl
  | _ t' => exact hKept fun hSame => hOther (hSame ▸ rfl)

theorem options_effect (a : Action) {t : Nat} (hBegun : t < db.begun) :
    (db.effect runtime a).options t = db.options t := by
  cases a with
  | configure configuration => rfl
  | begin options =>
    simp only [effect, Database.options]
    rw [Function.update_of_ne (Nat.ne_of_lt hBegun)]
  | commit t' =>
    rw [effect]
    split
    · exact options_setStage ..
    · rfl
  | loseCommit t' =>
    rw [effect]
    split
    · exact options_setStage ..
    · rfl
  | _ => exact options_setStage ..

theorem begun_of_ne_begin {a : Action} (hOther : ∀ options, a ≠ .begin options) :
    (db.effect runtime a).begun = db.begun := by
  cases a with
  | begin options => exact absurd rfl (hOther options)
  | commit t | loseCommit t =>
    rw [effect]
    split <;> rfl
  | _ => rfl

theorem begun_le (a : Action) : db.begun ≤ (db.effect runtime a).begun := by
  cases a with
  | begin options => exact Nat.le_succ _
  | _ => exact Nat.le_of_eq (begun_of_ne_begin fun _ hBegin => by cases hBegin).symm

/-- What a transaction has ended as stays. -/
theorem ended_step {a : Action} {t : Nat} (hBegun : t < db.begun) (hEnded : (db.stage t).isOpen = false)
    (hEnabled : db.enabled a = true) : (db.effect runtime a).stage t = db.stage t := by
  refine stage_effect hBegun fun hOwn => ?_
  have hOpen := (begun_of_transaction hEnabled hOwn).2
  rw [hEnded] at hOpen
  cases hOpen

theorem committed_step {a : Action} {t : Nat} {record : SnapshotRecord} (hBegun : t < db.begun)
    (hCommitted : db.stage t = .committed record) (hEnabled : db.enabled a = true) :
    (db.effect runtime a).stage t = .committed record := by
  have hEnded : (db.stage t).isOpen = false := by
    rw [hCommitted]
    rfl
  exact (ended_step hBegun hEnded hEnabled).trans hCommitted

theorem ended_final {db' : Database} {t : Nat} (hBegun : t < db.begun) (hEnded : (db.stage t).isOpen = false)
    (hReach : (machine runtime).Reachable Machine.anyStep db db') : db'.stage t = db.stage t := by
  have hFinal : t < db'.begun ∧ db'.stage t = db.stage t := by
    refine hReach.invariant (fun db' => t < db'.begun ∧ db'.stage t = db.stage t) ⟨hBegun, rfl⟩ ?_
    rintro db' a _ ⟨hBegun', hSame⟩ hEnabled _
    exact ⟨Nat.lt_of_lt_of_le hBegun' (begun_le a), (ended_step hBegun' (hSame ▸ hEnded) hEnabled).trans hSame⟩
  exact hFinal.2

/-! ## Commits that land -/

/-- The transaction whose `COMMIT` takes effect. -/
def Action.commits : Action → Option Nat
  | .commit t | .loseCommit t => some t
  | .configure _ | .begin _ | .bump _ | .readFlags _ | .readSegments _ | .compile _ _ | .insert _ | .fail _ => none

variable (runtime) in
/-- A step of a transaction moves its stage, and a `COMMIT` makes the row it has inserted one of the table. -/
theorem effect_own {a : Action} {t : Nat} (hEnabled : db.enabled a = true) (hOwn : a.transaction = some t) :
    a.commits = none ∧ db.effect runtime a = (db.advance runtime a t).tick ∨
      ∃ version record, a.commits = some t ∧ db.stage t = .inserted version record ∧
        (db.next runtime (db.options t) a (db.stage t)).landed = some record ∧ db.effect runtime a =
          ((db.advance runtime a t).publish (db.options t).environmentId version record).tick := by
  have hInserted : ∀ {t' : Nat}, db.enabled (.commit t') = true →
      ∃ version record, db.stage t' = .inserted version record := by
    intro t' hCommit
    simp only [enabled, Bool.and_eq_true, decide_eq_true_eq] at hCommit
    cases hStage : db.stage t' with
    | inserted version record => exact ⟨version, record, rfl⟩
    | _ => simp [hStage] at hCommit
  cases a with
  | configure configuration => cases hOwn
  | begin options => cases hOwn
  | commit t' =>
    obtain rfl := Option.some.inj hOwn
    obtain ⟨version, record, hStage⟩ := hInserted hEnabled
    refine Or.inr ⟨version, record, rfl, hStage, by rw [hStage]; rfl, ?_⟩
    rw [effect, hStage]
  | loseCommit t' =>
    obtain rfl := Option.some.inj hOwn
    obtain ⟨version, record, hStage⟩ := hInserted hEnabled
    refine Or.inr ⟨version, record, rfl, hStage, by rw [hStage]; rfl, ?_⟩
    rw [effect, hStage]
  | bump t' | readFlags t' | readSegments t' | compile t' now | insert t' | fail t' =>
    obtain rfl := Option.some.inj hOwn
    exact Or.inl ⟨rfl, rfl⟩

/-- Every step of a transaction puts it where `next` says. -/
theorem stage_own {a : Action} {t : Nat} (hEnabled : db.enabled a = true) (hOwn : a.transaction = some t) :
    (db.effect runtime a).stage t = db.next runtime (db.options t) a (db.stage t) := by
  have hAdvance : (db.advance runtime a t).stage t = db.next runtime (db.options t) a (db.stage t) :=
    (stage_setStage ..).trans (if_pos rfl)
  rcases effect_own runtime hEnabled hOwn with ⟨_, hEffect⟩ | ⟨version, record, _, _, _, hEffect⟩
  · rw [hEffect]
    exact hAdvance
  · rw [hEffect]
    exact hAdvance

/-- Only a `COMMIT` that takes effect makes a row land, the one that was inserted. -/
theorem landed_next {options : PublishOptions} {a : Action} {stage : Stage} {record : SnapshotRecord}
    (h : (db.next runtime options a stage).landed = some record) :
    ∃ t version, a.commits = some t ∧ stage = .inserted version record := by
  unfold next at h
  split at h
  · split at h <;> cases h
  · cases h
  · cases h
  · split at h <;> cases h
  · split at h
    · cases h
    · split at h <;> cases h
  · rename_i t version inserted
    obtain rfl := Option.some.inj h
    exact ⟨t, version, rfl, rfl⟩
  · rename_i t version inserted
    obtain rfl := Option.some.inj h
    exact ⟨t, version, rfl, rfl⟩
  · cases h

theorem transaction_of_commits {a : Action} {t : Nat} (h : a.commits = some t) : a.transaction = some t := by
  cases a with
  | commit t' => exact h
  | loseCommit t' => exact h
  | _ => cases h

theorem snapshots_effect (runtime : Runtime) {a : Action} (hEnabled : db.enabled a = true) :
    (db.effect runtime a).snapshots = db.snapshots ∨
      ∃ t < db.begun, ∃ version record, a.commits = some t ∧ db.stage t = .inserted version record ∧
        ((db.effect runtime a).stage t).landed = some record ∧
        (db.effect runtime a).snapshots = db.snapshots ++ [record] := by
  cases hOwn : a.transaction with
  | none => cases a <;> first | exact Or.inl rfl | cases hOwn
  | some t =>
    rcases effect_own runtime hEnabled hOwn with
      ⟨_, hEffect⟩ | ⟨version, record, hCommits, hStage, hLanded, hEffect⟩
    · exact Or.inl (by rw [hEffect]; rfl)
    · refine Or.inr ⟨t, (begun_of_transaction hEnabled hOwn).1, version, record, hCommits, hStage, ?_, ?_⟩
      · exact (congrArg Stage.landed (stage_own hEnabled hOwn)).trans hLanded
      · rw [hEffect]
        rfl

theorem tables_effect (runtime : Runtime) {a : Action} {t : Nat} (hEnabled : db.enabled a = true)
    (hOwn : a.transaction = some t) :
    (∃ record, ((db.effect runtime a).stage t).landed = some record) ∨
      (db.effect runtime a).environments = db.environments ∧ (db.effect runtime a).snapshots = db.snapshots := by
  rcases effect_own runtime hEnabled hOwn with ⟨_, hEffect⟩ | ⟨version, record, _, _, hLanded, _⟩
  · rw [hEffect]
    exact Or.inr ⟨rfl, rfl⟩
  · exact Or.inl ⟨record, (congrArg Stage.landed (stage_own hEnabled hOwn)).trans hLanded⟩

theorem begun_effect {a : Action} {t : Nat} (h : t < (db.effect runtime a).begun) :
    t < db.begun ∨ t = db.begun ∧ (db.effect runtime a).stage t = .begun := by
  cases a with
  | begin options =>
    have hBound : t < db.begun + 1 := h
    rcases Nat.lt_or_ge t db.begun with hOld | hNew
    · exact Or.inl hOld
    · obtain rfl : t = db.begun := by omega
      refine Or.inr ⟨rfl, ?_⟩
      simp only [effect, Database.stage, Function.update_self]
  | _ => exact Or.inl (Nat.lt_of_lt_of_eq h (begun_of_ne_begin fun _ hBegin => by cases hBegin))

/-- The rows of the table are those that landed. -/
structure Landed (db : Database) : Prop where
  listed : ∀ t < db.begun, ∀ record, (db.stage t).landed = some record → record ∈ db.snapshots
  landed : ∀ record ∈ db.snapshots, ∃ t < db.begun, (db.stage t).landed = some record

theorem landed_new (environments : String → Option (String × String)) (configuration : Configuration) :
    Landed (new environments configuration) where
  listed t hBegun := absurd hBegun (Nat.not_lt_zero t)
  landed record hMem := by cases hMem

theorem Landed.step (hLanded : Landed db) {a : Action} (hEnabled : db.enabled a = true) :
    Landed (db.effect runtime a) := by
  constructor
  case listed =>
    intro t hBegun record hLands
    have hKept : ∀ record ∈ db.snapshots, record ∈ (db.effect runtime a).snapshots := by
      intro other hMem
      rcases snapshots_effect runtime hEnabled with hSame | ⟨_, _, _, _, _, _, _, hMore⟩
      · exact hSame ▸ hMem
      · exact hMore ▸ List.mem_append_left _ hMem
    rcases begun_effect hBegun with hOld | ⟨_, hNew⟩
    · by_cases hOwn : a.transaction = some t
      · rw [stage_own hEnabled hOwn] at hLands
        obtain ⟨t', version, hCommits, hStage⟩ := landed_next hLands
        rcases effect_own runtime hEnabled hOwn with
          ⟨hNone, _⟩ | ⟨version', record', _, hStage', _, hEffect⟩
        · rw [hNone] at hCommits
          cases hCommits
        · obtain ⟨rfl, rfl⟩ := Stage.inserted.inj (hStage.symm.trans hStage')
          rw [hEffect]
          exact List.mem_append_right _ (List.mem_singleton.mpr rfl)
      · rw [stage_effect hOld hOwn] at hLands
        exact hKept record (hLanded.listed t hOld record hLands)
    · rw [hNew] at hLands
      cases hLands
  case landed =>
    intro record hMem
    have hOlder : record ∈ db.snapshots →
        ∃ t < (db.effect runtime a).begun, ((db.effect runtime a).stage t).landed = some record := by
      intro hOld
      obtain ⟨t, hBegun, hLands⟩ := hLanded.landed record hOld
      refine ⟨t, Nat.lt_of_lt_of_le hBegun (begun_le a), ?_⟩
      rw [ended_step hBegun (isOpen_of_landed hLands) hEnabled]
      exact hLands
    rcases snapshots_effect runtime hEnabled with hSame | ⟨t, hBegun, version, added, _, _, hLands, hMore⟩
    · exact hOlder (hSame ▸ hMem)
    · rcases List.mem_append.mp (hMore ▸ hMem) with hOld | hLast
      · exact hOlder hOld
      · obtain rfl := List.mem_singleton.mp hLast
        exact ⟨t, Nat.lt_of_lt_of_le hBegun (begun_le _), hLands⟩

/-- What the row lock buys: versions 1 to n are committed and the environment's version is n, a
publish that comes to throw changes neither table in any of its steps, unless its `COMMIT` took
effect and only the answer was lost, and what went into a version was read after what went into
a lower one. -/
structure Serialised (runtime : Runtime) (db : Database) : Prop where
  consecutive : ∀ id environment, db.environments id = some environment →
    db.versionsOf id = List.range' 1 environment.version
  unchanged : ∀ a t, db.enabled a = true → a.transaction = some t → ∀ db',
    (machine runtime).Reachable Machine.anyStep (db.effect runtime a) db' → (db'.stage t).throws = true →
    (db.effect runtime a).environments = db.environments ∧ (db.effect runtime a).snapshots = db.snapshots ∨
      ∃ record, db'.stage t = .lost record ∧ record ∈ db'.snapshots
  compiled : ∀ record ∈ db.snapshots, ∃ options, CompiledFrom runtime db options record
  ordered : ∀ older ∈ db.snapshots, ∀ newer ∈ db.snapshots, older.environmentId = newer.environmentId →
    older.version < newer.version → (older.flags.Before newer.flags ∧ older.segments.Before newer.flags) ∧
      older.flags.Before newer.segments ∧ older.segments.Before newer.segments

theorem publish_serialised (runtime : Runtime) (environments : String → Option (String × String))
    (configuration : Configuration) {db : Database}
    (hReach : (machine runtime).Reachable Machine.anyStep (new environments configuration) db) :
    Serialised runtime db := by
  have hBoth : Serial runtime db ∧ Landed db := by
    refine hReach.invariant (fun db => Serial runtime db ∧ Landed db)
      ⟨serial_new environments configuration, landed_new environments configuration⟩ ?_
    rintro db a _ ⟨hSerial, hLanded⟩ hEnabled _
    exact ⟨hSerial.step hEnabled, hLanded.step hEnabled⟩
  obtain ⟨hSerial, hLanded⟩ := hBoth
  refine { consecutive := hSerial.versions, unchanged := ?_, compiled := hSerial.recorded, ordered := ?_ }
  · intro a t hEnabled hOwn db' hLater hThrows
    have hStep : Landed (db.effect runtime a) := hLanded.step hEnabled
    have hEnd : Landed db' := hLater.invariant Landed hStep fun _ _ _ hOld hNext _ => hOld.step hNext
    rcases tables_effect runtime hEnabled hOwn with ⟨record, hCommitted⟩ | hSame
    · -- the transaction has ended with its row in the table, and that is where it stays
      have hBegun : t < (db.effect runtime a).begun :=
        Nat.lt_of_lt_of_le (begun_of_transaction hEnabled hOwn).1 (begun_le a)
      have hStays : db'.stage t = (db.effect runtime a).stage t :=
        ended_final hBegun (isOpen_of_landed hCommitted) hLater
      rw [← hStays] at hCommitted
      rcases landed_iff.mp hCommitted with hAnswered | hLost
      · rw [hAnswered] at hThrows
        cases hThrows
      · refine Or.inr ⟨record, hLost, hEnd.listed t ?_ record hCommitted⟩
        exact hLater.invariant (fun later => t < later.begun) hBegun fun _ later _ hOld _ _ =>
          Nat.lt_of_lt_of_le hOld (begun_le later)
    · exact Or.inl hSame
  · refine List.Pairwise.forall_of_forall_of_flip ?_ ?_ ?_
    · intro record _ _ hVersion
      exact absurd hVersion (Nat.lt_irrefl _)
    · exact hSerial.ordered.imp fun hOrder hShared _ => (hOrder hShared).2
    · refine hSerial.ordered.imp fun hOrder hShared hVersion => ?_
      exact absurd (hOrder hShared.symm).1 (Nat.lt_asymm hVersion)

/-- Two publishes at once, the second of which fails after its reads, and a third whose answer is lost. -/
def concurrentPublishes : List Action :=
  let options : PublishOptions := ⟨"acme", "env-1", "production", "someone"⟩
  [.begin options, .begin options, .bump 0, .readFlags 0, .configure ⟨[], [], []⟩, .readSegments 0, .compile 0 "now",
    .insert 0, .commit 0, .bump 1, .readFlags 1, .readSegments 1, .fail 1, .begin options, .bump 2, .readFlags 2,
    .readSegments 2, .compile 2 "later", .insert 2, .loseCommit 2]

def plainRuntime : Runtime := { collation := fun first second => decide (first ≤ second), etag := fun _ => "" }

def oneEnvironment (id : String) : Option (String × String) :=
  if id = "env-1" then some ("acme", "production") else none

theorem concurrentPublishes_serialised : ∃ db,
    (machine plainRuntime).run (new oneEnvironment ⟨[], [], []⟩) concurrentPublishes = some db ∧
      db.versionsOf "env-1" = [1, 2] ∧ Serialised plainRuntime db := by
  have hVersions : ((machine plainRuntime).run (new oneEnvironment ⟨[], [], []⟩) concurrentPublishes).map
      (fun db => db.versionsOf "env-1") = some [1, 2] := by decide +kernel
  obtain ⟨db, hRun, hEnd⟩ := Option.map_eq_some_iff.mp hVersions
  exact ⟨db, hRun, hEnd, publish_serialised plainRuntime oneEnvironment ⟨[], [], []⟩ (Machine.reachable_of_run hRun)⟩

def uncommittedPublish : List Action :=
  [.begin ⟨"acme", "env-1", "production", "someone"⟩, .bump 0, .readFlags 0, .readSegments 0, .compile 0 "now",
    .insert 0]

/-- A publish that throws may have committed: the connection breaks after `COMMIT` took effect. -/
theorem lost_commit_publishes : ¬ ∀ (runtime : Runtime) (environments : String → Option (String × String))
    (configuration : Configuration) (db : Database),
    (machine runtime).Reachable Machine.anyStep (new environments configuration) db →
    ∀ a t, db.enabled a = true → a.transaction = some t → ∀ db',
    (machine runtime).Reachable Machine.anyStep (db.effect runtime a) db' → (db'.stage t).throws = true →
    (db.effect runtime a).environments = db.environments ∧
      (db.effect runtime a).snapshots = db.snapshots := by
  intro hAll
  have hEnd : ((machine plainRuntime).run (new oneEnvironment ⟨[], [], []⟩) uncommittedPublish).map (fun db =>
      (db.enabled (.loseCommit 0), ((db.effect plainRuntime (.loseCommit 0)).stage 0).throws, db.snapshots.length,
        (db.effect plainRuntime (.loseCommit 0)).snapshots.length)) = some (true, true, 0, 1) := by decide +kernel
  obtain ⟨db, hRun, hEnd⟩ := Option.map_eq_some_iff.mp hEnd
  obtain ⟨hEnabled, hThrows, hBefore, hAfter⟩ : _ ∧ _ ∧ _ ∧ _ := by
    simpa only [Prod.mk.injEq] using hEnd
  obtain ⟨_, hSame⟩ := hAll plainRuntime oneEnvironment ⟨[], [], []⟩ db (Machine.reachable_of_run hRun) _ 0 hEnabled rfl
    _ .start hThrows
  rw [hSame, hBefore] at hAfter
  cases hAfter

end Database

end Flagship.ControlPlane
