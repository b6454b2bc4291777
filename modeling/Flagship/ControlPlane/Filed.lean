import Flagship.ControlPlane.Published
import Flagship.ControlPlane.Serial

/-! # Committed transactions and the rows they leave

Each payload of `ruleset_snapshots` names the version of its row, and the transactions that have
committed know the rows they left.
-/

namespace Flagship.ControlPlane

open Lib Flagship.Core

theorem server_version {options : CompileOptions} {now : String} {compiled : CompiledRuleset}
    (h : compileRuleset options now = .ok compiled) : compiled.server.version = options.version := by
  obtain ⟨flags, _, hServer⟩ := Option.bind_eq_some_iff.mp (compileRuleset_ok h).2.1
  obtain ⟨segments, _, hServer⟩ := Option.bind_eq_some_iff.mp hServer
  rw [← Option.some.inj hServer]
  rfl

/-- The version of a row is one that a double holds exactly, and it is that of the payload. -/
structure Labelled (record : SnapshotRecord) : Prop where
  positive : 0 < record.version
  bounded : record.version ≤ 2 ^ 53
  version : record.compiled.server.version = versionNumber record.version

def Labels : Stage → Prop
  | .compiled version _ _ compiled => compiled.server.version = versionNumber version
  | .inserted _ record | .committed record | .lost record => Labelled record
  | .begun | .bumped _ | .readFlags _ _ | .readSegments _ _ _ | .thrown => True

namespace Database

variable {runtime : Runtime} {db : Database}

theorem Serial.labels_next (hSerial : Serial runtime db) {options : PublishOptions} {stage : Stage}
    (hKnows : Knows runtime db options stage) (hLabels : Labels stage) (a : Action) :
    Labels (db.next runtime options a stage) := by
  unfold next
  split
  · split <;> trivial
  · trivial
  · trivial
  · split
    · rename_i hCompiled
      exact server_version hCompiled
    · trivial
  · rename_i version flags segments compiled
    split
    · trivial
    rename_i inserted hInserted
    split
    · trivial
    rename_i hFree
    obtain ⟨hBumped, _⟩ := hKnows
    obtain ⟨rfl, hBound⟩ := hSerial.inserted hBumped hInserted (Bool.eq_false_of_not_eq_true hFree)
    obtain ⟨environment, _, hNext⟩ := hBumped
    exact { positive := by simp [hNext], bounded := hBound, version := hLabels }
  · exact hLabels
  · exact hLabels
  · trivial

structure Filed (db : Database) : Prop extends Landed db where
  labels : ∀ t < db.begun, Labels (db.stage t)

theorem Filed.step (hFiled : Filed db) (hSerial : Serial runtime db) {a : Action} (hEnabled : db.enabled a = true) :
    Filed (db.effect runtime a) where
  toLanded := hFiled.toLanded.step hEnabled
  labels := by
    intro t hBegun
    rcases begun_effect hBegun with hOld | ⟨_, hNew⟩
    · by_cases hOwn : a.transaction = some t
      · rw [stage_own hEnabled hOwn]
        exact hSerial.labels_next (hSerial.knows t hOld) (hFiled.labels t hOld) a
      · rw [stage_effect hOld hOwn]
        exact hFiled.labels t hOld
    · rw [hNew]
      trivial

theorem filed_new (environments : String → Option (String × String)) (configuration : Configuration) :
    Filed (new environments configuration) where
  toLanded := landed_new environments configuration
  labels t hBegun := absurd hBegun (Nat.not_lt_zero t)

theorem Filed.committed (hFiled : Filed db) {t : Nat} (hBegun : t < db.begun) {record : SnapshotRecord}
    (hCommitted : db.stage t = .committed record) : record ∈ db.snapshots :=
  hFiled.listed t hBegun record (landed_iff.mpr (Or.inl hCommitted))

theorem Filed.labelled (hFiled : Filed db) {record : SnapshotRecord} (hMem : record ∈ db.snapshots) :
    Labelled record := by
  obtain ⟨t, hBegun, hLanded⟩ := hFiled.landed record hMem
  have hLabels := hFiled.labels t hBegun
  rcases landed_iff.mp hLanded with hStage | hStage
  · rw [hStage] at hLabels
    exact hLabels
  · rw [hStage] at hLabels
    exact hLabels

/-- Two rows of one environment with one version are one row. -/
theorem Serial.record_unique (hSerial : Serial runtime db) :
    ∀ first ∈ db.snapshots, ∀ second ∈ db.snapshots, first.environmentId = second.environmentId →
      first.version = second.version → first = second := by
  refine List.Pairwise.forall_of_forall_of_flip ?_ ?_ ?_
  · intro record _ _ _
    rfl
  · exact hSerial.ordered.imp fun hOrder hShared hVersion => absurd hVersion (Nat.ne_of_lt (hOrder hShared).1)
  · refine hSerial.ordered.imp fun hOrder hShared hVersion => ?_
    exact absurd hVersion.symm (Nat.ne_of_lt (hOrder hShared.symm).1)

end Database

end Flagship.ControlPlane
