import Flagship.ControlPlane.Serial
import Flagship.DataPlane.Provenance

/-! # The two planes together

`POST /v1/publish` of `apps/control-plane/src/server.ts`: a publish in the database, then a push
of its server payload to the data plane under the key that the request named. Pushes of
different requests can arrive in any order, and some never do. No request to the data plane
carries an SDK key.
-/

namespace Flagship.EndToEnd

open Lib Flagship.Core Flagship.ControlPlane Flagship.DataPlane

instance : Inhabited RulesetSnapshot :=
  ⟨{ environmentKey := "", version := .nan, flags := [], segments := [], servedAt := "" }⟩

instance : Inhabited SnapshotRecord where
  default := {
    tenantId := "", environmentId := "", version := 0, compiled := { server := default, client := default }
    etag := "", publishedBy := "", flags := ⟨[], 0, 0⟩, segments := ⟨[], 0, 0⟩ }

/-- The payloads of the data plane are the server payloads of records, which it does not look into. -/
structure Platform where
  database : Database
  pushed : List Nat
  server : Server SnapshotRecord

structure Services where
  runtime : Runtime
  computeETag : RulesetSnapshot → String

namespace Platform

def new (environments : String → Option (String × String)) (configuration : Configuration) (options : Options)
    (historySize : Int) : Platform where
  database := .new environments configuration
  pushed := []
  server := .new options historySize

inductive Action where
  | database (a : Database.Action)
  | push (t : Nat)
  | server (a : Server.Action SnapshotRecord)

/-- The check of the request's body; the other actions are not requests. -/
def isComplete : Database.Action → Bool
  | .begin options => decide (options.tenantId ≠ "" ∧ options.environmentId ≠ "" ∧ options.environmentKey ≠ "")
  | _ => true

def isPublish : Server.Action SnapshotRecord → Bool
  | .publish _ _ _ => true
  | _ => false

variable (s : Platform)

def published (t : Nat) : Option SnapshotRecord :=
  match s.database.stage t with
  | .committed record => some record
  | _ => none

def environmentKey (t : Nat) : String := (s.database.options t).environmentKey

def enabled : Action → Bool
  | .database a => isComplete a && s.database.enabled a
  | .push t => decide (t < s.database.begun) && decide (t ∉ s.pushed) && (s.published t).isSome
  | .server a => !isPublish a && s.server.enabled a

def effect (services : Services) : Action → Platform
  | .database a => { s with database := s.database.effect services.runtime a }
  | .push t =>
    match s.published t with
    | none => s
    | some record =>
      { s with
        pushed := t :: s.pushed
        server := s.server.handlePublish (fun record => services.computeETag record.compiled.server)
          (s.environmentKey t) record.version record }
  | .server a => { s with server := s.server.effect (fun record => services.computeETag record.compiled.server) a }

def machine (services : Services) : Machine Platform Action where
  enabled := enabled
  effect := fun s => s.effect services

variable {s} {services : Services}

theorem published_iff {t : Nat} {record : SnapshotRecord} :
    s.published t = some record ↔ s.database.stage t = .committed record := by
  rw [published]
  cases s.database.stage t <;> simp

def Published (s : Platform) (key : String) (record : SnapshotRecord) : Prop :=
  ∃ t < s.database.begun, s.database.stage t = .committed record ∧ s.environmentKey t = key

theorem Published.step {key : String} {record : SnapshotRecord} (hPublished : s.Published key record) {a : Action}
    (hEnabled : s.enabled a = true) : (s.effect services a).Published key record := by
  cases a with
  | database a =>
    obtain ⟨t, hBegun, hCommitted, rfl⟩ := hPublished
    refine ⟨t, Nat.lt_of_lt_of_le hBegun (Database.begun_le a), ?_, ?_⟩
    · exact Database.committed_step hBegun hCommitted (Bool.and_eq_true_iff.mp hEnabled).2
    · exact congrArg PublishOptions.environmentKey (Database.options_effect a hBegun)
  | push t =>
    rw [effect]
    split <;> exact hPublished
  | server a => exact hPublished

/-- What the data plane holds are records of committed publishes under the keys their requests
named, with whatever every push that the store takes can be shown to have. -/
structure Pushes (services : Services) (Q : String → SnapshotRecord → Prop) (s : Platform) : Prop where
  serial : Database.Serial services.runtime s.database
  carries : s.server.Carries fun key record => s.Published key record ∧ Q key record

theorem pushes_new (environments : String → Option (String × String)) (configuration : Configuration)
    (options : Options) (historySize : Int) (Q : String → SnapshotRecord → Prop) :
    Pushes services Q (new environments configuration options historySize) where
  serial := Database.serial_new environments configuration
  carries := Server.carries_new options historySize

theorem Pushes.step {Q : String → SnapshotRecord → Prop} (hPushes : Pushes services Q s) {a : Action}
    (hEnabled : s.enabled a = true)
    (hPush : ∀ t record, a = .push t →
      Database.CompiledFrom services.runtime s.database (s.database.options t) record →
      s.database.stage t = .committed record → s.server.store.Accepts (s.environmentKey t) record.version →
      Q (s.environmentKey t) record) : Pushes services Q (s.effect services a) := by
  have hKept : s.server.Carries fun key record => (s.effect services a).Published key record ∧ Q key record :=
    hPushes.carries.mono fun key record hOld => ⟨hOld.1.step hEnabled, hOld.2⟩
  cases a with
  | database a =>
    exact { serial := hPushes.serial.step (Bool.and_eq_true_iff.mp hEnabled).2, carries := hKept }
  | push t =>
    rw [effect] at hKept ⊢
    split at hKept
    · exact hPushes
    · rename_i record hRecord
      refine { serial := hPushes.serial, carries := hKept.handlePublish fun hAccepts => ?_ }
      simp only [enabled, Bool.and_eq_true, decide_eq_true_eq] at hEnabled
      have hCommitted := published_iff.mp hRecord
      have hFrom : Database.Knows services.runtime s.database (s.database.options t) (.committed record) :=
        hCommitted ▸ hPushes.serial.knows t hEnabled.1.1
      exact ⟨⟨t, hEnabled.1.1, hCommitted, rfl⟩, hPush t record rfl hFrom hCommitted hAccepts⟩
  | server a =>
    obtain ⟨hOther, hServer⟩ := Bool.and_eq_true_iff.mp hEnabled
    refine { serial := hPushes.serial, carries := hKept.step hServer ?_ }
    rintro environment version payload rfl
    cases hOther

theorem Pushes.serves {Q : String → SnapshotRecord → Prop} (hPushes : Pushes services Q s) {key : String}
    {record : SnapshotRecord} (hServes : s.server.Serves key record) :
    Q key record ∧ ∃ t < s.database.begun, s.environmentKey t = key ∧
      Database.CompiledFrom services.runtime s.database (s.database.options t) record := by
  obtain ⟨⟨t, hBegun, hCommitted, hKey⟩, hHolds⟩ := hPushes.carries.serves hServes
  have hFrom : Database.Knows services.runtime s.database (s.database.options t) (.committed record) :=
    hCommitted ▸ hPushes.serial.knows t hBegun
  exact ⟨hHolds, t, hBegun, hKey, hFrom⟩

end Platform

end Flagship.EndToEnd
