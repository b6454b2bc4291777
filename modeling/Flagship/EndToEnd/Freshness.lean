import Flagship.ControlPlane.ApiKeys
import Flagship.ControlPlane.Filed
import Flagship.DataPlane.Stamps
import Flagship.EndToEnd.Isolation
import Flagship.Sdk.Ordering

/-! # From a publish to an evaluation

A ruleset that is published is pushed, kept by the store, and written to the streams that are
open or reconnect. Pushes come in any order; the version of each, which the database gives out,
the store keeps and the client compares, decides what is current in all three.
-/

namespace Flagship.DataPlane

variable {π : Type}

def Frame.payload? : Frame π → Option π
  | ruleset _ payload => some payload
  | resync => none

namespace Server

variable {s : Server π} {computeETag : π → String} {environment : String} {version : Int}

/-- The current snapshot of the environment is at least of the version. -/
def Reached (s : Server π) (environment : String) (version : Int) : Prop :=
  ∃ current, s.store.current environment = some current ∧ version ≤ current.version

theorem Reached.effect (hReached : s.Reached environment version) (a : Action π) :
    (s.effect computeETag a).Reached environment version := by
  obtain ⟨current, hCurrent, hVersion⟩ := hReached
  cases a with
  | publish other newer payload =>
    rcases s.store.publish_cases computeETag other newer payload with
      ⟨error, hSame, _⟩ | ⟨state, hAccepted, hState, _, hAccepts⟩
    · refine ⟨current, ?_, hVersion⟩
      simp only [Server.effect, hSame]
      exact hCurrent
    · simp only [Reached, Server.effect, hAccepted, Store.current_eq, Store.environments_put]
      split
      · rename_i hHere
        refine ⟨state.current, rfl, ?_⟩
        have hNewer := hAccepts.2 current (hHere ▸ hCurrent)
        rw [hState]
        exact Int.le_of_lt (Int.lt_of_le_of_lt hVersion hNewer)
      · rw [Store.current_eq] at hCurrent
        exact ⟨current, hCurrent, hVersion⟩
  | _ => exact ⟨current, hCurrent, hVersion⟩

theorem Reached.handlePublish (hReached : s.Reached environment version) (other : String) (newer : Int) (payload : π) :
    (s.handlePublish computeETag other newer payload).Reached environment version := by
  rw [Server.handlePublish]
  split
  · exact hReached
  split
  · exact hReached
  · exact hReached.effect _

/-- Taken or stale, a push leaves the environment at its version or above. -/
theorem reached_handlePublish (s : Server π) (computeETag : π → String) (hNamed : environment ≠ "")
    (hPositive : 0 < version) (payload : π) :
    (s.handlePublish computeETag environment version payload).Reached environment version := by
  rw [Server.handlePublish, if_neg hNamed, if_neg (Int.not_le.mpr hPositive)]
  rcases s.store.publish_cases computeETag environment version payload with
    ⟨error, hSame, hError⟩ | ⟨state, hAccepted, hState, _⟩
  · simp only [Reached, Server.effect, hSame]
    rcases hError with ⟨_, hNegative⟩ | ⟨current, _, hCurrent, hStale⟩
    · exact absurd hPositive (Int.not_lt.mpr hNegative)
    · exact ⟨current, hCurrent, hStale⟩
  · simp only [Reached, Server.effect, hAccepted, Store.current_eq, Store.environments_put, if_true]
    exact ⟨state.current, rfl, by rw [hState]⟩

/-- A stream that has replayed, is open and has an empty channel has come to the current version. -/
theorem Delivers.drained (hDelivers : s.Delivers) (hIdle : s.hub.Idle) {c : Nat} (hAllocated : c < s.hub.allocated)
    (hStreaming : (s.connections c).phase = .streaming) (hOpen : (s.hub.subscribers c).done = none)
    (hDrained : (s.hub.subscribers c).messages = []) {current : Snapshot π}
    (hCurrent : s.store.current (s.environmentOf c) = some current) :
    current.version ≤ (s.connections c).newest := by
  rcases hDelivers.covers c hAllocated with hEnded | hReached
  · rcases hEnded with hPhase | hPhase <;> rw [hStreaming] at hPhase <;> cases hPhase
  rcases hReached current hCurrent with hReaches | hOwed
  · rcases hReaches with hHeld | hReading | ⟨pending, hPhase, _⟩
    · exact hHeld
    · simp [Connection.isReading, hStreaming] at hReading
    · rw [hStreaming] at hPhase
      cases hPhase
  · refine absurd hOwed (Hub.not_owed_of_idle hDelivers.tidy hIdle hDrained hOpen fun hMem => ?_)
    have hPhase := (hDelivers.closed c hMem).2
    rw [hStreaming] at hPhase
    cases hPhase

end Server

end Flagship.DataPlane

namespace Flagship.EndToEnd

open Lib Flagship.Core Flagship.ControlPlane Flagship.DataPlane Flagship.Sdk

/-- The payload that a push sends. -/
def serverPayloadOf (record : SnapshotRecord) : RulesetSnapshot := record.compiled.server

theorem versionRank_server {record : SnapshotRecord} (h : Labelled record) :
    (serverPayloadOf record).version.isFinite = true ∧ versionRank (serverPayloadOf record) = record.version := by
  have hExact : versionNumber record.version = .finite record.version := by
    rcases Nat.lt_or_eq_of_le h.bounded with hSmall | hEnd
    · exact Number.ofRat_natCast hSmall
    · rw [hEnd]
      decide +kernel
  rw [versionRank, serverPayloadOf, h.version, hExact]
  exact ⟨rfl, rfl⟩

namespace Platform

variable {s : Platform} {services : Services} {environments : String → Option (String × String)}

/-- Publish requests name keys of their own, and connections get ids of their own. -/
def Orderly (s : Platform) : Action → Prop
  | .server a => s.server.FreshIds a
  | a => s.NamesOwnKey a

theorem Orderly.namesOwnKey {a : Action} (h : s.Orderly a) : s.NamesOwnKey a := by
  cases a with
  | server a => trivial
  | _ => exact h

/-! ## The invariant -/

structure Fresh (services : Services) (environments : String → Option (String × String)) (s : Platform) : Prop where
  pushes : Pushes services (fun _ _ => True) s
  apart : Apart environments s
  filed : s.database.Filed
  named : ∀ t < s.database.begun, s.environmentKey t ≠ ""
  delivers : s.server.Delivers
  stamps : s.server.Stamps fun version record => version = record.version
  below : s.server.Carries fun key record => s.server.Reached key record.version
  arrived : ∀ t ∈ s.pushed, ∃ record, s.database.stage t = .committed record ∧
    t < s.database.begun ∧ s.server.Reached (s.environmentKey t) record.version

theorem Fresh.database (hFresh : Fresh services environments s) {a : Database.Action}
    (hEnabled : s.enabled (.database a) = true)
    (hPushes : Pushes services (fun _ _ => True) (s.effect services (.database a)))
    (hApart : Apart environments (s.effect services (.database a))) :
    Fresh services environments (s.effect services (.database a)) := by
  obtain ⟨hComplete, hDatabase⟩ := Bool.and_eq_true_iff.mp hEnabled
  refine {
    pushes := hPushes, apart := hApart, filed := hFresh.filed.step hFresh.pushes.serial hDatabase, named := ?_
    delivers := hFresh.delivers, stamps := hFresh.stamps, below := hFresh.below, arrived := ?_ }
  · intro t hBegun
    by_cases hOld : t < s.database.begun
    · have hSame : (s.effect services (.database a)).environmentKey t = s.environmentKey t :=
        congrArg PublishOptions.environmentKey (Database.options_effect a hOld)
      rw [hSame]
      exact hFresh.named t hOld
    · cases a with
      | begin options =>
        have hNew : t = s.database.begun := by
          have hBound : t < s.database.begun + 1 := hBegun
          omega
        subst hNew
        have hKey : (s.effect services (.database (.begin options))).environmentKey s.database.begun =
            options.environmentKey := by
          simp only [environmentKey, effect, Database.effect, Database.options, Function.update_self]
        rw [hKey]
        exact (of_decide_eq_true hComplete).2.2
      | _ =>
        refine absurd (Nat.lt_of_lt_of_eq hBegun ?_) hOld
        exact Database.begun_of_ne_begin (fun _ hBegin => by cases hBegin)
  · intro t hPushed
    obtain ⟨record, hCommitted, hBegun, hReached⟩ := hFresh.arrived t hPushed
    have hSame : (s.effect services (.database a)).environmentKey t = s.environmentKey t :=
      congrArg PublishOptions.environmentKey (Database.options_effect a hBegun)
    exact ⟨record, Database.committed_step hBegun hCommitted hDatabase,
      Nat.lt_of_lt_of_le hBegun (Database.begun_le a), hSame ▸ hReached⟩

theorem Fresh.push (hFresh : Fresh services environments s) {t : Nat} (hEnabled : s.enabled (.push t) = true)
    (hPushes : Pushes services (fun _ _ => True) (s.effect services (.push t)))
    (hApart : Apart environments (s.effect services (.push t))) :
    Fresh services environments (s.effect services (.push t)) := by
  simp only [enabled, Bool.and_eq_true, decide_eq_true_eq] at hEnabled
  obtain ⟨⟨hBegun, _⟩, hSome⟩ := hEnabled
  obtain ⟨record, hRecord⟩ := Option.isSome_iff_exists.mp hSome
  have hCommitted := published_iff.mp hRecord
  have hLabelled := hFresh.filed.labelled (hFresh.filed.committed hBegun hCommitted)
  have hEffect : s.effect services (.push t) = { s with
      pushed := t :: s.pushed
      server := s.server.handlePublish (fun record => services.computeETag record.compiled.server)
        (s.environmentKey t) record.version record } := by
    rw [effect]
    simp only [hRecord]
  rw [hEffect] at hPushes hApart ⊢
  have hArrived := s.server.reached_handlePublish (fun record => services.computeETag record.compiled.server)
    (hFresh.named t hBegun) (Int.natCast_pos.mpr hLabelled.positive) record
  refine {
    pushes := hPushes, apart := hApart, filed := hFresh.filed, named := hFresh.named
    delivers := ?_, stamps := hFresh.stamps.handlePublish rfl, below := ?_, arrived := ?_ }
  · have hPublish : (s.server.effect (fun record => services.computeETag record.compiled.server)
        (.publish (s.environmentKey t) record.version record)).Delivers := hFresh.delivers.step rfl trivial
    rw [Server.handlePublish]
    split
    · exact hFresh.delivers
    split
    · exact hFresh.delivers
    · exact hPublish
  · -- what was at or below the current version stays there, and so does what the push brings
    refine Server.Carries.handlePublish (hFresh.below.mono ?_) fun _ => hArrived
    intro key earlier hReached
    exact hReached.handlePublish ..
  · intro t' hMem
    rcases List.mem_cons.mp hMem with rfl | hOld
    · exact ⟨record, hCommitted, hBegun, hArrived⟩
    · obtain ⟨earlier, hStage, hEarlier, hReached⟩ := hFresh.arrived t' hOld
      exact ⟨earlier, hStage, hEarlier, hReached.handlePublish ..⟩

theorem Fresh.server (hFresh : Fresh services environments s) {a : Server.Action SnapshotRecord}
    (hEnabled : s.enabled (.server a) = true) (hFreshIds : s.server.FreshIds a)
    (hPushes : Pushes services (fun _ _ => True) (s.effect services (.server a)))
    (hApart : Apart environments (s.effect services (.server a))) :
    Fresh services environments (s.effect services (.server a)) := by
  obtain ⟨hOther, hServer⟩ := Bool.and_eq_true_iff.mp hEnabled
  have hNoPublish : ∀ environment version payload, a ≠ .publish environment version payload := by
    rintro environment version payload rfl
    cases hOther
  refine {
    pushes := hPushes, apart := hApart, filed := hFresh.filed, named := hFresh.named
    delivers := hFresh.delivers.step hServer hFreshIds
    stamps := hFresh.stamps.step hServer fun _ _ _ hSame => absurd hSame (hNoPublish _ _ _)
    below := ?_, arrived := ?_ }
  · refine Server.Carries.step (hFresh.below.mono ?_) hServer fun _ _ _ hSame => absurd hSame (hNoPublish _ _ _)
    intro key earlier hReached
    exact hReached.effect a
  · intro t hPushed
    obtain ⟨record, hCommitted, hBegun, hReached⟩ := hFresh.arrived t hPushed
    exact ⟨record, hCommitted, hBegun, hReached.effect a⟩

theorem fresh_new (services : Services) (environments : String → Option (String × String))
    (configuration : Configuration) (options : Options) (historySize : Int) :
    Fresh services environments (new environments configuration options historySize) where
  pushes := pushes_new environments configuration options historySize _
  apart := {
    owner := fun t hBegun => absurd hBegun (Nat.not_lt_zero t)
    alone := fun t hBegun => absurd hBegun (Nat.not_lt_zero t) }
  filed := Database.filed_new environments configuration
  named t hBegun := absurd hBegun (Nat.not_lt_zero t)
  delivers := Server.delivers_of_reachable
    (Machine.Reachable.start : (Server.machine fun _ => "").Reachable Server.FreshIds _ (.new options historySize))
  stamps := Server.stamps_new options historySize
  below := Server.carries_new options historySize
  arrived t hPushed := by cases hPushed

theorem fresh_of_reachable {configuration : Configuration} {options : Options} {historySize : Int}
    (hReach : (machine services).Reachable Orderly (new environments configuration options historySize) s) :
    Fresh services environments s := by
  refine hReach.invariant (Fresh services environments) (fresh_new ..) ?_
  intro s a hReach hFresh hEnabled hOrderly
  have hPushes := hFresh.pushes.step hEnabled fun _ _ _ _ _ _ => trivial
  have hApart : Apart environments (s.effect services a) :=
    hFresh.apart.step (named_of_reachable hReach) hOrderly.namesOwnKey
  cases a with
  | database a => exact hFresh.database hEnabled hPushes hApart
  | push t => exact hFresh.push hEnabled hPushes hApart
  | server a => exact hFresh.server hEnabled hOrderly hPushes hApart

/-! ## What a client comes to hold -/

/-- The records of an environment key are told apart by their versions. -/
theorem Fresh.published_unique (hFresh : Fresh services environments s) {key : String}
    {first second : SnapshotRecord} (hFirst : s.Published key first) (hSecond : s.Published key second)
    (hVersion : first.version = second.version) : first = second := by
  obtain ⟨t, hBegun, hCommitted, hKey⟩ := hFirst
  obtain ⟨t', hBegun', hCommitted', hKey'⟩ := hSecond
  have hFrom : Database.Knows services.runtime s.database (s.database.options t) (.committed first) :=
    hCommitted ▸ hFresh.pushes.serial.knows t hBegun
  have hFrom' : Database.Knows services.runtime s.database (s.database.options t') (.committed second) :=
    hCommitted' ▸ hFresh.pushes.serial.knows t' hBegun'
  obtain ⟨_, hEnvironment⟩ := hFresh.apart.alone t hBegun t' hBegun' (hKey.trans hKey'.symm)
  refine hFresh.pushes.serial.record_unique first (hFresh.filed.committed hBegun hCommitted) second
    (hFresh.filed.committed hBegun' hCommitted') ?_ hVersion
  rw [hFrom.environmentId, hFrom'.environmentId, hEnvironment]

theorem Fresh.labelled (hFresh : Fresh services environments s) {key : String} {record : SnapshotRecord}
    (hPublished : s.Published key record) : Labelled record := by
  obtain ⟨t, hBegun, hCommitted, _⟩ := hPublished
  exact hFresh.filed.labelled (hFresh.filed.committed hBegun hCommitted)

/-- Of records of one key, the payload of the newest is the newest payload. -/
theorem Fresh.newest_payload (hFresh : Fresh services environments s) {key : String} {records : List SnapshotRecord}
    {current : SnapshotRecord} (hCurrent : s.Published key current)
    (hRecords : ∀ record ∈ records, s.Published key record ∧ record.version ≤ current.version)
    (hReached : ∃ record ∈ records, current.version ≤ record.version) :
    newest versionRank (records.map serverPayloadOf) = some (serverPayloadOf current) := by
  obtain ⟨last, hLast, hAbove⟩ := hReached
  rcases newest_spec versionRank (records.map serverPayloadOf) with ⟨hNone, _⟩ | ⟨found, hFound, hNewest⟩
  · rw [List.map_eq_nil_iff] at hNone
    rw [hNone] at hLast
    cases hLast
  · obtain ⟨record, hMem, rfl⟩ := List.mem_map.mp hNewest.mem
    obtain ⟨hPublished, hBelow⟩ := hRecords record hMem
    have hRank := hNewest.le _ (List.mem_map_of_mem hLast)
    rw [(versionRank_server (hFresh.labelled (hRecords last hLast).1)).2,
      (versionRank_server (hFresh.labelled hPublished)).2, Nat.cast_le] at hRank
    rw [hFound, hFresh.published_unique hPublished hCurrent (by omega)]

/-- What a client holds as it opens a stream: nothing, or a record it was served, whose version it
presents. -/
def Presents (s : Platform) (c : Nat) : Option SnapshotRecord → Prop
  | none => (s.server.connections c).afterVersion ≤ 0
  | some record => (s.server.connections c).afterVersion = record.version ∧
      s.server.Serves (s.server.environmentOf c) record

def received (s : Platform) (c : Nat) : List SnapshotRecord := (s.server.connections c).frames.filterMap Frame.payload?

theorem Fresh.serves (hFresh : Fresh services environments s) {key : String} {record : SnapshotRecord}
    (hServes : s.server.Serves key record) : s.Published key record ∧ s.server.Reached key record.version :=
  ⟨(hFresh.pushes.carries.serves hServes).1, hFresh.below.serves hServes⟩

theorem mem_received {c : Nat} {record : SnapshotRecord} (hAllocated : c < s.server.hub.allocated)
    (hMem : record ∈ s.received c) : s.server.Serves (s.server.environmentOf c) record := by
  obtain ⟨frame, hFrame, hPayload⟩ := List.mem_filterMap.mp hMem
  cases frame with
  | resync => cases hPayload
  | ruleset version payload =>
    obtain rfl := Option.some.inj hPayload
    exact Or.inr ⟨c, hAllocated, rfl, version, hFrame⟩

/-- A stream with nothing left to deliver has brought its client to the current record. -/
theorem Fresh.newest_received (hFresh : Fresh services environments s) {c : Nat}
    (hAllocated : c < s.server.hub.allocated) {current : Snapshot SnapshotRecord}
    (hCurrent : s.server.store.current (s.server.environmentOf c) = some current)
    (hNewest : current.version ≤ (s.server.connections c).newest) {held : Option SnapshotRecord}
    (hHeld : s.Presents c held) :
    newest versionRank ((held.toList ++ s.received c).map serverPayloadOf) =
      some (serverPayloadOf current.payload) := by
  have hStamp : current.version = current.payload.version := hFresh.stamps.store.current hCurrent
  have hServed : ∀ record ∈ held.toList ++ s.received c, s.server.Serves (s.server.environmentOf c) record := by
    intro record hMem
    rcases List.mem_append.mp hMem with hOld | hNew
    · obtain rfl := Option.mem_toList.mp hOld
      exact hHeld.2
    · exact mem_received hAllocated hNew
  refine hFresh.newest_payload (hFresh.pushes.carries.store.current hCurrent).1 ?_ ?_
  · intro record hMem
    obtain ⟨hPublished, found, hFound, hBelow⟩ := hFresh.serves (hServed record hMem)
    obtain rfl := Option.some.inj (hCurrent.symm.trans hFound)
    exact ⟨hPublished, by omega⟩
  · have hPositive := (hFresh.labelled (hFresh.pushes.carries.store.current hCurrent).1).positive
    rcases Connection.le_foldl_max.mp hNewest with hPresented | ⟨version, hMem, hReached⟩
    · cases held with
      | none =>
        have hNothing : (s.server.connections c).afterVersion ≤ 0 := hHeld
        omega
      | some record =>
        obtain ⟨hVersion, _⟩ := hHeld
        exact ⟨record, List.mem_append_left _ (List.mem_singleton.mpr rfl), by omega⟩
    · obtain ⟨frame, hFrame, hVersion⟩ := List.mem_filterMap.mp hMem
      cases frame with
      | resync => cases hVersion
      | ruleset stamped record =>
        obtain rfl := Option.some.inj hVersion
        have hOwn : stamped = record.version := (hFresh.stamps.connections c hAllocated).frames _ _ hFrame
        refine ⟨record, List.mem_append_right _ (List.mem_filterMap.mpr ⟨_, hFrame, rfl⟩), ?_⟩
        omega

/-- Once the newest row of an environment has been pushed, it is the data plane's current record
for the key of the push. -/
theorem Fresh.current_latest (hFresh : Fresh services environments s) {id key : String} {record : SnapshotRecord}
    (hLatest : latestRecord s.database.snapshots id = some record)
    (hPushed : ∃ t ∈ s.pushed, s.published t = some record ∧ s.environmentKey t = key) :
    ∃ current, s.server.store.current key = some current ∧ current.payload = record := by
  obtain ⟨_, hEnvironment⟩ := latestRecord_mem hLatest
  obtain ⟨t, hArrived, hRecord, hKey⟩ := hPushed
  have hCommitted := published_iff.mp hRecord
  obtain ⟨found, hFound, hBegun, current, hCurrent, hReached⟩ := hFresh.arrived t hArrived
  obtain rfl := Stage.committed.inj (hCommitted.symm.trans hFound)
  rw [hKey] at hCurrent
  have hOwn : s.Published key record := ⟨t, hBegun, hCommitted, hKey⟩
  have hOther := (hFresh.pushes.carries.store.current hCurrent).1
  have hStamp : current.version = current.payload.version := hFresh.stamps.store.current hCurrent
  refine ⟨current, hCurrent, hFresh.published_unique hOther hOwn ?_⟩
  obtain ⟨t', hBegun', hCommitted', hKey'⟩ := hOther
  have hFrom : Database.Knows services.runtime s.database (s.database.options t) (.committed record) :=
    hCommitted ▸ hFresh.pushes.serial.knows t hBegun
  have hFrom' : Database.Knows services.runtime s.database (s.database.options t') (.committed current.payload) :=
    hCommitted' ▸ hFresh.pushes.serial.knows t' hBegun'
  obtain ⟨_, hSame⟩ := hFresh.apart.alone t' hBegun' t hBegun (hKey'.trans hKey.symm)
  have hBelow := latestRecord_newest hLatest current.payload
    (hFresh.filed.committed hBegun' hCommitted')
    (by rw [hFrom'.environmentId, hSame, ← hFrom.environmentId, hEnvironment])
  omega

/-- Streaming and polling agree. In every run of publishes, pushes, streams and polls in which
requests name keys of their own: once the newest row of an environment has been pushed and no
broadcast is in progress, a client that holds nothing, or what it was served under the
version it presented, and is handed the frames of its stream, evaluates on the ruleset that the
control plane serves to a server key, and the data plane answers a poll with that ruleset too. -/
theorem streaming_agrees_with_polling (services : Services) (environments : String → Option (String × String))
    (configuration : Configuration) (options : Options) (historySize : Int) {s : Platform}
    (hReach : (machine services).Reachable Orderly (new environments configuration options historySize) s)
    (hIdle : s.server.hub.Idle) {id key : String} {record : SnapshotRecord}
    (hLatest : latestRecord s.database.snapshots id = some record)
    (hPushed : ∃ t ∈ s.pushed, s.published t = some record ∧ s.environmentKey t = key) {polled : ServedSnapshot}
    (hPolled : latestSnapshot s.database.snapshots id .server = some polled) :
    (∃ current, handleSnapshot s.server.store key "" = .ok current ∧
      serverPayloadOf current.payload = polled.payload) ∧
    ∀ c < s.server.hub.allocated, s.server.environmentOf c = key → (s.server.connections c).phase = .streaming →
      (s.server.hub.subscribers c).done = none → (s.server.hub.subscribers c).messages = [] →
      ∀ held, s.Presents c held → ∃ verdicts,
        (RulesetClient.holding (held.map serverPayloadOf)).deliver rulesets ((s.received c).map serverPayloadOf) =
          (verdicts, RulesetClient.holding (some polled.payload)) := by
  have hFresh := fresh_of_reachable hReach
  obtain ⟨found, hFound, rfl⟩ := Option.map_eq_some_iff.mp hPolled
  obtain rfl := Option.some.inj (hLatest.symm.trans hFound)
  obtain ⟨current, hCurrent, rfl⟩ := hFresh.current_latest hLatest hPushed
  constructor
  · obtain ⟨t, hBegun, _, hKey⟩ := (hFresh.pushes.carries.store.current hCurrent).1
    refine ⟨current, ?_, rfl⟩
    rw [handleSnapshot, if_neg (hKey ▸ hFresh.named t hBegun), hCurrent]
    rfl
  · rintro c hAllocated rfl hStreaming hOpen hDrained held hHeld
    have hReached := hFresh.delivers.drained hIdle hAllocated hStreaming hOpen hDrained hCurrent
    have hNewest := hFresh.newest_received hAllocated hCurrent hReached hHeld
    have hFinite : ∀ snapshot ∈ (held.map serverPayloadOf).toList ++ (s.received c).map serverPayloadOf,
        snapshot.version.isFinite = true := by
      intro snapshot hMem
      have hRecord : ∃ record, s.server.Serves (s.server.environmentOf c) record ∧
          serverPayloadOf record = snapshot := by
        rcases List.mem_append.mp hMem with hOld | hNew
        · obtain ⟨record, rfl, hSame⟩ := Option.map_eq_some_iff.mp (Option.mem_toList.mp hOld)
          exact ⟨record, hHeld.2, hSame⟩
        · obtain ⟨record, hReceived, hSame⟩ := List.mem_map.mp hNew
          exact ⟨record, mem_received hAllocated hReceived, hSame⟩
      obtain ⟨record, hServes, rfl⟩ := hRecord
      exact (versionRank_server (hFresh.labelled (hFresh.serves hServes).1)).1
    have hStart : (held.map serverPayloadOf).toList = held.toList.map serverPayloadOf := by
      cases held <;> rfl
    rw [RulesetClient.deliver_eq hFinite, hStart, ← List.map_append, hNewest]
    exact ⟨_, rfl⟩

/-! ## A stream that was open before the publish -/

def orderly (s : Platform) : Action → Bool
  | .server a => s.server.freshIds a
  | a => s.namesOwnKey a

theorem orderly_sound {s : Platform} (hNamed : Named twoKeys s.database) {a : Action} (h : s.orderly a = true) :
    s.Orderly a := by
  cases a with
  | server a => exact s.server.freshIds_sound a h
  | push t => trivial
  | database a => exact namesOwnKey_sound hNamed (a := .database a) h

def allPushed (s : Platform) (id key : String) : Bool :=
  (List.range s.database.begun).all fun t =>
    (s.database.stage t).landed.all fun record =>
      decide (record.environmentId = id → t ∈ s.pushed ∧ s.environmentKey t = key)

theorem allPushed_sound (hFresh : Fresh services environments s) {id key : String} (h : s.allPushed id key = true)
    {record : SnapshotRecord} (hLatest : latestRecord s.database.snapshots id = some record) :
    ∃ t ∈ s.pushed, s.published t = some record ∧ s.environmentKey t = key := by
  obtain ⟨hMem, hEnvironment⟩ := latestRecord_mem hLatest
  obtain ⟨t, hBegun, hLanded⟩ := hFresh.filed.landed record hMem
  have hHolds := List.all_eq_true.mp h t (List.mem_range.mpr hBegun)
  rw [hLanded] at hHolds
  obtain ⟨hPushed, hKey⟩ := of_decide_eq_true hHolds hEnvironment
  obtain ⟨found, hCommitted, _⟩ := hFresh.arrived t hPushed
  rw [hCommitted] at hLanded
  obtain rfl := Option.some.inj hLanded
  exact ⟨t, hPushed, published_iff.mpr hCommitted, hKey⟩

/-- Every row has been pushed, and the first stream has nothing left to deliver. -/
def isQuiet (s : Platform) : Bool :=
  decide s.server.hub.Idle && s.allPushed "env-1" "production" &&
    (latestSnapshot s.database.snapshots "env-1" .server).isSome &&
    decide (0 < s.server.hub.allocated ∧ s.server.environmentOf 0 = "production" ∧
      (s.server.connections 0).afterVersion ≤ 0 ∧ (s.server.hub.subscribers 0).done = none) &&
    (s.server.connections 0).isStreaming && (s.server.hub.subscribers 0).messages.isEmpty

theorem phase_of_isStreaming {connection : Connection SnapshotRecord} (h : connection.isStreaming = true) :
    connection.phase = .streaming := by
  rw [Connection.isStreaming] at h
  split at h
  · assumption
  · cases h

theorem openStream_agrees : ∃ s polled verdicts,
    (machine plainServices).runWithin orderly (new twoKeys (tablesOf openFlag) Hub.small 0) streamAndPoll = some s ∧
    latestSnapshot s.database.snapshots "env-1" .server = some polled ∧
    (RulesetClient.holding none).deliver rulesets ((s.received 0).map serverPayloadOf) =
      (verdicts, RulesetClient.holding (some polled.payload)) := by
  have hQuiet : ((machine plainServices).runWithin orderly (new twoKeys (tablesOf openFlag) Hub.small 0)
      streamAndPoll).map isQuiet = some true := by decide +kernel
  obtain ⟨s, hRun, hQuiet⟩ := Option.map_eq_some_iff.mp hQuiet
  simp only [isQuiet, Bool.and_eq_true, decide_eq_true_eq] at hQuiet
  obtain ⟨⟨⟨⟨⟨hIdle, hPushed⟩, hSome⟩, hAllocated, hKey, hCold, hOpen⟩, hStreaming⟩, hEmpty⟩ := hQuiet
  obtain ⟨polled, hPolled⟩ := Option.isSome_iff_exists.mp hSome
  have hReach := Machine.Reachable.start.runWithin
    (fun _ _ hReach h => orderly_sound (named_of_reachable hReach) h) hRun
  obtain ⟨record, hLatest, _⟩ := Option.map_eq_some_iff.mp hPolled
  obtain ⟨_, hStreams⟩ := streaming_agrees_with_polling plainServices twoKeys (tablesOf openFlag) Hub.small 0 hReach
    hIdle hLatest (allPushed_sound (fresh_of_reachable hReach) hPushed hLatest) hPolled
  obtain ⟨verdicts, hDelivered⟩ := hStreams 0 hAllocated hKey (phase_of_isStreaming hStreaming) hOpen
    (List.isEmpty_iff.mp hEmpty) none hCold
  exact ⟨s, polled, verdicts, hRun, hPolled, hDelivered⟩

end Platform

end Flagship.EndToEnd
