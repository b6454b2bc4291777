import Flagship.Sdk.Ordering

/-! # The console's view of the stream

The hook of `apps/console/src/hooks/useRulesetStream.ts`, a second guard on versions: it starts
from `-1` where the client starts from nothing, and reads the version of a frame itself. On
positive versions the two keep in step.
-/

namespace Flagship.Console

open Lib Flagship.Core Flagship.Sdk

inductive StreamStatus where
  | connecting | live | reconnecting | error

structure RulesetEvent where
  version : Number
  receivedAt : ℕ

structure StreamState where
  status : StreamStatus
  version : Option Number
  lastEvent : Option RulesetEvent
  eventCount : ℕ

structure RulesetStream where
  state : StreamState
  highestVersion : Number

inductive StreamEvent where
  | environment
  | opened
  /-- The data of a frame, `none` where it does not parse. -/
  | ruleset (data : Option Json) (receivedAt : ℕ)
  | resync
  | failed (closed : Bool)

namespace StreamEvent

/-- The version of a frame, if it is a number; reading it from `null` throws, and is caught. -/
def version? : StreamEvent → Option Number
  | .ruleset (some document) _ =>
    match JsValue.get (some document) "version" with
    | .ok (some (.num version)) => some version
    | _ => none
  | .ruleset none _ | .environment | .opened | .resync | .failed _ => none

def changesEnvironment : StreamEvent → Bool
  | .environment => true
  | .opened | .ruleset _ _ | .resync | .failed _ => false

end StreamEvent

namespace RulesetStream

def connect : RulesetStream where
  state := { status := .connecting, version := none, lastEvent := none, eventCount := 0 }
  highestVersion := .finite (-1)

variable (stream : RulesetStream)

def setStatus (status : StreamStatus) : RulesetStream :=
  { stream with state := { stream.state with status } }

def accept (version : Number) (receivedAt : ℕ) : RulesetStream where
  state := {
    status := .live
    version := some version
    lastEvent := some { version, receivedAt }
    eventCount := stream.state.eventCount + 1 }
  highestVersion := version

def handle (event : StreamEvent) : RulesetStream :=
  match event with
  | .environment => connect
  | .opened => stream.setStatus .live
  | .ruleset _ receivedAt =>
    match event.version? with
    | none => stream
    | some version => if version.le stream.highestVersion then stream else stream.accept version receivedAt
  | .resync => stream.setStatus .reconnecting
  | .failed closed => stream.setStatus (if closed then .error else .reconnecting)

/-- The stream shows the version of what a client holds, after that many accepted frames. -/
structure Shows (held : Option RulesetSnapshot) (count : ℕ) : Prop where
  version : stream.state.version = held.map RulesetSnapshot.version
  highestVersion : stream.highestVersion = (held.map RulesetSnapshot.version).getD (.finite (-1))
  eventCount : stream.state.eventCount = count

variable {stream} {held : Option RulesetSnapshot} {count : ℕ}

theorem shows_connect : connect.Shows none 0 := ⟨rfl, rfl, rfl⟩

theorem Shows.silent (h : stream.Shows held count) {event : StreamEvent} (hSame : event.changesEnvironment = false)
    (hSilent : event.version? = none) : (stream.handle event).Shows held count := by
  cases event with
  | environment => cases hSame
  | ruleset data receivedAt =>
    rw [handle, hSilent]
    exact h
  | _ => exact ⟨h.version, h.highestVersion, h.eventCount⟩

def Positive (snapshot : RulesetSnapshot) : Prop :=
  snapshot.version.isFinite = true ∧ 0 < versionRank snapshot

theorem le_highestVersion (h : stream.Shows held count) {next : RulesetSnapshot} (hNext : Positive next)
    (hHeld : ∀ snapshot, held = some snapshot → Positive snapshot) :
    next.version.le stream.highestVersion = !isNewer versionRank held next := by
  rw [h.highestVersion, version_eq hNext.1]
  cases held with
  | none =>
    have hAbove : ¬ versionRank next ≤ -1 := by
      have hPositive := hNext.2
      linarith
    simp [le_finite, isNewer, hAbove]
  | some held =>
    rw [Option.map_some, Option.getD_some, version_eq (hHeld held rfl).1, le_finite, isNewer, Option.all_some,
      ← decide_not]
    exact decide_eq_decide.mpr not_lt.symm

theorem Shows.frame (h : stream.Shows held count) {event : StreamEvent} {next : RulesetSnapshot}
    (hVersion : event.version? = some next.version) (hNext : Positive next)
    (hHeld : ∀ snapshot, held = some snapshot → Positive snapshot) :
    (stream.handle event).Shows (offer versionRank held next)
      (count + if isNewer versionRank held next then 1 else 0) := by
  cases event with
  | ruleset data receivedAt =>
    have hGuard := le_highestVersion h hNext hHeld
    rw [handle, hVersion, offer]
    simp only [hGuard]
    cases isNewer versionRank held next with
    | false => exact h
    | true => exact ⟨rfl, rfl, by simp [accept, h.eventCount]⟩
  | _ => cases hVersion

/-- Whatever else happens on the connection, the frames alone move what the stream shows. -/
theorem Shows.run {events : List StreamEvent} {frames : List RulesetSnapshot}
    (hSame : ∀ event ∈ events, event.changesEnvironment = false)
    (hFrames : events.filterMap StreamEvent.version? = frames.map RulesetSnapshot.version)
    (hPositive : ∀ frame ∈ frames, Positive frame) (hHeld : ∀ snapshot, held = some snapshot → Positive snapshot)
    (h : stream.Shows held count) :
    (events.foldl handle stream).Shows (frames.foldl (offer versionRank) held)
      (count + (verdicts versionRank held frames).count true) := by
  induction events generalizing stream held count frames with
  | nil =>
    obtain rfl := List.map_eq_nil_iff.mp hFrames.symm
    exact h
  | cons event rest ih =>
    have hRest : ∀ event ∈ rest, event.changesEnvironment = false :=
      fun other hOther => hSame other (List.mem_cons_of_mem _ hOther)
    rw [List.foldl_cons]
    cases hVersion : event.version? with
    | none =>
      rw [List.filterMap_cons_none hVersion] at hFrames
      exact ih hRest hFrames hPositive hHeld (h.silent (hSame event List.mem_cons_self) hVersion)
    | some version =>
      rw [List.filterMap_cons_some hVersion] at hFrames
      cases frames with
      | nil => cases hFrames
      | cons next later =>
        obtain ⟨rfl, hLater⟩ := List.cons.inj hFrames
        have hNext := hPositive next List.mem_cons_self
        have hOffered : ∀ snapshot, offer versionRank held next = some snapshot → Positive snapshot := by
          intro snapshot hOffer
          rw [offer] at hOffer
          split at hOffer
          · exact Option.some.inj hOffer ▸ hNext
          · exact hHeld snapshot hOffer
        have hRun := ih hRest hLater (fun frame hMem => hPositive frame (List.mem_cons_of_mem _ hMem)) hOffered
          (h.frame hVersion hNext hHeld)
        rw [List.foldl_cons, verdicts, List.count_cons]
        rw [Nat.add_assoc] at hRun
        rw [Nat.add_comm (List.count true _)]
        simpa using hRun

end RulesetStream

end Flagship.Console
