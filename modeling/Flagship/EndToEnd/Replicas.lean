import Flagship.Core.Fallback
import Flagship.EndToEnd.Freshness

/-! # Clients of one environment

Any number of processes hold a client each, which takes in rulesets of the environment in an order
of its own and is asked in between. Versions identify rulesets, so clients that hold one version
answer alike, and an answer can be had again from the row of its version.
-/

namespace Flagship.Sdk

open Lib Flagship.Core

inductive HostCall where
  | applySnapshot (next : RulesetSnapshot)
  | evaluate (flagKey : String) (context : EvaluationContext) (fallback : JsValue)

/-- An answer, with the version the client held and the record it gave to `onExposure`. -/
structure Answer where
  flagKey : String
  context : EvaluationContext
  version : JsValue
  result : EvaluationResult
  exposure : Option ExposureRecord

namespace RulesetClient

variable (regExp : RegExp)

def answer (client : RulesetClient) (flagKey : String) (context : EvaluationContext) (fallback : JsValue) : Answer :=
  let (result, exposure) := client.evaluate regExp flagKey context fallback
  { flagKey, context, version := FlagshipClient.version rulesets client, result, exposure }

def answers : RulesetClient → List HostCall → List Answer
  | _, [] => []
  | client, .applySnapshot next :: rest => answers (client.applySnapshot rulesets next).2 rest
  | client, .evaluate flagKey context fallback :: rest =>
    client.answer regExp flagKey context fallback :: answers client rest

variable {regExp} {held : Option RulesetSnapshot} {P : RulesetSnapshot → Prop}

/-- Every answer is that of a client that holds what it started with, or a ruleset it was given. -/
theorem answer_of_mem (hFinite : ∀ snapshot, P snapshot → snapshot.version.isFinite = true) {calls : List HostCall}
    (hHeld : ∀ snapshot, held = some snapshot → P snapshot)
    (hCalls : ∀ next, HostCall.applySnapshot next ∈ calls → P next) {found : Answer}
    (hFound : found ∈ (holding held).answers regExp calls) :
    ∃ held', (∀ snapshot, held' = some snapshot → P snapshot) ∧
      ∃ fallback, found = (holding held').answer regExp found.flagKey found.context fallback := by
  induction calls generalizing held with
  | nil => cases hFound
  | cons call rest ih =>
    have hRest : ∀ next, HostCall.applySnapshot next ∈ rest → P next :=
      fun next hNext => hCalls next (List.mem_cons_of_mem call hNext)
    cases call with
    | applySnapshot next =>
      have hNext := hCalls next List.mem_cons_self
      have hApplied := applySnapshot_holding (hFinite next hNext) fun snapshot hSame => hFinite _ (hHeld snapshot hSame)
      rw [answers, hApplied] at hFound
      refine ih (fun snapshot hOffer => ?_) hRest hFound
      rw [offer] at hOffer
      split at hOffer
      · exact Option.some.inj hOffer ▸ hNext
      · exact hHeld snapshot hOffer
    | evaluate flagKey context fallback =>
      rw [answers] at hFound
      rcases List.mem_cons.mp hFound with rfl | hLater
      · exact ⟨held, hHeld, fallback, rfl⟩
      · exact ih hHeld hRest hLater

/-- What a client decides depends on what it holds, not on the fallback. -/
theorem answer_decided (regExp : RegExp) (held : Option RulesetSnapshot) (flagKey : String)
    (context : EvaluationContext) (fallback fallback' : JsValue) :
    ((holding held).answer regExp flagKey context fallback).result.decided =
        ((holding held).answer regExp flagKey context fallback').result.decided ∧
      ((holding held).answer regExp flagKey context fallback).exposure =
        ((holding held).answer regExp flagKey context fallback').exposure := by
  cases held with
  | none => exact ⟨rfl, rfl⟩
  | some snapshot =>
    have hDecided := decided_evaluateFlag regExp context (indexSnapshot snapshot) fallback fallback' flagKey
    have hKey := congrArg EvaluationResult.variationKey hDecided
    have hReason := congrArg EvaluationResult.reason hDecided
    rw [variationKey_decided, variationKey_decided] at hKey
    rw [reason_decided, reason_decided] at hReason
    refine ⟨hDecided, ?_⟩
    simp only [answer, evaluate, holding, Option.map_some, hKey, hReason]

end RulesetClient

end Flagship.Sdk

namespace Flagship.EndToEnd

open Lib Flagship.Core Flagship.ControlPlane Flagship.DataPlane Flagship.Sdk

def payloadOf (kind : KeyKind) (record : SnapshotRecord) : RulesetSnapshot := (servedSnapshot kind record).payload

namespace Platform

variable {s : Platform} {services : Services} {environments : String → Option (String × String)}

theorem Fresh.payload_version (hFresh : Fresh services environments s) {key : String} {record : SnapshotRecord}
    (hPublished : s.Published key record) (kind : KeyKind) :
    (payloadOf kind record).version = .finite record.version := by
  have hServer : record.compiled.server.version = .finite record.version := by
    have hRank := versionRank_server (hFresh.labelled hPublished)
    rw [← hRank.2]
    exact version_eq hRank.1
  cases kind with
  | server => exact hServer
  | client =>
    obtain ⟨t, hBegun, hCommitted, _⟩ := hPublished
    have hFrom : Database.Knows services.runtime s.database (s.database.options t) (.committed record) :=
      hCommitted ▸ hFresh.pushes.serial.knows t hBegun
    obtain ⟨_, _, hCompiled⟩ := hFrom.compiled
    have hClient : (payloadOf .client record) = filterSnapshotForKey record.compiled.server .client :=
      (compileRuleset_ok hCompiled).2.2
    rw [hClient]
    exact hServer

/-- What a client of the environment has been given, by either plane and whatever way: rows that
were published under the key. -/
def GivenTo (s : Platform) (key : String) (kind : KeyKind) (snapshot : RulesetSnapshot) : Prop :=
  ∃ record, s.Published key record ∧ snapshot = payloadOf kind record

theorem Fresh.given_unique (hFresh : Fresh services environments s) {key : String} {kind : KeyKind}
    {first second : RulesetSnapshot} (hFirst : s.GivenTo key kind first) (hSecond : s.GivenTo key kind second)
    (hVersion : first.version = second.version) : first = second := by
  obtain ⟨record, hPublished, rfl⟩ := hFirst
  obtain ⟨record', hPublished', rfl⟩ := hSecond
  rw [hFresh.payload_version hPublished, hFresh.payload_version hPublished', Number.finite.injEq, Nat.cast_inj]
    at hVersion
  rw [hFresh.published_unique hPublished hPublished' hVersion]

theorem Fresh.given_version (hFresh : Fresh services environments s) {key : String} {kind : KeyKind}
    {snapshot : RulesetSnapshot} (hGiven : s.GivenTo key kind snapshot) :
    ∃ n : ℕ, 0 < n ∧ snapshot.version = .finite n := by
  obtain ⟨record, hPublished, rfl⟩ := hGiven
  exact ⟨record.version, (hFresh.labelled hPublished).positive, hFresh.payload_version hPublished kind⟩

theorem Fresh.held_unique (hFresh : Fresh services environments s) {key : String} {kind : KeyKind}
    {held held' : Option RulesetSnapshot} (hHeld : ∀ snapshot, held = some snapshot → s.GivenTo key kind snapshot)
    (hHeld' : ∀ snapshot, held' = some snapshot → s.GivenTo key kind snapshot)
    (hVersion : FlagshipClient.version rulesets (RulesetClient.holding held) =
      FlagshipClient.version rulesets (RulesetClient.holding held')) : held = held' := by
  have hNone : ∀ snapshot, s.GivenTo key kind snapshot → FlagshipClient.version rulesets
      (RulesetClient.holding (some snapshot)) ≠ FlagshipClient.version rulesets (RulesetClient.holding none) := by
    intro snapshot hGiven hSame
    obtain ⟨n, _, hFinite⟩ := hFresh.given_version hGiven
    have hNumber : snapshot.version = .finite (-1) := Json.num.inj (Option.some.inj hSame)
    rw [hFinite, Number.finite.injEq] at hNumber
    have hNegative : (n : ℚ) < 0 := by rw [hNumber]; norm_num
    exact absurd hNegative (not_lt.mpr (Nat.cast_nonneg n))
  cases held with
  | none =>
    cases held' with
    | none => rfl
    | some snapshot' => exact absurd hVersion.symm (hNone snapshot' (hHeld' snapshot' rfl))
  | some snapshot =>
    cases held' with
    | none => exact absurd hVersion (hNone snapshot (hHeld snapshot rfl))
    | some snapshot' =>
      have hNumber : snapshot.version = snapshot'.version := Json.num.inj (Option.some.inj hVersion)
      rw [hFresh.given_unique (hHeld snapshot rfl) (hHeld' snapshot' rfl) hNumber]

theorem Fresh.given_finite (hFresh : Fresh services environments s) {key : String} {kind : KeyKind}
    {snapshot : RulesetSnapshot} (hGiven : s.GivenTo key kind snapshot) : snapshot.version.isFinite = true := by
  obtain ⟨n, _, hNumber⟩ := hFresh.given_version hGiven
  rw [hNumber]
  rfl

/-- A client that was given published rows, and answers under the version of one, holds this row. -/
theorem Fresh.answer_of_row (hFresh : Fresh services environments s) {key : String} {kind : KeyKind} {regExp : RegExp}
    {calls : List HostCall} (hCalls : ∀ next, HostCall.applySnapshot next ∈ calls → s.GivenTo key kind next)
    {found : Answer} (hFound : found ∈ (RulesetClient.holding none).answers regExp calls) {record : SnapshotRecord}
    (hPublished : s.Published key record) (hRow : found.version = some (.num (.finite record.version))) :
    ∃ fallback, found =
      (RulesetClient.holding (some (payloadOf kind record))).answer regExp found.flagKey found.context fallback := by
  have hNothing : ∀ snapshot, (none : Option RulesetSnapshot) = some snapshot → s.GivenTo key kind snapshot :=
    fun _ hSome => absurd hSome.symm (Option.some_ne_none _)
  obtain ⟨held, hHeld, fallback, hAnswer⟩ :=
    RulesetClient.answer_of_mem (fun _ hGiven => hFresh.given_finite hGiven) hNothing hCalls hFound
  have hGiven : s.GivenTo key kind (payloadOf kind record) := ⟨record, hPublished, rfl⟩
  have hHolds : held = some (payloadOf kind record) := by
    refine hFresh.held_unique hHeld (fun snapshot hSome => Option.some.inj hSome ▸ hGiven) ?_
    have hOwn : found.version = FlagshipClient.version rulesets (RulesetClient.holding held) :=
      congrArg Answer.version hAnswer
    rw [← hOwn, hRow, ← hFresh.payload_version hPublished kind]
    rfl
  exact ⟨fallback, hHolds ▸ hAnswer⟩

/-- Two clients of an environment, whatever each has been given and in whatever order: answers to
one question under one version are alike but for what an error falls back to, and each is what the
published row of that version gives. -/
theorem replicas_agree (services : Services) (environments : String → Option (String × String))
    (configuration : Configuration) (options : Options) (historySize : Int) {s : Platform}
    (hReach : (machine services).Reachable Orderly (new environments configuration options historySize) s)
    (key : String) (kind : KeyKind) (regExp : RegExp) {calls calls' : List HostCall}
    (hCalls : ∀ next, HostCall.applySnapshot next ∈ calls → s.GivenTo key kind next)
    (hCalls' : ∀ next, HostCall.applySnapshot next ∈ calls' → s.GivenTo key kind next) {first second : Answer}
    (hFirst : first ∈ (RulesetClient.holding none).answers regExp calls)
    (hSecond : second ∈ (RulesetClient.holding none).answers regExp calls') (hFlag : first.flagKey = second.flagKey)
    (hContext : first.context = second.context) (hVersion : first.version = second.version) :
    first.result.decided = second.result.decided ∧ first.exposure = second.exposure ∧
      ∀ record, s.Published key record → first.version = some (.num (.finite record.version)) →
        first.result.decided =
          (evaluateFlag regExp first.context (indexSnapshot (payloadOf kind record)) first.flagKey none).decided := by
  have hFresh := fresh_of_reachable hReach
  have hFinite : ∀ snapshot, s.GivenTo key kind snapshot → snapshot.version.isFinite = true :=
    fun _ hGiven => hFresh.given_finite hGiven
  have hNothing : ∀ snapshot, (none : Option RulesetSnapshot) = some snapshot → s.GivenTo key kind snapshot :=
    fun _ hSome => absurd hSome.symm (Option.some_ne_none _)
  obtain ⟨held, hHeld, fallback, hAnswer⟩ := RulesetClient.answer_of_mem hFinite hNothing hCalls hFirst
  obtain ⟨held', hHeld', fallback', hAnswer'⟩ := RulesetClient.answer_of_mem hFinite hNothing hCalls' hSecond
  have hSame : held = held' := by
    refine hFresh.held_unique hHeld hHeld' ?_
    rw [hAnswer, hAnswer'] at hVersion
    exact hVersion
  subst hSame
  obtain ⟨hDecided, hExposure⟩ :=
    RulesetClient.answer_decided regExp held first.flagKey first.context fallback fallback'
  rw [← hFlag, ← hContext] at hAnswer'
  refine ⟨?_, ?_, fun record hPublished hRow => ?_⟩
  · rw [congrArg Answer.result hAnswer, congrArg Answer.result hAnswer']
    exact hDecided
  · rw [congrArg Answer.exposure hAnswer, congrArg Answer.exposure hAnswer']
    exact hExposure
  · obtain ⟨given, hOfRow⟩ := hFresh.answer_of_row hCalls hFirst hPublished hRow
    rw [congrArg Answer.result hOfRow]
    exact decided_evaluateFlag regExp first.context _ given none first.flagKey

/-- Two publishes of an environment, the second after the flag was switched off. -/
def publishTwice : List Action :=
  publishAndPush 0 ⟨"acme", "env-1", "production", "someone"⟩ ++
    .database (.configure (tablesOf { openFlag with enabled := false })) ::
      publishAndPush 1 ⟨"acme", "env-1", "production", "someone"⟩

def hasPublished (s : Platform) : Bool :=
  decide (1 < s.database.begun ∧ s.environmentKey 0 = "production" ∧ s.environmentKey 1 = "production") &&
    decide ((s.published 0).map SnapshotRecord.version = some 1) &&
      decide ((s.published 1).map SnapshotRecord.version = some 2)

theorem hasPublished_sound {s : Platform} (h : hasPublished s = true) : ∃ older newer,
    (s.published 0 = some older ∧ s.published 1 = some newer) ∧
      (s.Published "production" older ∧ s.Published "production" newer) ∧ older.version = 1 ∧ newer.version = 2 := by
  simp only [hasPublished, Bool.and_eq_true, decide_eq_true_eq] at h
  obtain ⟨⟨⟨hBegun, hFirst, hSecond⟩, hOlder⟩, hNewer⟩ := h
  obtain ⟨older, hOlder, hOne⟩ := Option.map_eq_some_iff.mp hOlder
  obtain ⟨newer, hNewer, hTwo⟩ := Option.map_eq_some_iff.mp hNewer
  exact ⟨older, newer, ⟨hOlder, hNewer⟩, ⟨⟨0, zero_lt_one.trans hBegun, published_iff.mp hOlder, hFirst⟩,
    ⟨1, hBegun, published_iff.mp hNewer, hSecond⟩⟩, hOne, hTwo⟩

theorem Fresh.payload_rank (hFresh : Fresh services environments s) {key : String} {record : SnapshotRecord}
    (hPublished : s.Published key record) (kind : KeyKind) : versionRank (payloadOf kind record) = record.version := by
  rw [versionRank, hFresh.payload_version hPublished kind]

/-- A client takes in a first row, then a newer one, and leaves an older one that comes late. -/
theorem Fresh.takes_newer (hFresh : Fresh services environments s) {key : String} {older newer : SnapshotRecord}
    (hOlder : s.Published key older) (hNewer : s.Published key newer) (hLess : older.version < newer.version)
    (kind : KeyKind) :
    ((RulesetClient.holding none).applySnapshot rulesets (payloadOf kind older)).2 =
        RulesetClient.holding (some (payloadOf kind older)) ∧
      ((RulesetClient.holding (some (payloadOf kind older))).applySnapshot rulesets (payloadOf kind newer)).2 =
        RulesetClient.holding (some (payloadOf kind newer)) ∧
      ((RulesetClient.holding (some (payloadOf kind newer))).applySnapshot rulesets (payloadOf kind older)).2 =
        RulesetClient.holding (some (payloadOf kind newer)) := by
  have hRanks : versionRank (payloadOf kind older) < versionRank (payloadOf kind newer) := by
    rw [hFresh.payload_rank hOlder, hFresh.payload_rank hNewer]
    exact Nat.cast_lt.mpr hLess
  have hFinite {record : SnapshotRecord} (hPublished : s.Published key record) :
      (payloadOf kind record).version.isFinite = true := hFresh.given_finite ⟨record, hPublished, rfl⟩
  refine ⟨?_, ?_, ?_⟩
  · rw [RulesetClient.applySnapshot_holding (hFinite hOlder) fun _ hSome => by cases hSome]
    rfl
  · rw [RulesetClient.applySnapshot_holding (hFinite hNewer) fun _ hSome => Option.some.inj hSome ▸ hFinite hOlder]
    simp [offer, isNewer, hRanks]
  · rw [RulesetClient.applySnapshot_holding (hFinite hOlder) fun _ hSome => Option.some.inj hSome ▸ hFinite hNewer]
    simp [offer, isNewer, hRanks.not_gt]

/-- One client is asked about each of two versions, the other before it has a ruleset, and again
after the older one has come late. -/
theorem replicas_agree_after_publishes : ∃ s older newer,
    (machine plainServices).runWithin orderly (new twoKeys (tablesOf openFlag) Hub.small 0) publishTwice = some s ∧
      s.Published "production" older ∧ s.Published "production" newer ∧ older.version < newer.version ∧
      ∀ regExp context, ∀ record ∈ [older, newer],
        let answer := (RulesetClient.holding (some (payloadOf .client record))).answer regExp "checkout" context
        (answer none).result.decided = (answer (some (.bool true))).result.decided ∧
          (answer none).exposure = (answer (some (.bool true))).exposure ∧
          (answer none).result.decided =
            (evaluateFlag regExp context (indexSnapshot (payloadOf .client record)) "checkout" none).decided := by
  have hPublished : ((machine plainServices).runWithin orderly (new twoKeys (tablesOf openFlag) Hub.small 0)
      publishTwice).map hasPublished = some true := by decide +kernel
  obtain ⟨s, hRun, hPublished⟩ := Option.map_eq_some_iff.mp hPublished
  obtain ⟨older, newer, _, ⟨hOlder, hNewer⟩, hOne, hTwo⟩ := hasPublished_sound hPublished
  have hReach := Machine.Reachable.start.runWithin
    (fun _ _ hReach h => orderly_sound (named_of_reachable hReach) h) hRun
  have hFresh := fresh_of_reachable hReach
  have hLess : older.version < newer.version := by rw [hOne, hTwo]; exact one_lt_two
  obtain ⟨hStart, hForward, hLate⟩ := hFresh.takes_newer hOlder hNewer hLess .client
  refine ⟨s, older, newer, hRun, hOlder, hNewer, hLess, fun regExp context record hRecord => ?_⟩
  have hOwn : s.Published "production" record := by
    obtain rfl | hRecord := List.mem_cons.mp hRecord
    · exact hOlder
    · exact List.mem_singleton.mp hRecord ▸ hNewer
  have hFirst : (RulesetClient.holding (some (payloadOf .client record))).answer regExp "checkout" context none ∈
      (RulesetClient.holding none).answers regExp
        [.applySnapshot (payloadOf .client older), .evaluate "checkout" context none,
          .applySnapshot (payloadOf .client newer), .evaluate "checkout" context none] := by
    simp only [RulesetClient.answers, hStart, hForward]
    rcases List.mem_cons.mp hRecord with rfl | hRecord
    · exact List.mem_cons_self
    · exact List.mem_singleton.mp hRecord ▸ List.mem_cons_of_mem _ List.mem_cons_self
  have hSecond : (RulesetClient.holding (some (payloadOf .client record))).answer regExp "checkout" context
      (some (.bool true)) ∈ (RulesetClient.holding none).answers regExp
        [.evaluate "checkout" context (some (.bool true)), .applySnapshot (payloadOf .client older),
          .evaluate "checkout" context (some (.bool true)), .applySnapshot (payloadOf .client newer),
          .applySnapshot (payloadOf .client older), .evaluate "checkout" context (some (.bool true))] := by
    simp only [RulesetClient.answers, hStart, hForward, hLate]
    rcases List.mem_cons.mp hRecord with rfl | hRecord
    · exact List.mem_cons_of_mem _ List.mem_cons_self
    · exact List.mem_singleton.mp hRecord ▸ List.mem_cons_of_mem _ (List.mem_cons_of_mem _ List.mem_cons_self)
  have hGiven {calls : List HostCall} (hOnly : ∀ next, .applySnapshot next ∈ calls →
      next = payloadOf .client older ∨ next = payloadOf .client newer) :
      ∀ next, HostCall.applySnapshot next ∈ calls → s.GivenTo "production" .client next := by
    intro next hNext
    obtain rfl | rfl := hOnly next hNext
    · exact ⟨older, hOlder, rfl⟩
    · exact ⟨newer, hNewer, rfl⟩
  obtain ⟨hDecided, hExposure, hRow⟩ := replicas_agree plainServices twoKeys (tablesOf openFlag) Hub.small 0 hReach
    "production" .client regExp (hGiven (by simp)) (hGiven (by simp)) hFirst hSecond rfl rfl rfl
  refine ⟨hDecided, hExposure, hRow record hOwn ?_⟩
  rw [← hFresh.payload_version hOwn .client]
  rfl

end Platform

end Flagship.EndToEnd
