import Flagship.Core.Ramp
import Flagship.EndToEnd.Replicas

/-! # Users of a feature that is being rolled out

An environment publishes one version after another, and each of them raises an arm of a rollout, or
is about something else. Clients are behind by versions of their own, and a user may be asked about
by one and then by another: whoever has been in the arm under some version is in it under all
later ones.
-/

namespace Flagship.Core

open Lib

variable {regExp : RegExp} {context : EvaluationContext} {env : EvaluationEnvironment} {flagKey : String}

theorem evaluateFlag_fallback {fallback : JsValue} {id : JsValue}
    (h : (evaluateFlag regExp context env flagKey fallback).reason = .ruleMatch id) (fallback' : JsValue) :
    evaluateFlag regExp context env flagKey fallback' = evaluateFlag regExp context env flagKey fallback := by
  have hDecided := decided_evaluateFlag regExp context env fallback' fallback flagKey
  have hReason := congrArg EvaluationResult.reason hDecided
  rw [reason_decided, reason_decided, h] at hReason
  rwa [EvaluationResult.decided, EvaluationResult.decided, hReason, h] at hDecided

end Flagship.Core

namespace Flagship.EndToEnd

open Lib Flagship.Core Flagship.ControlPlane Flagship.DataPlane Flagship.Sdk

theorem exists_preceding {P : ℕ → Prop} {m n : ℕ} (hHolds : P m) (hLess : m < n) :
    ∃ k, m ≤ k ∧ k < n ∧ P k ∧ ∀ j, k < j → j < n → ¬ P j := by
  have hBounded : BddAbove {k | P k ∧ k < n} := ⟨n, fun k hk => hk.2.le⟩
  obtain ⟨hLast, hBefore⟩ : sSup {k | P k ∧ k < n} ∈ {k | P k ∧ k < n} :=
    Nat.sSup_mem ⟨m, hHolds, hLess⟩ hBounded
  refine ⟨_, le_csSup hBounded ⟨hHolds, hLess⟩, hBefore, hLast, fun j hAfter hInside hHolds' => ?_⟩
  exact absurd (le_csSup hBounded ⟨hHolds', hInside⟩) (not_le.mpr hAfter)

namespace Platform

variable {s : Platform} {services : Services} {environments : String → Option (String × String)}
variable {key : String} {kind : KeyKind} {flagKey : String} {index : ℕ} {variationKey : JsValue}

/-- Nothing was published under the key between the two rows. -/
structure Succeeds (s : Platform) (key : String) (earlier later : SnapshotRecord) : Prop where
  before : s.Published key earlier
  after : s.Published key later
  less : earlier.version < later.version
  next : ∀ other, s.Published key other → ¬ (earlier.version < other.version ∧ other.version < later.version)

/-- From one published row to another each next one keeps the arm. -/
def RampsBetween (s : Platform) (key : String) (kind : KeyKind) (flagKey : String) (index : ℕ) (variationKey : JsValue)
    (first last : SnapshotRecord) : Prop :=
  ∀ earlier later, s.Succeeds key earlier later → first.version ≤ earlier.version → later.version ≤ last.version →
    Ramps flagKey index variationKey (payloadOf kind earlier) (payloadOf kind later)

theorem Fresh.ramps (hFresh : Fresh services environments s) {first last : SnapshotRecord}
    (hFirst : s.Published key first) (hLast : s.Published key last) (hLater : first.version ≤ last.version)
    (hRamps : s.RampsBetween key kind flagKey index variationKey first last) :
    Ramps flagKey index variationKey (payloadOf kind first) (payloadOf kind last) := by
  obtain ⟨version, hVersion⟩ : ∃ version, last.version = version := ⟨_, rfl⟩
  induction version using Nat.strong_induction_on generalizing last with
  | _ version ih =>
    rcases hLater.eq_or_lt with hSame | hLess
    · rw [hFresh.published_unique hFirst hLast hSame]
      exact .refl
    · obtain ⟨_, hAfter, hBefore, ⟨earlier, hEarlier, rfl⟩, hNext⟩ :=
        @exists_preceding (fun n => ∃ record, s.Published key record ∧ record.version = n) _ _ ⟨first, hFirst, rfl⟩
          hLess
      have hRest : s.RampsBetween key kind flagKey index variationKey first earlier :=
        fun _ _ hSucceeds hFrom hTo => hRamps _ _ hSucceeds hFrom (hTo.trans hBefore.le)
      have hSucceeds : s.Succeeds key earlier last :=
        { before := hEarlier
          after := hLast
          less := hBefore
          next := fun other hOther hBetween => hNext _ hBetween.1 hBetween.2 ⟨other, hOther, rfl⟩ }
      exact (ih _ (hVersion ▸ hBefore) hEarlier hAfter hRest rfl).trans (hRamps _ _ hSucceeds hAfter le_rfl)

/-- Two clients of an environment, whatever each has been given and in whatever order: a context
that one of them would serve the arm under its version is answered the same by the other under any
later one, when every version published from the one to the other keeps the arm. -/
theorem ramps_keep_users (services : Services) (environments : String → Option (String × String))
    (configuration : Configuration) (options : Options) (historySize : Int) {s : Platform}
    (hReach : (machine services).Reachable Orderly (new environments configuration options historySize) s)
    (key : String) (kind : KeyKind) (regExp : RegExp) {calls calls' : List HostCall}
    (hCalls : ∀ next, HostCall.applySnapshot next ∈ calls → s.GivenTo key kind next)
    (hCalls' : ∀ next, HostCall.applySnapshot next ∈ calls' → s.GivenTo key kind next) {first second : Answer}
    (hFirst : first ∈ (RulesetClient.holding none).answers regExp calls)
    (hSecond : second ∈ (RulesetClient.holding none).answers regExp calls') (hFlag : first.flagKey = second.flagKey)
    (hContext : first.context = second.context) {record record' : SnapshotRecord}
    (hPublished : s.Published key record) (hPublished' : s.Published key record')
    (hVersion : first.version = some (.num (.finite record.version)))
    (hVersion' : second.version = some (.num (.finite record'.version))) (hLater : record.version ≤ record'.version)
    (hRamps : s.RampsBetween key kind first.flagKey index variationKey record record')
    (hArm : InArm regExp first.context first.flagKey index variationKey none (payloadOf kind record)) :
    InArm regExp first.context first.flagKey index variationKey none (payloadOf kind record') ∧
      first.result.variationKey = variationKey ∧ second.result = first.result := by
  have hFresh := fresh_of_reachable hReach
  obtain ⟨fallback, hAnswer⟩ := hFresh.answer_of_row hCalls hFirst hPublished hVersion
  obtain ⟨fallback', hAnswer'⟩ := hFresh.answer_of_row hCalls' hSecond hPublished' hVersion'
  obtain ⟨hKept, hSame⟩ := (hFresh.ramps hPublished hPublished' hLater hRamps).keeps hArm
  have hResult : first.result =
      evaluateFlag regExp first.context (indexSnapshot (payloadOf kind record)) first.flagKey none := by
    obtain ⟨_, _, _, rule, _, _, hReason, _⟩ := hArm
    rw [congrArg Answer.result hAnswer]
    exact evaluateFlag_fallback hReason fallback
  have hResult' : second.result =
      evaluateFlag regExp first.context (indexSnapshot (payloadOf kind record')) first.flagKey none := by
    obtain ⟨_, _, _, rule, _, _, hReason, _⟩ := hKept
    rw [congrArg Answer.result hAnswer', hFlag, hContext]
    rw [hFlag, hContext] at hReason
    exact evaluateFlag_fallback hReason fallback'
  refine ⟨hKept, ?_, hResult'.trans (hSame.trans hResult.symm)⟩
  obtain ⟨_, _, _, _, _, _, _, hServed⟩ := hArm
  rw [hResult, hServed]

/-! ## From a tenth to a fifth -/

def rampRow (on off : ℕ) : FlagRow where
  key := "checkout"
  salt := "salt"
  bucketBy := "key"
  variations := .arr [
    .obj [("key", .str "on"), ("value", .bool true)],
    .obj [("key", .str "off"), ("value", .bool false)]]
  enabled := true
  defaultVariationKey := "off"
  offVariationKey := "off"
  rules := .arr [.obj [("id", .str "ramp"), ("description", .str ""),
    ("when", .obj [("kind", .str "and"), ("children", .arr [])]),
    ("serve", .obj [("rollout", .arr [
      .obj [("variationKey", .str "on"), ("weight", .num (.ofNat on))],
      .obj [("variationKey", .str "off"), ("weight", .num (.ofNat off))]])])]]
  prerequisites := .arr []

def ramping : List Action :=
  publishAndPush 0 ⟨"acme", "env-1", "production", "someone"⟩ ++
    .database (.configure (tablesOf (rampRow 20000 80000))) ::
      publishAndPush 1 ⟨"acme", "env-1", "production", "someone"⟩

def rampFlag (on off : ℕ) : Flag :=
  withRollout rampedFlag 0 (ofSlices [(some (.str "on"), on), (some (.str "off"), off)])

/-- Whether a payload is the ramp alone, with these weights. -/
def readsRamp (on off : ℕ) : RulesetSnapshot → Bool
  | {
      flags := [{
        key, enabled, salt
        variations := [⟨some (.str first), some (.bool true)⟩, ⟨some (.str second), some (.bool false)⟩]
        defaultVariationKey, offVariationKey
        prerequisites := []
        rules := [{
          id := some (.str id)
          description := some (.str description)
          when := .boolean .and []
          serve := .rollout
            [⟨some (.str firstArm), .finite firstWeight⟩, ⟨some (.str secondArm), .finite secondWeight⟩] }]
        bucketBy }]
      segments := [], .. } =>
    (key, enabled, salt, bucketBy) = ("checkout", true, "salt", "key") &&
      (first, second, defaultVariationKey, offVariationKey) = ("on", "off", "off", "off") &&
        (id, description, firstArm, secondArm) = ("ramp", "", "on", "off") &&
          (firstWeight, secondWeight) = ((on : ℚ), (off : ℚ))
  | _ => false

theorem of_readsRamp {on off : ℕ} {payload : RulesetSnapshot} (h : readsRamp on off payload = true) :
    payload.flags = [rampFlag on off] ∧ payload.segments = [] := by
  unfold readsRamp at h
  split at h
  · simp only [Bool.and_eq_true, decide_eq_true_eq, Prod.mk.injEq] at h
    obtain ⟨⟨⟨⟨rfl, rfl, rfl, rfl⟩, rfl, rfl, rfl, rfl⟩, rfl, rfl, rfl, rfl⟩, rfl, rfl⟩ := h
    exact ⟨rfl, rfl⟩
  · cases h

theorem ramps_of_readsRamp {before after : RulesetSnapshot} (hBefore : readsRamp 10000 90000 before = true)
    (hAfter : readsRamp 20000 80000 after = true) : Ramps "checkout" 0 (some (.str "on")) before after := by
  obtain ⟨hFlags, hSegments⟩ := of_readsRamp hBefore
  obtain ⟨hFlags', hSegments'⟩ := of_readsRamp hAfter
  have hOther (on off : ℕ) (key : String) (hKey : key ≠ "checkout") : flagOf [rampFlag on off] key = none :=
    keyGet_eq_none.mpr fun hListed => hKey (List.mem_singleton.mp hListed)
  have hAdditive : Additive 0 tenPercent twentyPercent := @additive_of_raised _ _ _ sameArms_raised rfl
    ⟨some (.str "on"), .ofNat 10000⟩ ⟨some (.str "on"), .ofNat 20000⟩ rfl rfl (by decide)
  have hKeeps : Core.Keeps (some (.str "on")) tenPercent twentyPercent :=
    (@keeps_iff _ _ _ sameArms_raised ⟨some (.str "on"), .ofNat 10000⟩ rfl (by decide)).mpr hAdditive
  have hEdit : Reweighted (rampFlag 10000 90000) 0 tenPercent twentyPercent before after :=
    { segments := hSegments'.trans hSegments.symm
      others := fun key hKey => by rw [hFlags, hFlags', hOther _ _ _ hKey, hOther _ _ _ hKey]
      before := by rw [hFlags]; rfl
      after := by rw [hFlags']; rfl
      rollout := ⟨_, rfl, rfl⟩ }
  exact .tail .refl (.reweighted rfl hEdit fun _ => hKeeps)

def user : EvaluationContext where
  key := "user-9"
  attributes := fun _ => none

theorem inArm_of_readsRamp {payload : RulesetSnapshot} (h : readsRamp 10000 90000 payload = true) :
    InArm (fun _ => none) user "checkout" 0 (some (.str "on")) none payload := by
  obtain ⟨hFlags, hSegments⟩ := of_readsRamp h
  have hIndex : indexSnapshot payload = indexSnapshot (rampedSnapshot rampedFlag) := by
    rw [indexSnapshot, indexSnapshot, hFlags, hSegments]
    rfl
  have hServed := @of_rampsOn (evaluateFlag (fun _ => none) user (indexSnapshot (rampedSnapshot rampedFlag)) "checkout"
    none) (by decide +kernel)
  refine ⟨rampFlag 10000 90000, by rw [hFlags]; rfl, fun _ hSkipped => (List.not_mem_nil hSkipped).elim, _, rfl, ?_⟩
  rw [hIndex]
  exact ⟨by decide +kernel, hServed⟩

/-- Both publishes have committed, and their rows are the two ramps. -/
def hasRamped (s : Platform) : Bool :=
  hasPublished s && ((s.published 0).map fun row => readsRamp 10000 90000 (payloadOf .client row)) = some true &&
    ((s.published 1).map fun row => readsRamp 20000 80000 (payloadOf .client row)) = some true

theorem ramps_keep_users_raised : ∃ s older newer,
    (machine plainServices).runWithin orderly (new twoKeys (tablesOf (rampRow 10000 90000)) Hub.small 0) ramping =
        some s ∧
      s.Published "production" older ∧ s.Published "production" newer ∧ older.version < newer.version ∧
      let early := (RulesetClient.holding (some (payloadOf .client older))).answer (fun _ => none) "checkout" user none
      let late := (RulesetClient.holding (some (payloadOf .client newer))).answer (fun _ => none) "checkout" user
        (some (.bool false))
      early.result.variationKey = some (.str "on") ∧ late.result = early.result := by
  have hRamped : ((machine plainServices).runWithin orderly (new twoKeys (tablesOf (rampRow 10000 90000)) Hub.small 0)
      ramping).map hasRamped = some true := by decide +kernel
  obtain ⟨s, hRun, hRamped⟩ := Option.map_eq_some_iff.mp hRamped
  simp only [hasRamped, Bool.and_eq_true, decide_eq_true_eq] at hRamped
  obtain ⟨⟨hPublished, hTenth⟩, hFifth⟩ := hRamped
  obtain ⟨older, newer, ⟨hFirst, hSecond⟩, ⟨hOlder, hNewer⟩, hOne, hTwo⟩ := hasPublished_sound hPublished
  rw [hFirst, Option.map_some, Option.some.injEq] at hTenth
  rw [hSecond, Option.map_some, Option.some.injEq] at hFifth
  have hReach := Machine.Reachable.start.runWithin
    (fun _ _ hReach h => orderly_sound (named_of_reachable hReach) h) hRun
  have hFresh := fresh_of_reachable hReach
  have hLess : older.version < newer.version := by rw [hOne, hTwo]; exact one_lt_two
  -- the two rows are the only versions from the one to the other
  have hRamps : s.RampsBetween "production" .client "checkout" 0 (some (.str "on")) older newer := by
    intro earlier later hSucceeds hFrom hTo
    have hVersions := hSucceeds.less
    obtain rfl := hFresh.published_unique hSucceeds.before hOlder (by omega)
    obtain rfl := hFresh.published_unique hSucceeds.after hNewer (by omega)
    exact ramps_of_readsRamp hTenth hFifth
  obtain ⟨hStart, hForward, _⟩ := hFresh.takes_newer hOlder hNewer hLess .client
  have hEarly : (RulesetClient.holding (some (payloadOf .client older))).answer (fun _ => none) "checkout" user none ∈
      (RulesetClient.holding none).answers (fun _ => none)
        [.applySnapshot (payloadOf .client older), .evaluate "checkout" user none] := by
    simp only [RulesetClient.answers, hStart, List.mem_singleton]
  have hLate : (RulesetClient.holding (some (payloadOf .client newer))).answer (fun _ => none) "checkout" user
      (some (.bool false)) ∈ (RulesetClient.holding none).answers (fun _ => none)
        [.applySnapshot (payloadOf .client older), .applySnapshot (payloadOf .client newer),
          .evaluate "checkout" user (some (.bool false))] := by
    simp only [RulesetClient.answers, hStart, hForward, List.mem_singleton]
  have hGiven : ∀ next, HostCall.applySnapshot next ∈ [HostCall.applySnapshot (payloadOf .client older),
      .applySnapshot (payloadOf .client newer)] → s.GivenTo "production" .client next := by
    intro next hNext
    simp only [List.mem_cons, HostCall.applySnapshot.injEq, List.not_mem_nil, or_false] at hNext
    obtain rfl | rfl := hNext
    · exact ⟨older, hOlder, rfl⟩
    · exact ⟨newer, hNewer, rfl⟩
  obtain ⟨_, hServed, hSame⟩ := ramps_keep_users plainServices twoKeys (tablesOf (rampRow 10000 90000)) Hub.small 0
    hReach "production" .client (fun _ => none) (fun next hNext => hGiven next (by simpa using Or.inl hNext))
    (fun next hNext => hGiven next (by simpa using hNext)) hEarly hLate rfl rfl hOlder hNewer
    (congrArg (fun version => some (Json.num version)) (hFresh.payload_version hOlder .client))
    (congrArg (fun version => some (Json.num version)) (hFresh.payload_version hNewer .client)) hLess.le hRamps
    (inArm_of_readsRamp hTenth)
  exact ⟨s, older, newer, hRun, hOlder, hNewer, hLess, hServed, hSame⟩

end Platform

end Flagship.EndToEnd
