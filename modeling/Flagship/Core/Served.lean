import Flagship.Core.Outcome

/-! # What a sound snapshot serves

A flag of a sound snapshot answers with one of its declared variations, unless evaluation
arrives at a rollout whose slice for the context carries no variation key at all.
-/

namespace Flagship.Core

open Lib

theorem keyGet_flags (snapshot : RulesetSnapshot) (key : String) :
    keyGet (indexSnapshot snapshot).flags key = (flagOf snapshot.flags key).map compileFlag := by
  rw [flagOf, ← mapGet_map, List.map_map]
  rfl

theorem needs_iff {snapshot : RulesetSnapshot} {a b : String} :
    Needs (indexSnapshot snapshot) a b ↔ Requires snapshot.flags a b := by
  constructor
  · rintro ⟨compiled, hFlag, prerequisite, hMem, rfl⟩
    rw [keyGet_flags] at hFlag
    obtain ⟨flag, hStored, rfl⟩ := Option.map_eq_some_iff.mp hFlag
    exact ⟨flag, hStored, prerequisite, hMem, rfl⟩
  · rintro ⟨flag, hFlag, prerequisite, hMem, rfl⟩
    refine ⟨compileFlag flag, ?_, prerequisite, hMem, rfl⟩
    rw [keyGet_flags, hFlag]
    rfl

theorem SnapshotSound.needs_grounded {snapshot : RulesetSnapshot} (h : SnapshotSound snapshot) {flag : Flag}
    (hFlag : flag ∈ snapshot.flags) : Hereditary (fun _ => True) (Needs (indexSnapshot snapshot)) flag.key :=
  (h.grounded flag hFlag).mono_refers fun _ _ hNeeds => needs_iff.mp hNeeds

def Serves (flag : Flag) (result : EvaluationResult) : Prop :=
  result.reason.isError = false ∧ JsValue.has flag.variationKeys result.variationKey = true

theorem findVariation_of_declared {flag : Flag} {variationKey : JsValue}
    (h : JsValue.has flag.variationKeys variationKey = true) :
    ∃ variation, findVariation (compileFlag flag) variationKey = some variation := by
  rw [← Option.isSome_iff_exists, findVariation, mapGet_isSome]
  obtain ⟨key, hKey, hSame⟩ := List.any_eq_true.mp h
  obtain ⟨variation, hMem, rfl⟩ := List.mem_map.mp hKey
  exact ⟨(variation.key, variation), List.mem_map.mpr ⟨variation, hMem, rfl⟩, hSame⟩

theorem resultFor_serves {flag : Flag} {variationKey : JsValue} {reason : EvaluationReason}
    (hDeclared : JsValue.has flag.variationKeys variationKey = true) (hReason : reason.isError = false)
    (fallback : JsValue) (bucket : Option Nat) :
    ∃ result, resultFor (compileFlag flag) variationKey reason fallback bucket = .ok result ∧ Serves flag result := by
  obtain ⟨variation, hVariation⟩ := findVariation_of_declared hDeclared
  rw [resultFor, hVariation]
  exact ⟨_, rfl, hReason, hDeclared⟩

/-- The bucket of the context lies in a slice that carries no variation key. -/
def BlankSlice (context : EvaluationContext) (flag : Flag) (rule : TargetingRule) : Prop :=
  ∃ distribution bucketKey, rule.serve = .rollout distribution ∧
    resolveBucketKey flag context = some bucketKey ∧
    variationForBucket distribution (bucketOf flag bucketKey) = none

section Serve

variable {context : EvaluationContext} {segmentKeys : List String} {flag : Flag}

theorem serveRule_serves (hSound : FlagSound segmentKeys flag) {rule : TargetingRule} (hRule : rule ∈ flag.rules)
    (hSlice : ¬ BlankSlice context flag rule) (fallback : JsValue) :
    ∃ result, serveRule context (compileFlag flag) fallback rule = .ok result ∧ Serves flag result := by
  have hServe := hSound.serves rule hRule
  rw [serveRule]
  cases hKind : rule.serve with
  | variation variationKey =>
    rw [hKind] at hServe
    exact resultFor_serves hServe rfl fallback none
  | rollout distribution =>
    rw [hKind] at hServe
    simp only [compileFlag]
    cases hBucketKey : resolveBucketKey flag context with
    | none => exact resultFor_serves hSound.default_declared rfl fallback none
    | some bucketKey =>
      obtain ⟨slice, hMem, hAnswer⟩ := exists_entry_of_valid hServe.1
        (bucketFor_lt (CodeUnits.ofString flag.key) (CodeUnits.ofString flag.salt) (CodeUnits.ofString bucketKey))
      cases hKey : variationForBucket distribution (bucketOf flag bucketKey) with
      | none => exact absurd ⟨distribution, bucketKey, hKind, hBucketKey, hKey⟩ hSlice
      | some variationKey =>
        simp only [hKey]
        rw [bucketOf] at hKey
        rw [hAnswer] at hKey
        have hDeclared := hServe.2 slice hMem
        rw [hKey] at hDeclared
        exact resultFor_serves hDeclared rfl fallback _

theorem serveRule_blank {rule : TargetingRule} (hSlice : BlankSlice context flag rule) (fallback : JsValue) :
    (settle fallback (serveRule context (compileFlag flag) fallback rule)).reason.isError = true := by
  obtain ⟨distribution, bucketKey, hServe, hBucketKey, hKey⟩ := hSlice
  simp only [serveRule, hServe, compileFlag, hBucketKey, hKey]
  cases JsValue.toText rule.id with
  | error error => rfl
  | ok id => rfl

end Serve

theorem evaluateRules_eq (regExp : RegExp) (context : EvaluationContext) (env : EvaluationEnvironment)
    (compiled : CompiledFlag) (fallback : JsValue) (rules : List TargetingRule) :
    evaluateRules regExp context env compiled fallback rules =
      match rules.find? (matchRule regExp context env) with
      | none => defaultResult compiled fallback
      | some rule => serveRule context compiled fallback rule := by
  induction rules with
  | nil => rfl
  | cons rule rest ih =>
    rw [evaluateRules, List.find?_cons]
    cases matchRule regExp context env rule with
    | true => rfl
    | false => exact ih

section Snapshot

variable (regExp : RegExp) (context : EvaluationContext) (snapshot : RulesetSnapshot)

def ReachesBlankSlice (flag : Flag) : Prop :=
  flag.enabled = true ∧
  unmet (outcome regExp context (indexSnapshot snapshot) Flag.rules · none) flag.prerequisites = .ok none ∧
  ∃ rule, flag.rules.find? (matchRule regExp context (indexSnapshot snapshot)) = some rule ∧
    BlankSlice context flag rule

variable {regExp context snapshot}

theorem flag_eq_of_flagOf (hNodup : (snapshot.flags.map Flag.key).Nodup) {flag : Flag}
    (h : flag ∈ snapshot.flags) : keyGet (indexSnapshot snapshot).flags flag.key = some (compileFlag flag) := by
  rw [keyGet_flags, flagOf_of_mem hNodup h]
  rfl

theorem outcome_flag (hSound : SnapshotSound snapshot) (hNodup : (snapshot.flags.map Flag.key).Nodup) {flag : Flag}
    (h : flag ∈ snapshot.flags) (rulesOf : Flag → List TargetingRule) (fallback : JsValue) :
    outcome regExp context (indexSnapshot snapshot) rulesOf flag.key fallback =
      if !flag.enabled then offResult (compileFlag flag) fallback .off
      else answer regExp context (indexSnapshot snapshot) rulesOf (compileFlag flag) fallback
        (unmet (outcome regExp context (indexSnapshot snapshot) rulesOf · none) flag.prerequisites) := by
  rw [outcome_eq (hSound.needs_grounded h), outcomeStep, flag_eq_of_flagOf hNodup h]
  rfl

theorem unmet_decided (upstream : String → Except ScriptError EvaluationResult) {prerequisites : List Prerequisite}
    (h : ∀ prerequisite ∈ prerequisites, ∃ result, upstream prerequisite.flagKey = .ok result) :
    ∃ failed, unmet upstream prerequisites = .ok failed := by
  induction prerequisites with
  | nil => exact ⟨none, rfl⟩
  | cons prerequisite rest ih =>
    obtain ⟨result, hResult⟩ := h prerequisite List.mem_cons_self
    rw [unmet, hResult]
    simp only
    split
    · exact ih fun other hOther => h other (List.mem_cons_of_mem _ hOther)
    · exact ⟨_, rfl⟩

theorem answer_serves (hSound : FlagSound (snapshot.segments.map Segment.key) flag) {failed : Option Prerequisite}
    (hSlice : failed = none → ∀ rule,
      flag.rules.find? (matchRule regExp context (indexSnapshot snapshot)) = some rule →
      ¬ BlankSlice context flag rule) (fallback : JsValue) :
    ∃ result, answer regExp context (indexSnapshot snapshot) Flag.rules (compileFlag flag) fallback (.ok failed) =
      .ok result ∧ Serves flag result := by
  cases failed with
  | some prerequisite => exact resultFor_serves hSound.off_declared rfl fallback none
  | none =>
    rw [answer, evaluateRules_eq]
    have hRules := hSlice rfl
    change ∃ result, (match flag.rules.find? (matchRule regExp context (indexSnapshot snapshot)) with
      | none => defaultResult (compileFlag flag) fallback
      | some rule => serveRule context (compileFlag flag) fallback rule) = .ok result ∧ Serves flag result
    cases hFirst : flag.rules.find? (matchRule regExp context (indexSnapshot snapshot)) with
    | none => exact resultFor_serves hSound.default_declared rfl fallback none
    | some rule => exact serveRule_serves hSound (List.mem_of_find?_eq_some hFirst) (hRules rule hFirst) fallback

theorem outcome_serves (hSound : SnapshotSound snapshot) (hNodup : (snapshot.flags.map Flag.key).Nodup)
    (hSlice : ∀ flag ∈ snapshot.flags, ¬ ReachesBlankSlice regExp context snapshot flag) {key : String}
    (hGrounded : Hereditary (fun _ => True) (Requires snapshot.flags) key) :
    ∀ flag ∈ snapshot.flags, flag.key = key → ∀ fallback, ∃ result,
      outcome regExp context (indexSnapshot snapshot) Flag.rules flag.key fallback = .ok result ∧
        Serves flag result := by
  induction hGrounded with
  | intro key _ _ ih =>
    rintro flag hFlag rfl fallback
    have hFlagSound := hSound.flags flag hFlag
    have hUpstream : ∀ prerequisite ∈ flag.prerequisites, ∃ result,
        outcome regExp context (indexSnapshot snapshot) Flag.rules prerequisite.flagKey none = .ok result := by
      intro prerequisite hMem
      obtain ⟨upstream, hUpstream, hKey⟩ := List.mem_map.mp (hSound.prerequisites flag hFlag prerequisite hMem)
      have hRequires : Requires snapshot.flags flag.key prerequisite.flagKey :=
        ⟨flag, flagOf_of_mem hNodup hFlag, prerequisite, hMem, rfl⟩
      obtain ⟨result, hResult, _⟩ := ih _ hRequires upstream hUpstream hKey none
      rw [hKey] at hResult
      exact ⟨result, hResult⟩
    rw [outcome_flag hSound hNodup hFlag]
    cases hEnabled : flag.enabled with
    | false => exact resultFor_serves hFlagSound.off_declared rfl fallback none
    | true =>
      obtain ⟨failed, hFailed⟩ :=
        unmet_decided (outcome regExp context (indexSnapshot snapshot) Flag.rules · none) hUpstream
      rw [hFailed]
      apply answer_serves hFlagSound
      rintro rfl rule hFirst hBlank
      exact hSlice flag hFlag ⟨hEnabled, hFailed, rule, hFirst, hBlank⟩

theorem evaluateFlag_blank (hSound : SnapshotSound snapshot) (hNodup : (snapshot.flags.map Flag.key).Nodup)
    {flag : Flag} (hFlag : flag ∈ snapshot.flags) (hBlank : ReachesBlankSlice regExp context snapshot flag)
    (fallback : JsValue) :
    (evaluateFlag regExp context (indexSnapshot snapshot) flag.key fallback).reason.isError = true := by
  obtain ⟨hEnabled, hMet, rule, hFirst, hSlice⟩ := hBlank
  rw [evaluateFlag_eq (hSound.needs_grounded hFlag), outcome_flag hSound hNodup hFlag, hEnabled, hMet]
  simp only [Bool.not_true, Bool.false_eq_true, if_false, answer]
  rw [evaluateRules_eq]
  change (settle fallback (match flag.rules.find? (matchRule regExp context (indexSnapshot snapshot)) with
    | none => defaultResult (compileFlag flag) fallback
    | some rule => serveRule context (compileFlag flag) fallback rule)).reason.isError = true
  rw [hFirst]
  exact serveRule_blank hSlice fallback

theorem evaluateFlag_serves_iff (hSound : SnapshotSound snapshot) (hNodup : (snapshot.flags.map Flag.key).Nodup) :
    (∀ flag ∈ snapshot.flags, ∀ fallback,
        Serves flag (evaluateFlag regExp context (indexSnapshot snapshot) flag.key fallback)) ↔
      ∀ flag ∈ snapshot.flags, ¬ ReachesBlankSlice regExp context snapshot flag := by
  constructor
  · intro hServes flag hFlag hBlank
    have hError := evaluateFlag_blank hSound hNodup hFlag hBlank none
    rw [(hServes flag hFlag none).1] at hError
    cases hError
  · intro hSlice flag hFlag fallback
    obtain ⟨result, hResult, hServes⟩ :=
      outcome_serves hSound hNodup hSlice (hSound.grounded flag hFlag) flag hFlag rfl fallback
    rw [evaluateFlag_eq (hSound.needs_grounded hFlag), hResult]
    exact hServes

end Snapshot

/-! ## The client payload of a sound snapshot is sound -/

theorem flagOf_client (snapshot : RulesetSnapshot) (key : String) :
    flagOf (filterSnapshotForKey snapshot .client).flags key =
      (flagOf snapshot.flags key).map (filterFlag · (clientSafeSegments snapshot.segments)) := by
  rw [flagOf, flagOf, ← mapGet_map, List.map_map]
  simp only [filterSnapshotForKey, List.map_map]
  rfl

theorem client_flag_keys (snapshot : RulesetSnapshot) :
    (filterSnapshotForKey snapshot .client).flags.map Flag.key = snapshot.flags.map Flag.key := by
  simp only [filterSnapshotForKey, List.map_map]
  rfl

theorem requires_client {snapshot : RulesetSnapshot} {a b : String} :
    Requires (filterSnapshotForKey snapshot .client).flags a b ↔ Requires snapshot.flags a b := by
  constructor
  · rintro ⟨flag, hFlag, prerequisite, hMem, rfl⟩
    rw [flagOf_client] at hFlag
    obtain ⟨full, hFull, rfl⟩ := Option.map_eq_some_iff.mp hFlag
    exact ⟨full, hFull, prerequisite, hMem, rfl⟩
  · rintro ⟨flag, hFlag, prerequisite, hMem, rfl⟩
    refine ⟨filterFlag flag (clientSafeSegments snapshot.segments), ?_, prerequisite, hMem, rfl⟩
    rw [flagOf_client, hFlag]
    rfl

theorem SnapshotSound.client {snapshot : RulesetSnapshot} (h : SnapshotSound snapshot) :
    SnapshotSound (filterSnapshotForKey snapshot .client) := by
  constructor
  · intro flag hFlag
    obtain ⟨full, hFull, rfl, hRules⟩ := mem_client_rules hFlag
    have hSound := h.flags full hFull
    refine ⟨hSound.default_declared, hSound.off_declared, ?_, ?_⟩
    · intro rule hRule
      exact hSound.serves rule (hRules rule hRule).1
    · intro rule hRule key hKey
      exact mem_client_keys.mpr ((hRules rule hRule).2.2 key hKey)
  · intro flag hFlag prerequisite hMem
    obtain ⟨full, hFull, rfl, _⟩ := mem_client_rules hFlag
    rw [client_flag_keys]
    exact h.prerequisites full hFull prerequisite hMem
  · intro flag hFlag
    obtain ⟨full, hFull, rfl, _⟩ := mem_client_rules hFlag
    exact (h.grounded full hFull).mono_refers fun _ _ hRequires => requires_client.mp hRequires

end Flagship.Core
