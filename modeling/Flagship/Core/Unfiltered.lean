import Flagship.Core.Served

/-! # Flags that lose nothing

A flag none of whose rules is hidden, and that requires only such flags, evaluates alike on the
two payloads: the segments its rules reach survive with them. The guard sets of the two runs stay
in step, so nothing is asked of the prerequisites, which may lead into a cycle.
-/

namespace Flagship.Core

open Lib

def Unfiltered (snapshot : RulesetSnapshot) (flag : Flag) : Prop :=
  (filterFlag flag (clientSafeSegments snapshot.segments)).rules = flag.rules

def UnfilteredFrom (snapshot : RulesetSnapshot) (flagKey : String) : Prop :=
  ∀ key flag, Relation.ReflTransGen (Requires snapshot.flags) flagKey key → flagOf snapshot.flags key = some flag →
    Unfiltered snapshot flag

theorem UnfilteredFrom.next {snapshot : RulesetSnapshot} {flagKey next : String}
    (h : UnfilteredFrom snapshot flagKey) (hRequires : Requires snapshot.flags flagKey next) :
    UnfilteredFrom snapshot next :=
  fun key flag hReach => h key flag (hReach.head hRequires)

theorem Unfiltered.filterFlag_eq {snapshot : RulesetSnapshot} {flag : Flag} (h : Unfiltered snapshot flag) :
    filterFlag flag (clientSafeSegments snapshot.segments) = flag := by
  obtain ⟨key, enabled, salt, variations, default, off, prerequisites, rules, bucketBy⟩ := flag
  rw [filterFlag]
  exact congrArg (Flag.mk key enabled salt variations default off prerequisites · bucketBy) h

theorem Unfiltered.isRuleClientSafe {snapshot : RulesetSnapshot} {flag : Flag} (h : Unfiltered snapshot flag) :
    ∀ rule ∈ flag.rules, isRuleClientSafe rule (clientSafeSegments snapshot.segments) = true :=
  List.filter_eq_self.mp h

theorem firstUnmet_congr
    {evaluate evaluate' : String → List String → Except ScriptError EvaluationResult × List String}
    {prerequisites : List Prerequisite}
    (h : ∀ prerequisite ∈ prerequisites, ∀ seen,
      evaluate prerequisite.flagKey seen = evaluate' prerequisite.flagKey seen) (seen : List String) :
    firstUnmet evaluate prerequisites seen = firstUnmet evaluate' prerequisites seen := by
  induction prerequisites generalizing seen with
  | nil => rw [firstUnmet, firstUnmet]
  | cons prerequisite rest ih =>
    rw [firstUnmet, firstUnmet, h prerequisite List.mem_cons_self]
    have hRest := ih fun other hOther => h other (List.mem_cons_of_mem _ hOther)
    cases evaluate' prerequisite.flagKey seen with
    | mk result seen =>
      cases result with
      | error error => rfl
      | ok upstream => simp only [hRest]

section Snapshot

variable {regExp : RegExp} {context : EvaluationContext} {snapshot : RulesetSnapshot}

theorem serveRule_filterFlag (flag : Flag) (safe : List String) (fallback : JsValue) (rule : TargetingRule) :
    serveRule context (compileFlag (filterFlag flag safe)) fallback rule =
      serveRule context (compileFlag flag) fallback rule := rfl

theorem evaluateRules_client (hNodup : (snapshot.segments.map Segment.key).Nodup) (flag : Flag) (fallback : JsValue)
    {rules : List TargetingRule}
    (hSafe : ∀ rule ∈ rules, isRuleClientSafe rule (clientSafeSegments snapshot.segments) = true) :
    evaluateRules regExp context (indexSnapshot (filterSnapshotForKey snapshot .client))
        (compileFlag (filterFlag flag (clientSafeSegments snapshot.segments))) fallback rules =
      evaluateRules regExp context (indexSnapshot snapshot) (compileFlag flag) fallback rules := by
  induction rules with
  | nil => rfl
  | cons rule rest ih =>
    rw [evaluateRules, evaluateRules, matchRule_client hNodup (hSafe rule List.mem_cons_self),
      ih fun other hOther => hSafe other (List.mem_cons_of_mem _ hOther), serveRule_filterFlag]

variable (hNodup : (snapshot.segments.map Segment.key).Nodup)
include hNodup

theorem evaluateInternal_client (levels : Nat) {flagKey : String} (h : UnfilteredFrom snapshot flagKey)
    (fallback : JsValue) (seen : List String) :
    evaluateInternal regExp context (indexSnapshot (filterSnapshotForKey snapshot .client)) levels flagKey
        fallback seen =
      evaluateInternal regExp context (indexSnapshot snapshot) levels flagKey fallback seen := by
  induction levels generalizing flagKey fallback seen with
  | zero => rw [evaluateInternal, evaluateInternal]
  | succ levels ih =>
    rw [evaluateInternal, evaluateInternal, keyGet_flags, keyGet_flags, flagOf_client]
    cases hFlag : flagOf snapshot.flags flagKey with
    | none => rfl
    | some flag =>
      have hUnfiltered := h flagKey flag Relation.ReflTransGen.refl hFlag
      have hUpstream : ∀ seen,
          firstUnmet (evaluateInternal regExp context (indexSnapshot (filterSnapshotForKey snapshot .client)) levels
              · none) flag.prerequisites seen =
            firstUnmet (evaluateInternal regExp context (indexSnapshot snapshot) levels · none)
              flag.prerequisites seen := by
        apply firstUnmet_congr
        intro prerequisite hMem seen
        have hRequires : Requires snapshot.flags flagKey prerequisite.flagKey := ⟨flag, hFlag, prerequisite, hMem, rfl⟩
        exact ih (h.next hRequires) none seen
      have hRules := @evaluateRules_client regExp context _ hNodup flag fallback _ hUnfiltered.isRuleClientSafe
      rw [hUnfiltered.filterFlag_eq] at hRules
      simp only [Option.map_some, hUnfiltered.filterFlag_eq]
      simp only [compileFlag] at hRules hUpstream ⊢
      rw [hUpstream, hRules]

/-- Where nothing is hidden from a flag or from what it requires, the payloads agree on it. -/
theorem evaluateFlag_unfiltered {flagKey : String} (h : UnfilteredFrom snapshot flagKey) (fallback : JsValue) :
    evaluateFlag regExp context (indexSnapshot (filterSnapshotForKey snapshot .client)) flagKey fallback =
      evaluateFlag regExp context (indexSnapshot (filterSnapshotForKey snapshot .server)) flagKey fallback := by
  have hLength : (indexSnapshot (filterSnapshotForKey snapshot .client)).flags.length =
      (indexSnapshot snapshot).flags.length := by
    simp only [indexSnapshot, filterSnapshotForKey, List.length_map]
  have hServer : filterSnapshotForKey snapshot .server = snapshot := rfl
  rw [hServer, evaluateFlag, evaluateFlag, hLength, evaluateInternal_client hNodup _ h]

end Snapshot

/-- "checkout" and "payments" require each other; what is hidden belongs to "internal". -/
def entangled : RulesetSnapshot :=
  { environmentKey := "production"
    version := .ofNat 1
    flags := [guarded "checkout" ["payments"] "pro", guarded "payments" ["checkout"] "pro",
      guarded "internal" [] "staff"]
    segments := [
      { key := "pro"
        when := .condition
          { «attribute» := "plan", operator := .eq, values := [.str "pro"], visibility := .client } },
      { key := "staff", when := serverOnly "email" }]
    servedAt := "" }
where
  guarded (key : String) (required : List String) (segmentKey : String) : Flag :=
    { key, enabled := true, salt := "salt"
      variations := [⟨some (.str "on"), some (.bool true)⟩, ⟨some (.str "off"), some (.bool false)⟩]
      defaultVariationKey := "on"
      offVariationKey := "off"
      prerequisites := required.map fun flagKey => ⟨flagKey, some (.str "on")⟩
      rules := [⟨some (.str segmentKey), none, .segment ⟨segmentKey, false⟩, .variation (some (.str "on"))⟩]
      bucketBy := "key" }

theorem entangled_reach {key : String}
    (h : Relation.ReflTransGen (Requires entangled.flags) "checkout" key) : key ∈ ["checkout", "payments"] := by
  have hStep : ∀ flag ∈ entangled.flags, flag.key ∈ ["checkout", "payments"] →
      ∀ prerequisite ∈ flag.prerequisites, prerequisite.flagKey ∈ ["checkout", "payments"] := by decide
  induction h with
  | refl => exact List.mem_cons_self
  | tail _ hRequires ih =>
    obtain ⟨flag, hFlag, prerequisite, hMem, rfl⟩ := hRequires
    obtain ⟨hListed, rfl⟩ := mem_of_flagOf hFlag
    exact hStep flag hListed ih prerequisite hMem

theorem entangled_unfiltered : UnfilteredFrom entangled "checkout" := by
  have hKept : ∀ flag ∈ entangled.flags, flag.key ∈ ["checkout", "payments"] →
      ∀ rule ∈ flag.rules, isRuleClientSafe rule (clientSafeSegments entangled.segments) = true := by
    decide +kernel
  intro key flag hReach hFlag
  obtain ⟨hListed, rfl⟩ := mem_of_flagOf hFlag
  exact List.filter_eq_self.mpr (hKept flag hListed (entangled_reach hReach))

def visitor : EvaluationContext where
  key := "user"
  attributes := fun «attribute» => if «attribute» = "plan" then some (.str "pro") else none

theorem evaluateFlag_entangled :
    evaluateFlag (fun _ => none) visitor (indexSnapshot (filterSnapshotForKey entangled .client)) "checkout" none =
      evaluateFlag (fun _ => none) visitor (indexSnapshot (filterSnapshotForKey entangled .server)) "checkout"
        none :=
  evaluateFlag_unfiltered (by decide) entangled_unfiltered none

end Flagship.Core
