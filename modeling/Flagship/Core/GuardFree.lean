import Flagship.Core.Served

/-! # What evaluation means without its guards

On rulesets whose references lead into no cycle a flag has a meaning that mentions no guard set:
the truth of a segment and the answer of a flag are defined by recursion along the references.
Sharing is harmless, since a guard set only ever holds the keys above the one being entered.
-/

namespace Flagship.Core

open Lib

theorem segments_wellFounded {segments : List Segment} (hAcyclic : Acyclic segments) :
    WellFounded fun next key => SegmentRefers segments key next := by
  have hFinite : {key | key ∈ segments.map Segment.key}.Finite := List.finite_toSet _
  refine wellFounded_of_acyclic hFinite ?_ hAcyclic
  rintro a b ⟨segment, hListed, rfl, _⟩
  exact List.mem_map_of_mem hListed

def AcyclicFlags (flags : List Flag) : Prop := ∀ key, ¬ Relation.TransGen (Requires flags) key key

theorem flags_wellFounded {flags : List Flag} (hAcyclic : AcyclicFlags flags) :
    WellFounded fun next key => Requires flags key next := by
  have hFinite : {key | key ∈ flags.map Flag.key}.Finite := List.finite_toSet _
  refine wellFounded_of_acyclic hFinite ?_ hAcyclic
  rintro a b ⟨flag, hFlag, _⟩
  obtain ⟨hListed, rfl⟩ := mem_of_flagOf hFlag
  exact List.mem_map_of_mem hListed

section Segments

variable (regExp : RegExp) (context : EvaluationContext) (segments : List Segment)

def referenceHolds (truth : String → Bool) (reference : SegmentRef) : Bool :=
  match segmentOf segments reference.segmentKey with
  | none => false
  | some _ => if reference.negate then !truth reference.segmentKey else truth reference.segmentKey

open Classical in
noncomputable def segmentTruth (hAcyclic : Acyclic segments) : String → Bool :=
  (segments_wellFounded hAcyclic).fix fun key truth =>
    match segmentOf segments key with
    | none => false
    | some segment =>
      treeHolds regExp context (referenceHolds segments fun next =>
        if hRefers : SegmentRefers segments key next then truth next hRefers else false) segment.when

variable {regExp context segments} (hAcyclic : Acyclic segments)

theorem segmentTruth_eq {key : String} {segment : Segment} (h : segmentOf segments key = some segment) :
    segmentTruth regExp context segments hAcyclic key =
      treeHolds regExp context (referenceHolds segments (segmentTruth regExp context segments hAcyclic))
        segment.when := by
  rw [segmentTruth, WellFounded.fix_eq, h]
  apply treeHolds_congr
  intro reference hReference
  obtain ⟨hListed, hName⟩ := mem_of_segmentOf h
  have hRefers : SegmentRefers segments key reference.segmentKey := ⟨segment, hListed, hName, hReference⟩
  simp only [referenceHolds, dif_pos hRefers]

/-- No key that the walk is inside of can come up again below `node`. -/
def Above (segments : List Segment) (seen : List String) (node : RuleNode) : Prop :=
  ∀ key ∈ node.references, ∀ entered ∈ seen, ¬ Relation.ReflTransGen (SegmentRefers segments) key entered

include hAcyclic in
theorem Above.enter {seen : List String} {node : RuleNode} {key : String} {segment : Segment}
    (h : Above segments seen node) (hKey : key ∈ node.references) (hSegment : segmentOf segments key = some segment) :
    Above segments (seen ++ [key]) segment.when := by
  obtain ⟨hListed, hName⟩ := mem_of_segmentOf hSegment
  intro next hNext entered hEntered hReach
  have hRefers : SegmentRefers segments key next := ⟨segment, hListed, hName, hNext⟩
  rcases List.mem_append.mp hEntered with hEarlier | hLast
  · exact h key hKey entered hEarlier (hReach.head hRefers)
  · obtain rfl := List.mem_singleton.mp hLast
    exact hAcyclic _ (Relation.TransGen.head' hRefers hReach)

theorem holdsAt_truth {env : EvaluationEnvironment} (hEnv : ∀ key, keyGet env.segments key = segmentOf segments key)
    {levels : Nat} {seen : List String} {node : RuleNode}
    (hEnough : fresh (env.segments.map Prod.fst) seen < levels) (hAbove : Above segments seen node) :
    holdsAt regExp context env levels node seen =
      treeHolds regExp context (referenceHolds segments (segmentTruth regExp context segments hAcyclic)) node := by
  induction levels generalizing seen node with
  | zero => exact absurd hEnough (Nat.not_lt_zero _)
  | succ levels ih =>
    rw [holdsAt, holdsWith]
    apply treeHolds_congr
    intro reference hReference
    have hNew : reference.segmentKey ∉ seen :=
      fun hSeen => hAbove _ hReference _ hSeen Relation.ReflTransGen.refl
    rw [if_neg hNew, referenceHolds, hEnv]
    cases hSegment : segmentOf segments reference.segmentKey with
    | none => rfl
    | some segment =>
      have hStored : keyGet env.segments reference.segmentKey = some segment := (hEnv _).trans hSegment
      have hShrinks := fresh_append_lt (mem_keys_of_keyGet hStored) hNew
      have hInside := ih (by omega) (hAbove.enter hAcyclic hReference hSegment)
      simp only [hInside, segmentTruth_eq hAcyclic hSegment]

end Segments

section Flags

variable (regExp : RegExp) (context : EvaluationContext) (snapshot : RulesetSnapshot)

noncomputable def ruleHolds (hSegments : Acyclic snapshot.segments) (rule : TargetingRule) : Bool :=
  treeHolds regExp context
    (referenceHolds snapshot.segments (segmentTruth regExp context snapshot.segments hSegments)) rule.when

/-- The answer of a flag, given the answers of the flags it requires. -/
noncomputable def guardFreeStep (hSegments : Acyclic snapshot.segments)
    (upstream : String → Except ScriptError EvaluationResult) (flagKey : String) (fallback : JsValue) :
    Except ScriptError EvaluationResult :=
  match flagOf snapshot.flags flagKey with
  | none => .ok (errorResult fallback s!"unknown flag \"{flagKey}\"")
  | some flag =>
    if !flag.enabled then offResult (compileFlag flag) fallback .off
    else
      match unmet upstream flag.prerequisites with
      | .error error => .error error
      | .ok (some prerequisite) => offResult (compileFlag flag) fallback (.prerequisiteFailed prerequisite.flagKey)
      | .ok none =>
        match flag.rules.find? (ruleHolds regExp context snapshot hSegments) with
        | some rule => serveRule context (compileFlag flag) fallback rule
        | none => defaultResult (compileFlag flag) fallback

open Classical in
noncomputable def guardFree (hSegments : Acyclic snapshot.segments) (hFlags : AcyclicFlags snapshot.flags) :
    String → JsValue → Except ScriptError EvaluationResult :=
  (flags_wellFounded hFlags).fix fun flagKey upstream =>
    guardFreeStep regExp context snapshot hSegments (fun next =>
      if hRequires : Requires snapshot.flags flagKey next then upstream next hRequires none
      else .error .stackOverflow) flagKey

variable {regExp context snapshot} (hSegments : Acyclic snapshot.segments)

theorem guardFreeStep_congr {upstream upstream' : String → Except ScriptError EvaluationResult} {flagKey : String}
    (h : ∀ next, Requires snapshot.flags flagKey next → upstream next = upstream' next) (fallback : JsValue) :
    guardFreeStep regExp context snapshot hSegments upstream flagKey fallback =
      guardFreeStep regExp context snapshot hSegments upstream' flagKey fallback := by
  rw [guardFreeStep, guardFreeStep]
  cases hFlag : flagOf snapshot.flags flagKey with
  | none => rfl
  | some flag =>
    have hSame : unmet upstream flag.prerequisites = unmet upstream' flag.prerequisites := by
      apply unmet_congr
      intro prerequisite hMem
      exact h _ ⟨flag, hFlag, prerequisite, hMem, rfl⟩
    simp only [hSame]

theorem guardFree_eq (hFlags : AcyclicFlags snapshot.flags) (flagKey : String) (fallback : JsValue) :
    guardFree regExp context snapshot hSegments hFlags flagKey fallback =
      guardFreeStep regExp context snapshot hSegments
        (guardFree regExp context snapshot hSegments hFlags · none) flagKey fallback := by
  rw [guardFree, WellFounded.fix_eq]
  apply guardFreeStep_congr
  intro next hRequires
  rw [dif_pos hRequires]

theorem matchRule_eq_ruleHolds (rule : TargetingRule) :
    matchRule regExp context (indexSnapshot snapshot) rule = ruleHolds regExp context snapshot hSegments rule := by
  rw [matchRule_eq rule (Nat.lt_succ_self _), ruleHolds]
  apply holdsAt_truth hSegments (keyGet_segments snapshot)
  · have hFresh := fresh_le ((indexSnapshot snapshot).segments.map Prod.fst) ([] : List String)
    rw [List.length_map] at hFresh
    omega
  · intro _ _ entered hEntered
    exact absurd hEntered List.not_mem_nil

theorem outcomeStep_eq (upstream : String → Except ScriptError EvaluationResult) (flagKey : String)
    (fallback : JsValue) :
    outcomeStep regExp context (indexSnapshot snapshot) Flag.rules upstream flagKey fallback =
      guardFreeStep regExp context snapshot hSegments upstream flagKey fallback := by
  have hMatch : matchRule regExp context (indexSnapshot snapshot) = ruleHolds regExp context snapshot hSegments :=
    funext (matchRule_eq_ruleHolds hSegments)
  rw [outcomeStep, guardFreeStep, keyGet_flags]
  cases flagOf snapshot.flags flagKey with
  | none => rfl
  | some flag =>
    simp only [Option.map_some, compileFlag]
    cases unmet upstream flag.prerequisites with
    | error error => rfl
    | ok failed =>
      cases failed with
      | some prerequisite => rfl
      | none =>
        simp only [answer, evaluateRules_eq, hMatch]
        cases flag.rules.find? (ruleHolds regExp context snapshot hSegments) with
        | none => rfl
        | some rule => rfl

theorem outcome_eq_guardFree (hFlags : AcyclicFlags snapshot.flags) (flagKey : String) (fallback : JsValue) :
    outcome regExp context (indexSnapshot snapshot) Flag.rules flagKey fallback =
      guardFree regExp context snapshot hSegments hFlags flagKey fallback := by
  induction flagKey using (flags_wellFounded hFlags).induction generalizing fallback with
  | h flagKey ih =>
    have hGrounded : Hereditary (fun _ => True) (Needs (indexSnapshot snapshot)) flagKey :=
      (Hereditary.of_wellFounded (flags_wellFounded hFlags) (fun _ => trivial) flagKey).mono_refers
        fun _ _ hNeeds => needs_iff.mp hNeeds
    rw [outcome_eq hGrounded, outcomeStep_eq hSegments, guardFree_eq]
    apply guardFreeStep_congr
    intro next hRequires
    exact ih next hRequires none

end Flags

/-- Where references lead into no cycle, the guards of evaluation show nowhere in its answers. -/
theorem evaluateFlag_eq_guardFree (regExp : RegExp) (context : EvaluationContext) (snapshot : RulesetSnapshot)
    (hSegments : Acyclic snapshot.segments) (hFlags : AcyclicFlags snapshot.flags) (flagKey : String)
    (fallback : JsValue) :
    evaluateFlag regExp context (indexSnapshot snapshot) flagKey fallback =
      settle fallback (guardFree regExp context snapshot hSegments hFlags flagKey fallback) := by
  have hGrounded : Hereditary (fun _ => True) (Needs (indexSnapshot snapshot)) flagKey :=
    (Hereditary.of_wellFounded (flags_wellFounded hFlags) (fun _ => trivial) flagKey).mono_refers
      fun _ _ hNeeds => needs_iff.mp hNeeds
  rw [evaluateFlag_eq hGrounded, outcome_eq_guardFree hSegments hFlags]

/-- Both references of the rule of "launch" lead to "staff", and both of its prerequisites to
"base". -/
def diamond : RulesetSnapshot :=
  { environmentKey := "production"
    version := .ofNat 1
    flags := [shared "base" [] [], shared "left" ["base"] [], shared "right" ["base"] [],
      shared "launch" ["left", "right"] [.segment ⟨"inside", false⟩, .segment ⟨"outside", true⟩]]
    segments := [
      { key := "staff"
        when := .condition
          { «attribute» := "plan", operator := .eq, values := [.str "staff"], visibility := .client } },
      { key := "inside", when := .segment ⟨"staff", false⟩ },
      { key := "outside", when := .segment ⟨"staff", true⟩ }]
    servedAt := "" }
where
  shared (key : String) (required : List String) (nodes : List RuleNode) : Flag :=
    { key, enabled := true, salt := "salt"
      variations := [⟨some (.str "on"), some (.bool true)⟩, ⟨some (.str "off"), some (.bool false)⟩]
      defaultVariationKey := if nodes.isEmpty then "on" else "off"
      offVariationKey := "off"
      prerequisites := required.map fun flagKey => ⟨flagKey, some (.str "on")⟩
      rules := if nodes.isEmpty then [] else
        [⟨some (.str "staff"), none, .boolean .and nodes, .variation (some (.str "on"))⟩]
      bucketBy := "key" }

def staffMember : EvaluationContext where
  key := "user"
  attributes := fun «attribute» => if «attribute» = "plan" then some (.str "staff") else none

def diamondRank (key : String) : Nat := ["base", "left", "right", "launch", "staff", "inside", "outside"].idxOf key

theorem diamond_acyclic : Acyclic diamond.segments := by
  have hFalls : ∀ segment ∈ diamond.segments, ∀ key ∈ segment.when.references,
      diamondRank key < diamondRank segment.key := by decide
  apply acyclic_of_rank diamondRank
  rintro a b ⟨segment, hListed, rfl, hReference⟩
  exact hFalls segment hListed b hReference

theorem diamond_acyclicFlags : AcyclicFlags diamond.flags := by
  have hFalls : ∀ flag ∈ diamond.flags, ∀ prerequisite ∈ flag.prerequisites,
      diamondRank prerequisite.flagKey < diamondRank flag.key := by decide
  apply acyclic_of_rank diamondRank
  rintro a b ⟨flag, hFlag, prerequisite, hMem, rfl⟩
  obtain ⟨hListed, rfl⟩ := mem_of_flagOf hFlag
  exact hFalls flag hListed prerequisite hMem

theorem diamond_eq_guardFree :
    evaluateFlag (fun _ => none) staffMember (indexSnapshot diamond) "launch" none =
      settle none (guardFree (fun _ => none) staffMember diamond diamond_acyclic diamond_acyclicFlags "launch" none) ∧
    JsValue.strictEquals (some (.str "on"))
      (evaluateFlag (fun _ => none) staffMember (indexSnapshot diamond) "launch" none).variationKey = true :=
  ⟨evaluateFlag_eq_guardFree _ _ diamond diamond_acyclic diamond_acyclicFlags "launch" none, by decide +kernel⟩

end Flagship.Core
