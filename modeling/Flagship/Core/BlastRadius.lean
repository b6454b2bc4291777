import Flagship.Core.ErroredPrerequisite
import Flagship.Core.Unfiltered

/-! # What the result of a flag depends on

The flags a flag requires, the segments their rules lead into, and the attributes that all of
these name: two snapshots and two contexts that agree there give the same result. Both graphs may
have cycles, so the two runs are compared call by call, each with its guard sets.
-/

namespace Flagship.Core

open Lib

section Reach

variable (snapshot : RulesetSnapshot) (flagKey : String)

/-- The flag and what it requires, at any distance. -/
def ReachesFlag (key : String) : Prop := Relation.ReflTransGen (Requires snapshot.flags) flagKey key

inductive ReachesSegment : String → Prop where
  | rule {reached key : String} {flag : Flag} {rule : TargetingRule} (hReached : ReachesFlag snapshot flagKey reached)
      (hFlag : flagOf snapshot.flags reached = some flag) (hRule : rule ∈ flag.rules)
      (hReference : key ∈ rule.when.references) : ReachesSegment key
  | nested {reached key : String} {segment : Segment} (hReached : ReachesSegment reached)
      (hSegment : segmentOf snapshot.segments reached = some segment)
      (hReference : key ∈ segment.when.references) : ReachesSegment key

/-- The attributes that decide something on the way. -/
inductive Names : String → Prop where
  | bucketBy {reached : String} {flag : Flag} (hReached : ReachesFlag snapshot flagKey reached)
      (hFlag : flagOf snapshot.flags reached = some flag) : Names flag.bucketBy
  | rule {reached : String} {flag : Flag} {rule : TargetingRule} {c : Condition}
      (hReached : ReachesFlag snapshot flagKey reached) (hFlag : flagOf snapshot.flags reached = some flag)
      (hRule : rule ∈ flag.rules) (hCondition : c ∈ rule.when.conditions) : Names c.attribute
  | segment {reached : String} {segment : Segment} {c : Condition}
      (hReached : ReachesSegment snapshot flagKey reached)
      (hSegment : segmentOf snapshot.segments reached = some segment)
      (hCondition : c ∈ segment.when.conditions) : Names c.attribute

/-- The other snapshot defines alike, or leaves undefined alike, all that the flag reaches. -/
structure SameReach (other : RulesetSnapshot) : Prop where
  flags : ∀ key, ReachesFlag snapshot flagKey key → flagOf snapshot.flags key = flagOf other.flags key
  segments : ∀ key, ReachesSegment snapshot flagKey key →
    segmentOf snapshot.segments key = segmentOf other.segments key

structure SameNamed (context other : EvaluationContext) : Prop where
  key : context.key = other.key
  attributes : ∀ «attribute», Names snapshot flagKey «attribute» →
    context.attributes «attribute» = other.attributes «attribute»

end Reach

variable {regExp : RegExp} {context context' : EvaluationContext} {snapshot other : RulesetSnapshot}
variable {flagKey : String}

theorem SameNamed.resolveAttribute_eq (h : SameNamed snapshot flagKey context context') {name : String}
    (hNames : Names snapshot flagKey name) : resolveAttribute context name = resolveAttribute context' name := by
  rw [resolveAttribute, resolveAttribute, h.key, h.attributes name hNames]

theorem matchRule_frame (hReach : SameReach snapshot flagKey other)
    (hNamed : SameNamed snapshot flagKey context context')
    {reached : String} {flag : Flag} {rule : TargetingRule} (hReached : ReachesFlag snapshot flagKey reached)
    (hFlag : flagOf snapshot.flags reached = some flag) (hRule : rule ∈ flag.rules) :
    matchRule regExp context (indexSnapshot snapshot) rule = matchRule regExp context' (indexSnapshot other) rule := by
  have hLevels : ∃ levels, (indexSnapshot snapshot).segments.length < levels ∧
      (indexSnapshot other).segments.length < levels :=
    ⟨max (indexSnapshot snapshot).segments.length (indexSnapshot other).segments.length + 1, by omega, by omega⟩
  obtain ⟨levels, hHere, hThere⟩ := hLevels
  rw [matchRule_eq rule hHere, matchRule_eq rule hThere]
  apply holdsAt_frame (ReachesSegment snapshot flagKey)
  · exact hReach.segments
  · intro key segment hKey hSegment
    constructor
    · intro reference hReference
      exact .nested hKey hSegment hReference
    · intro c hCondition
      exact hNamed.resolveAttribute_eq (.segment hKey hSegment hCondition)
  · intro reference hReference
    exact .rule hReached hFlag hRule hReference
  · intro c hCondition
    exact hNamed.resolveAttribute_eq (.rule hReached hFlag hRule hCondition)

theorem serveRule_frame (hNamed : SameNamed snapshot flagKey context context') {reached : String} {flag : Flag}
    (hReached : ReachesFlag snapshot flagKey reached) (hFlag : flagOf snapshot.flags reached = some flag)
    (fallback : JsValue) (rule : TargetingRule) :
    serveRule context (compileFlag flag) fallback rule = serveRule context' (compileFlag flag) fallback rule := by
  have hAttribute : resolveAttribute context flag.bucketBy = resolveAttribute context' flag.bucketBy :=
    hNamed.resolveAttribute_eq (.bucketBy hReached hFlag)
  have hBucketKey : resolveBucketKey (compileFlag flag).flag context =
      resolveBucketKey (compileFlag flag).flag context' := by
    rw [resolveBucketKey, resolveBucketKey, compileFlag, hAttribute]
  rw [serveRule, serveRule, hBucketKey]

theorem evaluateRules_frame (hReach : SameReach snapshot flagKey other)
    (hNamed : SameNamed snapshot flagKey context context') {reached : String} {flag : Flag}
    (hReached : ReachesFlag snapshot flagKey reached) (hFlag : flagOf snapshot.flags reached = some flag)
    (fallback : JsValue) :
    evaluateRules regExp context (indexSnapshot snapshot) (compileFlag flag) fallback flag.rules =
      evaluateRules regExp context' (indexSnapshot other) (compileFlag flag) fallback flag.rules := by
  have hRules : ∀ rules : List TargetingRule, (∀ rule ∈ rules, rule ∈ flag.rules) →
      evaluateRules regExp context (indexSnapshot snapshot) (compileFlag flag) fallback rules =
        evaluateRules regExp context' (indexSnapshot other) (compileFlag flag) fallback rules := by
    intro rules hListed
    induction rules with
    | nil => rfl
    | cons rule rest ih =>
      rw [evaluateRules, evaluateRules,
        matchRule_frame hReach hNamed hReached hFlag (hListed rule List.mem_cons_self),
        serveRule_frame hNamed hReached hFlag, ih fun other hOther => hListed other (List.mem_cons_of_mem _ hOther)]
  exact hRules flag.rules fun rule hRule => hRule

/-- The calls that a run from the flag makes. -/
def Call.Within (snapshot : RulesetSnapshot) (flagKey : String) : Call → Prop
  | .flag key _ => ReachesFlag snapshot flagKey key
  | .prerequisites remaining => ∀ prerequisite ∈ remaining, ReachesFlag snapshot flagKey prerequisite.flagKey

theorem within_prerequisites {reached : String} {compiled : CompiledFlag}
    (hReached : ReachesFlag snapshot flagKey reached)
    (hFlag : keyGet (indexSnapshot snapshot).flags reached = some compiled) :
    (Call.prerequisites compiled.flag.prerequisites).Within snapshot flagKey := by
  intro prerequisite hMem
  rw [keyGet_flags] at hFlag
  obtain ⟨flag, hListed, rfl⟩ := Option.map_eq_some_iff.mp hFlag
  exact hReached.tail ⟨flag, hListed, prerequisite, hMem, rfl⟩

/-- A finished run on the one side is a finished run on the other: the guard sets stay in step. -/
theorem Evaluates.frame (hReach : SameReach snapshot flagKey other)
    (hNamed : SameNamed snapshot flagKey context context') {call : Call} {seen after : List String}
    {result : call.Answer} (h : Evaluates regExp context (indexSnapshot snapshot) call seen result after)
    (hWithin : call.Within snapshot flagKey) :
    Evaluates regExp context' (indexSnapshot other) call seen result after := by
  have hSame : ∀ key, ReachesFlag snapshot flagKey key →
      keyGet (indexSnapshot snapshot).flags key = keyGet (indexSnapshot other).flags key := by
    intro key hReached
    rw [keyGet_flags, keyGet_flags, hReach.flags key hReached]
  induction h with
  | unknown hFlag => exact .unknown ((hSame _ hWithin).symm.trans hFlag)
  | cycle hFlag hSeen => exact .cycle ((hSame _ hWithin).symm.trans hFlag) hSeen
  | disabled hFlag hNew hEnabled => exact .disabled ((hSame _ hWithin).symm.trans hFlag) hNew hEnabled
  | thrown hFlag hNew hEnabled _ ih =>
    exact .thrown ((hSame _ hWithin).symm.trans hFlag) hNew hEnabled (ih (within_prerequisites hWithin hFlag))
  | unmet hFlag hNew hEnabled _ ih =>
    exact .unmet ((hSame _ hWithin).symm.trans hFlag) hNew hEnabled (ih (within_prerequisites hWithin hFlag))
  | @rules reached fallback seen inside compiled result hFlag hNew hEnabled hLoop hRules ih =>
    have hCompiled := hFlag
    rw [keyGet_flags] at hCompiled
    obtain ⟨flag, hListed, rfl⟩ := Option.map_eq_some_iff.mp hCompiled
    have hResult : evaluateRules regExp context' (indexSnapshot other) (compileFlag flag) fallback flag.rules =
        result := (evaluateRules_frame hReach hNamed hWithin hListed fallback).symm.trans hRules.computes
    rw [← hResult]
    exact .rules ((hSame _ hWithin).symm.trans hFlag) hNew hEnabled (ih (within_prerequisites hWithin hFlag))
      (decides_total _)
  | done => exact .done
  | threw _ ih => exact .threw (ih (hWithin _ List.mem_cons_self))
  | refused _ hOther ih => exact .refused (ih (hWithin _ List.mem_cons_self)) hOther
  | met _ hServed _ ihUpstream ihRest =>
    exact .met (ihUpstream (hWithin _ List.mem_cons_self)) hServed
      (ihRest fun prerequisite hMem => hWithin prerequisite (List.mem_cons_of_mem _ hMem))

/-- An edit that leaves what a flag reaches as it was leaves the result of the flag as it was, for
contexts that agree on the attributes named there. -/
theorem evaluateFlag_frame (regExp : RegExp) (context context' : EvaluationContext) (snapshot other : RulesetSnapshot)
    (flagKey : String) (fallback : JsValue) (hReach : SameReach snapshot flagKey other)
    (hNamed : SameNamed snapshot flagKey context context') :
    evaluateFlag regExp context (indexSnapshot snapshot) flagKey fallback =
      evaluateFlag regExp context' (indexSnapshot other) flagKey fallback := by
  obtain ⟨result, hRun⟩ : ∃ result, Evaluates regExp context (indexSnapshot snapshot) (.flag flagKey fallback) []
      result [] := evaluates_total _ _
  have hWithin : (Call.flag flagKey fallback).Within snapshot flagKey := Relation.ReflTransGen.refl
  rw [evaluateFlag_of_evaluates hRun, evaluateFlag_of_evaluates (hRun.frame hReach hNamed hWithin)]

/-- What "checkout" is entangled with, without the internal flag and its segment. -/
def trimmed : RulesetSnapshot :=
  { entangled with
    flags := (entangled.flags.filter (·.key ≠ "internal")).reverse
    segments := entangled.segments.filter (·.key ≠ "staff") }

theorem entangled_segments {key : String} (h : ReachesSegment entangled "checkout" key) : key = "pro" := by
  have hRules : ∀ flag ∈ entangled.flags, flag.key ∈ ["checkout", "payments"] →
      ∀ rule ∈ flag.rules, ∀ key ∈ rule.when.references, key = "pro" := by decide
  have hSegments : ∀ segment ∈ entangled.segments, ∀ key ∈ segment.when.references, key = "pro" := by decide
  cases h with
  | rule hReached hFlag hRule hReference =>
    obtain ⟨hListed, rfl⟩ := mem_of_flagOf hFlag
    exact hRules _ hListed (entangled_reach hReached) _ hRule _ hReference
  | nested _ hSegment hReference => exact hSegments _ (mem_of_segmentOf hSegment).1 _ hReference

theorem entangled_names {name : String} (h : Names entangled "checkout" name) : name = "key" ∨ name = "plan" := by
  have hFlags : ∀ flag ∈ entangled.flags, flag.bucketBy = "key" ∧
      ∀ rule ∈ flag.rules, ∀ c ∈ rule.when.conditions, c.attribute = "plan" := by decide
  have hSegments : ∀ segment ∈ entangled.segments, segment.key = "pro" →
      ∀ c ∈ segment.when.conditions, c.attribute = "plan" := by decide
  cases h with
  | bucketBy _ hFlag => exact Or.inl (hFlags _ (mem_of_flagOf hFlag).1).1
  | rule _ hFlag hRule hCondition => exact Or.inr ((hFlags _ (mem_of_flagOf hFlag).1).2 _ hRule _ hCondition)
  | segment hReached hSegment hCondition =>
    obtain ⟨hListed, rfl⟩ := mem_of_segmentOf hSegment
    exact Or.inr (hSegments _ hListed (entangled_segments hReached) _ hCondition)

theorem entangled_sameReach : SameReach entangled "checkout" trimmed where
  flags key hReached := by
    have hKey : key = "checkout" ∨ key = "payments" := by simpa using entangled_reach hReached
    rcases hKey with rfl | rfl
    · rfl
    · rfl
  segments key hReached := by
    obtain rfl := entangled_segments hReached
    rfl

/-- The visitor with an address that only the internal flag asks for. -/
def addressed : EvaluationContext where
  key := visitor.key
  attributes := fun name => if name = "email" then some (.str "a@example.com") else visitor.attributes name

theorem entangled_sameNamed : SameNamed entangled "checkout" visitor addressed where
  key := rfl
  attributes name hNames := by
    rcases entangled_names hNames with rfl | rfl
    · rfl
    · rfl

theorem evaluateFlag_trimmed :
    evaluateFlag (fun _ => none) visitor (indexSnapshot entangled) "checkout" none =
      evaluateFlag (fun _ => none) addressed (indexSnapshot trimmed) "checkout" none :=
  evaluateFlag_frame _ _ _ _ _ _ _ entangled_sameReach entangled_sameNamed

end Flagship.Core
