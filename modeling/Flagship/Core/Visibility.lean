import Flagship.Core.Types
import Flagship.Lib.Hereditary
import Flagship.Lib.ScriptMap

/-! # Payload filtering by SDK key kind

The functions of `packages/core/src/visibility.ts`. A rule containing a server-only node is
dropped whole, and a segment reaches a client only when its tree and everything it refers to
are safe; the loop that finds those segments runs to a fixed point.
-/

namespace Flagship.Core

open Lib

inductive KeyKind where
  | client | server
deriving DecidableEq

mutual
def containsServerOnly : RuleNode → Bool
  | .condition c => decide (c.visibility = .server)
  | .boolean _ children => anyServerOnly children
  | .segment _ => false

def anyServerOnly : List RuleNode → Bool
  | [] => false
  | child :: rest => containsServerOnly child || anyServerOnly rest
end

mutual
/-- The keys a tree refers to, added to `into` in the order the walk meets them. -/
def referencedSegments (node : RuleNode) (into : List String) : List String :=
  match node with
  | .segment reference => insertLast into reference.segmentKey
  | .boolean _ children => referencedByChildren children into
  | .condition _ => into

def referencedByChildren (children : List RuleNode) (into : List String) : List String :=
  match children with
  | [] => into
  | child :: rest => referencedByChildren rest (referencedSegments child into)
end

/-- The body of the `for` loop in `clientSafeSegments`; the flag is its `changed`. -/
def visitSegment (state : List String × Bool) (segment : Segment) : List String × Bool :=
  if segment.key ∈ state.1 then state
  else if containsServerOnly segment.when then state
  else if (referencedSegments segment.when []).all (· ∈ state.1) then (state.1 ++ [segment.key], true)
  else state

def visitSegments (segments : List Segment) (safe : List String) : List String × Bool :=
  segments.foldl visitSegment (safe, false)

theorem visitSegment_mem {state : List String × Bool} {segment : Segment} {key : String}
    (h : key ∈ state.1) : key ∈ (visitSegment state segment).1 := by
  unfold visitSegment
  split
  · exact h
  · split
    · exact h
    · split
      · exact List.mem_append_left _ h
      · exact h

theorem foldl_visitSegment_mem {segments : List Segment} {state : List String × Bool} {key : String}
    (h : key ∈ state.1) : key ∈ (segments.foldl visitSegment state).1 := by
  induction segments generalizing state with
  | nil => exact h
  | cons segment rest ih => exact ih (visitSegment_mem h)

theorem foldl_visitSegment_changed {segments : List Segment} {state : List String × Bool}
    (hBefore : state.2 = false) (h : (segments.foldl visitSegment state).2 = true) :
    ∃ segment ∈ segments, segment.key ∉ state.1 ∧ segment.key ∈ (segments.foldl visitSegment state).1 := by
  induction segments generalizing state with
  | nil =>
    rw [List.foldl_nil, hBefore] at h
    cases h
  | cons segment rest ih =>
    rw [List.foldl_cons] at h ⊢
    by_cases hSame : visitSegment state segment = state
    · rw [hSame] at h ⊢
      obtain ⟨found, hMem, hFound⟩ := ih hBefore h
      exact ⟨found, List.mem_cons_of_mem _ hMem, hFound⟩
    · have hVisit : segment.key ∉ state.1 ∧ segment.key ∈ (visitSegment state segment).1 := by
        unfold visitSegment at hSame ⊢
        split at hSame
        · exact absurd rfl hSame
        · split at hSame
          · exact absurd rfl hSame
          · split at hSame
            · simp_all
            · exact absurd rfl hSame
      exact ⟨segment, List.mem_cons_self, hVisit.1, foldl_visitSegment_mem hVisit.2⟩

theorem visitSegments_decreasing {segments : List Segment} {safe : List String}
    (h : (visitSegments segments safe).2 = true) :
    (segments.filter (·.key ∉ (visitSegments segments safe).1)).length <
      (segments.filter (·.key ∉ safe)).length := by
  obtain ⟨segment, hMem, hNew, hAdded⟩ := foldl_visitSegment_changed rfl h
  have hShrinks : segments.filter (·.key ∉ (visitSegments segments safe).1) =
      (segments.filter (·.key ∉ safe)).filter (·.key ∉ (visitSegments segments safe).1) := by
    rw [List.filter_filter]
    apply List.filter_congr
    intro other _
    have hKeeps : other.key ∈ safe → other.key ∈ (visitSegments segments safe).1 :=
      fun hSafe => foldl_visitSegment_mem hSafe
    by_cases hOther : other.key ∈ safe
    · simp [hOther, hKeeps hOther]
    · simp [hOther]
  rw [hShrinks, List.length_filter_lt_length_iff_exists]
  refine ⟨segment, ?_, ?_⟩
  · simpa [hMem] using hNew
  · rw [decide_eq_true_eq, not_not]
    exact hAdded

def clientSafeFrom (segments : List Segment) (safe : List String) : List String :=
  if (visitSegments segments safe).2 = true then
    clientSafeFrom segments (visitSegments segments safe).1
  else (visitSegments segments safe).1
termination_by (segments.filter (·.key ∉ safe)).length
decreasing_by exact visitSegments_decreasing ‹_›

def clientSafeSegments (segments : List Segment) : List String := clientSafeFrom segments []

def isRuleClientSafe (rule : TargetingRule) (safeSegments : List String) : Bool :=
  !containsServerOnly rule.when && (referencedSegments rule.when []).all (· ∈ safeSegments)

def filterFlag (flag : Flag) (safeSegments : List String) : Flag :=
  { flag with rules := flag.rules.filter (isRuleClientSafe · safeSegments) }

def filterSnapshotForKey (snapshot : RulesetSnapshot) : KeyKind → RulesetSnapshot
  | .server => snapshot
  | .client =>
    let safeSegments := clientSafeSegments snapshot.segments
    { snapshot with
      flags := snapshot.flags.map (filterFlag · safeSegments)
      segments := snapshot.segments.filter (·.key ∈ safeSegments) }

def segmentLeaks (segments : List Segment) : List String :=
  (segments.filter (containsServerOnly ·.when)).map fun segment => s!"segment \"{segment.key}\""

/-- The lines one rule contributes. Printing the rule's id is the only step that can throw,
and it is reached only when there is a line to print. -/
def ruleLeaks (flag : Flag) (segmentKeys : List String) (rule : TargetingRule) :
    Except ScriptError (List String) := do
  let location := (JsValue.toText rule.id).map fun id => s!"flag \"{flag.key}\" rule \"{id}\""
  let serverOnly ← if containsServerOnly rule.when then location.map ([·]) else .ok []
  let missing ← ((referencedSegments rule.when []).filter (· ∉ segmentKeys)).mapM fun segmentKey =>
    location.map fun location => s!"{location} references missing segment \"{segmentKey}\""
  .ok (serverOnly ++ missing)

def flagLeaks (segmentKeys : List String) (flag : Flag) : Except ScriptError (List String) := do
  let leaks ← flag.rules.mapM (ruleLeaks flag segmentKeys)
  .ok leaks.flatten

def findServerOnlyLeaks (snapshot : RulesetSnapshot) : Except ScriptError (List String) := do
  let leaks ← snapshot.flags.mapM (flagLeaks (snapshot.segments.map Segment.key))
  .ok (segmentLeaks snapshot.segments ++ leaks.flatten)

/-! ## What the walks compute -/

theorem containsServerOnly_iff (node : RuleNode) : containsServerOnly node = true ↔ node.HasServerCondition := by
  induction node using RuleNode.induct with
  | condition c => simp [containsServerOnly, RuleNode.HasServerCondition, RuleNode.conditions]
  | boolean kind children ih =>
    have hAny : anyServerOnly children = true ↔ ∃ child ∈ children, containsServerOnly child = true := by
      clear ih
      induction children with
      | nil => simp [anyServerOnly]
      | cons child rest ihRest => simp [anyServerOnly, ihRest]
    rw [containsServerOnly, hAny]
    constructor
    · rintro ⟨child, hMem, hChild⟩
      obtain ⟨c, hc, hVisibility⟩ := (ih child hMem).mp hChild
      exact ⟨c, RuleNode.mem_conditions_boolean.mpr ⟨child, hMem, hc⟩, hVisibility⟩
    · rintro ⟨c, hc, hVisibility⟩
      obtain ⟨child, hMem, hChild⟩ := RuleNode.mem_conditions_boolean.mp hc
      exact ⟨child, hMem, (ih child hMem).mpr ⟨c, hChild, hVisibility⟩⟩
  | segment reference => simp [containsServerOnly, RuleNode.HasServerCondition, RuleNode.conditions]

theorem mem_referencedSegments (node : RuleNode) (key : String) :
    ∀ into, key ∈ referencedSegments node into ↔ key ∈ into ∨ key ∈ node.references := by
  induction node using RuleNode.induct with
  | condition c => simp [referencedSegments, RuleNode.references]
  | boolean kind children ih =>
    have hChildren : ∀ into, key ∈ referencedByChildren children into ↔
        key ∈ into ∨ ∃ child ∈ children, key ∈ child.references := by
      induction children with
      | nil => simp [referencedByChildren]
      | cons child rest ihRest =>
        intro into
        rw [referencedByChildren, ihRest (fun other hMem => ih other (List.mem_cons_of_mem _ hMem)),
          ih child List.mem_cons_self]
        simp [or_assoc]
    intro into
    rw [referencedSegments, hChildren, RuleNode.mem_references_boolean]
  | segment reference =>
    intro into
    rw [referencedSegments, mem_insertLast, RuleNode.references, List.mem_singleton]

theorem all_referencedSegments (node : RuleNode) (safe : List String) :
    (referencedSegments node []).all (· ∈ safe) = true ↔ ∀ key ∈ node.references, key ∈ safe := by
  simp [List.all_eq_true, mem_referencedSegments]

theorem isRuleClientSafe_iff (rule : TargetingRule) (safe : List String) :
    isRuleClientSafe rule safe = true ↔
      ¬ rule.when.HasServerCondition ∧ ∀ key ∈ rule.when.references, key ∈ safe := by
  rw [isRuleClientSafe, Bool.and_eq_true, all_referencedSegments, Bool.not_eq_true',
    ← containsServerOnly_iff, Bool.not_eq_true]

end Flagship.Core
