import Flagship.Core.ClientSafe
import Flagship.Core.Evaluate
import Flagship.Lib.GuardSet

/-! # What matching a rule computes

The guard set comes back unchanged from every walk, so the walk is a function of the set it
was given; the answer does not depend on how many levels it may go down once there are enough,
and it depends on an environment only through the segments that the tree reaches.
-/

namespace Flagship.Core

open Lib

section Tree

variable (regExp : RegExp) (context : EvaluationContext)

mutual
def treeHolds (holds : SegmentRef → Bool) : RuleNode → Bool
  | .condition c => applyOperator regExp c.operator (resolveAttribute context c.attribute) c.values
  | .boolean .and children => everyHolds holds children
  | .boolean .or children => someHolds holds children
  | .boolean .not children => !everyHolds holds children
  | .segment reference => holds reference

def everyHolds (holds : SegmentRef → Bool) : List RuleNode → Bool
  | [] => true
  | child :: rest => treeHolds holds child && everyHolds holds rest

def someHolds (holds : SegmentRef → Bool) : List RuleNode → Bool
  | [] => false
  | child :: rest => treeHolds holds child || someHolds holds rest
end

variable {regExp context}

theorem everyHolds_eq (holds : SegmentRef → Bool) (children : List RuleNode) :
    everyHolds regExp context holds children = (children.map (treeHolds regExp context holds)).all id := by
  induction children with
  | nil => rw [everyHolds, List.map_nil, List.all_nil]
  | cons child rest ih => rw [everyHolds, ih, List.map_cons, List.all_cons, id]

theorem someHolds_eq (holds : SegmentRef → Bool) (children : List RuleNode) :
    someHolds regExp context holds children = (children.map (treeHolds regExp context holds)).any id := by
  induction children with
  | nil => rw [someHolds, List.map_nil, List.any_nil]
  | cons child rest ih => rw [someHolds, ih, List.map_cons, List.any_cons, id]

theorem matchEvery_eq {enter : Enter} {holds : SegmentRef → Bool} {seen : Option (List String)}
    {children : List RuleNode}
    (hChild : ∀ child ∈ children,
      matchTree regExp context enter child seen = (treeHolds regExp context holds child, seen)) :
    matchEvery regExp context enter children seen = (everyHolds regExp context holds children, seen) := by
  induction children with
  | nil => rw [matchEvery, everyHolds]
  | cons child rest ih =>
    rw [matchEvery, everyHolds, hChild child List.mem_cons_self]
    cases treeHolds regExp context holds child with
    | false => rfl
    | true => exact ih fun other hOther => hChild other (List.mem_cons_of_mem _ hOther)

theorem matchSome_eq {enter : Enter} {holds : SegmentRef → Bool} {seen : Option (List String)}
    {children : List RuleNode}
    (hChild : ∀ child ∈ children,
      matchTree regExp context enter child seen = (treeHolds regExp context holds child, seen)) :
    matchSome regExp context enter children seen = (someHolds regExp context holds children, seen) := by
  induction children with
  | nil => rw [matchSome, someHolds]
  | cons child rest ih =>
    rw [matchSome, someHolds, hChild child List.mem_cons_self]
    cases treeHolds regExp context holds child with
    | true => rfl
    | false => exact ih fun other hOther => hChild other (List.mem_cons_of_mem _ hOther)

theorem matchTree_eq {enter : Enter} {holds : SegmentRef → Bool} {seen : Option (List String)}
    (hEnter : ∀ reference, enter reference seen = (holds reference, seen)) (node : RuleNode) :
    matchTree regExp context enter node seen = (treeHolds regExp context holds node, seen) := by
  induction node using RuleNode.induct with
  | condition c => rw [matchTree, treeHolds]
  | boolean kind children ih =>
    cases kind with
    | and => rw [matchTree, treeHolds, matchEvery_eq ih]
    | or => rw [matchTree, treeHolds, matchSome_eq ih]
    | not => rw [matchTree, treeHolds, matchEvery_eq ih]
  | segment reference => rw [matchTree, treeHolds, hEnter]

variable {context' : EvaluationContext}

theorem everyHolds_congr {holds holds' : SegmentRef → Bool} {children : List RuleNode}
    (hChild : ∀ child ∈ children, treeHolds regExp context holds child = treeHolds regExp context' holds' child) :
    everyHolds regExp context holds children = everyHolds regExp context' holds' children := by
  rw [everyHolds_eq, everyHolds_eq, List.map_congr_left hChild]

theorem someHolds_congr {holds holds' : SegmentRef → Bool} {children : List RuleNode}
    (hChild : ∀ child ∈ children, treeHolds regExp context holds child = treeHolds regExp context' holds' child) :
    someHolds regExp context holds children = someHolds regExp context' holds' children := by
  rw [someHolds_eq, someHolds_eq, List.map_congr_left hChild]

/-- A tree reads the attributes its conditions name and the segments it refers to, and nothing else. -/
theorem treeHolds_frame {holds holds' : SegmentRef → Bool} {node : RuleNode}
    (hConditions : ∀ c ∈ node.conditions,
      resolveAttribute context c.attribute = resolveAttribute context' c.attribute)
    (hReferences : ∀ reference, reference.segmentKey ∈ node.references → holds reference = holds' reference) :
    treeHolds regExp context holds node = treeHolds regExp context' holds' node := by
  induction node using RuleNode.induct with
  | condition c => rw [treeHolds, treeHolds, hConditions c (List.mem_singleton.mpr rfl)]
  | boolean kind children ih =>
    have hChild : ∀ child ∈ children,
        treeHolds regExp context holds child = treeHolds regExp context' holds' child := by
      intro child hMem
      apply ih child hMem
      · intro c hCondition
        exact hConditions c (RuleNode.mem_conditions_boolean.mpr ⟨child, hMem, hCondition⟩)
      · intro reference hReference
        exact hReferences reference (RuleNode.mem_references_boolean.mpr ⟨child, hMem, hReference⟩)
    cases kind with
    | and => rw [treeHolds, treeHolds, everyHolds_congr hChild]
    | or => rw [treeHolds, treeHolds, someHolds_congr hChild]
    | not => rw [treeHolds, treeHolds, everyHolds_congr hChild]
  | segment reference =>
    rw [treeHolds, treeHolds]
    exact hReferences reference (List.mem_singleton.mpr rfl)

theorem treeHolds_congr {holds holds' : SegmentRef → Bool} {node : RuleNode}
    (h : ∀ reference, reference.segmentKey ∈ node.references → holds reference = holds' reference) :
    treeHolds regExp context holds node = treeHolds regExp context holds' node :=
  treeHolds_frame (fun _ _ => rfl) h

end Tree

section Levels

variable (regExp : RegExp) (context : EvaluationContext) (env : EvaluationEnvironment)

/-- Matching with `broken` for the answer at a reference that is refused: inside the segment it
names, or to no segment. -/
def holdsWith (broken : SegmentRef → List String → Bool) : Nat → RuleNode → List String → Bool
  | 0, _, _ => false
  | levels + 1, node, seen =>
    treeHolds regExp context (fun reference =>
      if reference.segmentKey ∈ seen then broken reference seen
      else
        match keyGet env.segments reference.segmentKey with
        | none => broken reference seen
        | some segment =>
          let matched := holdsWith broken levels segment.when (seen ++ [reference.segmentKey])
          if reference.negate then !matched else matched) node

/-- `matchNode` as a function of the path of segments it is inside. -/
abbrev holdsAt := holdsWith regExp context env fun _ _ => false

variable {regExp context env} {broken : SegmentRef → List String → Bool}

/-- The guard set is restored on every path, whether or not there was one to begin with. -/
theorem matchNode_eq (levels : Nat) (node : RuleNode) (seenSegments : Option (List String)) :
    matchNode regExp context env levels node seenSegments =
      (holdsAt regExp context env levels node (seenSegments.getD []), seenSegments) := by
  induction levels generalizing node seenSegments with
  | zero => rw [matchNode, holdsAt, holdsWith]
  | succ levels ih =>
    rw [matchNode, holdsAt, holdsWith]
    apply matchTree_eq
    intro reference
    simp only
    split
    · rfl
    · rename_i hNew
      cases hSegment : keyGet env.segments reference.segmentKey with
      | none => rfl
      | some segment =>
        simp only [ih, Option.getD_some]
        cases seenSegments with
        | none => rfl
        | some seen =>
          simp only [Option.getD_some] at hNew
          simp only [Option.bind_some, Option.map_some, Option.getD_some, erase_append_singleton hNew]

theorem holdsWith_stable {levels more : Nat} {node : RuleNode} {seen : List String}
    (hEnough : fresh (env.segments.map Prod.fst) seen < levels) (hMore : levels ≤ more) :
    holdsWith regExp context env broken levels node seen = holdsWith regExp context env broken more node seen := by
  induction levels generalizing more node seen with
  | zero => exact absurd hEnough (Nat.not_lt_zero _)
  | succ levels ih =>
    obtain ⟨more, rfl⟩ := Nat.exists_eq_add_one_of_ne_zero (show more ≠ 0 by omega)
    rw [holdsWith, holdsWith]
    apply treeHolds_congr
    intro reference _
    split
    · rfl
    · rename_i hNew
      cases hSegment : keyGet env.segments reference.segmentKey with
      | none => rfl
      | some segment =>
        have hShrinks := fresh_append_lt (mem_keys_of_keyGet hSegment) hNew
        have hInside : holdsWith regExp context env broken levels segment.when (seen ++ [reference.segmentKey]) =
            holdsWith regExp context env broken more segment.when (seen ++ [reference.segmentKey]) :=
          ih (by omega) (by omega)
        simp only [hInside]

end Levels

section Visits

variable (env : EvaluationEnvironment)

inductive Visits (root : RuleNode) : RuleNode → List String → Prop where
  | root : Visits root root []
  | child {kind : BooleanKind} {children : List RuleNode} {child : RuleNode} {seen : List String}
      (hParent : Visits root (.boolean kind children) seen) (hChild : child ∈ children) : Visits root child seen
  | segment {reference : SegmentRef} {segment : Segment} {seen : List String}
      (hReference : Visits root (.segment reference) seen) (hNew : reference.segmentKey ∉ seen)
      (hSegment : keyGet env.segments reference.segmentKey = some segment) :
      Visits root segment.when (seen ++ [reference.segmentKey])

/-- One of the two branches that answer a reference with false: inside its segment, or no such
segment. -/
def FailsClosed (node : RuleNode) (seen : List String) : Prop :=
  ∃ reference, node = .segment reference ∧
    (reference.segmentKey ∈ seen ∨ keyGet env.segments reference.segmentKey = none)

variable {env} {regExp : RegExp} {context : EvaluationContext}

theorem Visits.reference {root node : RuleNode} {seen : List String} (h : Visits env root node seen) :
    ∀ reference : SegmentRef, reference.segmentKey ∈ node.references →
      ∃ found : SegmentRef, found.segmentKey = reference.segmentKey ∧ Visits env root (.segment found) seen := by
  induction node using RuleNode.induct with
  | condition c =>
    intro reference hMem
    cases hMem
  | boolean kind children ih =>
    intro reference hMem
    obtain ⟨child, hChild, hReference⟩ := RuleNode.mem_references_boolean.mp hMem
    exact ih child hChild (Visits.child h hChild) reference hReference
  | segment found =>
    intro reference hMem
    exact ⟨found, (List.mem_singleton.mp hMem).symm, h⟩

theorem not_failsClosed {snapshot : RulesetSnapshot} (hClosed : Closed snapshot)
    (hAcyclic : Acyclic snapshot.segments) {root : RuleNode}
    (hRoot : ∀ key ∈ root.references, key ∈ snapshot.segments.map Segment.key) {node : RuleNode}
    {seen : List String} (h : Visits (indexSnapshot snapshot) root node seen) :
    ¬ FailsClosed (indexSnapshot snapshot) node seen := by
  have hInvariant : ∀ key ∈ node.references, key ∈ snapshot.segments.map Segment.key ∧
      ∀ entered ∈ seen, Relation.TransGen (SegmentRefers snapshot.segments) entered key := by
    induction h with
    | root =>
      intro key hKey
      exact ⟨hRoot key hKey, fun entered hMem => absurd hMem List.not_mem_nil⟩
    | child _ hChild ih =>
      intro key hKey
      exact ih key (RuleNode.mem_references_boolean.mpr ⟨_, hChild, hKey⟩)
    | @segment reference segment seen _ _ hSegment ih =>
      intro key hKey
      obtain ⟨hListed, hName⟩ := mem_of_segmentOf hSegment
      have hStep : SegmentRefers snapshot.segments reference.segmentKey key := ⟨segment, hListed, hName, hKey⟩
      refine ⟨hClosed.2 segment hListed key hKey, ?_⟩
      intro entered hMem
      rcases List.mem_append.mp hMem with hMem | hLast
      · exact ((ih _ (List.mem_singleton.mpr rfl)).2 entered hMem).tail hStep
      · obtain rfl := List.mem_singleton.mp hLast
        exact Relation.TransGen.single hStep
  rintro ⟨reference, rfl, hInside | hUnknown⟩
  · exact hAcyclic _ ((hInvariant _ (List.mem_singleton.mpr rfl)).2 _ hInside)
  · obtain ⟨segment, hSegment⟩ := exists_segmentOf (hInvariant _ (List.mem_singleton.mpr rfl)).1
    have hStored : keyGet (indexSnapshot snapshot).segments reference.segmentKey = some segment := hSegment
    rw [hUnknown] at hStored
    cases hStored

end Visits

section Agree

variable {regExp : RegExp} {context context' : EvaluationContext} {env env' : EvaluationEnvironment}

/-- Two runs that meet the same segments and the same attributes agree, level by level. -/
theorem holdsAt_frame (keys : String → Prop)
    (hAgree : ∀ key, keys key → keyGet env.segments key = keyGet env'.segments key)
    (hClosed : ∀ key segment, keys key → keyGet env.segments key = some segment →
      (∀ reference ∈ segment.when.references, keys reference) ∧
        ∀ c ∈ segment.when.conditions, resolveAttribute context c.attribute = resolveAttribute context' c.attribute)
    {levels : Nat} {node : RuleNode} (hReferences : ∀ reference ∈ node.references, keys reference)
    (hConditions : ∀ c ∈ node.conditions,
      resolveAttribute context c.attribute = resolveAttribute context' c.attribute) (seen : List String) :
    holdsAt regExp context env levels node seen = holdsAt regExp context' env' levels node seen := by
  induction levels generalizing node seen with
  | zero => rw [holdsAt, holdsWith, holdsAt, holdsWith]
  | succ levels ih =>
    rw [holdsAt, holdsWith, holdsAt, holdsWith]
    apply treeHolds_frame hConditions
    intro reference hReference
    have hKey := hReferences _ hReference
    split
    · rfl
    · rw [← hAgree _ hKey]
      cases hSegment : keyGet env.segments reference.segmentKey with
      | none => rfl
      | some segment =>
        obtain ⟨hInside, hNamed⟩ := hClosed _ segment hKey hSegment
        simp only [ih hInside hNamed]

theorem holdsAt_agree (keys : String → Prop)
    (hAgree : ∀ key, keys key → keyGet env.segments key = keyGet env'.segments key)
    (hClosed : ∀ key segment, keys key → keyGet env.segments key = some segment →
      ∀ reference ∈ segment.when.references, keys reference)
    {levels : Nat} {node : RuleNode} (hNode : ∀ reference ∈ node.references, keys reference) (seen : List String) :
    holdsAt regExp context env levels node seen = holdsAt regExp context env' levels node seen :=
  holdsAt_frame keys hAgree (fun key segment hKey hSegment => ⟨hClosed key segment hKey hSegment, fun _ _ => rfl⟩)
    hNode (fun _ _ => rfl) seen

theorem matchRule_eq (rule : TargetingRule) {levels : Nat} (hLevels : env.segments.length < levels) :
    matchRule regExp context env rule = holdsAt regExp context env levels rule.when [] := by
  rw [matchRule, matchNode_eq]
  apply holdsWith_stable
  · have hFresh := fresh_le (env.segments.map Prod.fst) ((none : Option (List String)).getD [])
    rw [List.length_map] at hFresh
    omega
  · omega

end Agree

/-! ## Client-safe rules match alike on both payloads -/

section Client

variable {snapshot : RulesetSnapshot}

theorem keyGet_segments (snapshot : RulesetSnapshot) (key : String) :
    keyGet (indexSnapshot snapshot).segments key = segmentOf snapshot.segments key := rfl

theorem segmentOf_client {key : String} (hSafe : key ∈ clientSafeSegments snapshot.segments) :
    segmentOf (filterSnapshotForKey snapshot .client).segments key = segmentOf snapshot.segments key := by
  have hEntries : (filterSnapshotForKey snapshot .client).segments.map (fun segment => (segment.key, segment)) =
      (snapshot.segments.map fun segment => (segment.key, segment)).filter
        (fun entry => decide (entry.1 ∈ clientSafeSegments snapshot.segments)) := by
    rw [List.filter_map]
    rfl
  rw [segmentOf, segmentOf, hEntries]
  exact keyGet_filter (fun key => decide (key ∈ clientSafeSegments snapshot.segments)) (decide_eq_true hSafe)

theorem matchRule_client {regExp : RegExp} {context : EvaluationContext}
    (hNodup : (snapshot.segments.map Segment.key).Nodup) {rule : TargetingRule}
    (hRule : isRuleClientSafe rule (clientSafeSegments snapshot.segments) = true) :
    matchRule regExp context (indexSnapshot (filterSnapshotForKey snapshot .client)) rule =
      matchRule regExp context (indexSnapshot snapshot) rule := by
  have hLevels : (indexSnapshot (filterSnapshotForKey snapshot .client)).segments.length <
      (indexSnapshot snapshot).segments.length + 1 := by
    simp only [indexSnapshot, filterSnapshotForKey, List.length_map]
    exact Nat.lt_succ_of_le (List.length_filter_le _ _)
  rw [matchRule_eq rule hLevels, matchRule_eq rule (Nat.lt_succ_self _)]
  apply holdsAt_agree (· ∈ clientSafeSegments snapshot.segments)
  · intro key hSafe
    exact segmentOf_client hSafe
  · intro key segment hSafe hSegment
    rw [keyGet_segments, segmentOf_client hSafe] at hSegment
    obtain ⟨hListed, rfl⟩ := mem_of_segmentOf hSegment
    exact (safe_segment hNodup hListed hSafe).2
  · exact ((isRuleClientSafe_iff rule _).mp hRule).2

end Client

end Flagship.Core
