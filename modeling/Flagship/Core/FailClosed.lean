import Flagship.Core.Matching
import Flagship.Lib.Unknowns

/-! # Broken segment references

`matchNode` of `packages/core/src/evaluate.ts` answers false at a reference that names no segment
or closes a cycle. The tree with its segments written out, and an unknown for each broken
reference, says what that answer decides.
-/

namespace Flagship.Core

open Lib

section Unfold

variable (regExp : RegExp) (context : EvaluationContext)

mutual
def unfoldTree (enter : SegmentRef → Formula) : RuleNode → Formula
  | .condition c => .known (applyOperator regExp c.operator (resolveAttribute context c.attribute) c.values)
  | .boolean .and children => .every (unfoldChildren enter children)
  | .boolean .or children => .any (unfoldChildren enter children)
  | .boolean .not children => .neg (.every (unfoldChildren enter children))
  | .segment reference => enter reference

def unfoldChildren (enter : SegmentRef → Formula) : List RuleNode → List Formula
  | [] => []
  | child :: rest => unfoldTree enter child :: unfoldChildren enter rest
end

variable (env : EvaluationEnvironment)

/-- The tree as `matchNode` walks it, a broken reference being unknown, its `negate` flag included. -/
def unfoldNode : Nat → RuleNode → List String → Formula
  | 0, _, _ => .known false
  | levels + 1, node, seen =>
    unfoldTree regExp context (fun reference =>
      if reference.segmentKey ∈ seen then .unknown
      else
        match keyGet env.segments reference.segmentKey with
        | none => .unknown
        | some segment =>
          let inside := unfoldNode levels segment.when (seen ++ [reference.segmentKey])
          if reference.negate then .neg inside else inside) node

/-- With one level more than there are segments to enter. -/
def unfolding (node : RuleNode) (seen : List String) : Formula :=
  unfoldNode regExp context env (env.segments.length + 1) node seen

variable {regExp context env}

theorem eval_unfoldChildren {enter : SegmentRef → Formula} {children : List RuleNode} {value : Bool}
    (hChild : ∀ child ∈ children, (unfoldTree regExp context enter child).eval (fun _ => value) =
      treeHolds regExp context (fun reference => (enter reference).eval fun _ => value) child) :
    Formula.evalEvery (unfoldChildren regExp context enter children) (fun _ _ => value) =
        everyHolds regExp context (fun reference => (enter reference).eval fun _ => value) children ∧
      Formula.evalAny (unfoldChildren regExp context enter children) (fun _ _ => value) =
        someHolds regExp context (fun reference => (enter reference).eval fun _ => value) children := by
  induction children with
  | nil => exact ⟨rfl, rfl⟩
  | cons child rest ih =>
    obtain ⟨hEvery, hAny⟩ := ih fun other hMem => hChild other (List.mem_cons_of_mem _ hMem)
    rw [unfoldChildren, Formula.evalEvery, Formula.evalAny, everyHolds, someHolds,
      hChild child List.mem_cons_self, hEvery, hAny]
    exact ⟨rfl, rfl⟩

theorem eval_unfoldTree (enter : SegmentRef → Formula) (node : RuleNode) (value : Bool) :
    (unfoldTree regExp context enter node).eval (fun _ => value) =
      treeHolds regExp context (fun reference => (enter reference).eval fun _ => value) node := by
  induction node using RuleNode.induct with
  | condition c => rw [unfoldTree, treeHolds, Formula.eval]
  | boolean kind children ih =>
    obtain ⟨hEvery, hAny⟩ := eval_unfoldChildren ih
    cases kind with
    | and =>
      rw [unfoldTree, treeHolds, Formula.eval]
      exact hEvery
    | or =>
      rw [unfoldTree, treeHolds, Formula.eval]
      exact hAny
    | not =>
      rw [unfoldTree, treeHolds, Formula.eval, Formula.eval]
      exact congrArg (!·) hEvery
  | segment reference => rw [unfoldTree, treeHolds]

/-- What `matchNode` computes is the tree with every unknown false. -/
theorem eval_unfoldNode (levels : Nat) (node : RuleNode) (seen : List String) :
    (unfoldNode regExp context env levels node seen).eval (fun _ => false) =
      holdsAt regExp context env levels node seen := by
  induction levels generalizing node seen with
  | zero => rfl
  | succ levels ih =>
    rw [unfoldNode, eval_unfoldTree, holdsAt, holdsWith]
    apply treeHolds_congr
    intro reference _
    split
    · rfl
    · cases keyGet env.segments reference.segmentKey with
      | none => rfl
      | some segment =>
        cases hNegate : reference.negate with
        | false =>
          simp only [Bool.false_eq_true, if_false]
          exact ih segment.when _
        | true =>
          simp only [if_true, Formula.eval]
          exact congrArg (!·) (ih segment.when _)

theorem matchNode_unfolding (node : RuleNode) (seenSegments : Option (List String)) :
    (matchNode regExp context env (env.segments.length + 1) node seenSegments).1 =
      (unfolding regExp context env node (seenSegments.getD [])).eval fun _ => false := by
  rw [matchNode_eq, unfolding, eval_unfoldNode]

end Unfold

/-- A broken reference is never the reason for a match exactly where reading as true those under an
odd number of negations, not-nodes and negated references, leaves the tree what it is. -/
theorem broken_never_matches_iff (regExp : RegExp) (context : EvaluationContext) (env : EvaluationEnvironment)
    (node : RuleNode) (seenSegments : Option (List String)) :
    ((matchNode regExp context env (env.segments.length + 1) node seenSegments).1 = true →
      ∀ assign, (unfolding regExp context env node (seenSegments.getD [])).eval assign = true) ↔
    (unfolding regExp context env node (seenSegments.getD [])).readOdd false =
      (unfolding regExp context env node (seenSegments.getD [])).eval fun _ => false := by
  rw [matchNode_unfolding]
  exact Formula.eval_true_of_false_iff _

/-- "Not in a segment that was deleted" matches everyone, and would match no one were the segment
still there and everyone in it. -/
theorem broken_under_not_matches :
    let context : EvaluationContext := { key := "user", attributes := fun _ => none }
    let env : EvaluationEnvironment := { flags := [], segments := [] }
    let node : RuleNode := .boolean .not [.segment { segmentKey := "ghost", negate := false }]
    (matchNode (fun _ => none) context env (env.segments.length + 1) node none).1 = true ∧
      (unfolding (fun _ => none) context env node []).eval (fun _ => true) = false := by
  decide +kernel

end Flagship.Core
