import Flagship.Lib.Json

/-! # Wire contract shared by the control plane, the data plane, the console and every SDK

The types of `packages/core/src/types.ts`. A snapshot compiled from JSONB columns may hold any
document, or nothing, where the source writes `string` for a variation key or a rule id, so
those fields are `JsValue`; the fields that every producer checks keep the source's type.
-/

namespace Flagship.Core

open Lib

inductive AttributeValue where
  | str (value : String)
  | num (value : Number)
  | bool (value : Bool)
  | null
deriving DecidableEq

def AttributeValue.toJson : AttributeValue → Json
  | .str value => .str value
  | .num value => .num value
  | .bool value => .bool value
  | .null => .null

/-- `other` is an operator of a newer control plane, which evaluates to false. -/
inductive Operator where
  | eq | neq | isIn | notIn | contains | startsWith | endsWith | matches
  | gt | gte | lt | lte | semverGt | semverLt
  | other (name : String)
deriving DecidableEq

def Operator.read : String → Operator
  | "eq" => .eq
  | "neq" => .neq
  | "in" => .isIn
  | "notIn" => .notIn
  | "contains" => .contains
  | "startsWith" => .startsWith
  | "endsWith" => .endsWith
  | "matches" => .matches
  | "gt" => .gt
  | "gte" => .gte
  | "lt" => .lt
  | "lte" => .lte
  | "semverGt" => .semverGt
  | "semverLt" => .semverLt
  | name => .other name

inductive Visibility where
  | client | server
deriving DecidableEq

structure Condition where
  «attribute» : String
  operator : Operator
  values : List Json
  /-- Server-only rules are stripped from client-key payloads. -/
  visibility : Visibility

inductive BooleanKind where
  | and | or | not
deriving DecidableEq

structure SegmentRef where
  segmentKey : String
  negate : Bool
deriving DecidableEq

inductive RuleNode where
  | condition (condition : Condition)
  | boolean (kind : BooleanKind) (children : List RuleNode)
  | segment (reference : SegmentRef)

structure Variation where
  key : JsValue
  value : JsValue

structure Distribution where
  variationKey : JsValue
  weight : Number

inductive Serve where
  | variation (variationKey : JsValue)
  | rollout (distribution : List Distribution)

structure TargetingRule where
  id : JsValue
  description : JsValue
  when : RuleNode
  serve : Serve

structure Prerequisite where
  flagKey : String
  variationKey : JsValue

structure Flag where
  key : String
  enabled : Bool
  salt : String
  variations : List Variation
  defaultVariationKey : String
  offVariationKey : String
  prerequisites : List Prerequisite
  rules : List TargetingRule
  /-- Attribute used for bucketing. -/
  bucketBy : String

structure Segment where
  key : String
  when : RuleNode

structure RulesetSnapshot where
  environmentKey : String
  version : Number
  flags : List Flag
  segments : List Segment
  servedAt : String

/-- `attributes` is what reading a property of the context gives. The names that every object
inherits from `Object.prototype` are left out, unless the context sets them. -/
structure EvaluationContext where
  key : String
  attributes : String → Option AttributeValue

inductive EvaluationReason where
  | off
  | prerequisiteFailed (flagKey : String)
  | ruleMatch (ruleId : JsValue)
  | default
  | error (message : String)

def EvaluationReason.isError : EvaluationReason → Bool
  | .error _ => true
  | _ => false

structure EvaluationResult where
  value : JsValue
  variationKey : JsValue
  reason : EvaluationReason
  /-- Present when the result came from a percentage rollout. -/
  bucket : Option Nat

namespace RuleNode

@[elab_as_elim]
theorem induct {motive : RuleNode → Prop} (condition : ∀ c, motive (.condition c))
    (boolean : ∀ kind children, (∀ child ∈ children, motive child) → motive (.boolean kind children))
    (segment : ∀ reference, motive (.segment reference)) (node : RuleNode) : motive node := by
  refine @RuleNode.rec motive (fun children => ∀ child ∈ children, motive child)
    condition boolean segment ?_ ?_ node
  · intro child hChild
    cases hChild
  · intro head rest hHead hRest child hChild
    rcases List.mem_cons.mp hChild with rfl | hChild
    · exact hHead
    · exact hRest child hChild

mutual
def conditions : RuleNode → List Condition
  | condition c => [c]
  | boolean _ children => childConditions children
  | segment _ => []

def childConditions : List RuleNode → List Condition
  | [] => []
  | child :: rest => child.conditions ++ childConditions rest
end

mutual
def references : RuleNode → List String
  | condition _ => []
  | boolean _ children => childReferences children
  | segment reference => [reference.segmentKey]

def childReferences : List RuleNode → List String
  | [] => []
  | child :: rest => child.references ++ childReferences rest
end

theorem childConditions_eq (children : List RuleNode) :
    childConditions children = children.flatMap conditions := by
  induction children with
  | nil => rfl
  | cons child rest ih => rw [childConditions, ih, List.flatMap_cons]

theorem childReferences_eq (children : List RuleNode) :
    childReferences children = children.flatMap references := by
  induction children with
  | nil => rfl
  | cons child rest ih => rw [childReferences, ih, List.flatMap_cons]

@[simp] theorem mem_conditions_boolean {kind : BooleanKind} {children : List RuleNode} {c : Condition} :
    c ∈ (boolean kind children).conditions ↔ ∃ child ∈ children, c ∈ child.conditions := by
  rw [conditions, childConditions_eq, List.mem_flatMap]

@[simp] theorem mem_references_boolean {kind : BooleanKind} {children : List RuleNode} {key : String} :
    key ∈ (boolean kind children).references ↔ ∃ child ∈ children, key ∈ child.references := by
  rw [references, childReferences_eq, List.mem_flatMap]

def HasServerCondition (node : RuleNode) : Prop := ∃ c ∈ node.conditions, c.visibility = .server

end RuleNode

end Flagship.Core
