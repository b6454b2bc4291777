import Flagship.Core.Matching
import Flagship.Lib.Relational

/-! # The rule builder of the console

The labels of a group and the value field of a condition in
`apps/console/src/components/RuleBuilder.tsx`, each beside what the evaluator makes of what it
stores.
-/

namespace Flagship.Console

open Lib Flagship.Core

/-! ## What a group says -/

/-- The options of the select labelled "Boolean operator". -/
def groupLabel : BooleanKind → String
  | .and => "ALL of"
  | .or => "ANY of"
  | .not => "NONE of"

/-- What `NodeEditor` writes into a group without children. -/
def emptyGroupText (kind : BooleanKind) : String :=
  if kind = .and then "Empty group — matches everyone." else "Empty group — matches no one."

/-- A reader of the screen goes by the label, and in a group without children by the text. -/
def groupReads (label emptyText : String) (children : List Bool) : Bool :=
  if children.isEmpty then emptyText = "Empty group — matches everyone."
  else if label = "ALL of" then children.all id
  else if label = "ANY of" then children.any id
  else !children.any id

section Reading

variable (regExp : RegExp) (context : EvaluationContext)

mutual
/-- Whom the tree matches by what the screen shows. A segment shows nothing of its tree. -/
def reads : RuleNode → Bool
  | .condition c => applyOperator regExp c.operator (resolveAttribute context c.attribute) c.values
  | .boolean kind children => groupReads (groupLabel kind) (emptyGroupText kind) (childReads children)
  | .segment _ => false

def childReads : List RuleNode → List Bool
  | [] => []
  | child :: rest => reads child :: childReads rest
end

/-- The editors on the screen: `NodeEditor` renders the children of a group by rendering itself. -/
inductive Shown (tree : RuleNode) : RuleNode → Prop where
  | root : Shown tree tree
  | child {kind : BooleanKind} {children : List RuleNode} {child : RuleNode}
      (hGroup : Shown tree (.boolean kind children)) (hChild : child ∈ children) : Shown tree child

/-- Some child holds and some child does not. -/
def Mixed (children : List RuleNode) : Prop :=
  (∃ child ∈ children, reads regExp context child = true) ∧ ∃ child ∈ children, reads regExp context child = false

variable {regExp context}

theorem childReads_eq (children : List RuleNode) :
    childReads regExp context children = children.map (reads regExp context) := by
  induction children with
  | nil => rw [childReads, List.map_nil]
  | cons child rest ih => rw [childReads, ih, List.map_cons]

theorem reads_and (children : List RuleNode) :
    reads regExp context (.boolean .and children) = children.all (reads regExp context) := by
  rw [reads, childReads_eq]
  cases children with
  | nil => rfl
  | cons child rest => simp [groupReads, groupLabel, List.all_map]

theorem reads_or (children : List RuleNode) :
    reads regExp context (.boolean .or children) = children.any (reads regExp context) := by
  rw [reads, childReads_eq]
  cases children with
  | nil => rfl
  | cons child rest => simp [groupReads, groupLabel, List.any_map]

theorem reads_not (children : List RuleNode) :
    reads regExp context (.boolean .not children) =
      (!children.isEmpty && !children.any (reads regExp context)) := by
  rw [reads, childReads_eq]
  cases children with
  | nil => rfl
  | cons child rest => simp [groupReads, groupLabel, List.any_map]

theorem everyHolds_reads {holds : SegmentRef → Bool} {children : List RuleNode}
    (hChild : ∀ child ∈ children, treeHolds regExp context holds child = reads regExp context child) :
    everyHolds regExp context holds children = children.all (reads regExp context) := by
  rw [everyHolds_eq, List.map_congr_left hChild, List.all_map, Function.id_comp]

theorem someHolds_reads {holds : SegmentRef → Bool} {children : List RuleNode}
    (hChild : ∀ child ∈ children, treeHolds regExp context holds child = reads regExp context child) :
    someHolds regExp context holds children = children.any (reads regExp context) := by
  rw [someHolds_eq, List.map_congr_left hChild, List.any_map, Function.id_comp]

/-- NONE of and not ALL of say the same of children that are all alike. -/
theorem not_all_iff (children : List RuleNode) :
    (!children.all (reads regExp context)) = (!children.isEmpty && !children.any (reads regExp context)) ↔
      ¬ Mixed regExp context children := by
  cases children with
  | nil =>
    constructor
    · rintro _ ⟨⟨child, hMem, _⟩, _⟩
      cases hMem
    · intro _
      rfl
  | cons child rest =>
    rw [List.isEmpty_cons, Bool.not_false, Bool.true_and, Bool.not_inj_iff]
    constructor
    · rintro hSame ⟨hSome, hNot⟩
      rw [List.any_eq_true.mpr hSome, List.all_eq_true] at hSame
      obtain ⟨other, hMem, hFalse⟩ := hNot
      rw [hSame other hMem] at hFalse
      cases hFalse
    · intro hAlike
      cases hHead : reads regExp context child with
      | true =>
        have hAll : ∀ other ∈ child :: rest, reads regExp context other = true := by
          intro other hMem
          by_contra hFalse
          exact hAlike ⟨⟨child, List.mem_cons_self, hHead⟩, other, hMem, Bool.not_eq_true _ ▸ hFalse⟩
        rw [List.all_eq_true.mpr hAll, List.any_eq_true.mpr ⟨child, List.mem_cons_self, hHead⟩]
      | false =>
        have hNone : ¬ ∃ other ∈ child :: rest, reads regExp context other = true := by
          rintro ⟨other, hMem, hTrue⟩
          exact hAlike ⟨⟨other, hMem, hTrue⟩, child, List.mem_cons_self, hHead⟩
        have hAny : (child :: rest).any (reads regExp context) = false := by
          rwa [← Bool.not_eq_true, List.any_eq_true]
        rw [hAny, List.all_cons, hHead, Bool.false_and]

theorem Shown.references {tree node : RuleNode} (h : Shown tree node) (hFree : tree.references = []) :
    node.references = [] := by
  induction h with
  | root => exact hFree
  | child _ hChild ih =>
    rw [List.eq_nil_iff_forall_not_mem] at ih ⊢
    intro key hKey
    exact ih key (RuleNode.mem_references_boolean.mpr ⟨_, hChild, hKey⟩)

/-- Every group of the tree is evaluated as it reads exactly when no NONE group among them has a
child that holds beside one that does not. -/
theorem treeHolds_reads_iff {holds : SegmentRef → Bool} {tree : RuleNode} (hFree : tree.references = []) :
    (∀ node, Shown tree node → treeHolds regExp context holds node = reads regExp context node) ↔
      ∀ children, Shown tree (.boolean .not children) → ¬ Mixed regExp context children := by
  constructor
  · intro hSame children hShown
    have hGroup := hSame _ hShown
    rw [treeHolds, everyHolds_reads fun child hChild => hSame child (hShown.child hChild), reads_not] at hGroup
    exact (not_all_iff children).mp hGroup
  · intro hAlike node hShown
    induction node using RuleNode.induct with
    | condition c => rw [treeHolds, reads]
    | boolean kind children ih =>
      have hChild : ∀ child ∈ children, treeHolds regExp context holds child = reads regExp context child :=
        fun child hMem => ih child hMem (hShown.child hMem)
      cases kind with
      | and => rw [treeHolds, everyHolds_reads hChild, reads_and]
      | or => rw [treeHolds, someHolds_reads hChild, reads_or]
      | not =>
        rw [treeHolds, everyHolds_reads hChild, reads_not]
        exact (not_all_iff children).mpr (hAlike children hShown)
    | segment reference =>
      have hNone := hShown.references hFree
      rw [RuleNode.references] at hNone
      cases hNone

/-! ## Where the tree as a whole comes out the same -/

/-- A group whose verdict is given if it is a NONE group with a child that holds and one that does not. -/
def groupTaking (verdict : Bool) (kind : BooleanKind) (children : List Bool) : Bool :=
  if kind = .not ∧ children.any id = true ∧ children.all id = false then verdict
  else groupReads (groupLabel kind) (emptyGroupText kind) children

mutual
def readsTaking (regExp : RegExp) (context : EvaluationContext) (verdict : Bool) : RuleNode → Bool
  | .condition c => applyOperator regExp c.operator (resolveAttribute context c.attribute) c.values
  | .boolean kind children => groupTaking verdict kind (childReadsTaking regExp context verdict children)
  | .segment _ => false

def childReadsTaking (regExp : RegExp) (context : EvaluationContext) (verdict : Bool) : List RuleNode → List Bool
  | [] => []
  | child :: rest => readsTaking regExp context verdict child :: childReadsTaking regExp context verdict rest
end

theorem groupTaking_false (kind : BooleanKind) (children : List Bool) :
    groupTaking false kind children = groupReads (groupLabel kind) (emptyGroupText kind) children := by
  rw [groupTaking]
  split
  · rename_i hMixed
    obtain ⟨rfl, hAny, _⟩ := hMixed
    cases children with
    | nil => cases hAny
    | cons child rest => simp [groupReads, groupLabel, hAny]
  · rfl

theorem groupTaking_and (verdict : Bool) (children : List Bool) :
    groupTaking verdict .and children = children.all id := by
  cases children with
  | nil => rfl
  | cons child rest => simp [groupTaking, groupReads, groupLabel]

theorem groupTaking_or (verdict : Bool) (children : List Bool) :
    groupTaking verdict .or children = children.any id := by
  cases children with
  | nil => rfl
  | cons child rest => simp [groupTaking, groupReads, groupLabel]

/-- Taken to hold where it is mixed, NONE of is what the evaluator makes of `not`. -/
theorem groupTaking_not (children : List Bool) : groupTaking true .not children = !children.all id := by
  rw [groupTaking]
  cases hAll : children.all id with
  | true =>
    rw [if_neg (fun hMixed => Bool.noConfusion hMixed.2.2)]
    cases children with
    | nil => rfl
    | cons child rest =>
      rw [List.all_cons, Bool.and_eq_true] at hAll
      have hHead : child = true := hAll.1
      simp [groupReads, groupLabel, hHead]
  | false =>
    cases hAny : children.any id with
    | true => rfl
    | false =>
      cases children with
      | nil => cases hAll
      | cons child rest => simp [groupReads, groupLabel, hAny]

theorem childReadsTaking_eq (verdict : Bool) (children : List RuleNode) :
    childReadsTaking regExp context verdict children = children.map (readsTaking regExp context verdict) := by
  induction children with
  | nil => rw [childReadsTaking, List.map_nil]
  | cons child rest ih => rw [childReadsTaking, ih, List.map_cons]

theorem readsTaking_false (node : RuleNode) : readsTaking regExp context false node = reads regExp context node := by
  induction node using RuleNode.induct with
  | condition c => rw [readsTaking, reads]
  | boolean kind children ih =>
    rw [readsTaking, reads, groupTaking_false, childReadsTaking_eq, childReads_eq, List.map_congr_left ih]
  | segment reference => rw [readsTaking, reads]

theorem readsTaking_true {holds : SegmentRef → Bool} {node : RuleNode} (hFree : node.references = []) :
    readsTaking regExp context true node = treeHolds regExp context holds node := by
  induction node using RuleNode.induct with
  | condition c => rw [readsTaking, treeHolds]
  | boolean kind children ih =>
    have hChild : ∀ child ∈ children,
        readsTaking regExp context true child = treeHolds regExp context holds child :=
      fun child hMem => ih child hMem (Shown.references (.child .root hMem) hFree)
    rw [readsTaking, childReadsTaking_eq, List.map_congr_left hChild]
    cases kind with
    | and => rw [groupTaking_and, treeHolds, everyHolds_eq]
    | or => rw [groupTaking_or, treeHolds, someHolds_eq]
    | not => rw [groupTaking_not, treeHolds, everyHolds_eq]
  | segment reference =>
    rw [RuleNode.references] at hFree
    cases hFree

/-- The tree is evaluated as it reads exactly when it makes no difference to it which way its mixed
NONE groups come out; and so is every group of it exactly when it has no such group. -/
theorem matchNode_reads_iff (regExp : RegExp) (context : EvaluationContext) (env : EvaluationEnvironment)
    (levels : ℕ) (seen : Option (List String)) (tree : RuleNode) (hFree : tree.references = []) :
    ((matchNode regExp context env (levels + 1) tree seen).1 = reads regExp context tree ↔
      readsTaking regExp context true tree = readsTaking regExp context false tree) ∧
    ((∀ node, Shown tree node →
        (matchNode regExp context env (levels + 1) node seen).1 = reads regExp context node) ↔
      ∀ children, Shown tree (.boolean .not children) → ¬ Mixed regExp context children) := by
  simp only [matchNode_eq, holdsAt, holdsWith]
  constructor
  · rw [readsTaking_false, readsTaking_true hFree]
  · exact treeHolds_reads_iff hFree

end Reading

def equals (name value : String) : RuleNode :=
  .condition { «attribute» := name, operator := .eq, values := [.str value], visibility := .client }

def american : EvaluationContext where
  key := "user-1"
  attributes := fun name =>
    if name = "plan" then some (.str "pro") else if name = "region" then some (.str "us") else none

/-- Someone who is on the plan, but not in the region. -/
theorem none_of_two : ¬ ∀ (regExp : RegExp) (context : EvaluationContext) (env : EvaluationEnvironment)
    (levels : ℕ) (seen : Option (List String)) (tree : RuleNode), tree.references = [] →
    (matchNode regExp context env (levels + 1) tree seen).1 = reads regExp context tree := by
  intro hAll
  have hSame := hAll (fun _ => none) american { flags := [], segments := [] } 0 none
    (.boolean .not [equals "plan" "pro", equals "region" "eu"]) rfl
  revert hSame
  decide

theorem none_of_one : (matchNode (fun _ => none) american { flags := [], segments := [] } 1
    (.boolean .not [equals "region" "eu"]) none).1 = reads (fun _ => none) american
      (.boolean .not [equals "region" "eu"]) :=
  ((matchNode_reads_iff (fun _ => none) american { flags := [], segments := [] } 0 none
    (.boolean .not [equals "region" "eu"]) rfl).1).mpr rfl

/-! ## What a value field stores -/

def isMultiValue (operator : Operator) : Bool := operator = .isIn ∨ operator = .notIn

def setValues (node : Condition) (raw : String) : Condition :=
  { node with
    values :=
      if isMultiValue node.operator then
        (((raw.splitOn ",").map fun part => String.ofList (Number.trim part.toList)).filter (· ≠ "")).map .str
      else [.str raw] }

inductive NumericOperator where
  | gt | gte | lt | lte

def NumericOperator.operator : NumericOperator → Operator
  | .gt => .gt
  | .gte => .gte
  | .lt => .lt
  | .lte => .lte

/-- `a op x` -/
def NumericOperator.compare : NumericOperator → Number → Number → Bool
  | .gt, a, x => x.lt a
  | .gte, a, x => x.le a
  | .lt, a, x => a.lt x
  | .lte, a, x => a.le x

theorem isMultiValue_numeric (op : NumericOperator) : isMultiValue op.operator = false := by
  cases op <;> rfl

/-- The field of a numeric condition stores the text, which is no number. -/
theorem applyOperator_setValues (regExp : RegExp) {node : Condition} {op : NumericOperator}
    (hOperator : node.operator = op.operator) (text : String) (candidate : Option AttributeValue) :
    applyOperator regExp node.operator candidate (setValues node text).values = false := by
  have hValues : (setValues node text).values = [.str text] := by
    rw [setValues, hOperator, isMultiValue_numeric]
    rfl
  have hText : ∀ candidate predicate, compareNumeric candidate [.str text] predicate = false := by
    intro candidate predicate
    rw [compareNumeric, compareAs]
    cases asNumber candidate with
    | none => rfl
    | some left => rfl
  rw [hValues, hOperator]
  cases candidate with
  | none => rfl
  | some candidate => cases op <;> exact hText _ _

/-- A number typed into the value field is compared as it should be exactly where the comparison
does not hold. -/
theorem typed_number_iff (regExp : RegExp) (node : Condition) (op : NumericOperator)
    (hOperator : node.operator = op.operator) (text : String) (x a : Number) (_hText : Number.ofText text = x)
    (_hx : x.isFinite = true) (_ha : a.isFinite = true) :
    (applyOperator regExp node.operator (some (.num a)) (setValues node text).values = true ↔
      op.compare a x = true) ↔ op.compare a x = false := by
  rw [applyOperator_setValues regExp hOperator]
  cases op.compare a x with
  | true => simp
  | false => simp

def olderThan (operator : Operator) : Condition where
  «attribute» := "age"
  operator := operator
  values := [.str ""]
  visibility := .server

/-- "is greater than" 18 does not match someone of 21. -/
theorem typed_number_never_matches : ¬ ∀ (regExp : RegExp) (node : Condition) (op : NumericOperator) (text : String)
    (x a : Number), node.operator = op.operator → Number.ofText text = x → x.isFinite = true → a.isFinite = true →
    (applyOperator regExp node.operator (some (.num a)) (setValues node text).values = true ↔
      op.compare a x = true) := by
  intro hAll
  have hSame := hAll (fun _ => none) (olderThan .gt) .gt "18" (.ofNat 18) (.ofNat 21) rfl (by decide +kernel) rfl rfl
  revert hSame
  decide

theorem typed_number_below : applyOperator (fun _ => none) .gt (some (.num (.ofNat 17)))
    (setValues (olderThan .gt) "18").values = true ↔ (Number.ofNat 18).lt (.ofNat 17) = true :=
  (typed_number_iff (fun _ => none) (olderThan .gt) .gt rfl "18" (.ofNat 18) (.ofNat 17) (by decide +kernel) rfl
    rfl).mpr rfl

end Flagship.Console
