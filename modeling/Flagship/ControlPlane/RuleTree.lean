import Flagship.Core.Types
import Flagship.Lib.Traverse

/-! # Rule trees as the JSONB columns hold them

The walks of `apps/control-plane/src/ruleset.ts` over documents of unknown shape. Where the
source casts a document to `RuleNode`, the model reads it with `readRuleNode`; a tree without
problems always has a reading.
-/

namespace Flagship.ControlPlane

open Lib Flagship.Core

inductive NodeKind where
  | condition
  | boolean (kind : BooleanKind)
  | segment

def NodeKind.read : JsValue → Option NodeKind
  | some (.str "condition") => some .condition
  | some (.str "and") => some (.boolean .and)
  | some (.str "or") => some (.boolean .or)
  | some (.str "not") => some (.boolean .not)
  | some (.str "segment") => some .segment
  | _ => none

def BooleanKind.name : BooleanKind → String
  | .and => "and"
  | .or => "or"
  | .not => "not"

def Visibility.read : JsValue → Option Visibility
  | some (.str "client") => some .client
  | some (.str "server") => some .server
  | _ => none

def report (bad : Bool) (message : String) : List String := if bad then [message] else []

def conditionProblems (doc : Json) (path : String) : List String :=
  report ((doc.field? "attribute").string?.getD "" = "") s!"{path}: condition needs a non-empty attribute" ++
  report ((doc.field? "operator").string?.isNone) s!"{path}: condition needs an operator" ++
  report (((doc.field? "values").array?.getD []).isEmpty) s!"{path}: condition needs at least one value" ++
  report ((Visibility.read (doc.field? "visibility")).isNone)
    s!"{path}: condition needs visibility of \"client\" or \"server\""

def segmentProblems (doc : Json) (path : String) : List String :=
  report ((doc.field? "segmentKey").string?.getD "" = "") s!"{path}: segment reference needs a segmentKey" ++
  report ((doc.field? "negate").boolean?.isNone) s!"{path}: segment reference needs a boolean negate"

def kindText (kind : JsValue) : String := (kind.map Json.stringify).getD "undefined"

def MAX_DEPTH : Nat := 32

/-- `levels` is how many more may be entered: `MAX_DEPTH + 1` at depth zero. -/
def validateRuleNode : Nat → JsValue → String → List String
  | 0, _, path => [s!"{path}: rule tree nested deeper than 32 levels"]
  | levels + 1, node, path =>
    match node.object? with
    | none => [s!"{path}: expected an object"]
    | some doc =>
      match NodeKind.read (doc.field? "kind") with
      | some .condition => conditionProblems doc path
      | some (.boolean kind) =>
        match (doc.field? "children").array? with
        | none => [s!"{path}: {BooleanKind.name kind} needs a children array"]
        | some children =>
          children.zipIdx.flatMap fun (child, index) =>
            validateRuleNode levels (some child) s!"{path}.children[{index}]"
      | some .segment => segmentProblems doc path
      | none =>
        let kind := kindText (doc.field? "kind")
        [s!"{path}: unknown node kind {kind}"]

mutual
/-- The walk of a reader that trusts the shape: only `null` and a node without its list throw. -/
def collectSegmentKeys (node : JsValue) (into : List JsValue) : Except ScriptError (List JsValue) :=
  match node with
  | none | some .null => .error (.read "kind")
  | some doc =>
    match NodeKind.read (doc.field? "kind") with
    | some .segment => .ok (JsValue.add into (doc.field? "segmentKey"))
    | some (.boolean _) =>
      match _hChildren : doc.field? "children" with
      | some (.arr children) => collectFromChildren children into
      | children => do
        -- the characters of a string are nodes without a kind
        let _ ← JsValue.iterate children
        .ok into
    | some .condition | none => .ok into
termination_by sizeOf node
decreasing_by
  have hSmaller := Json.sizeOf_field _hChildren
  simp only [Json.arr.sizeOf_spec, Option.some.sizeOf_spec] at hSmaller ⊢
  omega

def collectFromChildren (children : List Json) (into : List JsValue) : Except ScriptError (List JsValue) :=
  match children with
  | [] => .ok into
  | child :: rest => do
    let into ← collectSegmentKeys (some child) into
    collectFromChildren rest into
termination_by sizeOf children
decreasing_by
  · cases rest <;> simp
  · simp
end

theorem collectSegmentKeys_condition {doc : Json} (into : List JsValue)
    (hKind : NodeKind.read (doc.field? "kind") = some .condition) : collectSegmentKeys (some doc) into = .ok into := by
  cases doc with
  | obj fields =>
    rw [collectSegmentKeys.eq_def]
    simp only [hKind]
  | _ => cases hKind

theorem collectSegmentKeys_segment {doc : Json} (into : List JsValue)
    (hKind : NodeKind.read (doc.field? "kind") = some .segment) :
    collectSegmentKeys (some doc) into = .ok (JsValue.add into (doc.field? "segmentKey")) := by
  cases doc with
  | obj fields =>
    rw [collectSegmentKeys.eq_def]
    simp only [hKind]
  | _ => cases hKind

theorem collectSegmentKeys_boolean {doc : Json} {kind : BooleanKind} {children : List Json} (into : List JsValue)
    (hKind : NodeKind.read (doc.field? "kind") = some (.boolean kind))
    (hChildren : doc.field? "children" = some (.arr children)) :
    collectSegmentKeys (some doc) into = collectFromChildren children into := by
  cases doc with
  | obj fields =>
    rw [collectSegmentKeys.eq_def]
    simp only [hKind]
    split
    · rename_i items hItems
      cases hChildren.symm.trans hItems
      rfl
    · rename_i hOther
      exact absurd hChildren (hOther children)
  | _ => cases hKind

theorem collectSegmentKeys_boolean_of_not_array {doc : Json} {kind : BooleanKind} (into : List JsValue)
    (hKind : NodeKind.read (doc.field? "kind") = some (.boolean kind))
    (hChildren : ∀ children, doc.field? "children" ≠ some (.arr children)) :
    collectSegmentKeys (some doc) into = (doc.field? "children").iterate.map fun _ => into := by
  cases doc with
  | obj fields =>
    rw [collectSegmentKeys.eq_def]
    simp only [hKind]
    cases ((Json.obj fields).field? "children").iterate <;> rfl
  | _ => cases hKind

/-! ## Readings -/

def readCondition (doc : Json) : Option Condition := do
  let «attribute» ← (doc.field? "attribute").string?
  let operator ← (doc.field? "operator").string?
  let values ← (doc.field? "values").array?
  let visibility ← Visibility.read (doc.field? "visibility")
  some { «attribute», operator := Operator.read operator, values, visibility }

def readSegmentRef (doc : Json) : Option SegmentRef := do
  let segmentKey ← (doc.field? "segmentKey").string?
  let negate ← (doc.field? "negate").boolean?
  some { segmentKey, negate }

def readRuleNode : Nat → Json → Option RuleNode
  | 0, _ => none
  | levels + 1, doc =>
    match NodeKind.read (doc.field? "kind") with
    | some .condition => (readCondition doc).map .condition
    | some (.boolean kind) => do
      let children ← (doc.field? "children").array?
      let nodes ← children.mapM (readRuleNode levels)
      some (.boolean kind nodes)
    | some .segment => (readSegmentRef doc).map .segment
    | none => none

theorem report_eq_nil {bad : Bool} {message : String} : report bad message = [] ↔ bad = false := by
  cases bad <;> simp [report]

theorem readCondition_of_valid {doc : Json} {path : String} (h : conditionProblems doc path = []) :
    ∃ c, readCondition doc = some c := by
  simp only [conditionProblems, List.append_eq_nil_iff, report_eq_nil] at h
  obtain ⟨⟨⟨hAttribute, hOperator⟩, hValues⟩, hVisibility⟩ := h
  cases hA : (doc.field? "attribute").string? with
  | none => simp [hA] at hAttribute
  | some a =>
    cases hV : (doc.field? "values").array? with
    | none => simp [hV] at hValues
    | some values =>
      obtain ⟨operator, hO⟩ := Option.isSome_iff_exists.mp (Option.isNone_eq_false_iff.mp hOperator)
      obtain ⟨visibility, hVis⟩ := Option.isSome_iff_exists.mp (Option.isNone_eq_false_iff.mp hVisibility)
      refine ⟨{ «attribute» := a, operator := Operator.read operator, values, visibility }, ?_⟩
      rw [readCondition, hA, hO, hV, hVis]
      rfl

theorem readSegmentRef_of_valid {doc : Json} {path : String} (h : segmentProblems doc path = []) :
    ∃ reference, readSegmentRef doc = some reference := by
  simp only [segmentProblems, List.append_eq_nil_iff, report_eq_nil] at h
  obtain ⟨hKey, hNegate⟩ := h
  cases hK : (doc.field? "segmentKey").string? with
  | none => simp [hK] at hKey
  | some segmentKey =>
    obtain ⟨negate, hN⟩ := Option.isSome_iff_exists.mp (Option.isNone_eq_false_iff.mp hNegate)
    refine ⟨{ segmentKey, negate }, ?_⟩
    rw [readSegmentRef, hK, hN]
    rfl

theorem readRuleNode_of_valid {levels : Nat} {node : JsValue} {path : String}
    (h : validateRuleNode levels node path = []) :
    ∃ doc tree, node = some doc ∧ readRuleNode levels doc = some tree := by
  induction levels generalizing node path with
  | zero => simp [validateRuleNode] at h
  | succ levels ih =>
    rw [validateRuleNode] at h
    split at h
    · cases h
    rename_i doc hDoc
    refine ⟨doc, ?_⟩
    rw [readRuleNode]
    split at h
    · obtain ⟨c, hc⟩ := readCondition_of_valid h
      exact ⟨.condition c, JsValue.eq_of_object? hDoc, by rw [hc]; rfl⟩
    · rename_i kind _
      split at h
      · cases h
      · rename_i children hChildren
        have hRead : ∀ child ∈ children, ∃ tree, readRuleNode levels child = some tree := by
          intro child hMem
          obtain ⟨index, hIndex⟩ := List.getElem?_of_mem hMem
          have hValid := List.flatMap_eq_nil_iff.mp h (child, index) (List.mem_zipIdx_iff_getElem?.mpr hIndex)
          obtain ⟨doc', tree, hSame, hTree⟩ := ih hValid
          obtain rfl := Option.some.inj hSame
          exact ⟨tree, hTree⟩
        obtain ⟨nodes, hNodes⟩ := exists_mapM_eq_some hRead
        refine ⟨.boolean kind nodes, JsValue.eq_of_object? hDoc, ?_⟩
        rw [hChildren]
        simp only [Option.bind_eq_bind, Option.bind_some, hNodes]
    · obtain ⟨reference, hReference⟩ := readSegmentRef_of_valid h
      exact ⟨.segment reference, JsValue.eq_of_object? hDoc, by rw [hReference]; rfl⟩
    · cases h

theorem eq_of_readSegmentRef {doc : Json} {reference : SegmentRef} (h : readSegmentRef doc = some reference) :
    doc.field? "segmentKey" = some (.str reference.segmentKey) := by
  obtain ⟨segmentKey, hKey, h⟩ := Option.bind_eq_some_iff.mp h
  obtain ⟨negate, _, h⟩ := Option.bind_eq_some_iff.mp h
  rw [← Option.some.inj h]
  exact JsValue.eq_of_string? hKey

def Collects (walk : List JsValue → Except ScriptError (List JsValue)) (references : List String) : Prop :=
  ∀ into, ∃ out, walk into = .ok out ∧
    ∀ value, value ∈ out ↔ value ∈ into ∨ ∃ key ∈ references, value = some (.str key)

theorem collectFromChildren_of_read {levels : Nat} (hNode : ∀ doc tree, readRuleNode levels doc = some tree →
      Collects (collectSegmentKeys (some doc)) tree.references) {children : List Json} {nodes : List RuleNode}
    (h : List.Forall₂ (fun child node => readRuleNode levels child = some node) children nodes) :
    Collects (collectFromChildren children) (RuleNode.childReferences nodes) := by
  induction h with
  | nil =>
    intro into
    refine ⟨into, by rw [collectFromChildren], ?_⟩
    simp [RuleNode.childReferences]
  | @cons child node children nodes hHead _ ih =>
    intro into
    obtain ⟨middle, hMiddle, hFirst⟩ := hNode child node hHead into
    obtain ⟨out, hOut, hRest⟩ := ih middle
    refine ⟨out, ?_, ?_⟩
    · rw [collectFromChildren, hMiddle]
      exact hOut
    · intro value
      rw [hRest, hFirst]
      simp only [RuleNode.childReferences, List.mem_append, or_and_right, exists_or, or_assoc]

theorem collectSegmentKeys_of_read {levels : Nat} {doc : Json} {tree : RuleNode}
    (h : readRuleNode levels doc = some tree) : Collects (collectSegmentKeys (some doc)) tree.references := by
  induction levels generalizing doc tree with
  | zero => cases h
  | succ levels ih =>
    rw [readRuleNode] at h
    intro into
    split at h
    · rename_i hKind
      obtain ⟨c, _, rfl⟩ := Option.map_eq_some_iff.mp h
      refine ⟨into, collectSegmentKeys_condition into hKind, ?_⟩
      simp [RuleNode.references]
    · rename_i kind hKind
      obtain ⟨children, hChildren, h⟩ := Option.bind_eq_some_iff.mp h
      obtain ⟨nodes, hNodes, h⟩ := Option.bind_eq_some_iff.mp h
      obtain rfl := Option.some.inj h
      obtain ⟨out, hOut, hMem⟩ := collectFromChildren_of_read (fun _ _ => ih) (mapM_eq_some.mp hNodes) into
      refine ⟨out, ?_, hMem⟩
      rw [collectSegmentKeys_boolean into hKind (JsValue.eq_of_array? hChildren)]
      exact hOut
    · rename_i hKind
      obtain ⟨reference, hReference, rfl⟩ := Option.map_eq_some_iff.mp h
      refine ⟨JsValue.add into (some (.str reference.segmentKey)), ?_, ?_⟩
      · rw [collectSegmentKeys_segment into hKind, eq_of_readSegmentRef hReference]
      · intro value
        rw [JsValue.mem_add]
        simp [RuleNode.references]
    · cases h

end Flagship.ControlPlane
