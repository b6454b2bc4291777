import Flagship.Core.Matching

/-! # Evaluation without guards

On prerequisites that lead into no cycle the guard set of `evaluateInternal` never refuses a
flag, and evaluation is the plain recursion `outcome`. Its second argument says which rules of
a flag count, so that both payloads are read off the full snapshot.
-/

namespace Flagship.Core

open Lib

section Outcome

variable (regExp : RegExp) (context : EvaluationContext) (env : EvaluationEnvironment)
variable (rulesOf : Flag → List TargetingRule)

def unmet (upstream : String → Except ScriptError EvaluationResult) :
    List Prerequisite → Except ScriptError (Option Prerequisite)
  | [] => .ok none
  | prerequisite :: rest =>
    match upstream prerequisite.flagKey with
    | .error error => .error error
    | .ok result =>
      if JsValue.strictEquals result.variationKey prerequisite.variationKey then unmet upstream rest
      else .ok (some prerequisite)

def answer (compiled : CompiledFlag) (fallback : JsValue) :
    Except ScriptError (Option Prerequisite) → Except ScriptError EvaluationResult
  | .error error => .error error
  | .ok (some prerequisite) => offResult compiled fallback (.prerequisiteFailed prerequisite.flagKey)
  | .ok none => evaluateRules regExp context env compiled fallback (rulesOf compiled.flag)

def outcomeStep (upstream : String → Except ScriptError EvaluationResult) (flagKey : String) (fallback : JsValue) :
    Except ScriptError EvaluationResult :=
  match keyGet env.flags flagKey with
  | none => .ok (errorResult fallback s!"unknown flag \"{flagKey}\"")
  | some compiled =>
    if !compiled.flag.enabled then offResult compiled fallback .off
    else answer regExp context env rulesOf compiled fallback (unmet upstream compiled.flag.prerequisites)

def outcomeAt : Nat → String → JsValue → Except ScriptError EvaluationResult
  | 0, _, _ => .error .stackOverflow
  | levels + 1, flagKey, fallback =>
    outcomeStep regExp context env rulesOf (outcomeAt levels · none) flagKey fallback

def outcome (flagKey : String) (fallback : JsValue) : Except ScriptError EvaluationResult :=
  outcomeAt regExp context env rulesOf (env.flags.length + 1) flagKey fallback

end Outcome

def Needs (env : EvaluationEnvironment) (a b : String) : Prop :=
  ∃ compiled, keyGet env.flags a = some compiled ∧
    ∃ prerequisite ∈ compiled.flag.prerequisites, prerequisite.flagKey = b

section Guards

variable {regExp : RegExp} {context : EvaluationContext} {env : EvaluationEnvironment}
variable {rulesOf : Flag → List TargetingRule}

theorem unmet_congr {upstream upstream' : String → Except ScriptError EvaluationResult}
    {prerequisites : List Prerequisite}
    (h : ∀ prerequisite ∈ prerequisites, upstream prerequisite.flagKey = upstream' prerequisite.flagKey) :
    unmet upstream prerequisites = unmet upstream' prerequisites := by
  induction prerequisites with
  | nil => rfl
  | cons prerequisite rest ih =>
    rw [unmet, unmet, h prerequisite List.mem_cons_self,
      ih fun other hOther => h other (List.mem_cons_of_mem _ hOther)]

theorem firstUnmet_eq {evaluate : String → List String → Except ScriptError EvaluationResult × List String}
    (upstream : String → Except ScriptError EvaluationResult) {seen : List String} {prerequisites : List Prerequisite}
    (h : ∀ prerequisite ∈ prerequisites,
      evaluate prerequisite.flagKey seen = (upstream prerequisite.flagKey, seen)) :
    firstUnmet evaluate prerequisites seen = (unmet upstream prerequisites, seen) := by
  induction prerequisites with
  | nil => rw [firstUnmet, unmet]
  | cons prerequisite rest ih =>
    rw [firstUnmet, unmet, h prerequisite List.mem_cons_self]
    cases upstream prerequisite.flagKey with
    | error error => rfl
    | ok result =>
      simp only
      split
      · exact ih fun other hOther => h other (List.mem_cons_of_mem _ hOther)
      · rfl

def Clear (env : EvaluationEnvironment) (seen : List String) (key : String) : Prop :=
  ∀ entered ∈ seen, ¬ Relation.ReflTransGen (Needs env) key entered

theorem Clear.not_mem {seen : List String} {key : String} (h : Clear env seen key) : key ∉ seen :=
  fun hMem => h key hMem Relation.ReflTransGen.refl

theorem Clear.next {ok : String → Prop} {seen : List String} {key next : String} (h : Clear env seen key)
    (hGrounded : Hereditary ok (Needs env) key) (hNeeds : Needs env key next) :
    Clear env (seen ++ [key]) next := by
  intro entered hMem hReach
  rcases List.mem_append.mp hMem with hMem | hLast
  · exact h entered hMem (Relation.ReflTransGen.head hNeeds hReach)
  · obtain rfl := List.mem_singleton.mp hLast
    exact hGrounded.irreflexive (Relation.TransGen.head' hNeeds hReach)

/-- The guards of `evaluateInternal` are never used where prerequisites lead into no cycle. -/
theorem evaluateInternal_eq {ok : String → Prop} {flagKey : String} (h : Hereditary ok (Needs env) flagKey)
    (levels : Nat) (fallback : JsValue) {seen : List String} (hClear : Clear env seen flagKey) :
    evaluateInternal regExp context env levels flagKey fallback seen =
      (outcomeAt regExp context env Flag.rules levels flagKey fallback, seen) := by
  induction h generalizing levels fallback seen with
  | intro flagKey hOk hNext ih =>
    cases levels with
    | zero => rw [evaluateInternal, outcomeAt]
    | succ levels =>
      rw [evaluateInternal, outcomeAt, outcomeStep]
      cases hFlag : keyGet env.flags flagKey with
      | none => rfl
      | some compiled =>
        have hNew := hClear.not_mem
        have hGrounded : Hereditary ok (Needs env) flagKey := Hereditary.intro flagKey hOk hNext
        have hUpstream : ∀ prerequisite ∈ compiled.flag.prerequisites,
            evaluateInternal regExp context env levels prerequisite.flagKey none (seen ++ [flagKey]) =
              (outcomeAt regExp context env Flag.rules levels prerequisite.flagKey none, seen ++ [flagKey]) := by
          intro prerequisite hMem
          have hNeeds : Needs env flagKey prerequisite.flagKey := ⟨compiled, hFlag, prerequisite, hMem, rfl⟩
          exact ih _ hNeeds levels none (hClear.next hGrounded hNeeds)
        simp only [if_neg hNew]
        rw [firstUnmet_eq (outcomeAt regExp context env Flag.rules levels · none) hUpstream]
        cases compiled.flag.enabled with
        | false => simp only [Bool.not_false, if_true, erase_append_singleton hNew]
        | true =>
          simp only [Bool.not_true, Bool.false_eq_true, if_false]
          cases unmet (outcomeAt regExp context env Flag.rules levels · none) compiled.flag.prerequisites with
          | error error => simp only [answer, erase_append_singleton hNew]
          | ok failed =>
            cases failed with
            | none => simp only [answer, erase_append_singleton hNew]
            | some prerequisite => simp only [answer, erase_append_singleton hNew]

theorem outcomeAt_stable {ok : String → Prop} {flagKey : String} (h : Hereditary ok (Needs env) flagKey)
    {levels more : Nat} (fallback : JsValue) {seen : List String} (hClear : Clear env seen flagKey)
    (hEnough : fresh (env.flags.map Prod.fst) seen < levels) (hMore : levels ≤ more) :
    outcomeAt regExp context env rulesOf levels flagKey fallback =
      outcomeAt regExp context env rulesOf more flagKey fallback := by
  induction h generalizing levels more fallback seen with
  | intro flagKey hOk hNext ih =>
    obtain ⟨levels, rfl⟩ := Nat.exists_eq_add_one_of_ne_zero (show levels ≠ 0 by omega)
    obtain ⟨more, rfl⟩ := Nat.exists_eq_add_one_of_ne_zero (show more ≠ 0 by omega)
    rw [outcomeAt, outcomeAt, outcomeStep, outcomeStep]
    cases hFlag : keyGet env.flags flagKey with
    | none => rfl
    | some compiled =>
      have hGrounded : Hereditary ok (Needs env) flagKey := Hereditary.intro flagKey hOk hNext
      have hKnown : flagKey ∈ env.flags.map Prod.fst := mem_keys_of_keyGet hFlag
      have hShrinks := fresh_append_lt hKnown hClear.not_mem
      have hUpstream : unmet (outcomeAt regExp context env rulesOf levels · none) compiled.flag.prerequisites =
          unmet (outcomeAt regExp context env rulesOf more · none) compiled.flag.prerequisites := by
        apply unmet_congr
        intro prerequisite hMem
        have hNeeds : Needs env flagKey prerequisite.flagKey := ⟨compiled, hFlag, prerequisite, hMem, rfl⟩
        exact ih _ hNeeds none (hClear.next hGrounded hNeeds) (by omega) (by omega)
      simp only [hUpstream]

theorem outcome_eq {ok : String → Prop} {flagKey : String} (h : Hereditary ok (Needs env) flagKey)
    (fallback : JsValue) : outcome regExp context env rulesOf flagKey fallback =
      outcomeStep regExp context env rulesOf (outcome regExp context env rulesOf · none) flagKey fallback := by
  rw [outcome, outcomeAt, outcomeStep, outcomeStep]
  cases hFlag : keyGet env.flags flagKey with
  | none => rfl
  | some compiled =>
    have hClear : Clear env [] flagKey := fun entered hMem => absurd hMem List.not_mem_nil
    have hKnown : flagKey ∈ env.flags.map Prod.fst := mem_keys_of_keyGet hFlag
    have hShrinks := fresh_append_lt hKnown (List.not_mem_nil (a := flagKey))
    have hFresh := fresh_le (env.flags.map Prod.fst) ([] : List String)
    rw [List.length_map] at hFresh
    have hUpstream :
        unmet (outcomeAt regExp context env rulesOf env.flags.length · none) compiled.flag.prerequisites =
          unmet (outcome regExp context env rulesOf · none) compiled.flag.prerequisites := by
      apply unmet_congr
      intro prerequisite hMem
      have hNeeds : Needs env flagKey prerequisite.flagKey := ⟨compiled, hFlag, prerequisite, hMem, rfl⟩
      exact outcomeAt_stable (h.next hNeeds) none (hClear.next h hNeeds) (by omega) (Nat.le_succ _)
    simp only [hUpstream]

def settle (fallback : JsValue) : Except ScriptError EvaluationResult → EvaluationResult
  | .ok result => result
  | .error error => errorResult fallback error.message

theorem evaluateFlag_eq {ok : String → Prop} {flagKey : String} (h : Hereditary ok (Needs env) flagKey)
    (fallback : JsValue) : evaluateFlag regExp context env flagKey fallback =
      settle fallback (outcome regExp context env Flag.rules flagKey fallback) := by
  have hClear : Clear env [] flagKey := fun entered hMem => absurd hMem List.not_mem_nil
  rw [evaluateFlag, evaluateInternal_eq h _ fallback hClear, outcome]
  cases outcomeAt regExp context env Flag.rules (env.flags.length + 1) flagKey fallback with
  | error error => rfl
  | ok result => rfl

end Guards

end Flagship.Core
