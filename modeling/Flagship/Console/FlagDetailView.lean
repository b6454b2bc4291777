import Flagship.ControlPlane.AuditLog
import Flagship.ControlPlane.UpdateVisible

/-! # Saving the targeting rule of a flag

`save` of `apps/console/src/components/FlagDetailView.tsx`, down to the row that its `PATCH`
writes. The screen edits the tree of the first rule; the request replaces the whole list.
-/

namespace Flagship.Console

open Lib Flagship.Core Flagship.ControlPlane

/-! ## The request -/

def EMPTY_TREE : Json := .obj [("kind", .str "and"), ("children", .arr [])]

/-- `value?.name` -/
def optionalGet (value : JsValue) (name : String) : JsValue := value.bind (·.field? name)

/-- `flag.rules[0]` -/
def firstRule (flag : FlagDetail) : JsValue :=
  match flag.rules with
  | .arr items => items.head?
  | _ => none

def loadedTree (flag : FlagDetail) : Json := Tables.orPrevious (optionalGet (firstRule flag) "when") EMPTY_TREE

def findNonOff (offVariationKey : String) : List Json → Except ScriptError JsValue
  | [] => .ok none
  | variation :: rest => do
    let key ← JsValue.get (some variation) "key"
    if JsValue.strictEquals key (some (.str offVariationKey)) then findNonOff offVariationKey rest
    else .ok (some variation)

/-- Only an array has a `find`. -/
def firstNonOff (flag : FlagDetail) : Except ScriptError Json :=
  match flag.variations with
  | .arr variations => do
    let candidate ← findNonOff flag.offVariationKey variations
    .ok (Tables.orPrevious (optionalGet candidate "key") (.str flag.defaultVariationKey))
  | _ => .error (.read "find")

def servedBy (flag : FlagDetail) : Except ScriptError Json :=
  match optionalGet (firstRule flag) "serve" with
  | none | some .null => do
    let variationKey ← firstNonOff flag
    .ok (.obj [("variationKey", variationKey)])
  | some serve => .ok serve

/-- The one rule of the request, by its fields. -/
def savedRule (flag : FlagDetail) (tree : Json) : Except ScriptError (List (String × Json)) := do
  let serve ← servedBy flag
  .ok [("id", Tables.orPrevious (optionalGet (firstRule flag) "id") (.str "rule-1")),
    ("description", Tables.orPrevious (optionalGet (firstRule flag) "description") (.str "")),
    ("when", tree),
    ("serve", serve)]

def saveBody (tenantId environmentId : String) (rule : List (String × Json)) : Admin.PatchFlagBody where
  tenantId := some tenantId
  environmentId := some environmentId
  enabled := none
  defaultVariationKey := none
  offVariationKey := none
  rules := some (.arr [.obj rule])

/-! ## The stored rules -/

section Rules

variable {tree : Json} {first rule : List (String × Json)} {rules stored : List (List (String × Json))}

/-- The list with the tree of its first rule exchanged, or with one new rule if there was none. -/
def Edited (tree : Json) : List (List (String × Json)) → List (List (String × Json)) → Prop
  | [], stored => ∃ rule, stored = [rule] ∧ rule.lookup "when" = some tree
  | first :: rest, stored => ∃ rule, stored = rule :: rest ∧ rule.lookup "when" = some tree ∧
      ∀ name, name ≠ "when" → rule.lookup name = first.lookup name

/-- A value that was given, and that a column of type `jsonb` gives back. -/
def Given (value : JsValue) : Prop := ∃ doc, value = some doc ∧ doc ≠ .null ∧ doc.isPlain = true

/-- A rule with the fields of the source's type, each given, and no others. -/
structure Complete (rule : List (String × Json)) : Prop where
  given : ∀ name ∈ ["id", "description", "serve"], Given (rule.lookup name)
  nothingElse : ∀ name, name ∉ ["id", "description", "when", "serve"] → rule.lookup name = none

theorem eq_orPrevious_iff {asked : JsValue} {fallback : Json} (hFallback : fallback.stored ≠ .null) :
    some (Tables.orPrevious asked fallback).stored = asked ↔ Given asked := by
  cases asked with
  | none =>
    constructor
    · intro hSame
      cases hSame
    · rintro ⟨value, hValue, _⟩
      cases hValue
  | some asked =>
    by_cases hNull : asked = .null
    · subst hNull
      constructor
      · intro hSame
        exact absurd (Option.some.inj hSame) hFallback
      · rintro ⟨value, hValue, hGiven, _⟩
        exact absurd (Option.some.inj hValue).symm hGiven
    · rw [Tables.orPrevious_of_ne hNull, Option.some_inj, Json.stored_eq_self_iff]
      constructor
      · intro hPlain
        exact ⟨asked, rfl, hNull, hPlain⟩
      · rintro ⟨value, hValue, _, hPlain⟩
        obtain rfl := Option.some.inj hValue
        exact hPlain

theorem lookup_cons_eq (key : String) (value : Json) (rest : List (String × Json)) (name : String) :
    ((key, value) :: rest).lookup name = if name = key then some value else rest.lookup name := by
  rw [List.lookup_cons]
  by_cases hSame : name = key
  · rw [beq_iff_eq.mpr hSame, if_pos hSame]
  · rw [beq_false_of_ne hSame, if_neg hSame]

theorem servedBy_eq {flag : FlagDetail} {serve : Json} (h : servedBy flag = .ok serve) :
    ∃ fallback : Json, fallback.stored ≠ .null ∧
      serve = Tables.orPrevious (optionalGet (firstRule flag) "serve") fallback := by
  have hNew : ∀ {serve : Json}, ((firstNonOff flag).bind fun key => .ok (Json.obj [("variationKey", key)])) =
      .ok serve → serve.stored ≠ .null := by
    intro serve hServe
    obtain ⟨key, _, hKey⟩ := bind_eq_ok.mp hServe
    obtain rfl := Except.ok.inj hKey
    rw [Json.stored]
    exact Json.noConfusion
  rw [servedBy] at h
  split at h
  · rename_i hNone
    exact ⟨serve, hNew h, by rw [hNone, Tables.orPrevious]⟩
  · rename_i hNull
    exact ⟨serve, hNew h, by rw [hNull, Tables.orPrevious]⟩
  · rename_i asked hNotNull hAsked
    obtain rfl := Except.ok.inj h
    refine ⟨.bool true, (Json.stored_bool true).symm ▸ Json.noConfusion, ?_⟩
    rw [hAsked, Tables.orPrevious_of_ne]
    rintro rfl
    exact hNotNull rfl

theorem savedRule_eq {flag : FlagDetail} (h : savedRule flag tree = .ok rule) :
    ∃ fallback : Json, fallback.stored ≠ .null ∧
      rule = [("id", Tables.orPrevious (optionalGet (firstRule flag) "id") (.str "rule-1")),
        ("description", Tables.orPrevious (optionalGet (firstRule flag) "description") (.str "")),
        ("when", tree),
        ("serve", Tables.orPrevious (optionalGet (firstRule flag) "serve") fallback)] := by
  obtain ⟨serve, hServe, hRule⟩ := bind_eq_ok.mp h
  obtain ⟨fallback, hFallback, rfl⟩ := servedBy_eq hServe
  exact ⟨fallback, hFallback, (Except.ok.inj hRule).symm⟩

/-- The saved rule differs from the first one in its tree alone exactly if that one was complete. -/
theorem savedRule_sameElsewhere_iff {flag : FlagDetail} (hFirst : firstRule flag = some (.obj first))
    (h : savedRule flag tree = .ok rule) :
    (∀ name, name ≠ "when" → (Json.storedFields rule).lookup name = first.lookup name) ↔ Complete first := by
  obtain ⟨fallback, hFallback, rfl⟩ := savedRule_eq h
  have hGet : ∀ name, optionalGet (firstRule flag) name = first.lookup name := by
    intro name
    rw [hFirst]
    rfl
  have hText : ∀ text, (Json.str text).stored ≠ .null := by
    intro text
    rw [Json.stored_str]
    exact Json.noConfusion
  simp only [hGet, Json.storedFields, lookup_cons_eq, List.lookup_nil]
  constructor
  · intro hSame
    refine ⟨?_, ?_⟩
    · intro name hName
      simp only [List.mem_cons, List.not_mem_nil, or_false] at hName
      rcases hName with rfl | rfl | rfl
      · exact (eq_orPrevious_iff (hText _)).mp (hSame "id" (by decide))
      · exact (eq_orPrevious_iff (hText _)).mp (hSame "description" (by decide))
      · exact (eq_orPrevious_iff hFallback).mp (hSame "serve" (by decide))
    · intro name hOther
      simp only [List.mem_cons, List.not_mem_nil, or_false, not_or] at hOther
      obtain ⟨hId, hDescription, hWhen, hServe⟩ := hOther
      rw [← hSame name hWhen, if_neg hId, if_neg hDescription, if_neg hWhen, if_neg hServe]
  · rintro ⟨hGiven, hNothingElse⟩ name hWhen
    by_cases hId : name = "id"
    · subst hId
      exact (eq_orPrevious_iff (hText _)).mpr (hGiven "id" (by decide))
    · by_cases hDescription : name = "description"
      · subst hDescription
        exact (eq_orPrevious_iff (hText _)).mpr (hGiven "description" (by decide))
      · by_cases hServe : name = "serve"
        · subst hServe
          exact (eq_orPrevious_iff hFallback).mpr (hGiven "serve" (by decide))
        · rw [if_neg hId, if_neg hDescription, if_neg hWhen, if_neg hServe]
          exact (hNothingElse name (by simp [hId, hDescription, hWhen, hServe])).symm

theorem savedRule_tree_iff {flag : FlagDetail} (h : savedRule flag tree = .ok rule) :
    (Json.storedFields rule).lookup "when" = some tree ↔ tree.isPlain = true := by
  obtain ⟨fallback, _, rfl⟩ := savedRule_eq h
  rw [Json.lookup_storedFields]
  change some tree.stored = some tree ↔ _
  rw [Option.some_inj, Json.stored_eq_self_iff]

/-- The one saved rule is the edited list exactly if there was no other. -/
theorem edited_saved_iff {flag : FlagDetail} (hRules : flag.rules = .arr (rules.map .obj))
    (h : savedRule flag tree = .ok rule) :
    Edited tree rules [Json.storedFields rule] ↔
      tree.isPlain = true ∧ rules.length ≤ 1 ∧ ∀ first ∈ rules.head?, Complete first := by
  have hTree := savedRule_tree_iff h
  cases rules with
  | nil =>
    constructor
    · rintro ⟨saved, hList, hSaved⟩
      obtain ⟨rfl, _⟩ := List.cons.inj hList
      exact ⟨hTree.mp hSaved, Nat.zero_le _, fun first hFirst => by cases hFirst⟩
    · rintro ⟨hPlain, _⟩
      exact ⟨_, rfl, hTree.mpr hPlain⟩
  | cons first rest =>
    have hFirst : firstRule flag = some (.obj first) := by
      rw [firstRule, hRules]
      rfl
    have hSame := savedRule_sameElsewhere_iff hFirst h
    constructor
    · rintro ⟨saved, hList, hSaved, hElsewhere⟩
      obtain ⟨rfl, rfl⟩ := List.cons.inj hList
      refine ⟨hTree.mp hSaved, le_rfl, ?_⟩
      rintro other hOther
      obtain rfl := Option.some.inj hOther
      exact hSame.mp hElsewhere
    · rintro ⟨hPlain, hOne, hComplete⟩
      have hRest : rest = [] := List.eq_nil_of_length_eq_zero (by simpa using hOne)
      subst hRest
      exact ⟨_, rfl, hTree.mpr hPlain, hSame.mpr (hComplete first rfl)⟩

/-- A list that was not written is the edited one only if nothing was edited. -/
theorem edited_self_iff :
    Edited tree rules rules ↔ ∃ first, rules.head? = some first ∧ first.lookup "when" = some tree := by
  cases rules with
  | nil =>
    constructor
    · rintro ⟨rule, hList, _⟩
      cases hList
    · rintro ⟨first, hFirst, _⟩
      cases hFirst
  | cons first rest =>
    constructor
    · rintro ⟨rule, hList, hTree, _⟩
      obtain ⟨rfl, _⟩ := List.cons.inj hList
      exact ⟨first, rfl, hTree⟩
    · rintro ⟨head, hHead, hTree⟩
      obtain rfl := Option.some.inj hHead
      exact ⟨first, rfl, hTree, fun _ _ => rfl⟩

theorem exists_stored_iff {P : List (List (String × Json)) → Prop} :
    (∃ stored, some (Json.arr (rules.map .obj)) = some (.arr (stored.map .obj)) ∧ P stored) ↔ P rules := by
  constructor
  · rintro ⟨stored, hSame, hHolds⟩
    have hInjective : Function.Injective Json.obj := fun _ _ => Json.obj.inj
    obtain rfl := List.map_injective_iff.mpr hInjective (Json.arr.inj (Option.some.inj hSame))
    exact hHolds
  · intro hHolds
    exact ⟨rules, rfl, hHolds⟩

end Rules

/-- A save leaves the other rules of a flag alone exactly if there are none, the one there is has
all its fields, the tree is one that is read back as it was written, and the flag has a
configuration to write. -/
theorem save_keeps_rules_iff (runtime : Runtime) (s after : Admin) (course : Course)
    (tenantId environmentId flagKey : String) (flag : FlagDetail) (rules : List (List (String × Json))) (tree : Json)
    (rule : List (String × Json)) (reply : Reply)
    (hLoaded : s.tables.getFlag tenantId environmentId flagKey = some flag)
    (hRules : flag.rules = .arr (rules.map .obj)) (hRule : savedRule flag tree = .ok rule)
    (hSaved : s.patchFlag runtime flagKey (saveBody tenantId environmentId rule) course = (after, some reply))
    (hCode : reply.code = 200) :
    (∃ stored, (after.tables.getFlag tenantId environmentId flagKey).map (·.rules) = some (.arr (stored.map .obj)) ∧
        Edited tree rules stored) ↔
      if s.tables.hasRow (Admin.patchInput tenantId environmentId flagKey (saveBody tenantId environmentId rule)) then
        tree.isPlain = true ∧ rules.length ≤ 1 ∧ ∀ first ∈ rules.head?, Complete first
      else ∃ first, rules.head? = some first ∧ first.lookup "when" = some tree := by
  obtain ⟨_, _, previous, hTenant, hEnvironment, hUpdate⟩ := Admin.patchFlag_saved hSaved hCode
  obtain rfl := Option.some.inj hTenant
  obtain rfl := Option.some.inj hEnvironment
  obtain ⟨hPrevious, hAfter⟩ := Tables.getFlag_updateFlagConfig hUpdate
  obtain rfl := Option.some.inj (hLoaded.symm.trans hPrevious)
  have hStored : (after.tables.getFlag tenantId environmentId flagKey).map (·.rules) = some (.arr
      ((if s.tables.hasRow (Admin.patchInput tenantId environmentId flagKey (saveBody tenantId environmentId rule))
        then [Json.storedFields rule] else rules).map .obj)) := by
    refine (congrArg (Option.map (·.rules)) hAfter).trans ?_
    rw [Option.map_some]
    split
    · change some (Json.stored (.arr [.obj rule])) = _
      rw [Json.stored, Json.storedItems_eq, List.map_singleton, Json.stored]
      rfl
    · rw [hRules]
  rw [hStored, exists_stored_iff]
  split
  · exact edited_saved_iff hRules hRule
  · exact edited_self_iff

def sampleRule (id : String) : List (String × Json) :=
  [("id", .str id), ("description", .str ""), ("when", EMPTY_TREE), ("serve", .obj [("variationKey", .str "on")])]

def ruled (rules : List (List (String × Json))) : Admin :=
  Admin.new Database.oneEnvironment ["env-1"] ["acme"] {
    flags := [Admin.checkoutFlag]
    flagConfigs := [{ Admin.checkoutConfig with rules := .arr (rules.map .obj) }] } []

def ruledDetail (rules : List (List (String × Json))) : FlagDetail :=
  flagDetail Admin.checkoutFlag (some { Admin.checkoutConfig.toFlagConfigRecord with rules := .arr (rules.map .obj) })

def proOnly : Json :=
  .obj [("kind", .str "condition"), ("attribute", .str "plan"), ("operator", .str "eq"), ("values", .arr [.str "pro"])]

def editedRule : List (String × Json) :=
  [("id", .str "r1"), ("description", .str ""), ("when", proOnly), ("serve", .obj [("variationKey", .str "on")])]

theorem save_drops_rule : ¬ ∀ (runtime : Runtime) (s after : Admin) (course : Course)
    (tenantId environmentId flagKey : String) (flag : FlagDetail) (rules : List (List (String × Json))) (tree : Json)
    (rule : List (String × Json)) (reply : Reply),
    s.tables.getFlag tenantId environmentId flagKey = some flag →
    flag.rules = .arr (rules.map .obj) → savedRule flag tree = .ok rule →
    s.patchFlag runtime flagKey (saveBody tenantId environmentId rule) course = (after, some reply) →
    reply.code = 200 →
    ∃ stored, (after.tables.getFlag tenantId environmentId flagKey).map (·.rules) = some (.arr (stored.map .obj)) ∧
      Edited tree rules stored := by
  intro hAll
  obtain ⟨stored, hStored, hEdited⟩ := hAll Database.plainRuntime (ruled [sampleRule "r1", sampleRule "r2"]) _
    Admin.smooth "acme" "env-1" "checkout" (ruledDetail [sampleRule "r1", sampleRule "r2"])
    [sampleRule "r1", sampleRule "r2"] proOnly editedRule _ rfl rfl rfl rfl rfl
  obtain ⟨saved, hList, _⟩ := hEdited
  rw [hList] at hStored
  have hLength : [Json.obj editedRule] = [Json.obj saved, .obj (sampleRule "r2")] :=
    Json.arr.inj (Option.some.inj hStored)
  cases hLength

theorem save_keeps_only_rule : ∃ stored,
    (((ruled [sampleRule "r1"]).patchFlag Database.plainRuntime "checkout" (saveBody "acme" "env-1" editedRule)
      Admin.smooth).1.tables.getFlag "acme" "env-1" "checkout").map (·.rules) = some (.arr (stored.map .obj)) ∧
        Edited proOnly [sampleRule "r1"] stored := by
  refine (save_keeps_rules_iff Database.plainRuntime (ruled [sampleRule "r1"]) _ Admin.smooth "acme" "env-1"
    "checkout" (ruledDetail [sampleRule "r1"]) [sampleRule "r1"] proOnly editedRule _ rfl rfl rfl rfl rfl).mpr ?_
  rw [if_pos (by decide +kernel)]
  refine ⟨rfl, le_rfl, ?_⟩
  rintro first hFirst
  obtain rfl := Option.some.inj hFirst
  refine ⟨?_, ?_⟩
  · intro name hName
    simp only [List.mem_cons, List.not_mem_nil, or_false] at hName
    rcases hName with rfl | rfl | rfl
    · exact ⟨_, rfl, Json.noConfusion, rfl⟩
    · exact ⟨_, rfl, Json.noConfusion, rfl⟩
    · exact ⟨_, rfl, Json.noConfusion, rfl⟩
  · intro name hOther
    simp only [List.mem_cons, List.not_mem_nil, or_false, not_or] at hOther
    obtain ⟨hId, hDescription, hWhen, hServe⟩ := hOther
    simp only [sampleRule, lookup_cons_eq, if_neg hId, if_neg hDescription, if_neg hWhen, if_neg hServe,
      List.lookup_nil]

end Flagship.Console
