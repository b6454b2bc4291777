import Flagship.ControlPlane.Publishing
import Flagship.Lib.Jsonb

/-! # Concurrent changes of a flag's configuration

`getFlag` and `updateFlagConfig` of `apps/control-plane/src/repository.ts`. An update is three
statements that commit one by one: it reads the flag, writes all four columns of its
configuration, those it was not asked to change with what it has read, and stamps the flag.
Statements of all calls interleave.
-/

namespace Flagship.ControlPlane

open Lib Flagship.Core

/-! ## The statements -/

/-- A row of `flags`, as far as `getFlag` reads it; a time is what `toISOString` makes of it. -/
structure FlagEntry extends FlagRecord where
  description : String
  updatedAt : String

structure FlagConfigEntry extends FlagConfigRecord where
  tenantId : String
  updatedAt : String

structure Tables where
  flags : List FlagEntry
  flagConfigs : List FlagConfigEntry

structure FlagDetail extends FlagRow where
  description : String
  updatedAt : String

def flagDetail (flag : FlagEntry) (config : Option FlagConfigRecord) : FlagDetail :=
  { flagRow flag.toFlagRecord config with description := flag.description, updatedAt := flag.updatedAt }

structure UpdateFlagConfigInput where
  tenantId : String
  environmentId : String
  key : String
  enabled : Option Bool
  defaultVariationKey : Option String
  offVariationKey : Option String
  rules : JsValue

namespace Tables

variable (tables : Tables)

def configsFor (flag : FlagEntry) (environmentId : String) : List FlagConfigEntry :=
  tables.flagConfigs.filter fun config => config.flagId = flag.id ∧ config.environmentId = environmentId

def getFlag (tenantId environmentId key : String) : Option FlagDetail :=
  let flags := tables.flags.filter fun flag => flag.tenantId = tenantId ∧ flag.key = key ∧ flag.archived = false
  let rows := flags.flatMap fun flag =>
    (leftJoin ((tables.configsFor flag environmentId).map FlagConfigEntry.toFlagConfigRecord)).map (flagDetail flag)
  rows.head?

/-- `value ?? previous`, which takes `null` for a value that was not given. -/
def orPrevious : JsValue → Json → Json
  | none, previous | some .null, previous => previous
  | some value, _ => value

theorem orPrevious_of_ne {value : Json} (h : value ≠ .null) (previous : Json) :
    orPrevious (some value) previous = value := by
  cases value with
  | null => exact absurd rfl h
  | _ => rfl

theorem orPrevious_eq_getD {asked : JsValue} (h : asked ≠ some .null) (previous : Json) :
    orPrevious asked previous = asked.getD previous := by
  cases asked with
  | none => rfl
  | some value => exact orPrevious_of_ne (fun hNull => h (congrArg some hNull)) previous

/-- The row as the first `UPDATE` writes it; the rules go through `JSON.stringify` into a `jsonb`. -/
def merged (input : UpdateFlagConfigInput) (previous : FlagDetail) (now : String) (config : FlagConfigEntry) :
    FlagConfigEntry :=
  { config with
    enabled := input.enabled.getD previous.enabled
    defaultVariationKey := input.defaultVariationKey.getD previous.defaultVariationKey
    offVariationKey := input.offVariationKey.getD previous.offVariationKey
    rules := (orPrevious input.rules previous.rules).stored
    updatedAt := now }

/-- The `WHERE` of the first `UPDATE`. It asks for the tenant of the configuration, not of the
flag, and takes archived flags too. -/
def isTarget (input : UpdateFlagConfigInput) (config : FlagConfigEntry) : Bool :=
  tables.flags.any (fun flag => config.flagId = flag.id ∧ flag.key = input.key) &&
    decide (config.tenantId = input.tenantId ∧ config.environmentId = input.environmentId)

def updateConfig (input : UpdateFlagConfigInput) (previous : FlagDetail) (now : String) : Tables :=
  { tables with
    flagConfigs := tables.flagConfigs.map fun config =>
      if tables.isTarget input config then merged input previous now config else config }

def updateFlag (input : UpdateFlagConfigInput) (now : String) : Tables :=
  { tables with
    flags := tables.flags.map fun flag =>
      if flag.tenantId = input.tenantId ∧ flag.key = input.key then { flag with updatedAt := now } else flag }

end Tables

/-! ## The calls -/

inductive UpdateStage where
  | called
  | read (previous : FlagDetail)
  | written (previous : FlagDetail)
  | returned (previous : Option FlagDetail)
  | thrown

structure Updates (n : ℕ) where
  tables : Tables
  inputs : Fin n → UpdateFlagConfigInput
  stages : Fin n → UpdateStage

namespace Updates

variable {n : ℕ}

def new (tables : Tables) (inputs : Fin n → UpdateFlagConfigInput) : Updates n where
  tables := tables
  inputs := inputs
  stages := fun _ => .called

inductive Action (n : ℕ) where
  | read (t : Fin n)
  | updateConfig (t : Fin n) (now : String)
  | updateFlag (t : Fin n) (now : String)
  | fail (t : Fin n)

variable (s : Updates n)

def setStage (t : Fin n) (stage : UpdateStage) : Updates n :=
  { s with stages := Function.update s.stages t stage }

def getFlag (t : Fin n) : Option FlagDetail :=
  s.tables.getFlag (s.inputs t).tenantId (s.inputs t).environmentId (s.inputs t).key

def enabled : Action n → Bool
  | .read t => match s.stages t with | .called => true | _ => false
  | .updateConfig t _ => match s.stages t with | .read _ => true | _ => false
  | .updateFlag t _ => match s.stages t with | .written _ => true | _ => false
  | .fail t => match s.stages t with | .called | .read _ | .written _ => true | _ => false

def effect (a : Action n) : Updates n :=
  match a with
  | .read t =>
    match s.getFlag t with
    | none => s.setStage t (.returned none)
    | some previous => s.setStage t (.read previous)
  | .updateConfig t now =>
    match s.stages t with
    | .read previous =>
      { s with tables := s.tables.updateConfig (s.inputs t) previous now }.setStage t (.written previous)
    | _ => s
  | .updateFlag t now =>
    match s.stages t with
    | .written previous =>
      { s with tables := s.tables.updateFlag (s.inputs t) now }.setStage t (.returned (some previous))
    | _ => s
  | .fail t => s.setStage t .thrown

def machine (n : ℕ) : Machine (Updates n) (Action n) where
  enabled := enabled
  effect := effect

end Updates

/-! ## What one statement does to the flag -/

inductive ConfigField where
  | enabled | defaultVariationKey | offVariationKey | rules

def FlagDetail.read (detail : FlagDetail) : ConfigField → Json
  | .enabled => .bool detail.enabled
  | .defaultVariationKey => .str detail.defaultVariationKey
  | .offVariationKey => .str detail.offVariationKey
  | .rules => detail.rules

/-- What the call asks the field to be, if it was given the field at all. -/
def UpdateFlagConfigInput.asks (input : UpdateFlagConfigInput) : ConfigField → JsValue
  | .enabled => input.enabled.map .bool
  | .defaultVariationKey => input.defaultVariationKey.map .str
  | .offVariationKey => input.offVariationKey.map .str
  | .rules => input.rules

namespace Tables

variable {tables : Tables} {tenantId environmentId key : String}

def flagFor (tables : Tables) (tenantId key : String) : Option FlagEntry :=
  tables.flags.find? fun flag => flag.tenantId = tenantId ∧ flag.key = key ∧ flag.archived = false

def configFor (tables : Tables) (flag : FlagEntry) (environmentId : String) : Option FlagConfigEntry :=
  (tables.configsFor flag environmentId).head?

theorem getFlag_eq (tables : Tables) (tenantId environmentId key : String) :
    tables.getFlag tenantId environmentId key = (tables.flagFor tenantId key).map fun flag =>
      flagDetail flag ((tables.configFor flag environmentId).map FlagConfigEntry.toFlagConfigRecord) := by
  rw [getFlag, flagFor, ← List.head?_filter]
  cases tables.flags.filter fun flag => flag.tenantId = tenantId ∧ flag.key = key ∧ flag.archived = false with
  | nil => rfl
  | cons flag rest =>
    cases hConfigs : tables.configsFor flag environmentId with
    | nil => simp [configFor, leftJoin, hConfigs]
    | cons config others => simp [configFor, leftJoin, hConfigs]

theorem mem_of_flagFor {flag : FlagEntry} (h : tables.flagFor tenantId key = some flag) :
    flag ∈ tables.flags ∧ flag.tenantId = tenantId ∧ flag.key = key ∧ flag.archived = false := by
  have hHolds := List.find?_some h
  exact ⟨List.mem_of_find?_eq_some h, of_decide_eq_true hHolds⟩

theorem mem_of_configFor {flag : FlagEntry} {config : FlagConfigEntry}
    (h : tables.configFor flag environmentId = some config) :
    config ∈ tables.flagConfigs ∧ config.flagId = flag.id ∧ config.environmentId = environmentId := by
  obtain ⟨hMem, hHolds⟩ := List.mem_filter.mp (List.mem_of_head? h)
  exact ⟨hMem, of_decide_eq_true hHolds⟩

section Update

variable {input : UpdateFlagConfigInput} {previous : FlagDetail} {now : String}

theorem configFor_updateConfig (flag : FlagEntry) (environmentId : String) :
    (tables.updateConfig input previous now).configFor flag environmentId =
      (tables.configFor flag environmentId).map fun config =>
        if tables.isTarget input config then merged input previous now config else config := by
  rw [configFor, configsFor, updateConfig, List.filter_map, List.head?_map, configFor, configsFor]
  congr 2
  apply List.filter_congr
  intro config _
  simp only [Function.comp_apply]
  split <;> rfl

theorem read_merged (hRules : input.rules ≠ some .null)
    (hPlain : (orPrevious input.rules previous.rules).isPlain = true) (flag : FlagEntry) (config : FlagConfigEntry)
    (field : ConfigField) :
    (flagDetail flag (some (merged input previous now config).toFlagConfigRecord)).read field =
      (input.asks field).getD (previous.read field) := by
  cases field with
  | enabled => exact (Option.getD_map Json.bool previous.enabled input.enabled).symm
  | defaultVariationKey => exact (Option.getD_map Json.str previous.defaultVariationKey input.defaultVariationKey).symm
  | offVariationKey => exact (Option.getD_map Json.str previous.offVariationKey input.offVariationKey).symm
  | rules => exact (Json.stored_of_isPlain hPlain).trans (orPrevious_eq_getD hRules previous.rules)

/-- There is a row for the call to write: the flag's configuration, under the call's tenant. -/
def hasRow (tables : Tables) (input : UpdateFlagConfigInput) : Bool :=
  ((tables.flagFor input.tenantId input.key).bind (tables.configFor · input.environmentId)).any
    (·.tenantId = input.tenantId)

theorem hasRow_iff : tables.hasRow input = true ↔
    ∃ flag config, tables.flagFor input.tenantId input.key = some flag ∧
      tables.configFor flag input.environmentId = some config ∧ config.tenantId = input.tenantId := by
  simp only [hasRow, Option.any_eq_true, Option.bind_eq_some_iff, decide_eq_true_eq]
  constructor
  · rintro ⟨config, ⟨flag, hFlag, hConfig⟩, hTenant⟩
    exact ⟨flag, config, hFlag, hConfig, hTenant⟩
  · rintro ⟨flag, config, hFlag, hConfig, hTenant⟩
    exact ⟨config, ⟨flag, hFlag, hConfig⟩, hTenant⟩

theorem isTarget_of_configFor {flag : FlagEntry} {config : FlagConfigEntry}
    (hFlag : tables.flagFor input.tenantId input.key = some flag)
    (hConfig : tables.configFor flag input.environmentId = some config) (hTenant : config.tenantId = input.tenantId) :
    tables.isTarget input config = true := by
  obtain ⟨hMem, _, hKey, _⟩ := mem_of_flagFor hFlag
  obtain ⟨_, hId, hEnvironment⟩ := mem_of_configFor hConfig
  rw [isTarget, Bool.and_eq_true, List.any_eq_true, decide_eq_true_eq]
  exact ⟨⟨flag, hMem, decide_eq_true ⟨hId, hKey⟩⟩, hTenant, hEnvironment⟩

theorem flagFor_updateConfig (tables : Tables) (input : UpdateFlagConfigInput) (previous : FlagDetail)
    (now tenantId key : String) :
    (tables.updateConfig input previous now).flagFor tenantId key = tables.flagFor tenantId key := rfl

theorem getFlag_updateConfig (hRow : tables.hasRow input = true) (previous : FlagDetail) (now : String) :
    ∃ flag config, (tables.updateConfig input previous now).getFlag input.tenantId input.environmentId input.key =
      some (flagDetail flag (some (merged input previous now config).toFlagConfigRecord)) := by
  obtain ⟨flag, config, hFlag, hConfig, hTenant⟩ := hasRow_iff.mp hRow
  refine ⟨flag, config, ?_⟩
  rw [getFlag_eq, flagFor_updateConfig, hFlag, Option.map_some, configFor_updateConfig, hConfig, Option.map_some,
    if_pos (isTarget_of_configFor hFlag hConfig hTenant), Option.map_some]

theorem read_updateConfig (hRow : tables.hasRow input = true) (hRules : input.rules ≠ some .null)
    (hPlain : (orPrevious input.rules previous.rules).isPlain = true) (field : ConfigField) :
    ((tables.updateConfig input previous now).getFlag input.tenantId input.environmentId input.key).map
        (·.read field) = some ((input.asks field).getD (previous.read field)) := by
  obtain ⟨flag, config, hAfter⟩ := getFlag_updateConfig hRow previous now
  rw [hAfter, Option.map_some, read_merged hRules hPlain]

theorem getFlag_updateFlag (tables : Tables) (input : UpdateFlagConfigInput)
    (now tenantId environmentId key : String) :
    (tables.updateFlag input now).getFlag tenantId environmentId key =
      (tables.getFlag tenantId environmentId key).map fun detail =>
        if tenantId = input.tenantId ∧ key = input.key then { detail with updatedAt := now } else detail := by
  have hStamp : (tables.updateFlag input now).flagFor tenantId key = (tables.flagFor tenantId key).map fun flag =>
      if flag.tenantId = input.tenantId ∧ flag.key = input.key then { flag with updatedAt := now } else flag := by
    rw [flagFor, updateFlag, List.find?_map, flagFor]
    congr 2
    funext flag
    simp only [Function.comp_apply]
    split <;> rfl
  rw [getFlag_eq, getFlag_eq, hStamp]
  cases hFlag : tables.flagFor tenantId key with
  | none => rfl
  | some flag =>
    obtain ⟨_, rfl, rfl, _⟩ := mem_of_flagFor hFlag
    simp only [Option.map_some]
    split
    · rfl
    · rfl

theorem read_updateFlag (field : ConfigField) :
    ((tables.updateFlag input now).getFlag tenantId environmentId key).map (·.read field) =
      (tables.getFlag tenantId environmentId key).map (·.read field) := by
  rw [getFlag_updateFlag, Option.map_map]
  congr 1
  funext detail
  simp only [Function.comp_apply]
  split
  · cases field <;> rfl
  · rfl

end Update

end Tables

/-! ## Runs -/

def UpdateStage.hasWritten : UpdateStage → Bool
  | .written _ | .returned (some _) => true
  | .called | .read _ | .returned none | .thrown => false

def UpdateStage.isAcknowledged : UpdateStage → Bool
  | .returned (some _) => true
  | .called | .read _ | .written _ | .returned none | .thrown => false

theorem UpdateStage.hasWritten_of_isAcknowledged {stage : UpdateStage} (h : stage.isAcknowledged = true) :
    stage.hasWritten = true := by
  cases stage with
  | returned previous =>
    cases previous with
    | none => cases h
    | some previous => rfl
  | _ => cases h

namespace Updates

variable {n : ℕ} {s : Updates n}

/-- The first `UPDATE` of a call finds a row, was not asked for `null` rules, writes rules whose
numbers are finite, and what it was not asked to change still is as the call has read it. -/
structure Undisturbed (s : Updates n) (t : Fin n) (previous : FlagDetail) : Prop where
  row : s.tables.hasRow (s.inputs t) = true
  rules : (s.inputs t).rules ≠ some .null
  plain : (Tables.orPrevious (s.inputs t).rules previous.rules).isPlain = true
  current : ∀ field, (s.inputs t).asks field = none →
    (s.getFlag t).map (·.read field) = some (previous.read field)

def undisturbed (s : Updates n) : Action n → Prop
  | .updateConfig t _ => ∀ previous, s.stages t = .read previous → Undisturbed s t previous
  | .read _ | .updateFlag _ _ | .fail _ => True

/-- Every field holds what the call that set it has asked for. -/
def Honours (s : Updates n) (t : Fin n) : Prop :=
  ∀ field value, (s.inputs t).asks field = some value → (s.getFlag t).map (·.read field) = some value

structure Disjoint (inputs : Fin n → UpdateFlagConfigInput) : Prop where
  tenantId : ∀ t t', (inputs t).tenantId = (inputs t').tenantId
  environmentId : ∀ t t', (inputs t).environmentId = (inputs t').environmentId
  key : ∀ t t', (inputs t).key = (inputs t').key
  fields : ∀ t t', t ≠ t' → ∀ field, (inputs t).asks field = none ∨ (inputs t').asks field = none

def Honoured (s : Updates n) : Prop := ∀ t, (s.stages t).hasWritten = true → s.Honours t

theorem inputs_effect (s : Updates n) (a : Action n) : (s.effect a).inputs = s.inputs := by
  cases a with
  | read t =>
    rw [effect]
    split <;> rfl
  | updateConfig t now =>
    rw [effect]
    split <;> rfl
  | updateFlag t now =>
    rw [effect]
    split <;> rfl
  | fail t => rfl

@[simp] theorem stages_setStage (s : Updates n) (t : Fin n) (stage : UpdateStage) (t' : Fin n) :
    (s.setStage t stage).stages t' = if t' = t then stage else s.stages t' :=
  Function.update_apply s.stages t stage t'

/-- A step of `t` that has written nothing yet, or after what it has written. -/
theorem Honoured.setStage {t : Fin n} {stage : UpdateStage} (tables : Tables) (h : s.Honoured)
    (hRead : ∀ tenantId environmentId key field,
      (tables.getFlag tenantId environmentId key).map (FlagDetail.read · field) =
        (s.tables.getFlag tenantId environmentId key).map (·.read field))
    (hStage : stage.hasWritten = true → (s.stages t).hasWritten = true) :
    Honoured ({ s with tables := tables }.setStage t stage) := by
  intro t' hWritten field value hAsks
  have hEarlier : (s.stages t').hasWritten = true := by
    rw [stages_setStage] at hWritten
    split at hWritten
    · rename_i hSame
      exact hSame ▸ hStage hWritten
    · exact hWritten
  exact (hRead _ _ _ field).trans (h t' hEarlier field value hAsks)

theorem Honoured.updateConfig {t : Fin n} {previous : FlagDetail} (now : String) (h : s.Honoured)
    (hDisjoint : Disjoint s.inputs) (hUndisturbed : Undisturbed s t previous) :
    Honoured ({ s with tables := s.tables.updateConfig (s.inputs t) previous now }.setStage t
      (.written previous)) := by
  have hRead : ∀ field, ((s.tables.updateConfig (s.inputs t) previous now).getFlag (s.inputs t).tenantId
      (s.inputs t).environmentId (s.inputs t).key).map (·.read field) =
        some (((s.inputs t).asks field).getD (previous.read field)) :=
    Tables.read_updateConfig hUndisturbed.row hUndisturbed.rules hUndisturbed.plain
  intro t' hWritten field value hAsks
  change ((s.tables.updateConfig (s.inputs t) previous now).getFlag (s.inputs t').tenantId
    (s.inputs t').environmentId (s.inputs t').key).map (·.read field) = some value
  rw [hDisjoint.tenantId t' t, hDisjoint.environmentId t' t, hDisjoint.key t' t, hRead field]
  change (s.inputs t').asks field = some value at hAsks
  by_cases hSame : t' = t
  · subst hSame
    rw [hAsks, Option.getD_some]
  · have hOther : (s.inputs t).asks field = none := by
      rcases hDisjoint.fields t' t hSame field with hNone | hNone
      · rw [hNone] at hAsks
        cases hAsks
      · exact hNone
    have hEarlier : (s.stages t').hasWritten = true := by
      rwa [stages_setStage, if_neg hSame] at hWritten
    have hHeld := h t' hEarlier field value hAsks
    rw [getFlag, hDisjoint.tenantId t' t, hDisjoint.environmentId t' t, hDisjoint.key t' t] at hHeld
    rw [hOther, Option.getD_none]
    exact (hUndisturbed.current field hOther).symm.trans hHeld

theorem Honoured.step {a : Action n} (h : s.Honoured) (hDisjoint : Disjoint s.inputs)
    (hEnabled : s.enabled a = true) (hWithin : s.undisturbed a) : (s.effect a).Honoured := by
  have hKept : ∀ {t stage}, stage.hasWritten = false → Honoured (s.setStage t stage) := by
    intro t stage hNothing
    refine h.setStage s.tables (fun _ _ _ _ => rfl) fun hWritten => ?_
    rw [hNothing] at hWritten
    cases hWritten
  cases a with
  | read t =>
    rw [effect]
    split
    · exact hKept rfl
    · exact hKept rfl
  | updateConfig t now =>
    rw [effect]
    split
    · rename_i previous hStage
      exact h.updateConfig now hDisjoint (hWithin previous hStage)
    · exact h
  | updateFlag t now =>
    rw [effect]
    split
    · rename_i previous hStage
      exact h.setStage _ (fun _ _ _ _ => Tables.read_updateFlag _) fun _ => by rw [hStage]; rfl
    · exact h
  | fail t => exact hKept rfl

/-- Where no update is disturbed, calls that set different fields of one configuration lose
nothing: once all have returned, each field holds what was asked for. -/
theorem updates_honoured {tables : Tables} {inputs : Fin n → UpdateFlagConfigInput} (hDisjoint : Disjoint inputs)
    (hReach : (machine n).Reachable undisturbed (new tables inputs) s)
    (hReturned : ∀ t, (s.stages t).isAcknowledged = true) (t : Fin n) (field : ConfigField) (value : Json)
    (hAsks : (inputs t).asks field = some value) :
    (s.tables.getFlag (inputs t).tenantId (inputs t).environmentId (inputs t).key).map (·.read field) =
      some value := by
  have hRun : s.inputs = inputs ∧ s.Honoured := by
    refine hReach.invariant (fun s => s.inputs = inputs ∧ s.Honoured) ⟨rfl, fun _ hWritten => by cases hWritten⟩ ?_
    rintro s a _ ⟨rfl, hHonoured⟩ hEnabled hWithin
    exact ⟨inputs_effect s a, hHonoured.step hDisjoint hEnabled hWithin⟩
  obtain ⟨rfl, hHonoured⟩ := hRun
  exact hHonoured t (UpdateStage.hasWritten_of_isAcknowledged (hReturned t)) field value hAsks

def sampleTables : Tables where
  flags := [{
    id := "flag-1", tenantId := "acme", key := "checkout", salt := "salt", bucketBy := "key",
    variations := .arr [.obj [("key", .str "on"), ("value", .bool true)],
      .obj [("key", .str "off"), ("value", .bool false)]],
    archived := false, description := "", updatedAt := "t0" }]
  flagConfigs := [{
    flagId := "flag-1", environmentId := "env-1", enabled := false, defaultVariationKey := "on",
    offVariationKey := "off", rules := .arr [], prerequisites := .arr [], tenantId := "acme", updatedAt := "t0" }]

def nothingAsked : UpdateFlagConfigInput where
  tenantId := "acme"
  environmentId := "env-1"
  key := "checkout"
  enabled := none
  defaultVariationKey := none
  offVariationKey := none
  rules := none

/-- One call turns the flag on, the other changes what it serves. -/
def twoUpdates : Fin 2 → UpdateFlagConfigInput
  | 0 => { nothingAsked with enabled := some true }
  | 1 => { nothingAsked with defaultVariationKey := some "off" }

theorem twoUpdates_disjoint : Disjoint twoUpdates := by
  refine ⟨by decide, by decide, by decide, ?_⟩
  have hFields : ∀ field, (twoUpdates 0).asks field = none ∨ (twoUpdates 1).asks field = none := by
    rintro (_ | _ | _ | _)
    · exact Or.inr rfl
    · exact Or.inl rfl
    · exact Or.inl rfl
    · exact Or.inl rfl
  intro t t' hNe field
  match t, t' with
  | 0, 0 | 1, 1 => exact absurd rfl hNe
  | 0, 1 => exact hFields field
  | 1, 0 => exact (hFields field).symm

/-- The second call reads what the first has written. -/
def readAfterWrite : List (Action 2) :=
  [.read 0, .updateConfig 0 "t1", .read 1, .updateFlag 0 "t2", .updateConfig 1 "t3", .updateFlag 1 "t4"]

def hasNoRules (detail : FlagDetail) : Bool :=
  match detail.rules with
  | .arr [] => true
  | _ => false

/-- A test for `undisturbed` where no rules are about. -/
def isUndisturbed (s : Updates n) : Action n → Bool
  | .updateConfig t _ =>
    match s.stages t, s.getFlag t with
    | .read previous, some current =>
      s.tables.hasRow (s.inputs t) && (s.inputs t).rules.isNone && hasNoRules previous && hasNoRules current &&
        decide (current.enabled = previous.enabled ∧ current.defaultVariationKey = previous.defaultVariationKey ∧
          current.offVariationKey = previous.offVariationKey)
    | _, _ => false
  | .read _ | .updateFlag _ _ | .fail _ => true

theorem rules_of_hasNoRules {detail : FlagDetail} (h : hasNoRules detail = true) : detail.rules = .arr [] := by
  rw [hasNoRules] at h
  split at h
  · assumption
  · cases h

theorem undisturbed_of_isUndisturbed {a : Action n} (h : s.isUndisturbed a = true) : s.undisturbed a := by
  cases a with
  | updateConfig t now =>
    intro previous hStage
    rw [isUndisturbed, hStage] at h
    cases hCurrent : s.getFlag t with
    | none =>
      rw [hCurrent] at h
      cases h
    | some current =>
      simp only [hCurrent, Bool.and_eq_true, decide_eq_true_eq, Option.isNone_iff_eq_none] at h
      obtain ⟨⟨⟨⟨hRow, hNone⟩, hPrevious⟩, hRules⟩, hEnabled, hDefault, hOff⟩ := h
      refine { row := hRow, rules := fun hNull => ?_, plain := ?_, current := ?_ }
      · rw [hNone] at hNull
        cases hNull
      · rw [hNone, rules_of_hasNoRules hPrevious]
        rfl
      · intro field _
        rw [hCurrent, Option.map_some]
        cases field with
        | enabled => simp only [FlagDetail.read, hEnabled]
        | defaultVariationKey => simp only [FlagDetail.read, hDefault]
        | offVariationKey => simp only [FlagDetail.read, hOff]
        | rules => simp only [FlagDetail.read, rules_of_hasNoRules hPrevious, rules_of_hasNoRules hRules]
  | _ => trivial

theorem twoUpdates_honoured : ∃ s, (machine 2).Reachable undisturbed (new sampleTables twoUpdates) s ∧
    (s.tables.getFlag "acme" "env-1" "checkout").map (·.read .enabled) = some (.bool true) ∧
    (s.tables.getFlag "acme" "env-1" "checkout").map (·.read .defaultVariationKey) = some (.str "off") := by
  have hEnd : ((machine 2).runWithin isUndisturbed (new sampleTables twoUpdates) readAfterWrite).map (fun s =>
      decide (∀ t, (s.stages t).isAcknowledged = true)) = some true := by
    decide +kernel
  obtain ⟨s, hRun, hReturned⟩ := Option.map_eq_some_iff.mp hEnd
  have hReach := Machine.Reachable.start.runWithin (fun _ _ _ hQuiet => undisturbed_of_isUndisturbed hQuiet) hRun
  exact ⟨s, hReach,
    updates_honoured twoUpdates_disjoint hReach (of_decide_eq_true hReturned) 0 .enabled (.bool true) rfl,
    updates_honoured twoUpdates_disjoint hReach (of_decide_eq_true hReturned) 1 .defaultVariationKey (.str "off") rfl⟩

def bothReadFirst : List (Action 2) :=
  [.read 0, .read 1, .updateConfig 0 "t1", .updateConfig 1 "t2", .updateFlag 0 "t3", .updateFlag 1 "t4"]

theorem update_lost : ¬ ∀ (n : ℕ) (tables : Tables) (inputs : Fin n → UpdateFlagConfigInput) (s : Updates n),
    Disjoint inputs → (machine n).Reachable Machine.anyStep (new tables inputs) s →
    (∀ t, (s.stages t).isAcknowledged = true) → ∀ t field value, (inputs t).asks field = some value →
    (s.tables.getFlag (inputs t).tenantId (inputs t).environmentId (inputs t).key).map (·.read field) =
      some value := by
  intro hAll
  have hEnd : ((machine 2).run (new sampleTables twoUpdates) bothReadFirst).map (fun s =>
      (decide (∀ t, (s.stages t).isAcknowledged = true),
        (s.tables.getFlag "acme" "env-1" "checkout").map (·.enabled))) = some (true, some false) := by
    decide +kernel
  obtain ⟨s, hRun, hEnd⟩ := Option.map_eq_some_iff.mp hEnd
  obtain ⟨hReturned, hRead⟩ := Prod.mk.inj hEnd
  have hHeld := hAll 2 sampleTables twoUpdates s twoUpdates_disjoint (Machine.reachable_of_run hRun)
    (of_decide_eq_true hReturned) 0 .enabled (.bool true) rfl
  change (s.tables.getFlag "acme" "env-1" "checkout").map (·.read .enabled) = some (.bool true) at hHeld
  obtain ⟨detail, hDetail, hEnabled⟩ := Option.map_eq_some_iff.mp hHeld
  rw [hDetail] at hRead
  have hFalse : detail.enabled = false := Option.some.inj hRead
  exact Bool.false_ne_true (hFalse.symm.trans (Json.bool.inj hEnabled))

end Updates

end Flagship.ControlPlane
