import Flagship.ControlPlane.AuditLog
import Flagship.ControlPlane.Cycle
import Flagship.ControlPlane.Keyed
import Flagship.ControlPlane.Published
import Flagship.Lib.UniqueColumns

/-! # Creating a flag in environments that compile

`POST /v1/flags` of `apps/control-plane/src/server.ts` against `compileRuleset`: what the route
lets through becomes a row of every environment of the tenant, and is validated once more at
each publish.
-/

namespace Flagship.ControlPlane

open Lib Flagship.Core

/-! ## Rows without a problem -/

section Rows

variable {rows rows' : List FlagRow} {row : FlagRow} {segmentRows : List SegmentRow} {segmentKeys : List String}
  {raw : RawFlag}

theorem cycleProblems_eq_nil_iff {flags : List RawFlag} :
    cycleProblems flags = [] ↔ findPrerequisiteCycle flags = none := by
  rw [cycleProblems]
  split
  · rename_i cycle hCycle
    simp [hCycle]
  · rename_i hNone
    simp [hNone]

theorem flagKeys_ofRow (rows : List FlagRow) : (rows.map RawFlag.ofRow).map RawFlag.key = rows.map FlagRow.key := by
  rw [List.map_map]
  rfl

theorem validationProblems_eq_nil_iff : validationProblems rows segmentRows = .ok [] ↔
    (∀ row ∈ segmentRows, validateRuleNode (MAX_DEPTH + 1) (some row.ruleTree) s!"segment \"{row.key}\"" = []) ∧
    (∀ row ∈ rows, flagProblems (segmentRows.map SegmentRow.key) (rows.map FlagRow.key) (RawFlag.ofRow row) =
      .ok []) ∧
    findPrerequisiteCycle (rows.map RawFlag.ofRow) = none := by
  rw [validationProblems]
  simp only [flagKeys_ofRow, bind_eq_ok, Except.ok.injEq, List.append_eq_nil_iff, List.flatMap_eq_nil_iff,
    cycleProblems_eq_nil_iff]
  constructor
  · rintro ⟨problems, hProblems, ⟨hSegments, hNone⟩, hCycle⟩
    refine ⟨hSegments, fun row hRow => ?_, hCycle⟩
    exact forall_of_flatten_eq_nil hProblems hNone _ (List.mem_map_of_mem hRow)
  · rintro ⟨hSegments, hFlags, hCycle⟩
    obtain ⟨problems, hProblems, hNone⟩ := flatten_eq_nil_of_forall (List.forall_mem_map.mpr hFlags)
    exact ⟨problems, hProblems, ⟨hSegments, hNone⟩, hCycle⟩

/-- More flags leave no prerequisite unknown that was not. -/
theorem missingPrerequisite_mono {flagKeys flagKeys' : List String} (hMore : ∀ key ∈ flagKeys, key ∈ flagKeys')
    {prerequisite : Json} (h : missingPrerequisite flagKeys raw prerequisite = .ok []) :
    missingPrerequisite flagKeys' raw prerequisite = .ok [] := by
  obtain ⟨flagKey, hKey, h⟩ := bind_eq_ok.mp h
  rw [missingPrerequisite, hKey]
  split at h
  · rename_i hHas
    obtain ⟨other, hOther, hSame⟩ := List.any_eq_true.mp hHas
    obtain ⟨key, hListed, rfl⟩ := List.mem_map.mp hOther
    exact if_pos (List.any_eq_true.mpr ⟨_, str_mem_keySet.mpr (hMore key hListed), hSame⟩)
  · obtain ⟨text, _, h⟩ := bind_eq_ok.mp h
    cases h

theorem flagProblems_mono {flagKeys flagKeys' : List String} (hMore : ∀ key ∈ flagKeys, key ∈ flagKeys')
    (h : flagProblems segmentKeys flagKeys raw = .ok []) : flagProblems segmentKeys flagKeys' raw = .ok [] := by
  obtain ⟨own, hOwn, h⟩ := bind_eq_ok.mp h
  obtain ⟨missing, hMissing, h⟩ := bind_eq_ok.mp h
  obtain ⟨rfl, hNone⟩ := List.append_eq_nil_iff.mp (Except.ok.inj h)
  obtain ⟨missing', hMissing', hNone'⟩ := flatten_eq_nil_of_forall fun prerequisite hMem =>
    missingPrerequisite_mono hMore (forall_of_flatten_eq_nil hMissing hNone prerequisite hMem)
  rw [flagProblems]
  exact bind_eq_ok.mpr ⟨[], hOwn, bind_eq_ok.mpr ⟨missing', hMissing', by rw [hNone', List.append_nil]⟩⟩

/-- What there is to check of a flag without rules and prerequisites. -/
theorem flagProblems_bare_iff {flagKeys : List String} (hRules : raw.rules = [])
    (hPrerequisites : raw.prerequisites = []) :
    flagProblems segmentKeys flagKeys raw = .ok [] ↔
      ∃ keys, raw.variations.mapM (fun variation => JsValue.get (some variation) "key") = .ok keys ∧
        (keys.Pairwise fun first second => JsValue.sameValueZero second first = false) ∧
        some (.str raw.defaultVariationKey) ∈ keys ∧ some (.str raw.offVariationKey) ∈ keys := by
  have hOwn : flagProblems segmentKeys flagKeys raw = .ok [] ↔ validateFlag raw segmentKeys = .ok [] := by
    rw [flagProblems, hPrerequisites]
    cases hFlag : validateFlag raw segmentKeys with
    | error error => exact iff_of_false (fun h => nomatch h) (fun h => nomatch h)
    | ok own =>
      change Except.ok (own ++ [].flatten) = Except.ok [] ↔ _
      rw [List.flatten_nil, List.append_nil]
  rw [hOwn, validateFlag, hRules]
  cases hKeys : raw.variations.mapM fun variation => JsValue.get (some variation) "key" with
  | error error =>
    refine iff_of_false (fun h => ?_) fun h => ?_
    · cases h
    · obtain ⟨_, hSome, _⟩ := h
      cases hSome
  | ok keys =>
    have hLength : raw.variations.length = keys.length := (mapM_eq_ok.mp hKeys).length_eq
    have hDeclared : ∀ {key : String}, JsValue.has (JsValue.distinct keys) (some (.str key)) = true ↔
        some (.str key) ∈ keys := JsValue.has_str.trans JsValue.mem_distinct
    have hChecks : ∀ {message message' message'' : String},
        report ((JsValue.distinct keys).length ≠ raw.variations.length) message ++
            report (!JsValue.has (JsValue.distinct keys) (some (.str raw.defaultVariationKey))) message' ++
            report (!JsValue.has (JsValue.distinct keys) (some (.str raw.offVariationKey))) message'' = [] ↔
          (keys.Pairwise fun first second => JsValue.sameValueZero second first = false) ∧
            some (.str raw.defaultVariationKey) ∈ keys ∧ some (.str raw.offVariationKey) ∈ keys := by
      intro message message' message''
      rw [List.append_eq_nil_iff, List.append_eq_nil_iff, report_eq_nil, report_eq_nil, report_eq_nil,
        decide_eq_false_iff_not, not_not, Bool.not_eq_false', Bool.not_eq_false', hDeclared, hDeclared, hLength,
        JsValue.length_distinct_eq_iff, and_assoc]
    change (if (JsValue.distinct keys).isEmpty then Except.ok [_]
      else Except.ok (report _ _ ++ report _ _ ++ report _ _ ++ [].flatten)) = Except.ok [] ↔ _
    simp only [Except.ok.injEq, exists_eq_left']
    split
    · rename_i hEmpty
      refine iff_of_false (fun h => nomatch Except.ok.inj h) ?_
      rintro ⟨_, hDefault, _⟩
      have hMem := JsValue.mem_distinct.mpr hDefault
      rw [List.isEmpty_iff.mp hEmpty] at hMem
      cases hMem
    · rw [Except.ok.injEq, List.flatten_nil, List.append_nil]
      exact hChecks

/-- A flag without prerequisites closes no cycle. -/
theorem acyclic_of_added {flags flags' : List RawFlag}
    (hAdded : ∀ flag ∈ flags', flag ∈ flags ∨ flag.prerequisites = [])
    (h : ∀ key, ¬ Relation.TransGen (ListedPrerequires flags) key key) (key : String) :
    ¬ Relation.TransGen (ListedPrerequires flags') key key := by
  have hSource : ∀ {a b : String}, Prerequires flags' a b → Prerequires flags a b := by
    rintro a b ⟨flag, hMem, hKey, hListed⟩
    rcases hAdded flag hMem with hOld | hNone
    · exact ⟨flag, hOld, hKey, hListed⟩
    · rw [hNone] at hListed
      cases hListed
  have hPath : ∀ {a b : String}, Relation.TransGen (ListedPrerequires flags') a b →
      (∃ c, ListedPrerequires flags' b c) → Relation.TransGen (ListedPrerequires flags) a b := by
    -- A node that the path leaves again is a flag of its own, and not an added one.
    have hListed : ∀ {b : String}, (∃ c, ListedPrerequires flags' b c) → b ∈ flags.map RawFlag.key := by
      rintro b ⟨c, hEdge, _⟩
      obtain ⟨flag, hMem, rfl, _⟩ := hSource hEdge
      exact List.mem_map_of_mem hMem
    intro a b hSteps
    induction hSteps with
    | single hStep => exact fun hLeaves => Relation.TransGen.single ⟨hSource hStep.1, hListed hLeaves⟩
    | tail _ hStep ih => exact fun hLeaves => (ih ⟨_, hStep⟩).tail ⟨hSource hStep.1, hListed hLeaves⟩
  intro hCycle
  obtain ⟨next, hFirst, _⟩ := Relation.TransGen.head'_iff.mp hCycle
  exact h key (hPath hCycle ⟨next, hFirst⟩)

/-- A row without prerequisites beside rows without a problem. -/
theorem validationProblems_added_iff (hRows : rows'.Perm (rows ++ [row])) (hNodup : (rows'.map FlagRow.key).Nodup)
    (hNone : (RawFlag.ofRow row).prerequisites = []) (hValid : validationProblems rows segmentRows = .ok []) :
    validationProblems rows' segmentRows = .ok [] ↔
      flagProblems (segmentRows.map SegmentRow.key) (rows'.map FlagRow.key) (RawFlag.ofRow row) = .ok [] := by
  obtain ⟨hSegments, hFlags, hCycle⟩ := validationProblems_eq_nil_iff.mp hValid
  have hMem : ∀ other, other ∈ rows' ↔ other ∈ rows ∨ other = row := by
    intro other
    rw [hRows.mem_iff, List.mem_append, List.mem_singleton]
  have hKeys : ∀ key ∈ rows.map FlagRow.key, key ∈ rows'.map FlagRow.key := by
    intro key hKey
    obtain ⟨other, hOther, rfl⟩ := List.mem_map.mp hKey
    exact List.mem_map_of_mem ((hMem other).mpr (Or.inl hOther))
  have hNodupBefore : (rows.map FlagRow.key).Nodup := by
    have hBoth := (hRows.map FlagRow.key).nodup_iff.mp hNodup
    rw [List.map_append] at hBoth
    exact hBoth.of_append_left
  rw [validationProblems_eq_nil_iff]
  constructor
  · rintro ⟨_, hAll, _⟩
    exact hAll row ((hMem row).mpr (Or.inr rfl))
  · intro hAdded
    refine ⟨hSegments, ?_, ?_⟩
    · intro other hOther
      rcases (hMem other).mp hOther with hOld | rfl
      · exact flagProblems_mono hKeys (hFlags other hOld)
      · exact hAdded
    · rw [← flagKeys_ofRow] at hNodup hNodupBefore
      rw [findPrerequisiteCycle_eq_none_iff hNodup]
      refine acyclic_of_added ?_ ((findPrerequisiteCycle_eq_none_iff hNodupBefore).mp hCycle)
      intro flag hFlag
      obtain ⟨other, hOther, rfl⟩ := List.mem_map.mp hFlag
      rcases (hMem other).mp hOther with hOld | rfl
      · exact Or.inl (List.mem_map_of_mem hOld)
      · exact Or.inr hNone

end Rows

/-! ## The rows of an environment -/

section Loaded

variable {runtime : Runtime} {s after : Admin} {tenantId environmentId : String}

def flagRows (configs : List FlagConfigEntry) (environmentId : String) (flag : FlagEntry) : List FlagRow :=
  (leftJoin ((configs.map FlagConfigEntry.toFlagConfigRecord).filter fun config =>
    config.flagId = flag.id ∧ config.environmentId = environmentId)).map (flagRow flag.toFlagRecord)

def liveFlags (flags : List FlagEntry) (tenantId : String) : List FlagEntry :=
  flags.filter fun flag => flag.tenantId = tenantId ∧ flag.archived = false

theorem loadFlags_eq (runtime : Runtime) (tables : Tables) (segments : List SegmentRecord)
    (tenantId environmentId : String) :
    loadFlags runtime (Admin.configurationOf tables segments) tenantId environmentId =
      ((liveFlags tables.flags tenantId).flatMap (flagRows tables.flagConfigs environmentId)).mergeSort
        fun first second => runtime.collation first.key second.key := by
  rw [loadFlags, Admin.configurationOf, List.filter_map, List.flatMap_map]
  rfl

theorem loadSegments_nodup (hKeyed : Keyed s) (runtime : Runtime) (tenantId : String) :
    ((loadSegments runtime (Admin.configurationOf s.tables s.segments) tenantId).map SegmentRow.key).Nodup := by
  refine (((List.mergeSort_perm _ _).map SegmentRow.key).nodup_iff).mpr ?_
  rw [List.map_map]
  exact nodup_map_filter hKeyed.segments fun _ hKept => of_decide_eq_true hKept

/-- A flag has at most one configuration in an environment. -/
theorem flagRows_eq_singleton (hKeyed : Keyed s) (environmentId : String) (flag : FlagEntry) :
    ∃ config, flagRows s.tables.flagConfigs environmentId flag = [flagRow flag.toFlagRecord config] := by
  rw [flagRows, List.filter_map]
  have hUnique : (s.tables.flagConfigs.filter ((fun config : FlagConfigRecord =>
      decide (config.flagId = flag.id ∧ config.environmentId = environmentId)) ∘
        FlagConfigEntry.toFlagConfigRecord)).length ≤ 1 :=
    length_filter_le_one hKeyed.flagConfigs fun config hKept => of_decide_eq_true hKept
  generalize s.tables.flagConfigs.filter _ = kept at hUnique ⊢
  cases kept with
  | nil => exact ⟨none, rfl⟩
  | cons config rest =>
    have hNoMore : rest = [] := by
      rw [List.length_cons] at hUnique
      exact List.eq_nil_of_length_eq_zero (by omega)
    rw [hNoMore]
    exact ⟨some config.toFlagConfigRecord, rfl⟩

theorem flagRows_keys (hKeyed : Keyed s) (tenantId environmentId : String) :
    ((liveFlags s.tables.flags tenantId).flatMap (flagRows s.tables.flagConfigs environmentId)).map FlagRow.key =
      (liveFlags s.tables.flags tenantId).map fun flag => flag.key := by
  refine map_flatMap_singleton _ fun flag => ?_
  obtain ⟨config, hRow⟩ := flagRows_eq_singleton hKeyed environmentId flag
  exact ⟨_, hRow, rfl⟩

theorem liveFlags_nodup (hKeyed : Keyed s) (tenantId : String) :
    ((liveFlags s.tables.flags tenantId).map fun flag => flag.key).Nodup :=
  nodup_map_filter hKeyed.flags fun _ hKept => (of_decide_eq_true hKept).1

/-! ### After the creation -/

section Created

variable {input : CreateFlagInput} {id salt : String} {course : Course} {tables : Tables}

/-- The row that a created flag gives every environment. -/
def createdRow (input : CreateFlagInput) (salt : String) : FlagRow where
  key := input.key
  salt := salt
  bucketBy := "key"
  variations := input.variations.stored
  enabled := false
  defaultVariationKey := Admin.sentText input.defaultVariationKey
  offVariationKey := Admin.sentText input.offVariationKey
  rules := .arr []
  prerequisites := .arr []

/-- The configurations of a created flag, one for each environment of the tenant. -/
def createdConfigs (s : Admin) (input : CreateFlagInput) (id now : String) : List FlagConfigRecord :=
  (s.environmentsOf input.tenantId).map fun environmentId =>
    (Admin.flagConfigEntry input id now environmentId).toFlagConfigRecord

theorem flagConfigs_created (h : s.createFlag input id salt course = .ok tables) :
    tables.flagConfigs.map FlagConfigEntry.toFlagConfigRecord =
      s.tables.flagConfigs.map FlagConfigEntry.toFlagConfigRecord ++
        createdConfigs s input id (course.now .begin) := by
  obtain ⟨_, rfl⟩ := Admin.createFlag_eq_ok h
  rw [List.map_append, List.map_map]
  rfl

theorem createdConfigs_own (hKeyed : Keyed s) (hEnvironment : environmentId ∈ s.environmentsOf input.tenantId)
    (now : String) :
    (createdConfigs s input id now).filter (fun config =>
        decide (config.flagId = id ∧ config.environmentId = environmentId)) =
      [(Admin.flagConfigEntry input id now environmentId).toFlagConfigRecord] := by
  have hSame : ((fun config : FlagConfigRecord =>
      decide (config.flagId = id ∧ config.environmentId = environmentId)) ∘ fun other =>
        (Admin.flagConfigEntry input id now other).toFlagConfigRecord) =
      fun other => decide (other = environmentId) := by
    funext other
    exact decide_eq_decide.mpr (and_iff_right rfl)
  rw [createdConfigs, List.filter_map, hSame, filter_eq_singleton (environmentsOf_nodup hKeyed _) hEnvironment]
  rfl

theorem createdConfigs_other {flag : FlagEntry} (hOther : flag.id ≠ id) (now environmentId : String) :
    (createdConfigs s input id now).filter (fun config =>
      decide (config.flagId = flag.id ∧ config.environmentId = environmentId)) = [] := by
  rw [List.filter_eq_nil_iff]
  intro config hConfig hKept
  obtain ⟨environment, _, rfl⟩ := List.mem_map.mp hConfig
  exact hOther (of_decide_eq_true hKept).1.symm

theorem flagRows_created (hKeyed : Keyed s) (h : s.createFlag input id salt course = .ok tables)
    (hEnvironment : environmentId ∈ s.environmentsOf input.tenantId) :
    flagRows tables.flagConfigs environmentId (Admin.flagEntry input id salt (course.now .begin)) =
      [createdRow input salt] := by
  have hNoneBefore : (s.tables.flagConfigs.map FlagConfigEntry.toFlagConfigRecord).filter (fun config =>
      decide (config.flagId = id ∧ config.environmentId = environmentId)) = [] := by
    rw [List.filter_eq_nil_iff]
    intro config hConfig hKept
    obtain ⟨entry, hEntry, rfl⟩ := List.mem_map.mp hConfig
    obtain ⟨flag, hFlag, hId⟩ := hKeyed.configuredFlags entry hEntry
    exact (createFlag_fresh h flag hFlag).1 (hId.trans (of_decide_eq_true hKept).1)
  rw [flagRows, flagConfigs_created h, List.filter_append]
  exact congrArg (fun matching => (leftJoin matching).map _)
    (congrArg₂ (· ++ ·) hNoneBefore (createdConfigs_own hKeyed hEnvironment _))

theorem flagRows_kept (h : s.createFlag input id salt course = .ok tables) {flag : FlagEntry}
    (hFlag : flag ∈ s.tables.flags) (environmentId : String) :
    flagRows tables.flagConfigs environmentId flag = flagRows s.tables.flagConfigs environmentId flag := by
  rw [flagRows, flagConfigs_created h, List.filter_append, createdConfigs_other (createFlag_fresh h flag hFlag).1,
    List.append_nil, flagRows]

theorem loadedRows_created (hKeyed : Keyed s) (h : s.createFlag input id salt course = .ok tables)
    (hEnvironment : environmentId ∈ s.environmentsOf tenantId) :
    (liveFlags tables.flags tenantId).flatMap (flagRows tables.flagConfigs environmentId) =
      (liveFlags s.tables.flags tenantId).flatMap (flagRows s.tables.flagConfigs environmentId) ++
        if input.tenantId = tenantId then [createdRow input salt] else [] := by
  have hKept : (liveFlags s.tables.flags tenantId).flatMap (flagRows tables.flagConfigs environmentId) =
      (liveFlags s.tables.flags tenantId).flatMap (flagRows s.tables.flagConfigs environmentId) := by
    rw [List.flatMap_def, List.flatMap_def]
    congr 1
    exact List.map_congr_left fun flag hFlag => flagRows_kept h (List.mem_of_mem_filter hFlag) environmentId
  obtain ⟨_, hTables⟩ := Admin.createFlag_eq_ok h
  have hFlags : tables.flags = s.tables.flags ++ [Admin.flagEntry input id salt (course.now .begin)] := by
    rw [hTables]
  rw [hFlags, liveFlags, List.filter_append, List.flatMap_append]
  refine congrArg₂ (· ++ ·) hKept ?_
  by_cases hTenant : input.tenantId = tenantId
  · subst hTenant
    rw [if_pos rfl, List.filter_cons_of_pos (by simp [Admin.flagEntry]), List.filter_nil, List.flatMap_singleton,
      flagRows_created hKeyed h hEnvironment]
  · rw [if_neg hTenant, List.filter_cons_of_neg (by simp [Admin.flagEntry, hTenant]), List.filter_nil,
      List.flatMap_nil]

end Created

end Loaded

/-! ## Compiling an environment -/

/-- What `publishRuleset` compiles, from the rows of an environment. -/
def Admin.compileOptions (s : Admin) (runtime : Runtime) (tenantId environmentId environmentKey : String)
    (version : Number) : CompileOptions where
  environmentKey := environmentKey
  version := version
  flags := loadFlags runtime (Admin.configurationOf s.tables s.segments) tenantId environmentId
  segments := loadSegments runtime (Admin.configurationOf s.tables s.segments) tenantId
  servedAt := none

/-- The rows of an environment are accepted, whatever its key, the version and the time. -/
def Compiles (runtime : Runtime) (s : Admin) (tenantId environmentId : String) : Prop :=
  ∀ environmentKey version now, ∃ compiled,
    compileRuleset (s.compileOptions runtime tenantId environmentId environmentKey version) now = .ok compiled

section Compile

variable {runtime : Runtime} {s after : Admin} {tenantId environmentId : String}

def rowProblems (runtime : Runtime) (s : Admin) (tenantId environmentId : String) : Except ScriptError (List String) :=
  validationProblems (loadFlags runtime (Admin.configurationOf s.tables s.segments) tenantId environmentId)
    (loadSegments runtime (Admin.configurationOf s.tables s.segments) tenantId)

theorem compiles_iff (hSegments : ((loadSegments runtime (Admin.configurationOf s.tables s.segments) tenantId).map
      SegmentRow.key).Nodup) :
    Compiles runtime s tenantId environmentId ↔ rowProblems runtime s tenantId environmentId = .ok [] := by
  constructor
  · intro hAll
    obtain ⟨compiled, hCompiled⟩ := hAll "" .nan ""
    exact (compileRuleset_ok hCompiled).1
  · intro hValid environmentKey version now
    exact exists_compiled hSegments hValid

def noRepeatedKey (keys : List JsValue) : Prop :=
  keys.Pairwise fun first second => JsValue.sameValueZero second first = false

/-- Variations and variation keys of a request that stay in order on their way to the tables: as
the `jsonb` column keeps the variations none is `null` and no two have the same key, and the two
keys, which go to columns of type `TEXT`, are among theirs. -/
def StaysDeclared (variations defaultVariationKey offVariationKey : Json) : Prop :=
  ∃ keys, Admin.variationKeys variations.stored = some keys ∧ noRepeatedKey keys ∧
    some (.str (Admin.sentText defaultVariationKey)) ∈ keys ∧ some (.str (Admin.sentText offVariationKey)) ∈ keys

theorem variationKeys_eq_some {items : List Json} {keys : List JsValue} :
    Admin.variationKeys (.arr items) = some keys ↔
      items.mapM (fun variation => JsValue.get (some variation) "key") = .ok keys := by
  rw [Admin.variationKeys, mapM_eq_some, mapM_eq_ok]
  have hRead : ∀ item key, (JsValue.get (some item) "key").toOption = some key ↔
      JsValue.get (some item) "key" = .ok key := by
    intro item key
    cases JsValue.get (some item) "key" with
    | error error => exact iff_of_false (fun h => nomatch h) (fun h => nomatch h)
    | ok found => rw [Except.toOption, Option.some.injEq, Except.ok.injEq]
  simp only [hRead]

/-- `validateFlag` accepts the row of a created flag exactly if what it keeps of the request is in order. -/
theorem flagProblems_createdRow {input : CreateFlagInput} {salt : String} {keys : List JsValue}
    {segmentKeys flagKeys : List String} (hKeys : Admin.variationKeys input.variations = some keys) :
    flagProblems segmentKeys flagKeys (RawFlag.ofRow (createdRow input salt)) = .ok [] ↔
      StaysDeclared input.variations input.defaultVariationKey input.offVariationKey := by
  obtain ⟨items, hItems⟩ : ∃ items, input.variations = .arr items := by
    cases hVariations : input.variations with
    | arr items => exact ⟨items, rfl⟩
    | _ =>
      rw [hVariations] at hKeys
      cases hKeys
  have hArray : asArray input.variations.stored = Json.storedItems items := by
    rw [hItems, Json.stored]
    rfl
  rw [flagProblems_bare_iff rfl rfl, StaysDeclared, hItems, Json.stored]
  simp only [variationKeys_eq_some, RawFlag.ofRow, createdRow, hArray]
  rfl

theorem compiles_created_iff {input : CreateFlagInput} {id salt : String} {course : Course} {tables : Tables}
    {keys : List JsValue} (hKeyed : Keyed s) (hCreated : s.createFlag input id salt course = .ok tables)
    (hTables : after.tables = tables) (hSegments : after.segments = s.segments)
    (hKeys : Admin.variationKeys input.variations = some keys)
    (hEnvironment : environmentId ∈ s.environmentsOf tenantId)
    (hBefore : Compiles runtime s tenantId environmentId) :
    Compiles runtime after tenantId environmentId ↔ (input.tenantId = tenantId →
      StaysDeclared input.variations input.defaultVariationKey input.offVariationKey) := by
  have hNodup := loadSegments_nodup hKeyed runtime tenantId
  have hSame : loadSegments runtime (Admin.configurationOf after.tables after.segments) tenantId =
      loadSegments runtime (Admin.configurationOf s.tables s.segments) tenantId := by
    rw [hSegments]
    rfl
  have hRows := loadedRows_created hKeyed hCreated hEnvironment
  have hValid := (compiles_iff hNodup).mp hBefore
  rw [compiles_iff (hSame ▸ hNodup), rowProblems, hSame, loadFlags_eq, hTables, hRows]
  rw [rowProblems, loadFlags_eq] at hValid
  by_cases hTenant : input.tenantId = tenantId
  · rw [if_pos hTenant]
    have hPerm := (List.mergeSort_perm ((liveFlags s.tables.flags tenantId).flatMap
      (flagRows s.tables.flagConfigs environmentId) ++ [createdRow input salt])
        fun first second => runtime.collation first.key second.key)
    have hKeysNodup := (hPerm.map FlagRow.key).nodup_iff.mpr (by
      rw [List.map_append, flagRows_keys hKeyed]
      refine (liveFlags_nodup hKeyed tenantId).append (List.nodup_singleton _) ?_
      intro key hLive hNew
      obtain ⟨flag, hFlag, rfl⟩ := List.mem_map.mp hLive
      obtain ⟨hMem, hOwned⟩ := List.mem_filter.mp hFlag
      exact (createFlag_fresh hCreated flag hMem).2 ((of_decide_eq_true hOwned).1.trans hTenant.symm)
        (List.mem_singleton.mp hNew))
    rw [validationProblems_added_iff (hPerm.trans ((List.mergeSort_perm _ _).symm.append_right _)) hKeysNodup rfl
      hValid, flagProblems_createdRow hKeys]
    exact ⟨fun hStays _ => hStays, fun hStays => hStays hTenant⟩
  · rw [if_neg hTenant, List.append_nil]
    exact iff_of_true hValid fun hSameTenant => absurd hSameTenant hTenant

/-- A request that is answered with 201 has stored its flag. -/
theorem postFlags_created {body : Admin.CreateFlagBody} {id salt : String} {course : Course} {reply : Reply}
    (h : s.postFlags runtime body id salt course = (after, some reply)) (hCode : reply.code = 201) :
    ∃ input tables keys, body.tenantId = some input.tenantId ∧
      input.variations = Tables.orPrevious body.variations Admin.defaultVariations ∧
      input.defaultVariationKey = Tables.orPrevious body.defaultVariationKey (.str "off") ∧
      input.offVariationKey = Tables.orPrevious body.offVariationKey (.str "off") ∧
      Admin.variationKeys input.variations = some keys ∧ s.createFlag input id salt course = .ok tables ∧
      after.tables = tables ∧ after.segments = s.segments := by
  rw [Admin.postFlags] at h
  split at h
  · rename_i tenantId key hTenant hKey
    split at h
    · obtain rfl := Option.some.inj (Prod.mk.inj h).2
      cases hCode
    simp only at h
    split at h
    · cases (Prod.mk.inj h).2
    rename_i keys hKeys
    split at h
    · obtain rfl := Option.some.inj (Prod.mk.inj h).2
      cases hCode
    rw [Admin.postChecked] at h
    split at h
    · obtain rfl := Option.some.inj (Prod.mk.inj h).2
      cases hCode
    · cases (Prod.mk.inj h).2
    rename_i tables hCreated
    dsimp only at h
    split at h
    · cases (Prod.mk.inj h).2
    split at h
    · cases (Prod.mk.inj h).2
    rename_i audited hAudit
    obtain ⟨rfl, _⟩ := Prod.mk.inj h
    exact ⟨_, tables, keys, (Option.filter_eq_some_iff.mp hTenant).1, rfl, rfl, rfl, hKeys, hCreated,
      (Admin.tables_writeAudit hAudit :), (Admin.segments_writeAudit hAudit :)⟩
  · obtain rfl := Option.some.inj (Prod.mk.inj h).2
    cases hCode

end Compile

/-- A created flag leaves an environment that compiles one that compiles, exactly if it is another
tenant's or what the tables keep of the request's variations is in order. -/
theorem flag_creation_compiles_iff (runtime : Runtime) (s after : Admin) (body : Admin.CreateFlagBody)
    (id salt : String) (course : Course) (reply : Reply) (tenantId environmentId : String) (hKeyed : Keyed s)
    (hCreated : s.postFlags runtime body id salt course = (after, some reply)) (hCode : reply.code = 201)
    (hEnvironment : environmentId ∈ s.environmentsOf tenantId) (hBefore : Compiles runtime s tenantId environmentId) :
    Compiles runtime after tenantId environmentId ↔
      (body.tenantId = some tenantId →
        StaysDeclared (Tables.orPrevious body.variations Admin.defaultVariations)
          (Tables.orPrevious body.defaultVariationKey (.str "off"))
          (Tables.orPrevious body.offVariationKey (.str "off"))) := by
  obtain ⟨input, tables, keys, hTenant, hVariations, hDefault, hOff, hKeys, hStored, hTables, hSegments⟩ :=
    postFlags_created hCreated hCode
  rw [compiles_created_iff hKeyed hStored hTables hSegments hKeys hEnvironment hBefore, hTenant, ← hVariations,
    ← hDefault, ← hOff, Option.some.injEq]

def noFlags : Admin := Admin.new Database.oneEnvironment ["env-1"] ["acme"] { flags := [], flagConfigs := [] } []

theorem noFlags_keyed : Keyed noFlags where
  environments := List.nodup_singleton _
  flags := List.nodup_nil
  flagConfigs := List.nodup_nil
  configuredFlags _ hConfig := by cases hConfig
  segments := List.nodup_nil

theorem noFlags_compiles : Compiles Database.plainRuntime noFlags "acme" "env-1" := by
  have hFlags : loadFlags Database.plainRuntime (Admin.configurationOf noFlags.tables noFlags.segments) "acme"
      "env-1" = [] := List.mergeSort_nil
  have hSegments : loadSegments Database.plainRuntime (Admin.configurationOf noFlags.tables noFlags.segments)
      "acme" = [] := List.mergeSort_nil
  rw [compiles_iff (loadSegments_nodup noFlags_keyed _ _), rowProblems, hFlags, hSegments]
  rfl

def bannerBody (variations : JsValue) : Admin.CreateFlagBody where
  tenantId := some "acme"
  key := some "banner"
  description := none
  variations := variations
  defaultVariationKey := none
  offVariationKey := none

theorem default_creation_compiles :
    Compiles Database.plainRuntime
      (noFlags.postFlags Database.plainRuntime (bannerBody none) "flag-1" "salt" Admin.smooth).1 "acme" "env-1" := by
  refine (flag_creation_compiles_iff Database.plainRuntime noFlags _ (bannerBody none) "flag-1" "salt" Admin.smooth
    { code := 201, body := .obj [("key", .str "banner")] } "acme" "env-1" noFlags_keyed rfl rfl (by decide)
    noFlags_compiles).mpr fun _ => ?_
  refine ⟨[some (.str "on"), some (.str "off")], rfl, ?_, List.mem_cons_of_mem _ List.mem_cons_self,
    List.mem_cons_of_mem _ List.mem_cons_self⟩
  exact List.Pairwise.cons (by decide) (List.pairwise_singleton _ _)

def twiceOff : JsValue :=
  some (.arr [.obj [("key", .str "off"), ("value", .bool false)], .obj [("key", .str "off"), ("value", .bool true)]])

theorem repeated_key_blocks : ¬ ∀ (runtime : Runtime) (s after : Admin) (body : Admin.CreateFlagBody)
    (id salt : String) (course : Course) (reply : Reply) (tenantId environmentId : String), Keyed s →
    s.postFlags runtime body id salt course = (after, some reply) → reply.code = 201 →
    environmentId ∈ s.environmentsOf tenantId → Compiles runtime s tenantId environmentId →
    Compiles runtime after tenantId environmentId := by
  intro hAll
  let body := bannerBody twiceOff
  have hPosted : noFlags.postFlags Database.plainRuntime body "flag-1" "salt" Admin.smooth =
      (_, some { code := 201, body := .obj [("key", .str "banner")] }) := rfl
  have hAfter := hAll _ _ _ _ _ _ _ _ "acme" "env-1" noFlags_keyed hPosted rfl (by decide) noFlags_compiles
  obtain ⟨input, tables, keys, hTenant, hVariations, _, _, hKeys, hStored, hTables, hSegments⟩ :=
    postFlags_created hPosted rfl
  obtain ⟨kept, hKept, hDistinct, _⟩ := (compiles_created_iff noFlags_keyed hStored hTables hSegments hKeys
    (by decide) noFlags_compiles).mp hAfter (Option.some.inj hTenant).symm
  rw [hVariations] at hKept
  obtain rfl := Option.some.inj hKept
  obtain ⟨hFirst, _⟩ := List.pairwise_cons.mp hDistinct
  exact absurd (hFirst _ List.mem_cons_self) (by decide)

end Flagship.ControlPlane
