import Flagship.ControlPlane.Ruleset
import Flagship.Core.ClientSafe

/-! # What validation without a problem establishes

The documents have readings, so the server payload exists, and its keys resolve.
-/

namespace Flagship.ControlPlane

open Lib Flagship.Core

theorem str_mem_keySet {keys : List String} {key : String} : some (.str key) ∈ keySet keys ↔ key ∈ keys := by
  simp [keySet]

theorem readDistribution_of_total {items : List Json} {start total : Number}
    (h : weightsTotal start (items.map some) = .ok (some total)) :
    ∃ distribution, items.mapM readDistribution = some distribution ∧
      totalFrom start distribution = some total := by
  induction items generalizing start with
  | nil =>
    rw [List.map_nil, weightsTotal] at h
    exact ⟨[], rfl, Except.ok.inj h⟩
  | cons item rest ih =>
    rw [List.map_cons, weightsTotal, bind_eq_ok] at h
    obtain ⟨weight, hGet, h⟩ := h
    obtain ⟨_, hWeight⟩ := JsValue.get_eq_ok hGet
    split at h
    · rename_i w
      split at h
      · cases h
      · rename_i hNatural
        obtain ⟨distribution, hRead, hTotal⟩ := ih h
        refine ⟨{ variationKey := item.field? "variationKey", weight := w } :: distribution, ?_, ?_⟩
        · rw [mapM_eq_some] at hRead ⊢
          refine List.Forall₂.cons ?_ hRead
          rw [readDistribution, ← hWeight]
        · rw [totalFrom, if_neg hNatural]
          exact hTotal
    · cases h

theorem isValidRollout_read {rollout : JsValue} (h : isValidRollout rollout = .ok true) :
    ∃ items distribution, rollout = some (.arr items) ∧ items.mapM readDistribution = some distribution ∧
      isValidDistribution distribution = true := by
  rw [isValidRollout, bind_eq_ok] at h
  obtain ⟨empty, hEmpty, h⟩ := h
  split at h
  · cases h
  rename_i hFilled
  obtain ⟨entries, hEntries, h⟩ := bind_eq_ok.mp h
  obtain ⟨total, hTotal, h⟩ := bind_eq_ok.mp h
  obtain rfl := of_decide_eq_true (Except.ok.inj h)
  unfold JsValue.iterate at hEntries
  split at hEntries
  · rename_i items
    obtain rfl := Except.ok.inj hEntries
    obtain ⟨distribution, hRead, hSum⟩ := readDistribution_of_total hTotal
    refine ⟨items, distribution, rfl, hRead, ?_⟩
    have hSome : items ≠ [] := by
      rintro rfl
      exact hFilled (Except.ok.inj hEmpty).symm
    have hLength := (mapM_eq_some.mp hRead).length_eq
    cases distribution with
    | nil => exact absurd (List.length_eq_zero_iff.mp hLength) hSome
    | cons slice rest => simp [isValidDistribution, hSum]
  · rename_i s
    obtain rfl := Except.ok.inj hEntries
    cases hChars : s.toList with
    | nil =>
      have hBlank : s = "" := String.toList_inj.mp hChars
      rw [hBlank] at hEmpty
      exact absurd (Except.ok.inj hEmpty).symm hFilled
    | cons c rest =>
      rw [hChars] at hTotal
      cases hTotal
  · cases hEntries

theorem slice_of_read {keys : List JsValue} {path : String} {item : Json} {slice : Distribution}
    (hRead : readDistribution item = some slice) (h : sliceProblems keys path (some item) = .ok []) :
    JsValue.has keys slice.variationKey = true := by
  obtain ⟨key, hGet, h⟩ := bind_eq_ok.mp h
  obtain ⟨_, hKey⟩ := JsValue.get_eq_ok hGet
  rw [readDistribution] at hRead
  split at hRead
  · obtain rfl := Option.some.inj hRead
    split at h
    · rename_i hHas
      rw [hKey] at hHas
      exact hHas
    · obtain ⟨text, _, h⟩ := bind_eq_ok.mp h
      cases h
  · cases hRead

theorem readServe_of_valid {keys : List JsValue} {path : String} {doc : JsValue}
    (h : serveProblems keys path doc = .ok []) : ∃ serve, readServe doc = some serve ∧ ServeSound keys serve := by
  obtain ⟨fixed, hFixed, h⟩ := bind_eq_ok.mp h
  have hObject : ∃ object, doc = some object ∧ object ≠ .null ∧ doc.object? = some object ∧
      fixed = (object.field? "variationKey").isSome := by
    unfold JsValue.hasProperty at hFixed
    split at hFixed
    · exact ⟨_, rfl, Json.noConfusion, rfl, (Except.ok.inj hFixed).symm⟩
    · exact ⟨_, rfl, Json.noConfusion, rfl, (Except.ok.inj hFixed).symm⟩
    · cases hFixed
  obtain ⟨object, rfl, _, hSelf, rfl⟩ := hObject
  simp only [readServe, hSelf]
  cases hKey : object.field? "variationKey" with
  | some variationKey =>
    simp only [hKey, Option.isSome_some, if_true] at h
    obtain ⟨key, hGet, h⟩ := bind_eq_ok.mp h
    obtain ⟨_, rfl⟩ := JsValue.get_eq_ok hGet
    refine ⟨.variation (some variationKey), rfl, ?_⟩
    split at h
    · rename_i hHas
      rw [hKey] at hHas
      exact hHas
    · obtain ⟨text, _, h⟩ := bind_eq_ok.mp h
      cases h
  | none =>
    simp only [hKey, Option.isSome_none, Bool.false_eq_true, if_false] at h
    obtain ⟨rollout, hGet, h⟩ := bind_eq_ok.mp h
    obtain ⟨_, hRollout⟩ := JsValue.get_eq_ok hGet
    obtain ⟨valid, hValid, h⟩ := bind_eq_ok.mp h
    obtain ⟨entries, hEntries, h⟩ := bind_eq_ok.mp h
    obtain ⟨undeclared, hSlices, h⟩ := bind_eq_ok.mp h
    obtain ⟨hReport, hUndeclared⟩ := List.append_eq_nil_iff.mp (Except.ok.inj h)
    rw [report_eq_nil, Bool.not_eq_false'] at hReport
    obtain rfl := hReport
    obtain ⟨items, distribution, rfl, hRead, hDistribution⟩ := isValidRollout_read hValid
    refine ⟨.rollout distribution, ?_, hDistribution, ?_⟩
    · simp only [← hRollout, JsValue.array?, Option.bind_eq_bind, Option.bind_some, hRead]
    · intro slice hSlice
      obtain ⟨item, hItem, hPair⟩ := exists_of_mem_forall₂ (mapM_eq_some.mp hRead) slice hSlice
      obtain rfl := Except.ok.inj hEntries
      have hItemValid := forall_of_flatten_eq_nil hSlices hUndeclared (some item)
        (List.mem_map.mpr ⟨item, hItem, rfl⟩)
      exact slice_of_read hPair hItemValid

theorem segment_of_valid {segmentKeys : List String} {path : String} {key : String}
    (h : missingSegment segmentKeys path (some (.str key)) = .ok []) : key ∈ segmentKeys := by
  rw [missingSegment] at h
  split at h
  · rename_i hHas
    exact str_mem_keySet.mp (JsValue.has_str.mp hHas)
  · obtain ⟨text, _, h⟩ := bind_eq_ok.mp h
    cases h

theorem readRule_of_valid {segmentKeys : List String} {keys : List JsValue} {path : String} {doc : Json}
    (h : ruleProblems segmentKeys keys path doc = .ok []) :
    ∃ rule, readRule doc = some rule ∧ ServeSound keys rule.serve ∧
      ∀ key ∈ rule.when.references, key ∈ segmentKeys := by
  obtain ⟨tree, hGet, h⟩ := bind_eq_ok.mp h
  obtain ⟨hNode, hTree⟩ := JsValue.get_eq_ok hGet
  obtain ⟨referenced, hCollected, h⟩ := bind_eq_ok.mp h
  obtain ⟨missing, hMissing, h⟩ := bind_eq_ok.mp h
  obtain ⟨served, hServed, h⟩ := bind_eq_ok.mp h
  obtain ⟨_, rfl⟩ := JsValue.get_eq_ok hServed
  obtain ⟨problems, hProblems, h⟩ := bind_eq_ok.mp h
  simp only [Except.ok.injEq, List.append_eq_nil_iff] at h
  obtain ⟨⟨hValid, hNone⟩, rfl⟩ := h
  obtain ⟨treeDoc, when, rfl, hRead⟩ := readRuleNode_of_valid hValid
  obtain ⟨serve, hServe, hSound⟩ := readServe_of_valid hProblems
  refine ⟨{ id := doc.field? "id", description := doc.field? "description", when, serve }, ?_, hSound, ?_⟩
  · rw [readRule, ← hTree]
    simp only [Option.bind_eq_bind, Option.bind_some, hRead, hServe]
  · intro key hKey
    obtain ⟨out, hOut, hMem⟩ := collectSegmentKeys_of_read hRead []
    rw [hCollected] at hOut
    obtain rfl := Except.ok.inj hOut
    have hListed : some (Json.str key) ∈ referenced := (hMem _).mpr (Or.inr ⟨key, hKey, rfl⟩)
    exact segment_of_valid (forall_of_flatten_eq_nil hMissing hNone _ hListed)

theorem readVariation_of_key {doc : Json} {key : JsValue} (h : JsValue.get (some doc) "key" = .ok key) :
    ∃ variation, readVariation doc = some variation ∧ variation.key = key := by
  obtain ⟨hDoc, rfl⟩ := JsValue.get_eq_ok h
  cases doc with
  | null => exact absurd rfl hDoc
  | _ => exact ⟨_, rfl, rfl⟩

theorem readVariations_of_keys {docs : List Json} {keys : List JsValue}
    (h : docs.mapM (fun doc => JsValue.get (some doc) "key") = .ok keys) :
    ∃ variations, docs.mapM readVariation = some variations ∧ variations.map Variation.key = keys := by
  rw [mapM_eq_ok] at h
  induction h with
  | nil => exact ⟨[], rfl, rfl⟩
  | cons hHead _ ih =>
    obtain ⟨variation, hRead, rfl⟩ := readVariation_of_key hHead
    obtain ⟨variations, hRest, rfl⟩ := ih
    refine ⟨variation :: variations, ?_, rfl⟩
    rw [mapM_eq_some] at hRest ⊢
    exact List.Forall₂.cons hRead hRest

theorem readPrerequisite_of_valid {flagKeys : List String} {raw : RawFlag} {doc : Json}
    (h : missingPrerequisite flagKeys raw doc = .ok []) :
    ∃ prerequisite, readPrerequisite doc = some prerequisite ∧ prerequisite.flagKey ∈ flagKeys := by
  obtain ⟨key, hGet, h⟩ := bind_eq_ok.mp h
  obtain ⟨_, rfl⟩ := JsValue.get_eq_ok hGet
  split at h
  · rename_i hHas
    obtain ⟨other, hOther, hSame⟩ := List.any_eq_true.mp hHas
    obtain ⟨flagKey, hFlagKey, rfl⟩ := List.mem_map.mp hOther
    rw [JsValue.sameValueZero_str] at hSame
    refine ⟨{ flagKey, variationKey := doc.field? "variationKey" }, ?_, hFlagKey⟩
    rw [readPrerequisite, hSame]
    rfl
  · obtain ⟨text, _, h⟩ := bind_eq_ok.mp h
    cases h

theorem readFlag_eq_some {raw : RawFlag} {flag : Flag} (h : readFlag raw = some flag) :
    flag.key = raw.key ∧ raw.variations.mapM readVariation = some flag.variations ∧
      raw.prerequisites.mapM readPrerequisite = some flag.prerequisites ∧
      raw.rules.mapM readRule = some flag.rules ∧ flag.defaultVariationKey = raw.defaultVariationKey ∧
      flag.offVariationKey = raw.offVariationKey := by
  obtain ⟨variations, hVariations, h⟩ := Option.bind_eq_some_iff.mp h
  obtain ⟨prerequisites, hPrerequisites, h⟩ := Option.bind_eq_some_iff.mp h
  obtain ⟨rules, hRules, h⟩ := Option.bind_eq_some_iff.mp h
  obtain rfl := Option.some.inj h
  exact ⟨rfl, hVariations, hPrerequisites, hRules, rfl, rfl⟩

theorem exists_readFlag {raw : RawFlag} {variations : List Variation} {prerequisites : List Prerequisite}
    {rules : List TargetingRule} (hVariations : raw.variations.mapM readVariation = some variations)
    (hPrerequisites : raw.prerequisites.mapM readPrerequisite = some prerequisites)
    (hRules : raw.rules.mapM readRule = some rules) :
    ∃ flag, readFlag raw = some flag ∧ flag.variations = variations ∧ flag.prerequisites = prerequisites ∧
      flag.rules = rules ∧ flag.defaultVariationKey = raw.defaultVariationKey ∧
      flag.offVariationKey = raw.offVariationKey := by
  rw [readFlag, hVariations, hPrerequisites, hRules]
  exact ⟨_, rfl, rfl, rfl, rfl, rfl, rfl⟩

theorem rule_of_validateFlag {segmentKeys : List String} {raw : RawFlag} {keys : List JsValue}
    {problems : List (List String)} (hRules : raw.rules.zipIdx.mapM (fun (rule, index) =>
      ruleProblems segmentKeys keys s!"flag \"{raw.key}\" rule[{index}]" rule) = .ok problems)
    (hNone : problems.flatten = []) : ∀ doc ∈ raw.rules, ∃ path, ruleProblems segmentKeys keys path doc = .ok [] := by
  intro doc hDoc
  obtain ⟨index, hIndex⟩ := List.getElem?_of_mem hDoc
  exact ⟨_, forall_of_flatten_eq_nil hRules hNone (doc, index) (List.mem_zipIdx_iff_getElem?.mpr hIndex)⟩

theorem serveSound_of_distinct {keys : List JsValue} {serve : Serve}
    (h : ServeSound (JsValue.distinct keys) serve) : ServeSound keys serve := by
  cases serve with
  | variation variationKey => exact JsValue.has_of_has_distinct h
  | rollout distribution => exact ⟨h.1, fun slice hSlice => JsValue.has_of_has_distinct (h.2 slice hSlice)⟩

theorem readFlag_of_valid {segmentKeys flagKeys : List String} {raw : RawFlag}
    (h : flagProblems segmentKeys flagKeys raw = .ok []) :
    ∃ flag, readFlag raw = some flag ∧ FlagSound segmentKeys flag ∧
      ∀ prerequisite ∈ flag.prerequisites, prerequisite.flagKey ∈ flagKeys := by
  obtain ⟨own, hOwn, h⟩ := bind_eq_ok.mp h
  obtain ⟨missing, hMissing, h⟩ := bind_eq_ok.mp h
  obtain ⟨rfl, hNoneMissing⟩ := List.append_eq_nil_iff.mp (Except.ok.inj h)
  obtain ⟨keys, hKeys, hFlag⟩ := bind_eq_ok.mp hOwn
  obtain ⟨variations, hVariations, rfl⟩ := readVariations_of_keys hKeys
  simp only at hFlag
  split at hFlag
  · cases hFlag
  obtain ⟨problems, hRules, hFlag⟩ := bind_eq_ok.mp hFlag
  simp only [Except.ok.injEq, List.append_eq_nil_iff, report_eq_nil, Bool.not_eq_false'] at hFlag
  obtain ⟨⟨⟨_, hDefault⟩, hOff⟩, hNone⟩ := hFlag
  obtain ⟨rules, hReadRules, hRuleSound⟩ := exists_mapM_eq_some_forall fun doc hDoc =>
    let ⟨_, hPath⟩ := rule_of_validateFlag hRules hNone doc hDoc
    readRule_of_valid hPath
  obtain ⟨prerequisites, hReadPrerequisites, hListed⟩ := exists_mapM_eq_some_forall fun doc hDoc =>
    readPrerequisite_of_valid (forall_of_flatten_eq_nil hMissing hNoneMissing doc hDoc)
  obtain ⟨flag, hRead, rfl, rfl, rfl, hDefaultKey, hOffKey⟩ :=
    exists_readFlag hVariations hReadPrerequisites hReadRules
  refine ⟨flag, hRead, ⟨?_, ?_, ?_, ?_⟩, hListed⟩
  · rw [hDefaultKey]
    exact JsValue.has_of_has_distinct hDefault
  · rw [hOffKey]
    exact JsValue.has_of_has_distinct hOff
  · intro rule hMem
    exact serveSound_of_distinct (hRuleSound rule hMem).1
  · intro rule hMem
    exact (hRuleSound rule hMem).2

theorem prerequisiteKeys_of_read {docs : List Json} {prerequisites : List Prerequisite}
    (h : docs.mapM readPrerequisite = some prerequisites) :
    prerequisiteKeys docs = prerequisites.map Prerequisite.flagKey := by
  rw [mapM_eq_some] at h
  induction h with
  | nil => rfl
  | cons hHead _ ih =>
    obtain ⟨flagKey, hKey, hRead⟩ := Option.bind_eq_some_iff.mp hHead
    obtain rfl := Option.some.inj hRead
    simp only [prerequisiteKeys, List.filterMap_cons, hKey, List.map_cons, ← ih]

theorem prerequisiteEdges_of_read {raws : List RawFlag} {flags : List Flag}
    (h : List.Forall₂ (fun raw flag => readFlag raw = some flag) raws flags) (key : String) :
    prerequisiteEdges raws key = (flagOf flags key).map fun flag => flag.prerequisites.map Prerequisite.flagKey := by
  rw [prerequisiteEdges, flagOf, ← mapGet_map, ← mapGet_map, List.map_map, List.map_map]
  congr 1
  apply map_eq_map_of_forall₂ _ h
  intro raw flag hRead
  obtain ⟨hKey, _, hPrerequisites, _⟩ := readFlag_eq_some hRead
  simp only [Function.comp_apply, hKey, prerequisiteKeys_of_read hPrerequisites]

theorem requires_of_edges {raws : List RawFlag} {flags : List Flag}
    (h : List.Forall₂ (fun raw flag => readFlag raw = some flag) raws flags) {a b : String}
    (hRequires : Requires flags a b) : CycleSearch.Refers (prerequisiteEdges raws) a b := by
  obtain ⟨flag, hFlag, prerequisite, hMem, rfl⟩ := hRequires
  refine ⟨flag.prerequisites.map Prerequisite.flagKey, ?_, List.mem_map.mpr ⟨prerequisite, hMem, rfl⟩⟩
  rw [prerequisiteEdges_of_read h, hFlag]
  rfl

theorem mem_of_prerequisiteEdges {raws : List RawFlag} {key : String} (h : prerequisiteEdges raws key ≠ none) :
    key ∈ raws.map RawFlag.key := by
  by_contra hAbsent
  apply h
  rw [prerequisiteEdges, keyGet_eq_none.mpr (by rwa [List.map_map])]
  rfl

theorem grounded_of_noCycle {raws : List RawFlag} {flags : List Flag}
    (h : List.Forall₂ (fun raw flag => readFlag raw = some flag) raws flags)
    (hCycle : cycleProblems raws = []) {key : String} (hKey : key ∈ raws.map RawFlag.key) :
    Hereditary (fun _ => True) (Requires flags) key := by
  have hNone : findPrerequisiteCycle raws = none := by
    unfold cycleProblems at hCycle
    split at hCycle
    · cases hCycle
    · assumption
  have hGrounded := CycleSearch.grounded_of_findCycle_eq_none (fun _ => mem_of_prerequisiteEdges) hNone key hKey
  exact hGrounded.mono_refers fun _ _ => requires_of_edges h

theorem readSegment_of_valid {row : SegmentRow} {path : String}
    (h : validateRuleNode (MAX_DEPTH + 1) (some row.ruleTree) path = []) :
    ∃ segment, readSegment row = some segment := by
  obtain ⟨doc, tree, hSame, hTree⟩ := readRuleNode_of_valid h
  obtain rfl := Option.some.inj hSame
  refine ⟨{ key := row.key, when := tree }, ?_⟩
  rw [readSegment, hTree]
  rfl

theorem key_of_readSegment {row : SegmentRow} {segment : Segment} (h : readSegment row = some segment) :
    segment.key = row.key := by
  obtain ⟨tree, _, hRead⟩ := Option.bind_eq_some_iff.mp h
  obtain rfl := Option.some.inj hRead
  rfl

theorem segmentKeys_of_read {rows : List SegmentRow} {segments : List Segment}
    (h : rows.mapM readSegment = some segments) : segments.map Segment.key = rows.map SegmentRow.key := by
  refine (map_eq_map_of_forall₂ ?_ (mapM_eq_some.mp h)).symm
  intro row segment hRead
  exact (key_of_readSegment hRead).symm

theorem flagKeys_of_read {raws : List RawFlag} {flags : List Flag} (h : raws.mapM readFlag = some flags) :
    flags.map Flag.key = raws.map RawFlag.key := by
  refine (map_eq_map_of_forall₂ ?_ (mapM_eq_some.mp h)).symm
  intro raw flag hRead
  exact (readFlag_eq_some hRead).1.symm

theorem serverPayload_of_valid {options : CompileOptions} {now : String}
    (h : validationProblems options.flags options.segments = .ok []) :
    ∃ server, serverPayload options now = some server ∧ SnapshotSound server ∧
      server.flags.map Flag.key = options.flags.map FlagRow.key ∧
      server.segments.map Segment.key = options.segments.map SegmentRow.key := by
  obtain ⟨problems, hProblems, h⟩ := bind_eq_ok.mp h
  simp only [Except.ok.injEq, List.append_eq_nil_iff] at h
  obtain ⟨⟨hSegments, hNone⟩, hCycle⟩ := h
  obtain ⟨flags, hFlags, hSound⟩ := exists_mapM_eq_some_forall fun raw hRaw =>
    readFlag_of_valid (forall_of_flatten_eq_nil hProblems hNone raw hRaw)
  obtain ⟨segments, hReadSegments⟩ := exists_mapM_eq_some fun row hRow =>
    readSegment_of_valid (List.flatMap_eq_nil_iff.mp hSegments row hRow)
  have hFlagKeys := flagKeys_of_read hFlags
  have hSegmentKeys := segmentKeys_of_read hReadSegments
  refine ⟨snapshotOf options now flags segments, ?_, ⟨?_, ?_, ?_⟩, ?_, hSegmentKeys⟩
  · rw [serverPayload, hFlags, hReadSegments]
    rfl
  · intro flag hMem
    rw [snapshotOf, hSegmentKeys]
    exact (hSound flag hMem).1
  · intro flag hMem
    rw [snapshotOf, hFlagKeys]
    exact (hSound flag hMem).2
  · intro flag hMem
    apply grounded_of_noCycle (mapM_eq_some.mp hFlags) hCycle
    rw [← hFlagKeys]
    exact List.mem_map_of_mem hMem
  · rw [snapshotOf, hFlagKeys, List.map_map]
    rfl

theorem finish_of_distinct {server : RulesetSnapshot} (hNodup : (server.segments.map Segment.key).Nodup) :
    findServerOnlyLeaks (filterSnapshotForKey server .client) = .ok [] ∧
      finish server = .ok { server, client := filterSnapshotForKey server .client } := by
  have hLeaks : findServerOnlyLeaks (filterSnapshotForKey server .client) = .ok [] :=
    findServerOnlyLeaks_eq_nil (client_closed hNodup) (fun _ hFlag _ hRule => client_rule_clientOnly hFlag hRule)
      fun _ hSegment => client_segment_clientOnly hNodup hSegment
  refine ⟨hLeaks, ?_⟩
  simp only [finish, hLeaks]

/-- Rows without a problem give a client payload that is safe to read and to follow, and the
search for leaks has nothing to stop. -/
theorem client_payload_of_valid {options : CompileOptions} {now : String}
    (hNodup : (options.segments.map SegmentRow.key).Nodup)
    (hValid : validationProblems options.flags options.segments = .ok []) :
    ∃ server client, serverPayload options now = some server ∧ client = filterSnapshotForKey server .client ∧
      (∀ flag ∈ client.flags, ∀ rule ∈ flag.rules, ClientOnly rule.when) ∧
      (∀ segment ∈ client.segments, ClientOnly segment.when) ∧
      Closed client ∧ Acyclic client.segments ∧ findServerOnlyLeaks client = .ok [] ∧
      compileRuleset options now = .ok { server, client } := by
  obtain ⟨server, hServer, _, _, hKeys⟩ := serverPayload_of_valid hValid
  rw [← hKeys] at hNodup
  obtain ⟨hLeaks, hFinish⟩ := finish_of_distinct hNodup
  refine ⟨server, filterSnapshotForKey server .client, hServer, rfl, ?_, ?_, client_closed hNodup,
    client_acyclic hNodup, hLeaks, ?_⟩
  · intro flag hFlag rule hRule
    exact client_rule_clientOnly hFlag hRule
  · intro segment hSegment
    exact client_segment_clientOnly hNodup hSegment
  · rw [compileRuleset, hValid, hServer]
    exact hFinish

def sampleFlag : FlagRow where
  key := "checkout"
  salt := "salt"
  bucketBy := "key"
  variations := .arr [
    .obj [("key", .str "on"), ("value", .bool true)],
    .obj [("key", .str "off"), ("value", .bool false)]]
  enabled := true
  defaultVariationKey := "off"
  offVariationKey := "off"
  rules := .arr [
    .obj [("id", .str "staff"),
      ("when", .obj [("kind", .str "condition"), ("attribute", .str "email"), ("operator", .str "endsWith"),
        ("values", .arr [.str "@example.com"]), ("visibility", .str "server")]),
      ("serve", .obj [("variationKey", .str "on")])],
    .obj [("id", .str "beta"),
      ("when", .obj [("kind", .str "segment"), ("segmentKey", .str "beta"), ("negate", .bool false)]),
      ("serve", .obj [("rollout", .arr [.obj [("variationKey", .str "on"), ("weight", .num (.ofNat 100000))]])])]]
  prerequisites := .arr []

def sampleSegment : SegmentRow where
  key := "beta"
  ruleTree := .obj [("kind", .str "condition"), ("attribute", .str "plan"), ("operator", .str "eq"),
    ("values", .arr [.str "beta"]), ("visibility", .str "client")]

def sampleOptions : CompileOptions :=
  { environmentKey := "production", version := .ofNat 1, flags := [sampleFlag], segments := [sampleSegment],
    servedAt := none }

theorem client_payload_of_sample : ∃ server client, serverPayload sampleOptions "now" = some server ∧
    client = filterSnapshotForKey server .client ∧
    (∀ flag ∈ client.flags, ∀ rule ∈ flag.rules, ClientOnly rule.when) ∧
    (∀ segment ∈ client.segments, ClientOnly segment.when) ∧
    Closed client ∧ Acyclic client.segments ∧ findServerOnlyLeaks client = .ok [] ∧
    compileRuleset sampleOptions "now" = .ok { server, client } :=
  client_payload_of_valid (by decide) (by decide +kernel)

end Flagship.ControlPlane
