import Flagship.ControlPlane.Accepted
import Flagship.ControlPlane.AuditLog
import Flagship.Lib.Readable

/-! # What a publish reports and what it trips over

The checks of `compileRuleset` note what is wrong with a document and read on in it, and some
of the reads throw. The predicates below describe the documents at which none does; the stack
is taken to be deep enough for every walk.
-/

namespace Flagship.ControlPlane

open Lib Flagship.Core

/-! ## Documents that every check gets through -/

/-- A walk for segment keys gets through the tree, and each key it meets can be printed. -/
def ReadableTree (node : JsValue) : Prop :=
  match node with
  | none | some .null => False
  | some doc =>
    match NodeKind.read (doc.field? "kind") with
    | some .segment => (doc.field? "segmentKey").Printable
    | some (.boolean _) =>
      match _hChildren : doc.field? "children" with
      | some (.arr children) => ∀ child ∈ children, ReadableTree (some child)
      | some (.str _) => True
      | _ => False
    | some .condition | none => True
termination_by sizeOf node
decreasing_by
  rename_i hMem
  have hSmaller := Json.sizeOf_field _hChildren
  have hChild := List.sizeOf_lt_of_mem hMem
  simp only [Json.arr.sizeOf_spec, Option.some.sizeOf_spec] at hSmaller ⊢
  omega

def ReadableRollout : JsValue → Prop
  | some (.arr slices) => ∀ slice ∈ slices, slice ≠ .null ∧ (slice.field? "variationKey").Printable
  | some (.str _) => True
  | _ => False

def ReadableServe (serve : JsValue) : Prop :=
  match serve.object? with
  | none => False
  | some doc =>
    match doc.field? "variationKey" with
    | some variationKey => variationKey.Printable
    | none => ReadableRollout (doc.field? "rollout")

structure ReadableRule (rule : Json) : Prop where
  present : rule ≠ .null
  tree : ReadableTree (rule.field? "when")
  serve : ReadableServe (rule.field? "serve")

structure ReadablePrerequisite (prerequisite : Json) : Prop where
  present : prerequisite ≠ .null
  flagKey : (prerequisite.field? "flagKey").Printable

/-- The rules of a flag without variations are not looked at. -/
structure RawFlag.Readable (flag : RawFlag) : Prop where
  variations : ∀ variation ∈ flag.variations, variation ≠ .null
  rules : flag.variations ≠ [] → ∀ rule ∈ flag.rules, ReadableRule rule
  prerequisites : ∀ prerequisite ∈ flag.prerequisites, ReadablePrerequisite prerequisite

def FlagRow.Readable (row : FlagRow) : Prop := (RawFlag.ofRow row).Readable

/-! ## Rule trees -/

theorem forall_mem_add_printable {set : List JsValue} {added : JsValue} :
    (∀ value ∈ JsValue.add set added, value.Printable) ↔ added.Printable ∧ ∀ value ∈ set, value.Printable := by
  simp only [JsValue.mem_add, or_imp, forall_and, forall_eq, and_comm]

/-- The walk ends with keys that can be printed. -/
def CollectsPrintable (walk : Except ScriptError (List JsValue)) : Prop :=
  ∃ out, walk = .ok out ∧ ∀ value ∈ out, value.Printable

theorem collectFromChildren_printable_iff {children : List Json} (hNode : ∀ child ∈ children, ∀ into,
      CollectsPrintable (collectSegmentKeys (some child) into) ↔
        ReadableTree (some child) ∧ ∀ value ∈ into, value.Printable) (into : List JsValue) :
    CollectsPrintable (collectFromChildren children into) ↔
      (∀ child ∈ children, ReadableTree (some child)) ∧ ∀ value ∈ into, value.Printable := by
  induction children generalizing into with
  | nil => simp [CollectsPrintable, collectFromChildren]
  | cons child rest ih =>
    have hRest := ih fun other hOther => hNode other (List.mem_cons_of_mem _ hOther)
    have hHead := hNode child List.mem_cons_self into
    rw [List.forall_mem_cons, and_right_comm, ← hHead, collectFromChildren]
    constructor
    · rintro ⟨out, hOut, hPrintable⟩
      obtain ⟨middle, hMiddle, hOut⟩ := bind_eq_ok.mp hOut
      obtain ⟨hReadable, hKept⟩ := (hRest middle).mp ⟨out, hOut, hPrintable⟩
      exact ⟨⟨middle, hMiddle, hKept⟩, hReadable⟩
    · rintro ⟨⟨middle, hMiddle, hKept⟩, hReadable⟩
      obtain ⟨out, hOut, hPrintable⟩ := (hRest middle).mpr ⟨hReadable, hKept⟩
      exact ⟨out, bind_eq_ok.mpr ⟨middle, hMiddle, hOut⟩, hPrintable⟩

theorem collectsPrintable_ok {out : List JsValue} :
    CollectsPrintable (.ok out) ↔ ∀ value ∈ out, value.Printable := by
  constructor
  · rintro ⟨_, hSame, hPrintable⟩
    obtain rfl := Except.ok.inj hSame
    exact hPrintable
  · intro hPrintable
    exact ⟨out, rfl, hPrintable⟩

theorem not_collectsPrintable_error {error : ScriptError} : ¬ CollectsPrintable (.error error) := by
  rintro ⟨_, hSame, _⟩
  cases hSame

theorem collectSegmentKeys_printable_iff (node : JsValue) (into : List JsValue) :
    CollectsPrintable (collectSegmentKeys node into) ↔ ReadableTree node ∧ ∀ value ∈ into, value.Printable := by
  fun_induction ReadableTree node generalizing into with
  | case1 =>
    rw [collectSegmentKeys.eq_def, false_and, iff_false]
    exact not_collectsPrintable_error
  | case2 =>
    rw [collectSegmentKeys.eq_def, false_and, iff_false]
    exact not_collectsPrintable_error
  | case3 doc hNotNull hKind =>
    rw [collectSegmentKeys_segment into hKind, collectsPrintable_ok, forall_mem_add_printable]
  | case4 doc hNotNull kind hKind children hChildren ih =>
    rw [collectSegmentKeys_boolean into hKind hChildren]
    exact collectFromChildren_printable_iff ih into
  | case5 doc hNotNull kind hKind text hChildren =>
    have hNotArray : ∀ children, doc.field? "children" ≠ some (.arr children) := by simp [hChildren]
    rw [collectSegmentKeys_boolean_of_not_array into hKind hNotArray, hChildren, true_and]
    exact collectsPrintable_ok
  | case6 doc hNotNull kind hKind hNotArray hNotText =>
    have hThrows : (doc.field? "children").iterate = .error .notIterable := by
      unfold JsValue.iterate
      split
      · exact absurd ‹_› (hNotArray _)
      · exact absurd ‹_› (hNotText _)
      · rfl
    rw [collectSegmentKeys_boolean_of_not_array into hKind hNotArray, hThrows, false_and, iff_false]
    exact not_collectsPrintable_error
  | case7 doc hNotNull hKind =>
    rw [collectSegmentKeys_condition into hKind, collectsPrintable_ok, true_and]
  | case8 doc hNotNull hKind =>
    rw [collectSegmentKeys.eq_def]
    simp only [hKind, collectsPrintable_ok, true_and]

/-! ## Rules -/

/-- The checks that look a key up and print it only when it is not there. -/
theorem lookup_ok_iff {keys : List JsValue} {key : JsValue} {message : String → String} :
    (∃ problems, (if JsValue.has keys key then (.ok [] : Except ScriptError (List String))
      else do
        let text ← key.toText
        .ok [message text]) = .ok problems) ↔ key.Printable := by
  split
  · rename_i hHas
    exact iff_of_true ⟨[], rfl⟩ (JsValue.printable_of_has hHas)
  · rw [exists_ok_bind, ← JsValue.toText_ok_iff]
    simp

theorem sliceProblems_ok_iff {keys : List JsValue} {path : String} {slice : Json} :
    (∃ problems, sliceProblems keys path (some slice) = .ok problems) ↔
      slice ≠ .null ∧ (slice.field? "variationKey").Printable := by
  rw [sliceProblems, exists_ok_bind, JsValue.exists_get_ok, lookup_ok_iff]

theorem weightsTotal_ok {slices : List Json} (h : ∀ slice ∈ slices, slice ≠ .null) (start : Number) :
    ∃ total, weightsTotal start (slices.map some) = .ok total := by
  induction slices generalizing start with
  | nil => exact ⟨some start, rfl⟩
  | cons slice rest ih =>
    rw [List.forall_mem_cons] at h
    rw [List.map_cons, weightsTotal, exists_ok_bind, JsValue.exists_get_ok]
    refine ⟨h.1, ?_⟩
    split
    · split
      · exact ⟨none, rfl⟩
      · exact ih h.2 _
    · exact ⟨none, rfl⟩

/-- What `serveProblems` does with a rollout. -/
def rolloutProblems (keys : List JsValue) (path : String) (rollout : JsValue) : Except ScriptError (List String) := do
  let valid ← isValidRollout rollout
  let undeclared ← (← rollout.iterate).mapM (sliceProblems keys path)
  .ok (report (!valid) s!"{path}: rollout weights must be non-negative integers summing to 100000" ++
    undeclared.flatten)

theorem rolloutProblems_of_slices {keys : List JsValue} {path : String} {rollout : JsValue} {slices : List Json}
    {empty : Bool} (hEmpty : isEmptyDistribution rollout = .ok empty)
    (hSlices : rollout.iterate = .ok (slices.map some)) :
    (∃ problems, rolloutProblems keys path rollout = .ok problems) ↔
      ∀ slice ∈ slices, slice ≠ .null ∧ (slice.field? "variationKey").Printable := by
  have hEvery : (∃ undeclared, (slices.map some).mapM (sliceProblems keys path) = .ok undeclared) ↔
      ∀ slice ∈ slices, slice ≠ .null ∧ (slice.field? "variationKey").Printable := by
    rw [exists_mapM_eq_ok_iff, List.forall_mem_map]
    exact forall₂_congr fun slice _ => sliceProblems_ok_iff
  rw [← hEvery, rolloutProblems, exists_ok_bind]
  simp only [hSlices, exists_ok_bind, Except.ok.injEq, exists_eq_left', exists_eq', and_true]
  constructor
  · rintro ⟨_, _, hUndeclared⟩
    exact hUndeclared
  · intro hUndeclared
    have hPresent : ∀ slice ∈ slices, slice ≠ .null := fun slice hSlice => (hEvery.mp hUndeclared slice hSlice).1
    obtain ⟨total, hTotal⟩ := weightsTotal_ok hPresent (.ofNat 0)
    have hValid : ∃ valid, isValidRollout rollout = .ok valid := by
      rw [isValidRollout, hEmpty, exists_ok_bind]
      refine ⟨empty, rfl, ?_⟩
      split
      · exact ⟨false, rfl⟩
      · rw [hSlices, exists_ok_bind]
        exact ⟨_, rfl, exists_ok_bind.mpr ⟨total, hTotal, _, rfl⟩⟩
    obtain ⟨valid, hValid⟩ := hValid
    exact ⟨valid, hValid, hUndeclared⟩

theorem rolloutProblems_ok_iff {keys : List JsValue} {path : String} {rollout : JsValue} :
    (∃ problems, rolloutProblems keys path rollout = .ok problems) ↔ ReadableRollout rollout := by
  have hThrows : rollout.iterate = .error .notIterable →
      ¬ ∃ problems, rolloutProblems keys path rollout = .ok problems := by
    rintro hIterate ⟨problems, hProblems⟩
    obtain ⟨valid, _, hRest⟩ := bind_eq_ok.mp hProblems
    obtain ⟨entries, hEntries, _⟩ := bind_eq_ok.mp hRest
    cases hIterate.symm.trans hEntries
  unfold ReadableRollout
  split
  · rename_i slices
    exact rolloutProblems_of_slices rfl rfl
  · rename_i text
    -- the characters of a text are read, and none has a key
    have hSlices : JsValue.iterate (some (.str text)) =
        .ok ((text.toList.map fun c => .str (String.singleton c)).map some) := by
      rw [List.map_map]
      rfl
    rw [iff_true, rolloutProblems_of_slices rfl hSlices]
    intro slice hSlice
    obtain ⟨c, _, rfl⟩ := List.mem_map.mp hSlice
    exact ⟨Json.noConfusion, trivial⟩
  · rename_i hNotArray hNotText
    rw [iff_false]
    apply hThrows
    unfold JsValue.iterate
    split
    · exact absurd rfl (hNotArray _)
    · exact absurd rfl (hNotText _)
    · rfl

theorem serveProblems_object_ok_iff {keys : List JsValue} {path : String} {doc : Json} (hNotNull : doc ≠ .null)
    (hFixed : JsValue.hasProperty "variationKey" (some doc) = .ok (doc.field? "variationKey").isSome) :
    (∃ problems, serveProblems keys path (some doc) = .ok problems) ↔
      match doc.field? "variationKey" with
      | some variationKey => variationKey.Printable
      | none => ReadableRollout (doc.field? "rollout") := by
  rw [serveProblems, hFixed, exists_ok_bind]
  simp only [Except.ok.injEq, exists_eq_left']
  cases hKey : doc.field? "variationKey" with
  | some variationKey =>
    simp only [Option.isSome_some, if_true]
    rw [exists_ok_bind, JsValue.exists_get_ok, hKey, lookup_ok_iff]
    exact and_iff_right hNotNull
  | none =>
    simp only [Option.isSome_none, Bool.false_eq_true, if_false]
    rw [exists_ok_bind, JsValue.exists_get_ok, and_iff_right hNotNull]
    exact rolloutProblems_ok_iff

theorem serveProblems_ok_iff (keys : List JsValue) (path : String) (serve : JsValue) :
    (∃ problems, serveProblems keys path serve = .ok problems) ↔ ReadableServe serve := by
  have hThrows : serve.object? = none → ¬ ∃ problems, serveProblems keys path serve = .ok problems := by
    rintro hNone ⟨problems, hProblems⟩
    obtain ⟨fixed, hFixed, _⟩ := bind_eq_ok.mp hProblems
    unfold JsValue.hasProperty at hFixed
    split at hFixed
    · cases hNone
    · cases hNone
    · cases hFixed
  unfold ReadableServe
  split
  · rw [iff_false]
    exact hThrows ‹_›
  · rename_i doc hDoc
    obtain rfl := JsValue.eq_of_object? hDoc
    cases doc with
    | obj fields => exact serveProblems_object_ok_iff Json.noConfusion rfl
    | arr items => exact serveProblems_object_ok_iff Json.noConfusion rfl
    | _ => cases hDoc

theorem missingSegment_ok_iff {segmentKeys : List String} {path : String} {key : JsValue} :
    (∃ problems, missingSegment segmentKeys path key = .ok problems) ↔ key.Printable := by
  rw [missingSegment]
  exact lookup_ok_iff

theorem ruleProblems_ok_iff {segmentKeys : List String} {keys : List JsValue} {path : String} {rule : Json} :
    (∃ problems, ruleProblems segmentKeys keys path rule = .ok problems) ↔ ReadableRule rule := by
  have hCollects := collectSegmentKeys_printable_iff (rule.field? "when") []
  simp only [List.not_mem_nil, false_implies, implies_true, and_true] at hCollects
  have hMissing (found : List JsValue) : (∃ missing, found.mapM (missingSegment segmentKeys path) = .ok missing) ↔
      ∀ key ∈ found, key.Printable := by
    rw [exists_mapM_eq_ok_iff]
    exact forall₂_congr fun key _ => missingSegment_ok_iff
  rw [ruleProblems, exists_ok_bind, JsValue.exists_get_ok, exists_ok_bind]
  constructor
  · rintro ⟨hPresent, found, hFound, hRest⟩
    obtain ⟨missing, hNone, hRest⟩ := exists_ok_bind.mp hRest
    obtain ⟨_, hServe⟩ := JsValue.exists_get_ok.mp (exists_ok_bind.mp hRest)
    obtain ⟨served, hServed, _⟩ := exists_ok_bind.mp hServe
    refine ⟨hPresent, hCollects.mp ⟨found, hFound, ?_⟩, (serveProblems_ok_iff ..).mp ⟨served, hServed⟩⟩
    exact (hMissing found).mp ⟨missing, hNone⟩
  · rintro ⟨hPresent, hTree, hServe⟩
    obtain ⟨found, hFound, hPrintable⟩ := hCollects.mpr hTree
    obtain ⟨missing, hNone⟩ := (hMissing found).mpr hPrintable
    obtain ⟨served, hServed⟩ := (serveProblems_ok_iff keys path _).mpr hServe
    refine ⟨hPresent, found, hFound, exists_ok_bind.mpr ⟨missing, hNone, ?_⟩⟩
    rw [exists_ok_bind, JsValue.exists_get_ok]
    exact ⟨hPresent, exists_ok_bind.mpr ⟨served, hServed, _, rfl⟩⟩

/-! ## Flags -/

theorem distinct_isEmpty {values : List JsValue} : (JsValue.distinct values).isEmpty = true ↔ values = [] := by
  rw [List.isEmpty_iff, List.eq_nil_iff_forall_not_mem, List.eq_nil_iff_forall_not_mem]
  simp only [JsValue.mem_distinct]

theorem exists_variationKeys {variations : List Json} :
    (∃ keys, variations.mapM (fun variation => JsValue.get (some variation) "key") = .ok keys) ↔
      ∀ variation ∈ variations, variation ≠ .null := by
  rw [exists_mapM_eq_ok_iff]
  exact forall₂_congr fun variation _ => JsValue.get_ok_iff

theorem exists_ruleProblems {segmentKeys : List String} {keys : List JsValue} {flag : RawFlag} :
    (∃ problems, flag.rules.zipIdx.mapM (fun (rule, index) =>
      ruleProblems segmentKeys keys s!"flag \"{flag.key}\" rule[{index}]" rule) = .ok problems) ↔
      ∀ rule ∈ flag.rules, ReadableRule rule := by
  rw [exists_mapM_eq_ok_iff]
  simp only [ruleProblems_ok_iff]
  constructor
  · intro h rule hRule
    obtain ⟨index, hIndex⟩ := List.getElem?_of_mem hRule
    exact h (rule, index) (List.mem_zipIdx_iff_getElem?.mpr hIndex)
  · intro h entry hEntry
    exact h entry.1 (List.fst_mem_of_mem_zipIdx hEntry)

theorem validateFlag_ok_iff {flag : RawFlag} {segmentKeys : List String} :
    (∃ problems, validateFlag flag segmentKeys = .ok problems) ↔
      (∀ variation ∈ flag.variations, variation ≠ .null) ∧
        (flag.variations ≠ [] → ∀ rule ∈ flag.rules, ReadableRule rule) := by
  rw [validateFlag, exists_ok_bind, ← exists_variationKeys]
  have hRest : ∀ keys, flag.variations.mapM (fun variation => JsValue.get (some variation) "key") = .ok keys →
      ((JsValue.distinct keys).isEmpty = true ↔ flag.variations = []) := by
    intro keys hKeys
    rw [distinct_isEmpty, ← List.length_eq_zero_iff, ← List.length_eq_zero_iff, (mapM_eq_ok.mp hKeys).length_eq]
  constructor
  · rintro ⟨keys, hKeys, problems, hProblems⟩
    refine ⟨⟨keys, hKeys⟩, fun hSome => ?_⟩
    rw [if_neg (mt (hRest keys hKeys).mp hSome)] at hProblems
    obtain ⟨rules, hRules, _⟩ := bind_eq_ok.mp hProblems
    exact exists_ruleProblems.mp ⟨rules, hRules⟩
  · rintro ⟨⟨keys, hKeys⟩, hRules⟩
    refine ⟨keys, hKeys, ?_⟩
    by_cases hNone : flag.variations = []
    · rw [if_pos ((hRest keys hKeys).mpr hNone)]
      exact ⟨_, rfl⟩
    · rw [if_neg (mt (hRest keys hKeys).mp hNone), exists_ok_bind]
      obtain ⟨rules, hProblems⟩ := exists_ruleProblems.mpr (hRules hNone)
      exact ⟨rules, hProblems, _, rfl⟩

theorem missingPrerequisite_ok_iff {flagKeys : List String} {flag : RawFlag} {prerequisite : Json} :
    (∃ problems, missingPrerequisite flagKeys flag prerequisite = .ok problems) ↔
      ReadablePrerequisite prerequisite := by
  rw [missingPrerequisite, exists_ok_bind, JsValue.exists_get_ok, lookup_ok_iff]
  exact ⟨fun ⟨hPresent, hKey⟩ => ⟨hPresent, hKey⟩, fun h => ⟨h.present, h.flagKey⟩⟩

theorem flagProblems_ok_iff {segmentKeys flagKeys : List String} {flag : RawFlag} :
    (∃ problems, flagProblems segmentKeys flagKeys flag = .ok problems) ↔ flag.Readable := by
  have hMissing : (∃ missing, flag.prerequisites.mapM (missingPrerequisite flagKeys flag) = .ok missing) ↔
      ∀ prerequisite ∈ flag.prerequisites, ReadablePrerequisite prerequisite := by
    rw [exists_mapM_eq_ok_iff]
    exact forall₂_congr fun prerequisite _ => missingPrerequisite_ok_iff
  rw [flagProblems, exists_ok_bind]
  constructor
  · rintro ⟨own, hOwn, hRest⟩
    obtain ⟨missing, hFound, _⟩ := exists_ok_bind.mp hRest
    obtain ⟨hVariations, hRules⟩ := validateFlag_ok_iff.mp ⟨own, hOwn⟩
    exact ⟨hVariations, hRules, hMissing.mp ⟨missing, hFound⟩⟩
  · intro h
    obtain ⟨own, hOwn⟩ := validateFlag_ok_iff.mpr ⟨h.variations, h.rules⟩
    obtain ⟨missing, hFound⟩ := hMissing.mpr h.prerequisites
    exact ⟨own, hOwn, exists_ok_bind.mpr ⟨missing, hFound, _, rfl⟩⟩

theorem validationProblems_ok_iff (flagRows : List FlagRow) (segmentRows : List SegmentRow) :
    (∃ problems, validationProblems flagRows segmentRows = .ok problems) ↔ ∀ row ∈ flagRows, row.Readable := by
  rw [validationProblems, exists_ok_bind]
  simp only [Except.ok.injEq, exists_eq', and_true, exists_mapM_eq_ok_iff, List.forall_mem_map, flagProblems_ok_iff]
  rfl

/-! ## Compiling and publishing -/

/-- A ruleset, or a `RulesetValidationError`. -/
def Reports : Except CompileError CompiledRuleset → Prop
  | .ok _ | .error (.invalid _) => True
  | .error (.thrown _) | .error .unreadable => False

theorem finish_reports (server : RulesetSnapshot) : Reports (finish server) := by
  obtain ⟨leaks, hLeaks⟩ := findServerOnlyLeaks_client server
  simp only [finish, hLeaks]
  cases leaks with
  | nil => trivial
  | cons leak rest => trivial

theorem compileRuleset_reports (options : CompileOptions) (now : String) :
    Reports (compileRuleset options now) ↔ ∀ row ∈ options.flags, row.Readable := by
  rw [← validationProblems_ok_iff options.flags options.segments, compileRuleset]
  split
  · rename_i error hThrown
    rw [hThrown]
    exact iff_of_false id (by simp)
  · rename_i problem problems hProblems
    exact iff_of_true trivial ⟨_, hProblems⟩
  · rename_i hValid
    obtain ⟨server, hServer, _⟩ := serverPayload_of_valid hValid
    rw [hServer]
    exact iff_of_true (finish_reports server) ⟨[], hValid⟩

namespace Database

variable {runtime : Runtime} {db : Database} {t : Nat}

theorem stage_fail (db : Database) (t : Nat) : (db.effect runtime (.fail t)).stage t = .thrown :=
  (stage_setStage ..).trans (if_pos rfl)

theorem stage_attempt_thrown {a : Action} {fails : Bool}
    (hThrows : db.enabled a = true → (db.effect runtime a).stage t = .thrown) :
    (db.attempt runtime t a fails).stage t = .thrown := by
  rw [attempt]
  split
  · rename_i hStep
    exact hThrows (Bool.and_eq_true_iff.mp hStep).2
  · exact stage_fail db t

theorem next_compile_of_error {options : PublishOptions} {now : String} {version : Nat} {flags : Reading FlagRow}
    {segments : Reading SegmentRow} {error : CompileError}
    (hError : compileRuleset (compileOptions options version flags.rows segments.rows) now = .error error) :
    db.next runtime options (.compile t now) (.readSegments version flags segments) = .thrown := by
  unfold next
  dsimp only
  rw [hError]

/-- A transaction whose compile throws commits nothing, and the route sees what was thrown. -/
theorem publishRuleset_of_error {before : Database} {options : PublishOptions} {course : Course} {version : Nat}
    {flags : Reading FlagRow} {segments : Reading SegmentRow} {error : CompileError}
    (hBegin : course.throws .begin = false)
    (hRead : (before.readInputs runtime options course).stage before.begun = .readSegments version flags segments)
    (hError : compileRuleset (compileOptions options version flags.rows segments.rows) (course.now .insertSnapshot) =
      .error error) :
    (before.publishRuleset runtime options course).record = none ∧
      (before.publishRuleset runtime options course).error = some error := by
  have hAsked : (before.readInputs runtime options course).options before.begun = options :=
    (pending_readInputs before options course).asked
  rw [publishRuleset, if_neg (by simp [hBegin])]
  generalize before.readInputs runtime options course = read at hRead hAsked
  have hCompile : (read.attempt runtime before.begun (.compile before.begun (course.now .insertSnapshot))
      false).stage before.begun = .thrown := by
    have hStage : (read.effect runtime (.compile before.begun (course.now .insertSnapshot))).stage before.begun =
        read.next runtime (read.options before.begun) (.compile before.begun (course.now .insertSnapshot))
          (read.stage before.begun) := (stage_setStage ..).trans (if_pos rfl)
    refine stage_attempt_thrown fun _ => hStage.trans ?_
    rw [hRead, hAsked]
    exact next_compile_of_error hError
  constructor
  · have hInsert {db : Database} (hThrown : db.stage before.begun = .thrown) :
        (db.attempt runtime before.begun (.insert before.begun) (course.throws .insertSnapshot)).stage before.begun =
          .thrown := by
      apply stage_attempt_thrown
      simp [enabled, hThrown]
    have hCommit {db : Database} (hThrown : db.stage before.begun = .thrown) :
        (db.attempt runtime before.begun (commitStep before.begun course) (course.fails .commit)).stage before.begun =
          .thrown := by
      apply stage_attempt_thrown
      rw [commitStep]
      split <;> simp [enabled, hThrown]
    exact congrArg committedRecord (hCommit (hInsert hCompile))
  · simp only [hRead, compileError, hError]

end Database

namespace Admin

/-- A publish that comes to call `compileRuleset`, and what it calls it with. -/
inductive Calls (runtime : Runtime) (s : Admin) (body : PublishBody) (course : Course) :
    CompileOptions → String → Prop where
  | intro (tenantId environmentId environmentKey : String) (version : Nat) (flags : Reading FlagRow)
      (segments : Reading SegmentRow) (hTenant : given body.tenantId = some tenantId)
      (hEnvironment : given body.environmentId = some environmentId)
      (hKey : given body.environmentKey = some environmentKey) (hBegin : course.throws .begin = false)
      (hRead : (s.database.readInputs runtime
        { tenantId, environmentId, environmentKey, publishedBy := body.actorEmail.getD "unknown" } course).stage
          s.database.begun = .readSegments version flags segments) :
      Calls runtime s body course (Database.compileOptions
        { tenantId, environmentId, environmentKey, publishedBy := body.actorEmail.getD "unknown" }
          version flags.rows segments.rows) (course.now .insertSnapshot)

variable {runtime : Runtime} {s : Admin} {body : PublishBody} {course : Course}

theorem postPublish_of_error {options : CompileOptions} {now : String} {error : CompileError}
    (hCalls : Calls runtime s body course options now) (hError : compileRuleset options now = .error error)
    (hRollback : course.throws .rollback = false) :
    (s.postPublish runtime body course).2 = publishFailed (some error) := by
  obtain ⟨tenantId, environmentId, environmentKey, version, flags, segments, hTenant, hEnvironment, hKey, hBegin,
    hRead⟩ := hCalls
  obtain ⟨hRecord, hThrown⟩ := Database.publishRuleset_of_error hBegin hRead hError
  rw [postPublish, hTenant, hEnvironment, hKey]
  simp only [hRecord, hThrown, hRollback]
  rfl

end Admin

/-- Rows of any shape, on an engine whose stack is deep enough for them: the compile returns or
throws a `RulesetValidationError` exactly when every flag can be read, and so does a publish of
rows that are refused answer with the list of their problems. -/
theorem compileRuleset_reports_iff (options : CompileOptions) (now : String) :
    (Reports (compileRuleset options now) ↔ ∀ row ∈ options.flags, row.Readable) ∧
      ∀ (runtime : Runtime) (s : Admin) (body : Admin.PublishBody) (course : Course),
        Admin.Calls runtime s body course options now → course.throws .rollback = false →
        (∀ compiled, compileRuleset options now ≠ .ok compiled) →
        ((∃ problems, compileRuleset options now = .error (.invalid problems) ∧
            (s.postPublish runtime body course).2 = Admin.publishFailed (some (.invalid problems))) ↔
          ∀ row ∈ options.flags, row.Readable) := by
  refine ⟨compileRuleset_reports options now, ?_⟩
  intro runtime s body course hCalls hRollback hRefused
  rw [← compileRuleset_reports options now]
  cases hResult : compileRuleset options now with
  | ok compiled => exact absurd hResult (hRefused compiled)
  | error error =>
    rw [Admin.postPublish_of_error hCalls hResult hRollback]
    cases error with
    | invalid problems => exact iff_of_true ⟨problems, rfl, rfl⟩ trivial
    | thrown error => exact iff_of_false (by rintro ⟨_, hSame, _⟩; cases hSame) id
    | unreadable => exact iff_of_false (by rintro ⟨_, hSame, _⟩; cases hSame) id

/-! ## Rules as a request stores them -/

namespace Admin

def servesOn (fields : List (String × Json)) : Json :=
  .obj (fields ++ [("serve", .obj [("variationKey", .str "on")])])

def withRule (rule : Json) : Admin :=
  new Database.oneEnvironment ["env-1"] ["acme"]
    { flags := [checkoutFlag], flagConfigs := [{ checkoutConfig with rules := .arr [rule] }] } []

def publishBody : PublishBody where
  tenantId := some "acme"
  environmentId := some "env-1"
  environmentKey := some "production"
  actorEmail := none

/-- What the publish of `withRule` compiles. -/
def ruleOptions (rule : Json) : CompileOptions where
  environmentKey := "production"
  version := versionNumber 1
  flags := [flagRow checkoutFlag.toFlagRecord
    (some { checkoutConfig.toFlagConfigRecord with rules := .arr [rule] })]
  segments := []
  servedAt := none

def ghostRule : Json :=
  servesOn [("when", .obj [("kind", .str "segment"), ("segmentKey", .str "ghost"), ("negate", .bool false)])]

theorem calls_withRule (rule : Json) :
    Calls Database.plainRuntime (withRule rule) publishBody smooth (ruleOptions rule) "now" := by
  have hFlags : loadFlags Database.plainRuntime (withRule rule).database.configuration "acme" "env-1" =
      (ruleOptions rule).flags := List.mergeSort_singleton _
  have hSegments : loadSegments Database.plainRuntime (withRule rule).database.configuration "acme" = [] :=
    List.mergeSort_nil
  refine .intro "acme" "env-1" "production" 1 ⟨(ruleOptions rule).flags, 2, 0⟩ ⟨[], 3, 0⟩ rfl rfl rfl rfl ?_
  rw [← hFlags, ← hSegments]
  rfl

theorem readable_ghostRule : ∀ row ∈ (ruleOptions ghostRule).flags, row.Readable := by
  intro row hRow
  obtain rfl := List.mem_singleton.mp hRow
  have hRule : ReadableRule ghostRule := by
    refine ⟨Json.noConfusion, ?_, JsValue.printable_str "on"⟩
    rw [ReadableTree.eq_def]
    exact JsValue.printable_str "ghost"
  constructor
  · simp [RawFlag.ofRow, flagRow, asArray, checkoutFlag, defaultVariations]
  · intro _ rule hMem
    rw [List.mem_singleton.mp hMem]
    exact hRule
  · intro prerequisite hMem
    cases hMem

theorem publish_reports_unknown_segment : ∃ problems,
    compileRuleset (ruleOptions ghostRule) "now" = .error (.invalid problems) ∧
      ((withRule ghostRule).postPublish Database.plainRuntime publishBody smooth).2 =
        publishFailed (some (.invalid problems)) := by
  have hRefused : (compileRuleset (ruleOptions ghostRule) "now").isOk = false := by decide +kernel
  refine ((compileRuleset_reports_iff _ _).2 _ _ _ _ (calls_withRule ghostRule) rfl ?_).mpr readable_ghostRule
  intro compiled hSame
  rw [hSame] at hRefused
  cases hRefused

theorem compile_without_tree :
    compileRuleset (ruleOptions (servesOn [])) "now" = .error (.thrown (.read "kind")) := by
  have hThrown : (match compileRuleset (ruleOptions (servesOn [])) "now" with
      | .error (.thrown error) => some error
      | _ => none) = some (.read "kind") := by decide +kernel
  split at hThrown
  · rename_i error hResult
    rw [hResult, Option.some.inj hThrown]
  · cases hThrown

/-- A rule without a tree: the check has a line to report, and the walk after it throws. -/
theorem compileRuleset_crashes :
    ¬ Reports (compileRuleset (ruleOptions (servesOn [])) "now") ∧
      ((withRule (servesOn [])).postPublish Database.plainRuntime publishBody smooth).2 = none := by
  constructor
  · rw [compile_without_tree]
    exact id
  · exact postPublish_of_error (calls_withRule (servesOn [])) compile_without_tree rfl

end Admin

end Flagship.ControlPlane
