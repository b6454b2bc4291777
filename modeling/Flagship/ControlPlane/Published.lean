import Flagship.ControlPlane.Accepted
import Flagship.Core.Widening

/-! # What a published ruleset guarantees

Results about every input on which `compileRuleset` returns. The validator leaves two holes:
a variation without a key makes slices without a key pass, and the references of the segments'
own trees are not looked at.
-/

namespace Flagship.ControlPlane

open Lib Flagship.Core

theorem compileRuleset_ok {options : CompileOptions} {now : String} {compiled : CompiledRuleset}
    (h : compileRuleset options now = .ok compiled) :
    validationProblems options.flags options.segments = .ok [] ∧
      serverPayload options now = some compiled.server ∧
      compiled.client = filterSnapshotForKey compiled.server .client := by
  rw [compileRuleset] at h
  split at h
  · cases h
  · cases h
  rename_i hValid
  split at h
  · cases h
  rename_i server hServer
  rw [finish] at h
  simp only at h
  split at h
  · cases h
  · obtain rfl := Except.ok.inj h
    exact ⟨hValid, hServer, rfl⟩
  · cases h

theorem segments_of_serverPayload {options : CompileOptions} {now : String} {server : RulesetSnapshot}
    (h : serverPayload options now = some server) : options.segments.mapM readSegment = some server.segments := by
  obtain ⟨flags, _, h⟩ := Option.bind_eq_some_iff.mp h
  obtain ⟨segments, hSegments, h⟩ := Option.bind_eq_some_iff.mp h
  obtain rfl := Option.some.inj h
  exact hSegments

theorem compiled_sound {options : CompileOptions} {now : String} {compiled : CompiledRuleset}
    (h : compileRuleset options now = .ok compiled) :
    SnapshotSound compiled.server ∧ SnapshotSound compiled.client ∧
      compiled.server.flags.map Flag.key = options.flags.map FlagRow.key ∧
      compiled.client.flags.map Flag.key = options.flags.map FlagRow.key ∧
      compiled.server.segments.map Segment.key = options.segments.map SegmentRow.key := by
  obtain ⟨hValid, hServer, hClient⟩ := compileRuleset_ok h
  obtain ⟨server, hSame, hSound, hFlags, hSegments⟩ := serverPayload_of_valid hValid
  obtain rfl := Option.some.inj (hServer.symm.trans hSame)
  rw [hClient, client_flag_keys]
  exact ⟨hSound, hSound.client, hFlags, hFlags, hSegments⟩

/-! ## Validation and evaluation -/

/-- Either payload answers every flag with a declared variation exactly when no flag of it gets
to a rollout slice without a variation key. -/
theorem payload_serves_iff {options : CompileOptions} {now : String} {compiled : CompiledRuleset}
    (hCompiled : compileRuleset options now = .ok compiled) (hDistinct : (options.flags.map FlagRow.key).Nodup)
    (regExp : RegExp) (context : EvaluationContext) :
    ∀ payload, payload = compiled.server ∨ payload = compiled.client →
      ((∀ flag ∈ payload.flags, ∀ fallback,
          Serves flag (evaluateFlag regExp context (indexSnapshot payload) flag.key fallback)) ↔
        ∀ flag ∈ payload.flags, ¬ ReachesBlankSlice regExp context payload flag) := by
  obtain ⟨hServer, hClient, hServerKeys, hClientKeys, _⟩ := compiled_sound hCompiled
  rintro payload (rfl | rfl)
  · exact evaluateFlag_serves_iff hServer (hServerKeys ▸ hDistinct)
  · exact evaluateFlag_serves_iff hClient (hClientKeys ▸ hDistinct)

def alwaysTree : Json := .obj [("kind", .str "and"), ("children", .arr [])]

/-- One variation has no key, and the rollout has a slice for it. -/
def blankFlag : FlagRow where
  key := "checkout"
  salt := "salt"
  bucketBy := "key"
  variations := .arr [.obj [("key", .str "off"), ("value", .bool false)], .obj [("value", .bool true)]]
  enabled := true
  defaultVariationKey := "off"
  offVariationKey := "off"
  rules := .arr [.obj [("id", .str "all"), ("when", alwaysTree),
    ("serve", .obj [("rollout", .arr [.obj [("weight", .num (.ofNat 100000))]])])]]
  prerequisites := .arr []

def blankOptions : CompileOptions :=
  { environmentKey := "production", version := .ofNat 1, flags := [blankFlag], segments := [], servedAt := none }

def anyone : EvaluationContext := { key := "user", attributes := fun _ => none }

def noRegExp : RegExp := fun _ => none

def blankRead : Flag where
  key := "checkout"
  enabled := true
  salt := "salt"
  variations := [
    { key := some (.str "off"), value := some (.bool false) },
    { key := none, value := some (.bool true) }]
  defaultVariationKey := "off"
  offVariationKey := "off"
  prerequisites := []
  rules := [{
    id := some (.str "all"), description := none, when := .boolean .and []
    serve := .rollout [{ variationKey := none, weight := .ofNat 100000 }] }]
  bucketBy := "key"

theorem blank_payload : serverPayload blankOptions "now" = some (snapshotOf blankOptions "now" [blankRead] []) := rfl

theorem blank_error : (evaluateFlag noRegExp anyone
    (indexSnapshot (snapshotOf blankOptions "now" [blankRead] [])) "checkout" none).reason.isError = true := by
  decide +kernel

theorem exists_compiled {options : CompileOptions} {now : String}
    (hNodup : (options.segments.map SegmentRow.key).Nodup)
    (hValid : validationProblems options.flags options.segments = .ok []) :
    ∃ compiled, compileRuleset options now = .ok compiled := by
  obtain ⟨server, hServer, _, _, hKeys⟩ : ∃ server, serverPayload options now = some server ∧ _ :=
    serverPayload_of_valid hValid
  refine ⟨{ server, client := filterSnapshotForKey server .client }, ?_⟩
  rw [compileRuleset, hValid]
  simp only [hServer]
  exact (finish_of_distinct (hKeys ▸ hNodup)).2

theorem sample_serves_iff : ∃ compiled, compileRuleset sampleOptions "now" = .ok compiled ∧
    ((∀ flag ∈ compiled.client.flags, ∀ fallback,
        Serves flag (evaluateFlag noRegExp anyone (indexSnapshot compiled.client) flag.key fallback)) ↔
      ∀ flag ∈ compiled.client.flags, ¬ ReachesBlankSlice noRegExp anyone compiled.client flag) := by
  obtain ⟨compiled, hCompiled⟩ : ∃ compiled, compileRuleset sampleOptions "now" = .ok compiled :=
    exists_compiled (by decide) (by decide +kernel)
  exact ⟨compiled, hCompiled, payload_serves_iff hCompiled (by decide) noRegExp anyone _ (Or.inr rfl)⟩

theorem blank_slice_published : ¬ ∀ (options : CompileOptions) (now : String) (compiled : CompiledRuleset),
    compileRuleset options now = .ok compiled →
    (options.flags.map FlagRow.key).Nodup → (options.segments.map SegmentRow.key).Nodup →
    ∀ payload, payload = compiled.server ∨ payload = compiled.client →
    ∀ (regExp : RegExp) (context : EvaluationContext), ∀ flag ∈ payload.flags, ∀ fallback,
      Serves flag (evaluateFlag regExp context (indexSnapshot payload) flag.key fallback) := by
  intro hAll
  obtain ⟨compiled, hCompiled⟩ : ∃ compiled, compileRuleset blankOptions "now" = .ok compiled :=
    exists_compiled (by decide) (by decide +kernel)
  have hServer : compiled.server = snapshotOf blankOptions "now" [blankRead] [] :=
    (Option.some.inj (blank_payload.symm.trans (compileRuleset_ok hCompiled).2.1)).symm
  have hServes := hAll blankOptions "now" compiled hCompiled (by decide) (by decide) compiled.server (Or.inl rfl)
    noRegExp anyone blankRead (by rw [hServer]; exact List.mem_singleton.mpr rfl) none
  have hError := blank_error
  rw [hServer] at hServes
  rw [show "checkout" = blankRead.key from rfl, hServes.1] at hError
  cases hError

/-! ## The client payload against the server payload -/

/-- A flag is `true` on the client payload only where it is on the server payload, unless the
filter widens it. -/
theorem client_never_wider_iff {options : CompileOptions} {now : String} {compiled : CompiledRuleset}
    (hCompiled : compileRuleset options now = .ok compiled) (hFlags : (options.flags.map FlagRow.key).Nodup)
    (hSegments : (options.segments.map SegmentRow.key).Nodup) (regExp : RegExp) (context : EvaluationContext) :
    ∀ flag ∈ compiled.server.flags, ∀ fallback,
      (IsTrue (evaluateFlag regExp context (indexSnapshot compiled.client) flag.key fallback).value →
        IsTrue (evaluateFlag regExp context (indexSnapshot compiled.server) flag.key fallback).value) ↔
      ¬ Widens regExp context compiled.server flag fallback := by
  obtain ⟨hSound, _, hFlagKeys, _, hSegmentKeys⟩ := compiled_sound hCompiled
  obtain ⟨_, _, hClient⟩ := compileRuleset_ok hCompiled
  intro flag hFlag fallback
  rw [hClient]
  exact never_wider_iff fallback (hSegmentKeys ▸ hSegments) (flagOf_of_mem (hFlagKeys ▸ hFlags) hFlag)

theorem sample_never_wider_iff : ∃ compiled, compileRuleset sampleOptions "now" = .ok compiled ∧
    ∀ flag ∈ compiled.server.flags, ∀ fallback,
      (IsTrue (evaluateFlag noRegExp anyone (indexSnapshot compiled.client) flag.key fallback).value →
        IsTrue (evaluateFlag noRegExp anyone (indexSnapshot compiled.server) flag.key fallback).value) ↔
      ¬ Widens noRegExp anyone compiled.server flag fallback := by
  obtain ⟨compiled, hCompiled⟩ : ∃ compiled, compileRuleset sampleOptions "now" = .ok compiled :=
    exists_compiled (by decide) (by decide +kernel)
  exact ⟨compiled, hCompiled, client_never_wider_iff hCompiled (by decide) (by decide) noRegExp anyone⟩

/-- On for everybody but the users of a competitor, whom only the server payload knows about. -/
def excludingFlag : FlagRow where
  key := "checkout"
  salt := "salt"
  bucketBy := "key"
  variations := .arr [
    .obj [("key", .str "on"), ("value", .bool true)],
    .obj [("key", .str "off"), ("value", .bool false)]]
  enabled := true
  defaultVariationKey := "on"
  offVariationKey := "off"
  rules := .arr [.obj [("id", .str "competitor"),
    ("when", .obj [("kind", .str "condition"), ("attribute", .str "company"), ("operator", .str "eq"),
      ("values", .arr [.str "acme"]), ("visibility", .str "server")]),
    ("serve", .obj [("variationKey", .str "off")])]]
  prerequisites := .arr []

def excludingOptions : CompileOptions :=
  { environmentKey := "production", version := .ofNat 1, flags := [excludingFlag], segments := [], servedAt := none }

def excludingRead : Flag where
  key := "checkout"
  enabled := true
  salt := "salt"
  variations := [{ key := some (.str "on"), value := some (.bool true) },
    { key := some (.str "off"), value := some (.bool false) }]
  defaultVariationKey := "on"
  offVariationKey := "off"
  prerequisites := []
  rules := [{
    id := some (.str "competitor"), description := none
    when := .condition { «attribute» := "company", operator := .eq, values := [.str "acme"], visibility := .server }
    serve := .variation (some (.str "off")) }]
  bucketBy := "key"

def competitor : EvaluationContext :=
  { key := "user", attributes := fun name => if name = "company" then some (.str "acme") else none }

theorem client_wider_than_server : ¬ ∀ (options : CompileOptions) (now : String) (compiled : CompiledRuleset),
    compileRuleset options now = .ok compiled →
    ∀ (regExp : RegExp) (context : EvaluationContext), ∀ flag ∈ compiled.server.flags, ∀ fallback,
      IsTrue (evaluateFlag regExp context (indexSnapshot compiled.client) flag.key fallback).value →
        IsTrue (evaluateFlag regExp context (indexSnapshot compiled.server) flag.key fallback).value := by
  intro hAll
  obtain ⟨compiled, hCompiled⟩ : ∃ compiled, compileRuleset excludingOptions "now" = .ok compiled :=
    exists_compiled (by decide) (by decide +kernel)
  have hPayload : serverPayload excludingOptions "now" =
    some (snapshotOf excludingOptions "now" [excludingRead] []) := rfl
  have hServer := Option.some.inj (hPayload.symm.trans (compileRuleset_ok hCompiled).2.1)
  have hClient := (compileRuleset_ok hCompiled).2.2
  have hNever := hAll excludingOptions "now" compiled hCompiled noRegExp competitor excludingRead
    (by rw [← hServer]; exact List.mem_singleton.mpr rfl) none
  rw [hClient, ← hServer] at hNever
  have hOnClient : (evaluateFlag noRegExp competitor (indexSnapshot
      (filterSnapshotForKey (snapshotOf excludingOptions "now" [excludingRead] []) .client)) "checkout" none).value =
      some (.bool true) := by
    rw [← JsValue.strictEquals_bool]
    decide +kernel
  have hOnServer : (evaluateFlag noRegExp competitor (indexSnapshot
      (snapshotOf excludingOptions "now" [excludingRead] [])) "checkout" none).value = some (.bool false) := by
    rw [← JsValue.strictEquals_bool]
    decide +kernel
  have hTrue := hNever hOnClient
  rw [IsTrue, show excludingRead.key = "checkout" from rfl, hOnServer] at hTrue
  cases hTrue

/-! ## Segment references -/

/-- The row's own tree refers to the segment, as the walk over the trees of rules finds it. -/
def SegmentRow.References (row : SegmentRow) (key : String) : Prop :=
  ∃ found, collectSegmentKeys (some row.ruleTree) [] = .ok found ∧ some (.str key) ∈ found

def RowsClosed (rows : List SegmentRow) : Prop :=
  ∀ row ∈ rows, ∀ key, row.References key → key ∈ rows.map SegmentRow.key

def RowRefers (rows : List SegmentRow) (a b : String) : Prop := ∃ row ∈ rows, row.key = a ∧ row.References b

def RowsAcyclic (rows : List SegmentRow) : Prop := ∀ key, ¬ Relation.TransGen (RowRefers rows) key key

theorem references_of_read {row : SegmentRow} {segment : Segment} (h : readSegment row = some segment) (key : String) :
    row.References key ↔ key ∈ segment.when.references := by
  obtain ⟨tree, hTree, hSegment⟩ := Option.bind_eq_some_iff.mp h
  obtain rfl := Option.some.inj hSegment
  obtain ⟨found, hFound, hMem⟩ := collectSegmentKeys_of_read hTree []
  constructor
  · rintro ⟨out, hOut, hKey⟩
    obtain rfl := Except.ok.inj (hFound.symm.trans hOut)
    rcases (hMem _).mp hKey with hNone | ⟨other, hOther, hSame⟩
    · exact absurd hNone List.not_mem_nil
    · obtain rfl := Json.str.inj (Option.some.inj hSame)
      exact hOther
  · intro hKey
    exact ⟨found, hFound, (hMem _).mpr (Or.inr ⟨key, hKey, rfl⟩)⟩

section Rows

variable {rows : List SegmentRow} {segments : List Segment} (hRead : rows.mapM readSegment = some segments)
include hRead

theorem rowsClosed_iff :
    RowsClosed rows ↔ ∀ segment ∈ segments, ∀ key ∈ segment.when.references, key ∈ segments.map Segment.key := by
  rw [segmentKeys_of_read hRead]
  constructor
  · intro hClosed segment hSegment key hKey
    obtain ⟨row, hRow, hSame⟩ := exists_of_mem_forall₂ (mapM_eq_some.mp hRead) segment hSegment
    exact hClosed row hRow key ((references_of_read hSame key).mpr hKey)
  · intro hClosed row hRow key hKey
    obtain ⟨segment, hSegment, hSame⟩ := exists_of_mem_forall₂ (mapM_eq_some.mp hRead).flip row hRow
    exact hClosed segment hSegment key ((references_of_read hSame key).mp hKey)

theorem rowRefers_eq : RowRefers rows = SegmentRefers segments := by
  funext a b
  refine propext ⟨?_, ?_⟩
  · rintro ⟨row, hRow, rfl, hKey⟩
    obtain ⟨segment, hSegment, hSame⟩ := exists_of_mem_forall₂ (mapM_eq_some.mp hRead).flip row hRow
    exact ⟨segment, hSegment, key_of_readSegment hSame, (references_of_read hSame b).mp hKey⟩
  · rintro ⟨segment, hSegment, rfl, hKey⟩
    obtain ⟨row, hRow, hSame⟩ := exists_of_mem_forall₂ (mapM_eq_some.mp hRead) segment hSegment
    exact ⟨row, hRow, (key_of_readSegment hSame).symm, (references_of_read hSame b).mpr hKey⟩

end Rows

/-- No reference of an accepted ruleset is broken, and no rule comes to a branch that refuses
one, exactly when the trees in the rows of the segments name keys of rows and lead into no cycle. -/
theorem server_references_iff {options : CompileOptions} {now : String} {compiled : CompiledRuleset}
    (hCompiled : compileRuleset options now = .ok compiled) :
    (Closed compiled.server ∧ Acyclic compiled.server.segments ∧
      ∀ flag ∈ compiled.server.flags, ∀ rule ∈ flag.rules, ∀ node seen,
        Visits (indexSnapshot compiled.server) rule.when node seen →
          ¬ FailsClosed (indexSnapshot compiled.server) node seen) ↔
      RowsClosed options.segments ∧ RowsAcyclic options.segments := by
  obtain ⟨hSound, _⟩ := compiled_sound hCompiled
  have hRead := segments_of_serverPayload (compileRuleset_ok hCompiled).2.1
  rw [rowsClosed_iff hRead, RowsAcyclic, rowRefers_eq hRead]
  constructor
  · rintro ⟨hClosed, hAcyclic, _⟩
    exact ⟨hClosed.2, hAcyclic⟩
  · rintro ⟨hSegments, hAcyclic⟩
    have hClosed : Closed compiled.server :=
      ⟨fun flag hFlag => (hSound.flags flag hFlag).references, hSegments⟩
    refine ⟨hClosed, hAcyclic, ?_⟩
    intro flag hFlag rule hRule node seen hVisits
    exact not_failsClosed hClosed hAcyclic ((hSound.flags flag hFlag).references rule hRule) hVisits

def staffRow : SegmentRow where
  key := "staff"
  ruleTree := .obj [("kind", .str "condition"), ("attribute", .str "email"), ("operator", .str "endsWith"),
    ("values", .arr [.str "@example.com"]), ("visibility", .str "server")]

/-- The segment that the sample's flag refers to, by way of another one. -/
def betaRow : SegmentRow where
  key := "beta"
  ruleTree := .obj [("kind", .str "segment"), ("segmentKey", .str "staff"), ("negate", .bool false)]

def nestedOptions : CompileOptions := { sampleOptions with segments := [betaRow, staffRow] }

theorem betaRow_references {key : String} : betaRow.References key ↔ key = "staff" := by
  have hFound : collectSegmentKeys (some betaRow.ruleTree) [] = .ok [some (.str "staff")] :=
    collectSegmentKeys_segment [] rfl
  rw [SegmentRow.References, hFound]
  simp

theorem staffRow_references {key : String} : ¬ staffRow.References key := by
  have hFound : collectSegmentKeys (some staffRow.ruleTree) [] = .ok [] := collectSegmentKeys_condition [] rfl
  rw [SegmentRow.References, hFound]
  simp

theorem nested_references : ∃ compiled, compileRuleset nestedOptions "now" = .ok compiled ∧
    Closed compiled.server ∧ Acyclic compiled.server.segments ∧
      ∀ flag ∈ compiled.server.flags, ∀ rule ∈ flag.rules, ∀ node seen,
        Visits (indexSnapshot compiled.server) rule.when node seen →
          ¬ FailsClosed (indexSnapshot compiled.server) node seen := by
  obtain ⟨compiled, hCompiled⟩ : ∃ compiled, compileRuleset nestedOptions "now" = .ok compiled :=
    exists_compiled (by decide) (by decide +kernel)
  have hRows : ∀ {row : SegmentRow} {key : String}, row ∈ nestedOptions.segments → row.References key →
      row.key = "beta" ∧ key = "staff" := by
    intro row key hRow hKey
    rcases List.mem_cons.mp hRow with rfl | hRow
    · exact ⟨rfl, betaRow_references.mp hKey⟩
    · obtain rfl := List.mem_singleton.mp hRow
      exact absurd hKey staffRow_references
  refine ⟨compiled, hCompiled, (server_references_iff hCompiled).mpr ⟨?_, ?_⟩⟩
  · intro row hRow key hKey
    rw [(hRows hRow hKey).2]
    decide
  · apply acyclic_of_rank fun key => if key = "beta" then 1 else 0
    rintro a b ⟨row, hRow, rfl, hKey⟩
    rw [(hRows hRow hKey).1, (hRows hRow hKey).2]
    decide

def danglingOptions : CompileOptions where
  environmentKey := "production"
  version := .ofNat 1
  flags := []
  segments := [{ key := "beta", ruleTree := .obj [("kind", .str "segment"), ("segmentKey", .str "staff"),
    ("negate", .bool false)] }]
  servedAt := none

theorem dangling_reference_published : ¬ ∀ (options : CompileOptions) (now : String) (compiled : CompiledRuleset),
    compileRuleset options now = .ok compiled →
    Closed compiled.server ∧ Acyclic compiled.server.segments ∧
      ∀ flag ∈ compiled.server.flags, ∀ rule ∈ flag.rules, ∀ node seen,
        Visits (indexSnapshot compiled.server) rule.when node seen →
          ¬ FailsClosed (indexSnapshot compiled.server) node seen := by
  intro hAll
  obtain ⟨compiled, hCompiled⟩ : ∃ compiled, compileRuleset danglingOptions "now" = .ok compiled :=
    exists_compiled (by decide) (by decide +kernel)
  have hPayload : serverPayload danglingOptions "now" = some (snapshotOf danglingOptions "now" []
      [{ key := "beta", when := .segment { segmentKey := "staff", negate := false } }]) := rfl
  have hServer := Option.some.inj (hPayload.symm.trans (compileRuleset_ok hCompiled).2.1)
  obtain ⟨⟨_, hSegments⟩, _⟩ := hAll danglingOptions "now" compiled hCompiled
  rw [← hServer] at hSegments
  have hListed := hSegments _ (List.mem_singleton.mpr rfl) "staff" (List.mem_singleton.mpr rfl)
  revert hListed
  decide

end Flagship.ControlPlane
