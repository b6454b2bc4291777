import Flagship.ControlPlane.InsertedRows
import Flagship.Lib.JsonLines

/-! # Rows on the way to ClickHouse

`insert` and `query` of `apps/control-plane/src/clickhouse.ts` and what they put into a body and
take out of one. Four of the columns of a row are strings that a client has chosen.
-/

namespace Flagship.ControlPlane

open Lib

/-- The body of an insert; without rows nothing is sent. -/
def insertBody (rows : List Json) : Option String := if rows.isEmpty then none else some (JsonLines.write rows)

/-- The rows in the answer to a query, when each of its lines is one. -/
def queryRows (body : String) : Option (List (List (String × Scalar))) := JsonLines.read JsonLines.readObject body

def ExposureRow.columns (row : ExposureRow) : List (String × Scalar) :=
  [("tenant_id", .string row.tenantId), ("environment_key", .string row.environmentKey),
    ("flag_key", .string row.flagKey), ("variation_key", .string row.variationKey),
    ("context_key", .string row.contextKey), ("ruleset_version", .number row.rulesetVersion.toText),
    ("timestamp", .string row.timestamp), ("dedupe_key", .string row.dedupeKey)]

theorem readObject_row {row : ExposureRow} (hFinite : row.rulesetVersion.isFinite = true) :
    JsonLines.readObject row.toJson.stringify.toList = some row.columns := by
  have hVersion : (Json.num row.rulesetVersion).stringify = row.rulesetVersion.toText := by
    rw [Json.stringify, if_pos hFinite]
  rw [ExposureRow.toJson, JsonLines.readObject_stringify]
  · simp only [List.map_cons, List.map_nil, JsonLines.member, JsonLines.scalar, hVersion, ExposureRow.columns]
  · simp only [List.forall_mem_cons, JsonLines.IsScalar, hFinite, true_and]
    exact fun field hField => absurd hField List.not_mem_nil

theorem queryRows_insertBody {rows : List ExposureRow} (hFinite : ∀ row ∈ rows, row.rulesetVersion.isFinite = true)
    {body : String} (hBody : insertBody (rows.map ExposureRow.toJson) = some body) :
    queryRows body = some (rows.map ExposureRow.columns) := by
  rw [insertBody] at hBody
  split at hBody
  · cases hBody
  obtain rfl := Option.some.inj hBody
  exact JsonLines.read_write fun row hRow => readObject_row (hFinite row hRow)

variable {parseDate : String → Option ℤ} {now : ℤ} {scope : AuthenticatedKey} {events : List Json}

theorem finite_of_mem_rows {outcome : ValidationOutcome}
    (hOutcome : validateBatch parseDate now scope events = .ok outcome) :
    ∀ row ∈ outcome.rows, row.rulesetVersion.isFinite = true := by
  intro row hRow
  obtain ⟨event, _, hVerdict⟩ := (mem_rows_iff hOutcome).mp hRow
  obtain ⟨_, _, _, _, _, _, _, hFields, _, _, rfl⟩ := validateEvent_eq_row.mp hVerdict
  obtain ⟨_, _, _, _, hVersion⟩ := usableFields_eq_ok.mp hFields
  obtain ⟨_, n, rfl⟩ := usableVersion_eq_ok.mp hVersion
  rfl

/-- Whatever strings a batch holds, the body that its rows are inserted with is read, line by line,
as these rows and no others, each in the tenant and the environment of the key. -/
theorem insert_body_reads_back {outcome : ValidationOutcome} {body : String}
    (hOutcome : validateBatch parseDate now scope events = .ok outcome)
    (hBody : insertBody (outcome.rows.map ExposureRow.toJson) = some body) :
    queryRows body = some (outcome.rows.map ExposureRow.columns) ∧
      ∀ rows, queryRows body = some rows → ∀ columns ∈ rows,
        columns.lookup "tenant_id" = some (.string scope.tenantId) ∧
          columns.lookup "environment_key" = some (.string scope.environmentKey) := by
  have hRead := queryRows_insertBody (finite_of_mem_rows hOutcome) hBody
  refine ⟨hRead, fun rows hRows columns hColumns => ?_⟩
  obtain rfl := Option.some.inj (hRead.symm.trans hRows)
  obtain ⟨row, hRow, rfl⟩ := List.mem_map.mp hColumns
  obtain ⟨event, _, hVerdict⟩ := (mem_rows_iff hOutcome).mp hRow
  obtain ⟨_, _, _, _, _, _, _, _, _, _, rfl⟩ := validateEvent_eq_row.mp hVerdict
  exact ⟨rfl, rfl⟩

/-- An event whose flag is named as if it ended its row and began one of another tenant. -/
def hostile : Json :=
  .obj [("flagKey", .str "a\"\x7d\n\x7b\"tenant_id\":\"globex"), ("variationKey", .str "on"),
    ("contextKey", .str "user-1"), ("dedupeKey", .str "k-1"), ("rulesetVersion", .num (.ofNat 3)),
    ("timestamp", .str "1970-01-01T00:00:00.000Z")]

def hostileRow : ExposureRow where
  tenantId := "acme"
  environmentKey := "production"
  flagKey := "a\"\x7d\n\x7b\"tenant_id\":\"globex"
  variationKey := "on"
  contextKey := "user-1"
  rulesetVersion := .ofNat 3
  timestamp := "1970-01-01 00:00:00.000"
  dedupeKey := "k-1"

theorem insert_body_reads_back_hostile :
    ∃ body, insertBody [hostileRow.toJson] = some body ∧ queryRows body = some [hostileRow.columns] := by
  have hOutcome : validateBatch (fun _ => some 0) 0 { tenantId := "acme", environmentKey := "production" } [hostile] =
      .ok { rows := [hostileRow], rejected := [] } := by rfl
  obtain ⟨body, hBody⟩ : ∃ body, insertBody [hostileRow.toJson] = some body := ⟨_, rfl⟩
  exact ⟨body, hBody, (insert_body_reads_back hOutcome hBody).1⟩

end Flagship.ControlPlane
