import Flagship.ControlPlane.Batches
import Flagship.Lib.WholeNumbers

/-! # Rows and the table they are inserted into

`ClickHouseClient.insert` sends the rows of a batch as one statement, each as the text that
`JSON.stringify` gives it. The version of a ruleset is checked to be a whole number and not to
be one that its column holds.
-/

namespace Flagship.ControlPlane

open Lib

def ExposureRow.toJson (row : ExposureRow) : Json :=
  .obj [("tenant_id", .str row.tenantId), ("environment_key", .str row.environmentKey), ("flag_key", .str row.flagKey),
    ("variation_key", .str row.variationKey), ("context_key", .str row.contextKey),
    ("ruleset_version", .num row.rulesetVersion), ("timestamp", .str row.timestamp), ("dedupe_key", .str row.dedupeKey)]

/-- A row that the table `exposures` takes: `ruleset_version` is a `UInt32` and is written in
digits, and the timestamp is of the window that ingest accepts. -/
structure FitsTable (now : ℤ) (row : ExposureRow) : Prop where
  version : ∃ n < 2 ^ 32, row.rulesetVersion = .ofNat n ∧
    (row.toJson.field? "ruleset_version").map Json.stringify = some n.repr
  timestamp : ∃ instant, row.timestamp = toClickHouseDateTime instant ∧
    instant - now ≤ MAX_CLOCK_SKEW_MILLIS ∧ now - instant ≤ MAX_BACKDATE_MILLIS

/-- An event that passes every check, and the version it names. -/
structure AdmittedWith (parseDate : String → Option ℤ) (now : ℤ) (event : Json) (version : Number) : Prop where
  fields : ∃ flagKey variationKey contextKey dedupeKey,
    usableFields event = .ok (flagKey, variationKey, contextKey, dedupeKey, version)
  timestamp : ∃ text instant, JsValue.toText (event.field? "timestamp") = .ok text ∧
    usableInstant now (parseDate text) = .ok instant

variable {parseDate : String → Option ℤ} {now : ℤ} {scope : AuthenticatedKey} {events : List Json}

theorem stringify_version (row : ExposureRow) {n : ℕ} (hVersion : row.rulesetVersion = .ofNat n)
    (hColumn : n < 2 ^ 32) :
    (row.toJson.field? "ruleset_version").map Json.stringify = some n.repr := by
  have hField : row.toJson.field? "ruleset_version" = some (.num (.ofNat n)) := by
    rw [← hVersion]
    rfl
  have hFinite : (Number.ofNat n).isFinite = true := rfl
  rw [hField, Option.map_some, Json.stringify, if_pos hFinite, Number.toText_ofNat (by omega)]

theorem fitsTable_iff {event : Json} {row : ExposureRow}
    (h : validateEvent parseDate now scope event = .ok (.ok row)) :
    FitsTable now row ↔ row.rulesetVersion.lt (.ofNat (2 ^ 32)) = true := by
  obtain ⟨flagKey, variationKey, contextKey, dedupeKey, version, text, instant, hFields, _, hInstant, rfl⟩ :=
    validateEvent_eq_row.mp h
  obtain ⟨_, _, _, _, hVersion⟩ := usableFields_eq_ok.mp hFields
  obtain ⟨_, n, rfl⟩ := usableVersion_eq_ok.mp hVersion
  rw [Number.lt_ofNat, decide_eq_true_iff]
  constructor
  · intro hFits
    obtain ⟨m, hColumn, hSame, _⟩ := hFits.version
    have hEqual : n = m := by exact_mod_cast Number.finite.inj hSame
    rw [hEqual]
    exact hColumn
  · intro hColumn
    exact {
      version := ⟨n, hColumn, rfl, stringify_version _ rfl hColumn⟩
      timestamp := ⟨instant, rfl, (usableInstant_eq_ok.mp hInstant).2⟩ }

theorem exists_row_iff (scope : AuthenticatedKey) {event : Json} {version : Number} :
    (∃ row, validateEvent parseDate now scope event = .ok (.ok row) ∧ row.rulesetVersion = version) ↔
      AdmittedWith parseDate now event version := by
  constructor
  · rintro ⟨row, hRow, rfl⟩
    obtain ⟨flagKey, variationKey, contextKey, dedupeKey, version, text, instant, hFields, hText, hInstant, rfl⟩ :=
      validateEvent_eq_row.mp hRow
    exact ⟨⟨flagKey, variationKey, contextKey, dedupeKey, hFields⟩, text, instant, hText, hInstant⟩
  · rintro ⟨⟨flagKey, variationKey, contextKey, dedupeKey, hFields⟩, text, instant, hText, hInstant⟩
    exact ⟨_, validateEvent_eq_row.mpr ⟨_, _, _, _, _, _, _, hFields, hText, hInstant, rfl⟩, rfl⟩

/-- A batch that is not judged has no rows at all; in one that is, every row fits as soon as no
admitted event names a version beyond the column. -/
theorem rows_fit_iff (parseDate : String → Option ℤ) (now : ℤ) (scope : AuthenticatedKey) (events : List Json) :
    (∀ outcome, validateBatch parseDate now scope events = .ok outcome → ∀ row ∈ outcome.rows, FitsTable now row) ↔
      (∃ event ∈ events, (∃ fields, usableFields event = .ok fields) ∧
        ¬ JsValue.Printable (event.field? "timestamp")) ∨
      ∀ event ∈ events, ∀ version, AdmittedWith parseDate now event version → version.lt (.ofNat (2 ^ 32)) = true := by
  constructor
  · intro hFit
    by_cases hJudged : ∀ event ∈ events, Judged event
    · right
      intro event hMem version hAdmitted
      obtain ⟨outcome, hOutcome⟩ := (exists_validateBatch_iff parseDate now scope events).mpr hJudged
      obtain ⟨row, hRow, rfl⟩ := (exists_row_iff scope).mpr hAdmitted
      exact (fitsTable_iff hRow).mp (hFit outcome hOutcome row ((mem_rows_iff hOutcome).mpr ⟨event, hMem, hRow⟩))
    · left
      simpa only [Judged, not_forall, exists_prop] using hJudged
  · rintro (⟨event, hMem, hFields, hUnprintable⟩ | hColumn) outcome hOutcome row hRow
    · exact absurd ((exists_validateBatch_iff _ _ _ _).mp ⟨outcome, hOutcome⟩ event hMem hFields) hUnprintable
    · obtain ⟨event, hMem, hValid⟩ := (mem_rows_iff hOutcome).mp hRow
      exact (fitsTable_iff hValid).mpr (hColumn event hMem _ ((exists_row_iff scope).mp ⟨row, hValid, rfl⟩))

theorem version_beyond_column_is_inserted :
    ¬ ∀ outcome, validateBatch (fun _ => some 0) 0 { tenantId := "acme", environmentKey := "production" }
      [pageViewAt 4294967296 (.str "1970-01-01T00:00:00.000Z")] = .ok outcome →
        ∀ row ∈ outcome.rows, FitsTable 0 row := by
  intro hFit
  have hRow : validateBatch (fun _ => some 0) 0 { tenantId := "acme", environmentKey := "production" }
      [pageViewAt 4294967296 (.str "1970-01-01T00:00:00.000Z")] = .ok {
        rows := [{
          tenantId := "acme"
          environmentKey := "production"
          flagKey := "checkout"
          variationKey := "on"
          contextKey := "user-1"
          rulesetVersion := .ofNat 4294967296
          timestamp := "1970-01-01 00:00:00.000"
          dedupeKey := "k-1" }]
        rejected := [] } := by rfl
  obtain ⟨n, hColumn, hVersion, _⟩ := (hFit _ hRow _ List.mem_cons_self).version
  have hSame : 4294967296 = n := by exact_mod_cast Number.finite.inj hVersion
  omega

end Flagship.ControlPlane
