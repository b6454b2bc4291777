import Flagship.Lib.Json
import Flagship.Lib.Traverse
import Flagship.Lib.Utf16

/-! # Exposure ingest

`POST /sdk/v1/exposures` of `apps/control-plane/src/server.ts`, over `validateBatch` and the writer
of `exposures.ts`. How the runtime reads a date is given; the framework's own limit on the bytes
of a body is not part of the route.
-/

namespace Flagship.ControlPlane

open Lib

def MAX_BATCH_SIZE : ℕ := 1000

def MAX_FIELD_LENGTH : ℕ := 512

def MAX_CLOCK_SKEW_MILLIS : ℤ := 24 * 60 * 60 * 1000

def MAX_BACKDATE_MILLIS : ℤ := 30 * 24 * 60 * 60 * 1000

/-- What of `AuthenticatedKey` ingest reads. -/
structure AuthenticatedKey where
  tenantId : String
  environmentKey : String

structure ExposureRow where
  tenantId : String
  environmentKey : String
  flagKey : String
  variationKey : String
  contextKey : String
  rulesetVersion : Number
  timestamp : String
  dedupeKey : String
deriving DecidableEq

structure Rejection where
  index : ℕ
  reason : String

structure ValidationOutcome where
  rows : List ExposureRow
  rejected : List Rejection

/-! ## Timestamps -/

/-- Year, month and day of a day counted from the first of January 1970, in the proleptic
Gregorian calendar: years are counted from March, in eras of four hundred. -/
def civilFromDays (days : ℤ) : ℤ × ℤ × ℤ :=
  let shifted := days + 719468
  let era := shifted / 146097
  let dayOfEra := shifted % 146097
  let yearOfEra := (dayOfEra - dayOfEra / 1460 + dayOfEra / 36524 - dayOfEra / 146096) / 365
  let dayOfYear := dayOfEra - (365 * yearOfEra + yearOfEra / 4 - yearOfEra / 100)
  let fromMarch := (5 * dayOfYear + 2) / 153
  let month := if fromMarch < 10 then fromMarch + 3 else fromMarch - 9
  let year := yearOfEra + era * 400
  (if month ≤ 2 then year + 1 else year, month, dayOfYear - (153 * fromMarch + 2) / 5 + 1)

def padded (width : ℕ) (n : ℤ) : String :=
  let digits := Nat.repr n.natAbs
  String.ofList (List.replicate (width - digits.length) '0') ++ digits

/-- `Date.prototype.toISOString` of an instant in milliseconds. -/
def toISOString (instant : ℤ) : String :=
  let (year, month, day) := civilFromDays (instant / 86400000)
  let millis := instant % 86400000
  let yearText :=
    if 0 ≤ year ∧ year ≤ 9999 then padded 4 year else (if year < 0 then "-" else "+") ++ padded 6 year
  s!"{yearText}-{padded 2 month}-{padded 2 day}T{padded 2 (millis / 3600000)}:{padded 2 (millis / 60000 % 60)}:" ++
    s!"{padded 2 (millis / 1000 % 60)}.{padded 3 (millis % 1000)}Z"

example : toISOString 951827696789 = "2000-02-29T12:34:56.789Z" := by decide

/-- The text has one `T` and one `Z`, so the two replacements meet those. -/
def toClickHouseDateTime (instant : ℤ) : String :=
  String.ofList ((toISOString instant).toList.filterMap fun c =>
    if c = 'T' then some ' ' else if c = 'Z' then none else some c)

/-! ## The validation of a batch -/

def usableString? : JsValue → Option String
  | some (.str value) =>
    let length := (CodeUnits.ofString value).length
    if 0 < length ∧ length ≤ MAX_FIELD_LENGTH then some value else none
  | _ => none

def usableField (event : Json) (field : String) : Except String String :=
  match usableString? (event.field? field) with
  | some value => .ok value
  | none => .error s!"{field} must be a string of 1..{MAX_FIELD_LENGTH}"

def usableVersion : JsValue → Except String Number
  | some (.num version) =>
    if version.isInteger && !version.lt (.ofNat 0) then .ok version
    else .error "rulesetVersion must be a non-negative integer"
  | _ => .error "rulesetVersion must be a non-negative integer"

def usableInstant (now : ℤ) (instant : Option ℤ) : Except String ℤ :=
  match instant with
  | none => .error "timestamp is not a valid date"
  | some instant =>
    let skew := instant - now
    if MAX_CLOCK_SKEW_MILLIS < skew then .error "timestamp too far in the future"
    else if MAX_BACKDATE_MILLIS < -skew then .error "timestamp too far in the past"
    else .ok instant

/-- The fields of an event that are read before its timestamp. -/
def usableFields (event : Json) : Except String (String × String × String × String × Number) := do
  let flagKey ← usableField event "flagKey"
  let variationKey ← usableField event "variationKey"
  let contextKey ← usableField event "contextKey"
  let dedupeKey ← usableField event "dedupeKey"
  let version ← usableVersion (event.field? "rulesetVersion")
  .ok (flagKey, variationKey, contextKey, dedupeKey, version)

variable (parseDate : String → Option ℤ) (now : ℤ) (scope : AuthenticatedKey)

/-- One event: the row it gives or the reason it is rejected for. Only `String(event.timestamp)`
can throw. -/
def validateEvent (candidate : Json) : Except ScriptError (Except String ExposureRow) :=
  match JsValue.object? (some candidate) with
  | none => .ok (.error "not an object")
  | some event =>
    match usableFields event with
    | .error reason => .ok (.error reason)
    | .ok (flagKey, variationKey, contextKey, dedupeKey, rulesetVersion) => do
      let text ← JsValue.toText (event.field? "timestamp")
      match usableInstant now (parseDate text) with
      | .error reason => .ok (.error reason)
      | .ok instant =>
        .ok (.ok {
          tenantId := scope.tenantId
          environmentKey := scope.environmentKey
          flagKey
          variationKey
          contextKey
          rulesetVersion
          timestamp := toClickHouseDateTime instant
          dedupeKey })

def ValidationOutcome.add (outcome : ValidationOutcome) (index : ℕ) : Except String ExposureRow → ValidationOutcome
  | .ok row => { outcome with rows := outcome.rows ++ [row] }
  | .error reason => { outcome with rejected := outcome.rejected ++ [{ index, reason }] }

/-- The `forEach`, from the event at an index on. -/
def validateFrom (index : ℕ) (outcome : ValidationOutcome) : List Json → Except ScriptError ValidationOutcome
  | [] => .ok outcome
  | candidate :: rest => do
    let verdict ← validateEvent parseDate now scope candidate
    validateFrom (index + 1) (outcome.add index verdict) rest

def validateBatch (events : List Json) : Except ScriptError ValidationOutcome :=
  validateFrom parseDate now scope 0 { rows := [], rejected := [] } events

/-! ## The writer -/

structure ExposureWriter where
  maxInFlightRows : Number
  /-- The writes that have not settled. -/
  inFlight : List (List ExposureRow)
  inFlightRows : ℕ
  accepted : ℕ
  refused : ℕ

def ExposureWriter.enqueue (writer : ExposureWriter) (rows : List ExposureRow) : ExposureWriter × Bool :=
  if rows.isEmpty then (writer, true)
  else if writer.maxInFlightRows.lt (.ofNat (writer.inFlightRows + rows.length)) then
    ({ writer with refused := writer.refused + rows.length }, false)
  else
    ({ writer with
      inFlight := writer.inFlight ++ [rows]
      inFlightRows := writer.inFlightRows + rows.length
      accepted := writer.accepted + rows.length }, true)

/-! ## The route -/

structure Reply where
  code : ℕ
  body : Json

def Reply.error (code : ℕ) (message : String) : Reply := { code, body := .obj [("error", .str message)] }

def Reply.batchTooLarge : Reply where
  code := 413
  body := .obj [("error", .str s!"batch exceeds {MAX_BATCH_SIZE} events"),
    ("maxBatchSize", .num (.ofNat MAX_BATCH_SIZE))]

/-- The end of the route: backpressure is answered like any other failed flush. -/
def ExposureWriter.handOver (writer : ExposureWriter) (outcome : ValidationOutcome) : Option ExposureWriter × Reply :=
  match writer.enqueue outcome.rows with
  | (writer, false) =>
    (some writer, {
      code := 429
      body := .obj [("error", .str "ingest is saturated"), ("accepted", .num (.ofNat 0))] })
  | (writer, true) =>
    (some writer, {
      code := 202
      body := .obj [("accepted", .num (.ofNat outcome.rows.length)),
        ("rejected", .num (.ofNat outcome.rejected.length))] })

def requireSdkKey (authenticateKey : String → Option AuthenticatedKey) (authorization : Option String) :
    Option AuthenticatedKey :=
  match authorization with
  | none => none
  | some header =>
    if "Bearer ".toList <+: header.toList then authenticateKey (String.ofList (header.toList.drop 7)) else none

def eventsOf (body : JsValue) : JsValue := body.bind fun document => document.field? "events"

def postExposures (authenticateKey : String → Option AuthenticatedKey) (authorization : Option String)
    (writer : Option ExposureWriter) (body : JsValue) : Except ScriptError (Option ExposureWriter × Reply) :=
  match requireSdkKey authenticateKey authorization with
  | none => .ok (writer, .error 401 "invalid or missing SDK key")
  | some scope =>
    match writer with
    | none => .ok (none, .error 503 "exposure ingest is not configured")
    | some exposureWriter =>
      match JsValue.array? (eventsOf body) with
      | none => .ok (some exposureWriter, .error 400 "events must be an array")
      | some events =>
        if MAX_BATCH_SIZE < events.length then
          .ok (some exposureWriter, .batchTooLarge)
        else do
          let outcome ← validateBatch parseDate now scope events
          .ok (exposureWriter.handOver outcome)

/-! ## What the route answers -/

variable {parseDate : String → Option ℤ} {now : ℤ} {scope : AuthenticatedKey} {events : List Json}

theorem usableVersion_eq_ok {value : JsValue} {version : Number} :
    usableVersion value = .ok version ↔ value = some (.num version) ∧ ∃ n : ℕ, version = .ofNat n := by
  constructor
  · intro h
    unfold usableVersion at h
    split at h
    · rename_i found
      split at h
      · rename_i hUsable
        obtain rfl := Except.ok.inj h
        rw [Bool.and_eq_true, Bool.not_eq_true'] at hUsable
        exact ⟨rfl, Number.isInteger_nonneg hUsable.1 hUsable.2⟩
      · cases h
    · cases h
  · rintro ⟨rfl, n, rfl⟩
    have hNonneg : (Number.ofNat n).lt (.ofNat 0) = false := by
      rw [Number.lt_ofNat, decide_eq_false (Nat.not_lt_zero n)]
    have hInteger : (Number.ofNat n).isInteger = true := by simp [Number.isInteger, Number.ofNat]
    simp [usableVersion, hNonneg, hInteger]

theorem usableFields_eq_ok {event : Json} {flagKey variationKey contextKey dedupeKey : String} {version : Number} :
    usableFields event = .ok (flagKey, variationKey, contextKey, dedupeKey, version) ↔
      usableField event "flagKey" = .ok flagKey ∧ usableField event "variationKey" = .ok variationKey ∧
        usableField event "contextKey" = .ok contextKey ∧ usableField event "dedupeKey" = .ok dedupeKey ∧
        usableVersion (event.field? "rulesetVersion") = .ok version := by
  simp only [usableFields, bind_eq_ok]
  constructor
  · rintro ⟨flagKey, hFlag, variationKey, hVariation, contextKey, hContext, dedupeKey, hDedupe, version, hVersion, h⟩
    cases h
    exact ⟨hFlag, hVariation, hContext, hDedupe, hVersion⟩
  · rintro ⟨hFlag, hVariation, hContext, hDedupe, hVersion⟩
    exact ⟨_, hFlag, _, hVariation, _, hContext, _, hDedupe, _, hVersion, rfl⟩

theorem usableInstant_eq_ok {found : Option ℤ} {instant : ℤ} :
    usableInstant now found = .ok instant ↔
      found = some instant ∧ instant - now ≤ MAX_CLOCK_SKEW_MILLIS ∧ now - instant ≤ MAX_BACKDATE_MILLIS := by
  unfold usableInstant
  cases found with
  | none => simp
  | some found =>
    simp only [Option.some.injEq]
    split
    · rename_i hFuture
      refine ⟨fun h => (by cases h), ?_⟩
      rintro ⟨rfl, hWithin, _⟩
      omega
    · rename_i hFuture
      split
      · rename_i hPast
        refine ⟨fun h => (by cases h), ?_⟩
        rintro ⟨rfl, _, hWithin⟩
        omega
      · rename_i hPast
        constructor
        · intro h
          obtain rfl := Except.ok.inj h
          exact ⟨rfl, by omega, by omega⟩
        · rintro ⟨rfl, _⟩
          rfl

theorem validateEvent_ok {candidate : Json} {text : String}
    (hText : JsValue.toText (candidate.field? "timestamp") = .ok text) :
    ∃ verdict, validateEvent parseDate now scope candidate = .ok verdict := by
  rw [validateEvent]
  cases hObject : JsValue.object? (some candidate) with
  | none => exact ⟨_, rfl⟩
  | some event =>
    obtain rfl := Option.some.inj (JsValue.eq_of_object? hObject)
    simp only
    cases usableFields candidate with
    | error reason => exact ⟨_, rfl⟩
    | ok fields =>
      simp only [hText, bind, Except.bind]
      cases usableInstant now (parseDate text) with
      | error reason => exact ⟨_, rfl⟩
      | ok instant => exact ⟨_, rfl⟩

/-- When an event is accepted, and what it becomes: its own fields under the tenant and
environment of the key. -/
theorem validateEvent_eq_row {candidate : Json} {row : ExposureRow} :
    validateEvent parseDate now scope candidate = .ok (.ok row) ↔
      ∃ flagKey variationKey contextKey dedupeKey version text instant,
        usableFields candidate = .ok (flagKey, variationKey, contextKey, dedupeKey, version) ∧
        JsValue.toText (candidate.field? "timestamp") = .ok text ∧
        usableInstant now (parseDate text) = .ok instant ∧ row = {
          tenantId := scope.tenantId
          environmentKey := scope.environmentKey
          flagKey := flagKey
          variationKey := variationKey
          contextKey := contextKey
          rulesetVersion := version
          timestamp := toClickHouseDateTime instant
          dedupeKey := dedupeKey } := by
  constructor
  · intro h
    rw [validateEvent] at h
    split at h
    · cases h
    rename_i event hObject
    obtain rfl := Option.some.inj (JsValue.eq_of_object? hObject)
    split at h
    · cases h
    rename_i flagKey variationKey contextKey dedupeKey version hFields
    obtain ⟨text, hText, hRow⟩ := bind_eq_ok.mp h
    split at hRow
    · cases hRow
    rename_i instant hInstant
    exact ⟨flagKey, variationKey, contextKey, dedupeKey, version, text, instant, hFields, hText, hInstant,
      (Except.ok.inj (Except.ok.inj hRow)).symm⟩
  · rintro ⟨flagKey, variationKey, contextKey, dedupeKey, version, text, instant, hFields, hText, hInstant, rfl⟩
    have hObject : JsValue.object? (some candidate) = some candidate := by
      cases candidate with
      | arr items => rfl
      | obj properties => rfl
      | _ => cases hFields
    simp only [validateEvent, hObject, hFields, hText, bind, Except.bind, hInstant]

theorem mem_of_validateFrom {index : ℕ} {outcome outcome' : ValidationOutcome}
    (h : validateFrom parseDate now scope index outcome events = .ok outcome') {row : ExposureRow}
    (hRow : row ∈ outcome'.rows) :
    row ∈ outcome.rows ∨ ∃ event ∈ events, validateEvent parseDate now scope event = .ok (.ok row) := by
  induction events generalizing index outcome with
  | nil =>
    obtain rfl := Except.ok.inj h
    exact Or.inl hRow
  | cons event rest ih =>
    obtain ⟨verdict, hVerdict, hRest⟩ := bind_eq_ok.mp h
    rcases ih hRest with hAdded | ⟨other, hOther, hValid⟩
    · cases verdict with
      | error reason => exact Or.inl hAdded
      | ok added =>
        rcases List.mem_append.mp hAdded with hBefore | hHere
        · exact Or.inl hBefore
        · obtain rfl := List.mem_singleton.mp hHere
          exact Or.inr ⟨event, List.mem_cons_self, hVerdict⟩
    · exact Or.inr ⟨other, List.mem_cons_of_mem _ hOther, hValid⟩

theorem validateFrom_ok
    (hReadable : ∀ event ∈ events, ∃ verdict, validateEvent parseDate now scope event = .ok verdict)
    (index : ℕ) (outcome : ValidationOutcome) :
    ∃ outcome', validateFrom parseDate now scope index outcome events = .ok outcome' := by
  induction events generalizing index outcome with
  | nil => exact ⟨outcome, rfl⟩
  | cons event rest ih =>
    obtain ⟨verdict, hVerdict⟩ := hReadable event List.mem_cons_self
    rw [validateFrom, hVerdict]
    exact ih (fun other hOther => hReadable other (List.mem_cons_of_mem _ hOther)) _ _

variable {authenticateKey : String → Option AuthenticatedKey} {authorization : Option String}

theorem requireSdkKey_bearer (key : String) :
    requireSdkKey authenticateKey (some s!"Bearer {key}") = authenticateKey key := by
  have hText : (s!"Bearer {key}").toList = "Bearer ".toList ++ key.toList := String.toList_append
  have hKey : String.ofList (("Bearer ".toList ++ key.toList).drop 7) = key := String.ofList_toList
  simp only [requireSdkKey, hText, List.prefix_append, if_true, hKey]

theorem handOver_code (writer : ExposureWriter) (outcome : ValidationOutcome) :
    (writer.handOver outcome).2.code ≠ 413 := by
  unfold ExposureWriter.handOver
  split <;> simp

theorem postExposures_fits (hFits : events.length ≤ MAX_BATCH_SIZE)
    (hReadable : ∀ scope, ∀ event ∈ events, ∃ verdict, validateEvent parseDate now scope event = .ok verdict)
    (writer : Option ExposureWriter) :
    ∃ writer' reply, postExposures parseDate now authenticateKey authorization writer
      (some (.obj [("events", .arr events)])) = .ok (writer', reply) ∧ reply.code ≠ 413 := by
  rw [postExposures]
  cases requireSdkKey authenticateKey authorization with
  | none => exact ⟨_, _, rfl, by decide⟩
  | some scope =>
    cases writer with
    | none => exact ⟨_, _, rfl, by decide⟩
    | some exposureWriter =>
      obtain ⟨outcome, hOutcome⟩ := validateFrom_ok (hReadable scope) 0 { rows := [], rejected := [] }
      change ∃ writer' reply, (if MAX_BATCH_SIZE < events.length then _ else _) = _ ∧ _
      rw [if_neg (not_lt.mpr hFits), validateBatch, hOutcome]
      exact ⟨_, _, rfl, handOver_code exposureWriter outcome⟩

theorem postExposures_exceeds (hExceeds : MAX_BATCH_SIZE < events.length)
    (hKey : requireSdkKey authenticateKey authorization = some scope) (exposureWriter : ExposureWriter) :
    postExposures parseDate now authenticateKey authorization (some exposureWriter)
      (some (.obj [("events", .arr events)])) = .ok (some exposureWriter, .batchTooLarge) := by
  rw [postExposures, hKey]
  exact if_pos hExceeds

end Flagship.ControlPlane
