import Flagship.ControlPlane.Batches
import Flagship.EndToEnd.DedupeKeys

/-! # What the SDK records and ingest accepts

An event as `record` queues it has the caller's fields, the time as the runtime writes it, and a
key put together from the fields and the counter. Ingest holds the key to the bound of the
fields it is put together from.
-/

namespace Flagship.EndToEnd

open Lib Flagship.Sdk Flagship.ControlPlane

/-- `length` of a script string -/
def units (text : String) : ℕ := (CodeUnits.ofString text).length

@[simp] theorem units_append (first second : String) : units (first ++ second) = units first + units second := by
  simp [units, CodeUnits.ofString]

def Usable (text : String) : Prop := 0 < units text ∧ units text ≤ MAX_FIELD_LENGTH

instance (text : String) : Decidable (Usable text) := inferInstanceAs (Decidable (_ ∧ _))

theorem usableField_eq_ok {event : Json} {field text value : String} (hField : event.field? field = some (.str text)) :
    usableField event field = .ok value ↔ Usable text ∧ value = text := by
  rw [usableField, hField, usableString?, Usable, units]
  by_cases hUsable : 0 < (CodeUnits.ofString text).length ∧ (CodeUnits.ofString text).length ≤ MAX_FIELD_LENGTH
  · simp [hUsable, eq_comm]
  · simp [hUsable]

/-- The event of a place in a batch gives a row and is not among the rejected. -/
def AcceptedAt (parseDate : String → Option ℤ) (now : ℤ) (scope : AuthenticatedKey) (events : List Json) (i : ℕ) :
    Prop :=
  ∃ outcome accepted, validateBatch parseDate now scope events = .ok outcome ∧
    Partitioned parseDate now scope events outcome accepted ∧
    (∃ row, (i, row) ∈ accepted) ∧ ∀ rejection ∈ outcome.rejected, rejection.index ≠ i

variable {parseDate : String → Option ℤ} {now : ℤ} {scope : AuthenticatedKey}

theorem exists_sdk_outcome (parseDate : String → Option ℤ) (now : ℤ) (scope : AuthenticatedKey)
    (batch : List ExposureEvent) :
    ∃ outcome, validateBatch parseDate now scope (batch.map ExposureEvent.toJson) = .ok outcome := by
  rw [exists_validateBatch_iff]
  intro document hMem _
  obtain ⟨event, _, rfl⟩ := List.mem_map.mp hMem
  exact JsValue.printable_str event.timestamp

theorem acceptedAt_of_row {batch : List ExposureEvent} {i : ℕ} {event : ExposureEvent} {row : ExposureRow}
    (hAt : batch[i]? = some event) (hRow : validateEvent parseDate now scope event.toJson = .ok (.ok row)) :
    AcceptedAt parseDate now scope (batch.map ExposureEvent.toJson) i := by
  have hDocument : (batch.map ExposureEvent.toJson)[i]? = some event.toJson := by rw [List.getElem?_map, hAt]; rfl
  obtain ⟨outcome, hOutcome⟩ := exists_sdk_outcome parseDate now scope batch
  obtain ⟨accepted, hPartitioned⟩ := exists_partitioned hOutcome
  have hNotRejected : ∀ reason, { index := i, reason } ∉ outcome.rejected := by
    intro reason hRejected
    obtain ⟨document, hSame, hAlone⟩ := hPartitioned.rejectedAlone i reason hRejected
    rw [hDocument] at hSame
    obtain rfl := Option.some.inj hSame
    have hMem := (mem_rows_iff hAlone).mpr ⟨_, List.mem_singleton_self _, hRow⟩
    exact absurd hMem List.not_mem_nil
  refine ⟨outcome, accepted, hOutcome, hPartitioned, ?_, ?_⟩
  · obtain hAccepted | ⟨reason, hRejected⟩ := (hPartitioned.covered i).mp (List.getElem?_eq_some_iff.mp hDocument).1
    · exact hAccepted
    · exact absurd hRejected (hNotRejected reason)
  · rintro ⟨index, reason⟩ hRejected rfl
    exact hNotRejected reason hRejected

theorem row_of_acceptedAt {event : ExposureEvent} (h : AcceptedAt parseDate now scope [event.toJson] 0) :
    ∃ row, validateEvent parseDate now scope event.toJson = .ok (.ok row) := by
  obtain ⟨outcome, accepted, hOutcome, hPartitioned, ⟨row, hAccepted⟩, _⟩ := h
  have hRow : row ∈ outcome.rows := by
    rw [hPartitioned.rows]
    exact List.mem_map.mpr ⟨(0, row), hAccepted, rfl⟩
  obtain ⟨document, hMem, hValid⟩ := (mem_rows_iff hOutcome).mp hRow
  obtain rfl := List.mem_singleton.mp hMem
  exact ⟨row, hValid⟩

/-! ## The event that is recorded -/

theorem eventOf_record {buffer : ExposureBuffer} {input : ExposureInput} {random : Number} {clock : Option String}
    {event : ExposureEvent} (h : (buffer.record input random clock).event = some event) :
    ∃ timestamp, input.timestamp.or clock = some timestamp ∧
      event = ({ buffer with sequence := buffer.sequence + 1 } : ExposureBuffer).eventOf input timestamp := by
  rw [ExposureBuffer.record] at h
  split at h
  · cases h
  split at h
  · cases h
  split at h
  · cases h
  simp only at h
  split at h
  · cases h
  · rename_i timestamp hTime
    refine ⟨timestamp, hTime, ?_⟩
    split at h
    · exact (Option.some.inj h).symm
    · exact (Option.some.inj h).symm

/-- The key has a separator after each of its first three parts. -/
theorem units_derivedKey (input : ExposureInput) (sequence : ℕ) :
    units (derivedKey input sequence) =
      units input.contextKey + units input.flagKey + units input.rulesetVersion.toText + units sequence.repr + 3 := by
  have hKey : derivedKey input sequence =
      input.contextKey ++ ":" ++ input.flagKey ++ ":" ++ input.rulesetVersion.toText ++ ":" ++ sequence.repr := rfl
  have hSeparator : units ":" = 1 := by decide
  simp only [hKey, units_append, hSeparator]
  omega

theorem exists_row_iff_usable {event : ExposureEvent} (hFlag : Usable event.flagKey)
    (hVariation : Usable event.variationKey) (hContext : Usable event.contextKey)
    (hVersion : ∃ n : ℕ, event.rulesetVersion = .ofNat n)
    (hTime : ∃ instant, usableInstant now (parseDate event.timestamp) = .ok instant) :
    (∃ row, validateEvent parseDate now scope event.toJson = .ok (.ok row)) ↔ Usable event.dedupeKey := by
  obtain ⟨n, hNumber⟩ := hVersion
  obtain ⟨instant, hInstant⟩ := hTime
  have hFinite : event.rulesetVersion.isFinite = true := by rw [hNumber]; rfl
  have hField : event.toJson.field? "rulesetVersion" = some (.num event.rulesetVersion) := by
    have hWritten : event.toJson.field? "rulesetVersion" =
        some (if event.rulesetVersion.isFinite then .num event.rulesetVersion else .null) := rfl
    rw [hWritten, if_pos hFinite]
  constructor
  · rintro ⟨row, hRow⟩
    obtain ⟨_, _, _, dedupeKey, _, _, _, hFields, _⟩ := validateEvent_eq_row.mp hRow
    obtain ⟨_, _, _, hDedupe, _⟩ := usableFields_eq_ok.mp hFields
    exact ((usableField_eq_ok rfl).mp hDedupe).1
  · intro hDedupe
    have hFields : usableFields event.toJson =
        .ok (event.flagKey, event.variationKey, event.contextKey, event.dedupeKey, event.rulesetVersion) := by
      rw [usableFields_eq_ok]
      refine ⟨(usableField_eq_ok rfl).mpr ⟨hFlag, rfl⟩, (usableField_eq_ok rfl).mpr ⟨hVariation, rfl⟩,
        (usableField_eq_ok rfl).mpr ⟨hContext, rfl⟩, (usableField_eq_ok rfl).mpr ⟨hDedupe, rfl⟩, ?_⟩
      exact usableVersion_eq_ok.mpr ⟨hField, n, hNumber⟩
    exact ⟨_, validateEvent_eq_row.mpr ⟨_, _, _, _, _, _, _, hFields, rfl, hInstant, rfl⟩⟩

section Recorded

variable {buffer : ExposureBuffer} {input : ExposureInput} {random : Number} {written : ℤ} {event : ExposureEvent}
  (hTimestamp : input.timestamp = none) (hDedupe : input.dedupeKey = none)
  (hFlag : Usable input.flagKey) (hVariation : Usable input.variationKey) (hContext : Usable input.contextKey)
  (hVersion : ∃ n : ℕ, input.rulesetVersion = .ofNat n)
  (hRecorded : (buffer.record input random (some (toISOString written))).event = some event)
  (hReads : parseDate (toISOString written) = some written)
  (hWindow : written - now ≤ MAX_CLOCK_SKEW_MILLIS ∧ now - written ≤ MAX_BACKDATE_MILLIS)

include hTimestamp hDedupe hFlag hVariation hContext hVersion hRecorded hReads hWindow

theorem exists_recorded_row_iff (scope : AuthenticatedKey) :
    (∃ row, validateEvent parseDate now scope event.toJson = .ok (.ok row)) ↔
      Usable (derivedKey input (buffer.sequence + 1)) := by
  obtain ⟨timestamp, hTime, rfl⟩ := eventOf_record hRecorded
  rw [hTimestamp, Option.none_or] at hTime
  obtain rfl := Option.some.inj hTime
  have hInstant : usableInstant now (parseDate (toISOString written)) = .ok written :=
    usableInstant_eq_ok.mpr ⟨hReads, hWindow⟩
  have hKey : (({ buffer with sequence := buffer.sequence + 1 } : ExposureBuffer).eventOf input
      (toISOString written)).dedupeKey = derivedKey input (buffer.sequence + 1) := by
    simp only [ExposureBuffer.eventOf, hDedupe, Option.getD_none]
    rfl
  rw [exists_row_iff_usable, hKey]
  · exact hFlag
  · exact hVariation
  · exact hContext
  · exact hVersion
  · exact ⟨written, hInstant⟩

theorem recorded_accepted_iff :
    (∀ scope (batch : List ExposureEvent) i, batch[i]? = some event →
      AcceptedAt parseDate now scope (batch.map ExposureEvent.toJson) i) ↔
      units input.contextKey + units input.flagKey + units input.rulesetVersion.toText +
        units (buffer.sequence + 1).repr + 3 ≤ 512 := by
  have hRow := exists_recorded_row_iff hTimestamp hDedupe hFlag hVariation hContext hVersion hRecorded hReads hWindow
  have hUsable : Usable (derivedKey input (buffer.sequence + 1)) ↔ units input.contextKey + units input.flagKey +
      units input.rulesetVersion.toText + units (buffer.sequence + 1).repr + 3 ≤ 512 := by
    rw [Usable, units_derivedKey, MAX_FIELD_LENGTH]
    omega
  rw [← hUsable]
  constructor
  · intro hAccepted
    have hAlone := hAccepted { tenantId := "", environmentKey := "" } [event] 0 rfl
    exact (hRow _).mp (row_of_acceptedAt hAlone)
  · intro hKey scope batch i hAt
    obtain ⟨row, hValid⟩ := (hRow scope).mpr hKey
    exact acceptedAt_of_row hAt hValid

end Recorded

/-! ## A first event -/

def firstOf (contextKey : String) : ExposureEvent where
  flagKey := "checkout"
  variationKey := "on"
  contextKey := contextKey
  rulesetVersion := .ofNat 3
  timestamp := toISOString 0
  dedupeKey := derivedKey (Fleet.page contextKey) 1

theorem record_firstOf (contextKey : String) :
    ((ExposureBuffer.new (Fleet.usual false)).record (Fleet.page contextKey) (.ofNat 0) (some (toISOString 0))).event =
      some (firstOf contextKey) := by
  have hRoom : ((ExposureBuffer.new (Fleet.usual false)).maxQueueSize.le (.ofNat 0)) = false := by decide +kernel
  have hRate : ((ExposureBuffer.new (Fleet.usual false)).samplingRate.lt (.ofNat 1)) = false := by decide +kernel
  have hEmpty : (ExposureBuffer.new (Fleet.usual false)).queue.length = 0 := rfl
  have hTime : (Fleet.page contextKey).timestamp.or (some (toISOString 0)) = some (toISOString 0) := rfl
  rw [ExposureBuffer.record, if_neg (by decide), hEmpty, hRoom, hRate]
  simp only [Bool.false_and, Bool.false_eq_true, if_false, hTime]
  split
  · rfl
  · rfl

/-- The runtime reads the text it has written. -/
def readsEpoch (text : String) : Option ℤ := if text = toISOString 0 then some 0 else none

theorem usable_pages : Usable "checkout" ∧ Usable "on" ∧ Usable "user-1" := by decide +kernel

theorem recorded_accepted_short : AcceptedAt readsEpoch 0 { tenantId := "acme", environmentKey := "production" }
    [(firstOf "user-1").toJson] 0 :=
  (recorded_accepted_iff rfl rfl usable_pages.1 usable_pages.2.1 usable_pages.2.2 ⟨3, rfl⟩ (record_firstOf "user-1")
    (if_pos rfl) (by decide)).mpr (by decide +kernel) _ [firstOf "user-1"] 0 rfl

theorem units_replicate (n : ℕ) : units (String.ofList (List.replicate n 'u')) = n := by
  have hUnit : (CodeUnits.ofChar 'u').length = 1 := by decide
  rw [units, CodeUnits.ofString, String.toList_ofList, List.length_flatMap, List.map_replicate, hUnit,
    List.sum_replicate_nat, Nat.mul_one]

def longKey : String := String.ofList (List.replicate 512 'u')

/-- A context key of the greatest length that ingest takes, in the first event of a fresh buffer. -/
theorem long_context_key_rejected : Usable longKey ∧
    ((ExposureBuffer.new (Fleet.usual false)).record (Fleet.page longKey) (.ofNat 0) (some (toISOString 0))).event =
      some (firstOf longKey) ∧
    ¬ ∀ scope (batch : List ExposureEvent) i, batch[i]? = some (firstOf longKey) →
      AcceptedAt readsEpoch 0 scope (batch.map ExposureEvent.toJson) i := by
  have hLong : units longKey = 512 := units_replicate 512
  have hUsable : Usable longKey := by
    rw [Usable, hLong, MAX_FIELD_LENGTH]
    omega
  refine ⟨hUsable, record_firstOf longKey, ?_⟩
  intro hAccepted
  obtain ⟨row, hRow⟩ := row_of_acceptedAt
    (hAccepted { tenantId := "acme", environmentKey := "production" } [firstOf longKey] 0 rfl)
  have hPage : Usable (Fleet.page longKey).contextKey := hUsable
  have hKey := (exists_recorded_row_iff rfl rfl usable_pages.1 usable_pages.2.1 hPage ⟨3, rfl⟩ (record_firstOf longKey)
    (if_pos rfl) (by decide) _).mp ⟨row, hRow⟩
  have hContext : (Fleet.page longKey).contextKey = longKey := rfl
  rw [Usable, units_derivedKey, hContext, hLong, MAX_FIELD_LENGTH] at hKey
  omega

end Flagship.EndToEnd
