import Flagship.ControlPlane.Ingest
import Flagship.Lib.Placed
import Flagship.Lib.Readable

/-! # What a batch comes to

Every event of a batch has a verdict of its own, whatever the others are, and the verdict has
the tenant and the environment of the key and nothing else of it. The one thing that reaches
past its event is a timestamp that cannot be printed: `String` throws, and the batch with it.
-/

namespace Flagship.ControlPlane

open Lib

def ExposureRow.restamped (scope : AuthenticatedKey) (row : ExposureRow) : ExposureRow :=
  { row with tenantId := scope.tenantId, environmentKey := scope.environmentKey }

/-! ## Verdicts -/

def reason? : Except String ExposureRow → Option String
  | .ok _ => none
  | .error reason => some reason

def rejectionsFrom (index : ℕ) (verdicts : List (Except String ExposureRow)) : List Rejection :=
  (placed reason? index verdicts).map fun entry => { index := entry.1, reason := entry.2 }

variable {parseDate : String → Option ℤ} {now : ℤ} {scope : AuthenticatedKey} {events : List Json}

theorem validateFrom_eq_ok {index : ℕ} {outcome outcome' : ValidationOutcome} :
    validateFrom parseDate now scope index outcome events = .ok outcome' ↔
      ∃ verdicts, events.mapM (validateEvent parseDate now scope) = .ok verdicts ∧ outcome' = {
        rows := outcome.rows ++ (placed Except.toOption index verdicts).map Prod.snd
        rejected := outcome.rejected ++ rejectionsFrom index verdicts } := by
  simp only [mapM_eq_ok]
  induction events generalizing index outcome with
  | nil => simp [validateFrom, placed, rejectionsFrom, eq_comm]
  | cons event rest ih =>
    simp only [validateFrom, bind_eq_ok, ih, List.forall₂_cons_left_iff]
    constructor
    · rintro ⟨verdict, hVerdict, verdicts, hRest, rfl⟩
      refine ⟨verdict :: verdicts, ⟨verdict, verdicts, hVerdict, hRest, rfl⟩, ?_⟩
      cases verdict with
      | ok row => simp [ValidationOutcome.add, rejectionsFrom, placed, reason?, Except.toOption]
      | error reason => simp [ValidationOutcome.add, rejectionsFrom, placed, reason?, Except.toOption]
    · rintro ⟨_, ⟨verdict, verdicts, hVerdict, hRest, rfl⟩, rfl⟩
      refine ⟨verdict, hVerdict, verdicts, hRest, ?_⟩
      cases verdict with
      | ok row => simp [ValidationOutcome.add, rejectionsFrom, placed, reason?, Except.toOption]
      | error reason => simp [ValidationOutcome.add, rejectionsFrom, placed, reason?, Except.toOption]

def outcomeOf (verdicts : List (Except String ExposureRow)) : ValidationOutcome where
  rows := (placed Except.toOption 0 verdicts).map Prod.snd
  rejected := rejectionsFrom 0 verdicts

theorem validateBatch_eq_ok {outcome : ValidationOutcome} :
    validateBatch parseDate now scope events = .ok outcome ↔
      ∃ verdicts, events.mapM (validateEvent parseDate now scope) = .ok verdicts ∧ outcome = outcomeOf verdicts := by
  rw [validateBatch, validateFrom_eq_ok]
  rfl

theorem validateBatch_singleton {event : Json} {verdict : Except String ExposureRow}
    (h : validateEvent parseDate now scope event = .ok verdict) :
    validateBatch parseDate now scope [event] = .ok (outcomeOf [verdict]) := by
  rw [validateBatch_eq_ok]
  refine ⟨[verdict], ?_, rfl⟩
  rw [mapM_eq_ok]
  exact List.Forall₂.cons h List.Forall₂.nil

/-! ## Which events can be judged -/

/-- An event whose fields up to the timestamp pass has a timestamp that `String` can print. -/
def Judged (event : Json) : Prop :=
  (∃ fields, usableFields event = .ok fields) → JsValue.Printable (event.field? "timestamp")

theorem exists_validateEvent_iff (parseDate : String → Option ℤ) (now : ℤ) (scope : AuthenticatedKey) (event : Json) :
    (∃ verdict, validateEvent parseDate now scope event = .ok verdict) ↔ Judged event := by
  rw [validateEvent, Judged]
  cases hObject : JsValue.object? (some event) with
  | none =>
    have hNoFields : ¬ ∃ fields, usableFields event = .ok fields := by
      rintro ⟨fields, hFields⟩
      cases event with
      | arr items => cases hObject
      | obj properties => cases hObject
      | _ => cases hFields
    exact ⟨fun _ hFields => absurd hFields hNoFields, fun _ => ⟨_, rfl⟩⟩
  | some candidate =>
    obtain rfl := Option.some.inj (JsValue.eq_of_object? hObject)
    simp only
    cases usableFields event with
    | error reason =>
      constructor
      · rintro _ ⟨_, hFields⟩
        cases hFields
      · exact fun _ => ⟨_, rfl⟩
    | ok fields =>
      rw [exists_ok_bind, ← JsValue.toText_ok_iff]
      constructor
      · rintro ⟨text, hText, _⟩ _
        exact ⟨text, hText⟩
      · intro h
        obtain ⟨text, hText⟩ := h ⟨fields, rfl⟩
        refine ⟨text, hText, ?_⟩
        cases usableInstant now (parseDate text) with
        | error reason => exact ⟨_, rfl⟩
        | ok instant => exact ⟨_, rfl⟩

/-- A key stamps the row and has no other part in the verdict. -/
theorem validateEvent_restamped (scope other : AuthenticatedKey) (event : Json) :
    validateEvent parseDate now other event =
      (validateEvent parseDate now scope event).map (Except.map (ExposureRow.restamped other)) := by
  rw [validateEvent, validateEvent]
  cases JsValue.object? (some event) with
  | none => rfl
  | some candidate =>
    simp only
    cases usableFields candidate with
    | error reason => rfl
    | ok fields =>
      cases JsValue.toText (candidate.field? "timestamp") with
      | error error => rfl
      | ok text =>
        simp only [bind, Except.bind]
        cases usableInstant now (parseDate text) with
        | error reason => rfl
        | ok instant => rfl

theorem stamped_of_validateEvent {event : Json} {row : ExposureRow}
    (h : validateEvent parseDate now scope event = .ok (.ok row)) :
    row.tenantId = scope.tenantId ∧ row.environmentKey = scope.environmentKey := by
  obtain ⟨_, _, _, _, _, _, _, _, _, _, rfl⟩ := validateEvent_eq_row.mp h
  exact ⟨rfl, rfl⟩

/-! ## Batches -/

/-- The outcome of a batch, with the place of its event beside each row. -/
structure Partitioned (parseDate : String → Option ℤ) (now : ℤ) (scope : AuthenticatedKey) (events : List Json)
    (outcome : ValidationOutcome) (accepted : List (ℕ × ExposureRow)) : Prop where
  rows : outcome.rows = accepted.map Prod.snd
  acceptedAscend : accepted.Pairwise fun first second => first.1 < second.1
  rejectedAscend : outcome.rejected.Pairwise fun first second => first.index < second.index
  covered : ∀ i, i < events.length ↔
    (∃ row, (i, row) ∈ accepted) ∨ ∃ reason, { index := i, reason } ∈ outcome.rejected
  disjoint : ∀ i row reason, (i, row) ∈ accepted → { index := i, reason } ∉ outcome.rejected
  acceptedAlone : ∀ i row, (i, row) ∈ accepted → ∃ event, events[i]? = some event ∧
    validateBatch parseDate now scope [event] = .ok { rows := [row], rejected := [] }
  rejectedAlone : ∀ i reason, { index := i, reason } ∈ outcome.rejected → ∃ event, events[i]? = some event ∧
    validateBatch parseDate now scope [event] = .ok { rows := [], rejected := [{ index := 0, reason }] }
  stamped : ∀ row ∈ outcome.rows, row.tenantId = scope.tenantId ∧ row.environmentKey = scope.environmentKey

/-- The batch is partitioned and stamped, and under another key only the stamps are others. -/
def Settled (parseDate : String → Option ℤ) (now : ℤ) (scope : AuthenticatedKey) (events : List Json) : Prop :=
  ∃ outcome accepted, validateBatch parseDate now scope events = .ok outcome ∧
    Partitioned parseDate now scope events outcome accepted ∧
    ∀ other, validateBatch parseDate now other events =
      .ok { rows := outcome.rows.map (ExposureRow.restamped other), rejected := outcome.rejected }

variable {verdicts : List (Except String ExposureRow)}

theorem mem_accepted {i : ℕ} {row : ExposureRow} :
    (i, row) ∈ placed Except.toOption 0 verdicts ↔ verdicts[i]? = some (.ok row) := by
  rw [mem_placed]
  constructor
  · rintro ⟨verdict, hAt, hRow⟩
    cases verdict with
    | error reason => cases hRow
    | ok found =>
      obtain rfl := Option.some.inj hRow
      exact hAt
  · exact fun hAt => ⟨_, hAt, rfl⟩

theorem mem_rejectionsFrom {i : ℕ} {reason : String} :
    { index := i, reason } ∈ rejectionsFrom 0 verdicts ↔ verdicts[i]? = some (.error reason) := by
  have hPlaced : { index := i, reason } ∈ rejectionsFrom 0 verdicts ↔ (i, reason) ∈ placed reason? 0 verdicts := by
    simp [rejectionsFrom]
  rw [hPlaced, mem_placed]
  constructor
  · rintro ⟨verdict, hAt, hReason⟩
    cases verdict with
    | ok row => cases hReason
    | error found =>
      obtain rfl := Option.some.inj hReason
      exact hAt
  · exact fun hAt => ⟨_, hAt, rfl⟩

theorem partitioned_of_verdicts (h : events.mapM (validateEvent parseDate now scope) = .ok verdicts) :
    Partitioned parseDate now scope events (outcomeOf verdicts) (placed Except.toOption 0 verdicts) where
  rows := rfl
  acceptedAscend := pairwise_placed _ 0 verdicts
  rejectedAscend := List.pairwise_map.mpr (pairwise_placed reason? 0 verdicts)
  covered := by
    intro i
    simp only [outcomeOf, mem_accepted, mem_rejectionsFrom]
    rw [← length_of_mapM h]
    constructor
    · intro hBelow
      have hAt := List.getElem?_eq_getElem hBelow
      cases hVerdict : verdicts[i] with
      | ok row => exact Or.inl ⟨row, hVerdict ▸ hAt⟩
      | error reason => exact Or.inr ⟨reason, hVerdict ▸ hAt⟩
    · rintro (⟨row, hAt⟩ | ⟨reason, hAt⟩)
      · exact (List.getElem?_eq_some_iff.mp hAt).1
      · exact (List.getElem?_eq_some_iff.mp hAt).1
  disjoint := by
    intro i row reason hAccepted hRejected
    have hSame := (mem_accepted.mp hAccepted).symm.trans (mem_rejectionsFrom.mp hRejected)
    cases hSame
  acceptedAlone := by
    intro i row hAccepted
    obtain ⟨event, hAt, hVerdict⟩ := getElem?_of_mapM h (mem_accepted.mp hAccepted)
    exact ⟨event, hAt, validateBatch_singleton hVerdict⟩
  rejectedAlone := by
    intro i reason hRejected
    obtain ⟨event, hAt, hVerdict⟩ := getElem?_of_mapM h (mem_rejectionsFrom.mp hRejected)
    exact ⟨event, hAt, validateBatch_singleton hVerdict⟩
  stamped := by
    intro row hRow
    obtain ⟨⟨i, _⟩, hAccepted, rfl⟩ := List.mem_map.mp hRow
    obtain ⟨event, _, hVerdict⟩ := getElem?_of_mapM h (mem_accepted.mp hAccepted)
    exact stamped_of_validateEvent hVerdict

theorem outcomeOf_restamped (other : AuthenticatedKey) (verdicts : List (Except String ExposureRow)) :
    outcomeOf (verdicts.map (Except.map (ExposureRow.restamped other))) = {
      rows := (outcomeOf verdicts).rows.map (ExposureRow.restamped other)
      rejected := (outcomeOf verdicts).rejected } := by
  have hAccepted : ∀ verdict : Except String ExposureRow, (verdict.map (ExposureRow.restamped other)).toOption =
      verdict.toOption.map (ExposureRow.restamped other) := by
    intro verdict
    cases verdict <;> rfl
  have hReason : ∀ verdict : Except String ExposureRow, reason? (verdict.map (ExposureRow.restamped other)) =
      (reason? verdict).map id := by
    intro verdict
    cases verdict <;> rfl
  rw [outcomeOf, outcomeOf, rejectionsFrom, rejectionsFrom, placed_map hAccepted, placed_map hReason]
  simp

theorem validateBatch_restamped {outcome : ValidationOutcome}
    (h : validateBatch parseDate now scope events = .ok outcome) (other : AuthenticatedKey) :
    validateBatch parseDate now other events =
      .ok { rows := outcome.rows.map (ExposureRow.restamped other), rejected := outcome.rejected } := by
  obtain ⟨verdicts, hVerdicts, rfl⟩ := validateBatch_eq_ok.mp h
  rw [validateBatch_eq_ok]
  refine ⟨verdicts.map (Except.map (ExposureRow.restamped other)), ?_, (outcomeOf_restamped other verdicts).symm⟩
  rw [mapM_eq_ok] at hVerdicts ⊢
  rw [List.forall₂_map_right_iff]
  apply hVerdicts.imp
  intro event verdict hVerdict
  rw [validateEvent_restamped scope, hVerdict]
  rfl

/-- The rows come from the events of the batch and from nothing else. -/
theorem mem_rows_iff {outcome : ValidationOutcome} (h : validateBatch parseDate now scope events = .ok outcome)
    {row : ExposureRow} :
    row ∈ outcome.rows ↔ ∃ event ∈ events, validateEvent parseDate now scope event = .ok (.ok row) := by
  constructor
  · intro hRow
    obtain hNone | hEvent := mem_of_validateFrom h hRow
    · exact absurd hNone List.not_mem_nil
    · exact hEvent
  · rintro ⟨event, hMem, hVerdict⟩
    obtain ⟨verdicts, hVerdicts, rfl⟩ := validateBatch_eq_ok.mp h
    obtain ⟨verdict, hSucceeded, hSame⟩ := exists_of_mem_forall₂ (mapM_eq_ok.mp hVerdicts).flip event hMem
    rw [hVerdict] at hSame
    obtain rfl := Except.ok.inj hSame
    obtain ⟨i, hAt⟩ := List.mem_iff_getElem?.mp hSucceeded
    exact List.mem_map.mpr ⟨(i, row), mem_accepted.mpr hAt, rfl⟩

theorem exists_validateBatch_iff (parseDate : String → Option ℤ) (now : ℤ) (scope : AuthenticatedKey)
    (events : List Json) :
    (∃ outcome, validateBatch parseDate now scope events = .ok outcome) ↔ ∀ event ∈ events, Judged event := by
  simp only [← exists_validateEvent_iff parseDate now scope]
  rw [← exists_mapM_eq_ok_iff]
  constructor
  · rintro ⟨outcome, hOutcome⟩
    obtain ⟨verdicts, hVerdicts, _⟩ := validateBatch_eq_ok.mp hOutcome
    exact ⟨verdicts, hVerdicts⟩
  · rintro ⟨verdicts, hVerdicts⟩
    exact ⟨outcomeOf verdicts, validateBatch_eq_ok.mpr ⟨verdicts, hVerdicts, rfl⟩⟩

theorem exists_partitioned {outcome : ValidationOutcome}
    (h : validateBatch parseDate now scope events = .ok outcome) :
    ∃ accepted, Partitioned parseDate now scope events outcome accepted := by
  obtain ⟨verdicts, hVerdicts, rfl⟩ := validateBatch_eq_ok.mp h
  exact ⟨_, partitioned_of_verdicts hVerdicts⟩

/-- A timestamp is printed whatever its depth: the stack of the engine is taken as deep enough. -/
theorem settled_iff (parseDate : String → Option ℤ) (now : ℤ) (scope : AuthenticatedKey) (events : List Json) :
    Settled parseDate now scope events ↔ ∀ event ∈ events,
      (∃ fields, usableFields event = .ok fields) → JsValue.Printable (event.field? "timestamp") := by
  change _ ↔ ∀ event ∈ events, Judged event
  rw [← exists_validateBatch_iff parseDate now scope events]
  constructor
  · rintro ⟨outcome, _, hOutcome, _⟩
    exact ⟨outcome, hOutcome⟩
  · rintro ⟨outcome, hOutcome⟩
    obtain ⟨accepted, hPartitioned⟩ := exists_partitioned hOutcome
    exact ⟨outcome, accepted, hOutcome, hPartitioned, validateBatch_restamped hOutcome⟩

/-! ## One timestamp that fails a batch -/

def pageViewAt (version : ℕ) (timestamp : Json) : Json :=
  .obj [("flagKey", .str "checkout"), ("variationKey", .str "on"), ("contextKey", .str "user-1"),
    ("rulesetVersion", .num (.ofNat version)), ("timestamp", timestamp), ("dedupeKey", .str "k-1")]

/-- An object whose `toString` is a number cannot be printed, and the event beside it is lost. -/
theorem unprintable_timestamp_fails_batch :
    ¬ Settled (fun _ => some 0) 0 { tenantId := "acme", environmentKey := "production" }
      [pageViewAt 3 (.str "1970-01-01T00:00:00.000Z"), pageViewAt 3 (.obj [("toString", .num (.ofNat 1))])] := by
  rintro ⟨outcome, _, hOutcome, _⟩
  have hThrows : validateBatch (fun _ => some 0) 0 { tenantId := "acme", environmentKey := "production" }
      [pageViewAt 3 (.str "1970-01-01T00:00:00.000Z"), pageViewAt 3 (.obj [("toString", .num (.ofNat 1))])] =
      .error .toPrimitive := by rfl
  rw [hThrows] at hOutcome
  cases hOutcome

end Flagship.ControlPlane
