import Flagship.ControlPlane.Ingest
import Flagship.Lib.Identity
import Flagship.Lib.Transition
import Flagship.Sdk.Exposure

/-! # Dedupe keys

Any number of buffers report into one environment, each with a counter of its own that starts
anew with its process. The key of an event is a text of what was exposed with the counter at its
end; the rows it is stored in are counted by that key.
-/

namespace Flagship.EndToEnd

open Lib Flagship.Sdk Flagship.ControlPlane

/-! ## The instances -/

/-- An event with the call of `record` it comes from and the value of the counter it was given. -/
structure Recorded where
  input : ExposureInput
  sequence : ℕ
  event : ExposureEvent

structure Instance where
  run : ExposureRun
  recorded : List Recorded

/-- A server process, or one run of a process that is restarted, for each index. -/
abbrev Fleet (ι : Type*) := ι → Instance

def recordedBy (run : ExposureRun) : ExposureRun.Action → List Recorded
  | .record input random clock =>
    let call := run.buffer.record input random clock
    call.event.toList.map fun event => { input, sequence := call.buffer.sequence, event }
  | _ => []

def Instance.effect (process : Instance) (a : ExposureRun.Action) : Instance where
  run := process.run.effect a
  recorded := process.recorded ++ recordedBy process.run a

namespace Fleet

variable {ι : Type*} [DecidableEq ι]

def new (options : ι → ExposureBufferOptions) : Fleet ι := fun i => { run := .new (options i), recorded := [] }

def machine : Machine (Fleet ι) (ι × ExposureRun.Action) where
  enabled fleet step := (fleet step.1).run.enabled step.2
  effect fleet step := Function.update fleet step.1 ((fleet step.1).effect step.2)

/-- No caller of `record` brings a dedupe key. -/
def derivesKeys (_ : Fleet ι) (step : ι × ExposureRun.Action) : Prop :=
  ∀ input random clock, step.2 = .record input random clock → input.dedupeKey = none

/-- An event of the fleet: the instance that recorded it, and its place there. -/
def recordedAt (fleet : Fleet ι) (id : ι × ℕ) : Option Recorded := (fleet id.1).recorded[id.2]?

end Fleet

/-! ## The stored rows -/

def sortingKey (row : ExposureRow) : String × String × String × String × String × String :=
  (row.tenantId, row.environmentKey, row.flagKey, row.variationKey, row.timestamp, row.dedupeKey)

/-- What a `ReplacingMergeTree` holds: each row was inserted, and a merge drops a row only for
another one of the same sorting key. -/
structure StoredFrom (inserted stored : List ExposureRow) : Prop where
  sound : ∀ row ∈ stored, row ∈ inserted
  kept : ∀ row ∈ inserted, ∃ other ∈ stored, sortingKey other = sortingKey row

def uniqExact (values : List String) : ℕ := values.dedup.length

def exposures (flagKey : String) (stored : List ExposureRow) : ℕ :=
  uniqExact ((stored.filter fun row => row.flagKey = flagKey).map ExposureRow.dedupeKey)

/-- One time an event arrived: at which time of the server, and the row it became. -/
structure Delivery (ι : Type*) where
  id : ι × ℕ
  now : ℤ
  row : ExposureRow

namespace Fleet

variable {ι : Type*} [DecidableEq ι] (parseDate : String → Option ℤ) (scope : AuthenticatedKey) (fleet : Fleet ι)

def Delivered (delivery : Delivery ι) : Prop :=
  ∃ recorded, fleet.recordedAt delivery.id = some recorded ∧
    validateEvent parseDate delivery.now scope recorded.event.toJson = .ok (.ok delivery.row)

def deliveredEvents (flagKey : String) (deliveries : List (Delivery ι)) : ℕ :=
  ((deliveries.filter fun delivery => delivery.row.flagKey = flagKey).map Delivery.id).dedup.length

def KeysIdentify : Prop :=
  ∀ id id' recorded recorded', fleet.recordedAt id = some recorded → fleet.recordedAt id' = some recorded' →
    recorded.event.dedupeKey = recorded'.event.dedupeKey → id = id'

def CountsEvents : Prop :=
  ∀ deliveries stored, (∀ delivery ∈ deliveries, fleet.Delivered parseDate scope delivery) →
    StoredFrom (deliveries.map Delivery.row) stored →
      ∀ flagKey, exposures flagKey stored = deliveredEvents flagKey deliveries

end Fleet

/-! ## The key of an event -/

/-- The part of the key before the counter. -/
def exposedText (input : ExposureInput) : String :=
  s!"{input.contextKey}:{input.flagKey}:{input.rulesetVersion.toText}"

def derivedKey (input : ExposureInput) (sequence : ℕ) : String := exposedText input ++ ":" ++ sequence.repr

theorem derivedKey_inj {input input' : ExposureInput} {m n : ℕ} (h : derivedKey input m = derivedKey input' n) :
    exposedText input = exposedText input' ∧ m = n := by
  have hChars := congrArg String.toList h
  simp only [derivedKey, String.toList_append] at hChars
  exact numbered_inj (rfl : Char.isDigit ':' = false) (by simpa using hChars)

/-! ## The counter of one instance -/

theorem flush_sequence (buffer : ExposureBuffer) : buffer.flush.1.sequence = buffer.sequence := by
  rw [ExposureBuffer.flush]
  split <;> rfl

/-- A call of `record` that queues an event counts up, and names the event by the new value. -/
theorem record_sequence (buffer : ExposureBuffer) (input : ExposureInput) (random : Number) (clock : Option String) :
    buffer.sequence ≤ (buffer.record input random clock).buffer.sequence ∧
    ∀ event, (buffer.record input random clock).event = some event →
      (buffer.record input random clock).buffer.sequence = buffer.sequence + 1 ∧
      (input.dedupeKey = none → event.dedupeKey = derivedKey input (buffer.sequence + 1)) := by
  rw [ExposureBuffer.record]
  split
  · exact ⟨le_rfl, fun event hEvent => nomatch hEvent⟩
  split
  · exact ⟨le_rfl, fun event hEvent => nomatch hEvent⟩
  split
  · exact ⟨le_rfl, fun event hEvent => nomatch hEvent⟩
  simp only
  split
  · exact ⟨Nat.le_succ _, fun event hEvent => nomatch hEvent⟩
  · rename_i timestamp _
    have hKey : input.dedupeKey = none →
        (({ buffer with sequence := buffer.sequence + 1 } : ExposureBuffer).eventOf input timestamp).dedupeKey =
          derivedKey input (buffer.sequence + 1) := by
      intro hNone
      simp only [ExposureBuffer.eventOf, hNone, Option.getD_none]
      rfl
    split
    · refine ⟨?_, fun event hEvent => ⟨flush_sequence _, ?_⟩⟩
      · rw [flush_sequence]
        exact Nat.le_succ _
      · obtain rfl := Option.some.inj hEvent
        exact hKey
    · refine ⟨Nat.le_succ _, fun event hEvent => ⟨rfl, ?_⟩⟩
      obtain rfl := Option.some.inj hEvent
      exact hKey

theorem effect_sequence (run : ExposureRun) (a : ExposureRun.Action) :
    run.buffer.sequence ≤ (run.effect a).buffer.sequence := by
  cases a with
  | start =>
    rw [ExposureRun.effect, ExposureBuffer.start]
    split <;> exact le_rfl
  | tick => exact (flush_sequence run.buffer).ge
  | flush => exact (flush_sequence run.buffer).ge
  | close => exact (flush_sequence run.buffer.close).ge
  | record input random clock => exact (record_sequence run.buffer input random clock).1
  | sendSucceeded i => exact le_rfl
  | sendFailed i => exact le_rfl
  | settle => exact le_rfl

structure Numbered (process : Instance) : Prop where
  history : process.run.history = process.recorded.map Recorded.event
  ascending : process.recorded.Pairwise fun earlier later => earlier.sequence < later.sequence
  counted : ∀ recorded ∈ process.recorded, recorded.sequence ≤ process.run.buffer.sequence
  named : ∀ recorded ∈ process.recorded, recorded.event.dedupeKey = derivedKey recorded.input recorded.sequence

theorem history_effect (run : ExposureRun) (a : ExposureRun.Action) :
    (run.effect a).history = run.history ++ (recordedBy run a).map Recorded.event := by
  cases a with
  | record input random clock =>
    rw [recordedBy, List.map_map]
    exact congrArg (run.history ++ ·) (List.map_id _).symm
  | start => exact (List.append_nil _).symm
  | tick => exact (List.append_nil _).symm
  | flush => exact (List.append_nil _).symm
  | close => exact (List.append_nil _).symm
  | sendSucceeded i => exact (List.append_nil _).symm
  | sendFailed i => exact (List.append_nil _).symm
  | settle => exact (List.append_nil _).symm

/-- A step records at most one event, under a number that no earlier event has. -/
theorem recordedBy_cases (run : ExposureRun) (a : ExposureRun.Action) :
    recordedBy run a = [] ∨
    ∃ recorded, recordedBy run a = [recorded] ∧
      run.buffer.sequence < recorded.sequence ∧ recorded.sequence = (run.effect a).buffer.sequence ∧
      ((∀ input random clock, a = .record input random clock → input.dedupeKey = none) →
        recorded.event.dedupeKey = derivedKey recorded.input recorded.sequence) := by
  cases a with
  | record input random clock =>
    cases hEvent : (run.buffer.record input random clock).event with
    | none =>
      refine Or.inl ?_
      rw [recordedBy, hEvent]
      rfl
    | some event =>
      obtain ⟨hNext, hNamed⟩ := (record_sequence run.buffer input random clock).2 event hEvent
      refine Or.inr ⟨{ input, sequence := (run.buffer.record input random clock).buffer.sequence, event },
        ?_, ?_, rfl, ?_⟩
      · rw [recordedBy, hEvent]
        rfl
      · exact hNext ▸ Nat.lt_succ_self _
      · intro hDerives
        rw [hNext]
        exact hNamed (hDerives input random clock rfl)
  | start => exact Or.inl rfl
  | tick => exact Or.inl rfl
  | flush => exact Or.inl rfl
  | close => exact Or.inl rfl
  | sendSucceeded i => exact Or.inl rfl
  | sendFailed i => exact Or.inl rfl
  | settle => exact Or.inl rfl

theorem Numbered.step {process : Instance} (h : Numbered process) {a : ExposureRun.Action}
    (hDerives : ∀ input random clock, a = .record input random clock → input.dedupeKey = none) :
    Numbered (process.effect a) := by
  have hSequence := effect_sequence process.run a
  have hHistory : (process.effect a).run.history = (process.effect a).recorded.map Recorded.event := by
    rw [Instance.effect, history_effect, h.history, List.map_append]
  rcases recordedBy_cases process.run a with hNone | ⟨recorded, hOne, hNew, hLast, hNamed⟩
  · have hRecorded : (process.effect a).recorded = process.recorded := by
      rw [Instance.effect, hNone, List.append_nil]
    constructor
    case history => exact hHistory
    case ascending => exact hRecorded ▸ h.ascending
    case counted =>
      rw [hRecorded]
      exact fun earlier hEarlier => (h.counted earlier hEarlier).trans hSequence
    case named => exact hRecorded ▸ h.named
  · have hRecorded : (process.effect a).recorded = process.recorded ++ [recorded] := by
      rw [Instance.effect, hOne]
    constructor
    case history => exact hHistory
    case ascending =>
      rw [hRecorded, List.pairwise_append]
      refine ⟨h.ascending, List.pairwise_singleton _ _, ?_⟩
      intro earlier hEarlier later hLater
      rw [List.mem_singleton.mp hLater]
      exact (h.counted earlier hEarlier).trans_lt hNew
    case counted =>
      rw [hRecorded]
      intro earlier hEarlier
      rcases List.mem_append.mp hEarlier with hBefore | hHere
      · exact (h.counted earlier hBefore).trans hSequence
      · rw [List.mem_singleton.mp hHere]
        exact hLast.le
    case named =>
      rw [hRecorded]
      intro earlier hEarlier
      rcases List.mem_append.mp hEarlier with hBefore | hHere
      · exact h.named earlier hBefore
      · rw [List.mem_singleton.mp hHere]
        exact hNamed hDerives

namespace Fleet

variable {ι : Type*} [DecidableEq ι] {options : ι → ExposureBufferOptions} {fleet : Fleet ι}

theorem numbered_of_reachable (h : machine.Reachable derivesKeys (new options) fleet) (i : ι) :
    Numbered (fleet i) := by
  refine h.invariant (fun fleet => ∀ i, Numbered (fleet i)) ?_ ?_ i
  · intro i
    exact ⟨rfl, List.Pairwise.nil, (fun _ hMem => nomatch hMem), (fun _ hMem => nomatch hMem)⟩
  · intro fleet step _ hFleet _ hDerives i
    exact update_cases (fun _ => (hFleet step.1).step hDerives) fun _ => hFleet i

/-! ## What the keys identify -/

/-- No two instances count the same text of context, flag and ruleset version under one number. -/
def NoClash (fleet : Fleet ι) : Prop :=
  ∀ i j, i ≠ j → ∀ recorded ∈ (fleet i).recorded, ∀ recorded' ∈ (fleet j).recorded,
    recorded.sequence = recorded'.sequence → exposedText recorded.input ≠ exposedText recorded'.input

theorem eq_of_sequence {process : Instance} (h : Numbered process) {k l : ℕ} {recorded recorded' : Recorded}
    (hAt : process.recorded[k]? = some recorded) (hAt' : process.recorded[l]? = some recorded')
    (hSame : recorded.sequence = recorded'.sequence) : k = l := by
  obtain ⟨hk, rfl⟩ := List.getElem?_eq_some_iff.mp hAt
  obtain ⟨hl, rfl⟩ := List.getElem?_eq_some_iff.mp hAt'
  have hAscending := List.pairwise_iff_getElem.mp h.ascending
  rcases lt_trichotomy k l with hLt | hEq | hGt
  · exact absurd hSame (hAscending k l hk hl hLt).ne
  · exact hEq
  · exact absurd hSame (hAscending l k hl hk hGt).ne'

theorem keysIdentify_iff (h : machine.Reachable derivesKeys (new options) fleet) :
    fleet.KeysIdentify ↔ fleet.NoClash := by
  have hNumbered := numbered_of_reachable h
  constructor
  · intro hIdentify i j hDistinct recorded hMem recorded' hMem' hSequence hPrefix
    obtain ⟨k, hAt⟩ := List.mem_iff_getElem?.mp hMem
    obtain ⟨l, hAt'⟩ := List.mem_iff_getElem?.mp hMem'
    have hKeys : recorded.event.dedupeKey = recorded'.event.dedupeKey := by
      rw [(hNumbered i).named recorded hMem, (hNumbered j).named recorded' hMem', derivedKey, hPrefix, hSequence]
      rfl
    exact hDistinct (congrArg Prod.fst (hIdentify (i, k) (j, l) recorded recorded' hAt hAt' hKeys))
  · rintro hNoClash ⟨i, k⟩ ⟨j, l⟩ recorded recorded' hAt hAt' hKeys
    have hMem := List.mem_of_getElem? hAt
    have hMem' := List.mem_of_getElem? hAt'
    rw [(hNumbered i).named recorded hMem, (hNumbered j).named recorded' hMem'] at hKeys
    obtain ⟨hPrefix, hSequence⟩ := derivedKey_inj hKeys
    by_cases hInstance : i = j
    · subst hInstance
      exact Prod.ext rfl (eq_of_sequence (hNumbered i) hAt hAt' hSequence)
    · exact absurd hPrefix (hNoClash i j hInstance recorded hMem recorded' hMem' hSequence)

/-! ## What the rows count -/

theorem usableString_str {text value : String} (h : usableString? (some (.str text)) = some value) : value = text := by
  rw [usableString?] at h
  split at h
  · exact (Option.some.inj h).symm
  · cases h

theorem usableField_str {event : Json} {field value text : String} (hField : event.field? field = some (.str text))
    (h : usableField event field = .ok value) : value = text := by
  rw [usableField, hField] at h
  split at h
  · rename_i hUsable
    rw [← Except.ok.inj h, usableString_str hUsable]
  · cases h

/-- A row keeps the flag and the key of the event it is made from. -/
theorem row_of_event {parseDate : String → Option ℤ} {now : ℤ} {scope : AuthenticatedKey} {event : ExposureEvent}
    {row : ExposureRow} (h : validateEvent parseDate now scope event.toJson = .ok (.ok row)) :
    row.flagKey = event.flagKey ∧ row.dedupeKey = event.dedupeKey := by
  obtain ⟨flagKey, variationKey, contextKey, dedupeKey, version, _, _, hFields, _, _, rfl⟩ := validateEvent_eq_row.mp h
  obtain ⟨hFlag, _, _, hDedupe, _⟩ := usableFields_eq_ok.mp hFields
  exact ⟨usableField_str rfl hFlag, usableField_str rfl hDedupe⟩

theorem countsEvents_of_keysIdentify (parseDate : String → Option ℤ) (scope : AuthenticatedKey)
    (h : fleet.KeysIdentify) : fleet.CountsEvents parseDate scope := by
  intro deliveries stored hDelivered hStored flagKey
  let key : ι × ℕ → String := fun id => ((fleet.recordedAt id).map fun recorded => recorded.event.dedupeKey).getD ""
  have hKey : ∀ delivery ∈ deliveries, key delivery.id = delivery.row.dedupeKey := by
    intro delivery hDelivery
    obtain ⟨recorded, hAt, hRow⟩ := hDelivered delivery hDelivery
    rw [(row_of_event hRow).2]
    simp only [key, hAt, Option.map_some, Option.getD_some]
  have hMem : ∀ id, id ∈ (deliveries.filter fun delivery => delivery.row.flagKey = flagKey).map Delivery.id ↔
      ∃ delivery ∈ deliveries, delivery.row.flagKey = flagKey ∧ delivery.id = id := by
    intro id
    simp only [List.mem_map, List.mem_filter, decide_eq_true_eq, and_assoc]
  refine length_dedup_eq key ?_ ?_
  · intro k
    simp only [List.mem_map, List.mem_filter, decide_eq_true_eq]
    constructor
    · rintro ⟨row, ⟨hRow, hFlag⟩, rfl⟩
      obtain ⟨delivery, hDelivery, rfl⟩ := List.mem_map.mp (hStored.sound row hRow)
      exact ⟨delivery.id, ⟨delivery, ⟨hDelivery, hFlag⟩, rfl⟩, hKey delivery hDelivery⟩
    · rintro ⟨_, ⟨delivery, ⟨hDelivery, hFlag⟩, rfl⟩, rfl⟩
      obtain ⟨row, hRow, hSorting⟩ := hStored.kept delivery.row (List.mem_map_of_mem hDelivery)
      simp only [sortingKey, Prod.mk.injEq] at hSorting
      obtain ⟨-, -, hFlagKey, -, -, hDedupeKey⟩ := hSorting
      exact ⟨row, ⟨hRow, hFlagKey.trans hFlag⟩, hDedupeKey.trans (hKey delivery hDelivery).symm⟩
  · intro id hId id' hId' hSame
    obtain ⟨delivery, hDelivery, _, rfl⟩ := (hMem id).mp hId
    obtain ⟨delivery', hDelivery', _, rfl⟩ := (hMem id').mp hId'
    obtain ⟨recorded, hAt, hRow⟩ := hDelivered delivery hDelivery
    obtain ⟨recorded', hAt', hRow'⟩ := hDelivered delivery' hDelivery'
    refine h delivery.id delivery'.id recorded recorded' hAt hAt' ?_
    rw [← (row_of_event hRow).2, ← (row_of_event hRow').2, ← hKey delivery hDelivery, ← hKey delivery' hDelivery']
    exact hSame

/-- In every run of any number of instances, the keys tell the events apart, and the rows count
them, exactly when no two instances clash. -/
theorem dedupeKeys_identify_iff (h : machine.Reachable derivesKeys (new options) fleet) :
    (fleet.KeysIdentify ∧ ∀ parseDate scope, fleet.CountsEvents parseDate scope) ↔ fleet.NoClash := by
  constructor
  · rintro ⟨hIdentify, _⟩
    exact (keysIdentify_iff h).mp hIdentify
  · intro hNoClash
    have hIdentify := (keysIdentify_iff h).mpr hNoClash
    exact ⟨hIdentify, fun parseDate scope => countsEvents_of_keysIdentify parseDate scope hIdentify⟩

/-! ## Two processes -/

def usual : Bool → ExposureBufferOptions := fun _ =>
  { batchSize := none, maxQueueSize := none, samplingThreshold := none }

def page (contextKey : String) : ExposureInput where
  flagKey := "checkout"
  variationKey := "on"
  contextKey := contextKey
  rulesetVersion := .ofNat 3
  timestamp := none
  dedupeKey := none

def pageView (contextKey : String) : ExposureRun.Action :=
  .record (page contextKey) (.ofNat 0) (some "1970-01-01T00:00:00.000Z")

/-- Two processes, or one before and after a restart, each record their first event. -/
def firstEvents (contextKey contextKey' : String) : Fleet Bool :=
  machine.effect (machine.effect (new usual) (false, pageView contextKey)) (true, pageView contextKey')

theorem firstEvents_reachable (contextKey contextKey' : String) :
    machine.Reachable derivesKeys (new usual) (firstEvents contextKey contextKey') := by
  have hEnabled : ((Number.ofNat 0).le (.ofNat 0) && (Number.ofNat 0).lt (.ofNat 1)) = true := by decide +kernel
  have hDerives : ∀ (fleet : Fleet Bool) i key, derivesKeys fleet (i, pageView key) := by
    intro fleet i key input random clock hRecord
    cases hRecord
    rfl
  exact .step _ _ (.step _ _ .start hEnabled (hDerives _ _ _)) hEnabled (hDerives _ _ _)

def first (contextKey : String) : Recorded where
  input := page contextKey
  sequence := 1
  event := {
    flagKey := "checkout"
    variationKey := "on"
    contextKey := contextKey
    rulesetVersion := .ofNat 3
    timestamp := "1970-01-01T00:00:00.000Z"
    dedupeKey := derivedKey (page contextKey) 1 }

theorem recordedBy_of_room {run : ExposureRun} {input : ExposureInput} {random : Number} {clock : Option String}
    {timestamp : String} (hOpen : run.buffer.closed = false)
    (hRoom : run.buffer.maxQueueSize.le (.ofNat run.buffer.queue.length) = false)
    (hRate : run.buffer.samplingRate.lt (.ofNat 1) = false) (hTime : input.timestamp.or clock = some timestamp) :
    recordedBy run (.record input random clock) = [{
      input
      sequence := run.buffer.sequence + 1
      event :=
        ({ run.buffer with sequence := run.buffer.sequence + 1 } : ExposureBuffer).eventOf input timestamp }] := by
  simp only [recordedBy, ExposureBuffer.record, hOpen, hRoom, hRate, hTime, Bool.false_and, Bool.false_eq_true,
    if_false]
  split
  · simp only [flush_sequence]
    rfl
  · rfl

theorem recordedBy_first (i : Bool) (contextKey : String) :
    recordedBy (.new (usual i)) (pageView contextKey) = [first contextKey] := by
  have hRoom : ((ExposureBuffer.new (usual i)).maxQueueSize.le (.ofNat 0)) = false := by decide +kernel +revert
  have hRate : ((ExposureBuffer.new (usual i)).samplingRate.lt (.ofNat 1)) = false := by decide +kernel +revert
  exact recordedBy_of_room rfl hRoom hRate rfl

theorem recorded_firstEvents (contextKey contextKey' : String) (i : Bool) :
    (firstEvents contextKey contextKey' i).recorded = [first (if i then contextKey' else contextKey)] := by
  cases i with
  | false => exact recordedBy_first false contextKey
  | true => exact recordedBy_first true contextKey'

theorem dedupeKeys_identify_two_users :
    (firstEvents "user-1" "user-2").KeysIdentify ∧
      ∀ parseDate scope, (firstEvents "user-1" "user-2").CountsEvents parseDate scope := by
  refine (dedupeKeys_identify_iff (firstEvents_reachable "user-1" "user-2")).mpr ?_
  have hTexts : ∀ i j : Bool, i ≠ j → exposedText (first (if i then "user-2" else "user-1")).input ≠
      exposedText (first (if j then "user-2" else "user-1")).input := by decide +kernel
  intro i j hDistinct recorded hMem recorded' hMem' _
  rw [recorded_firstEvents, List.mem_singleton] at hMem hMem'
  rw [hMem, hMem']
  exact hTexts i j hDistinct

/-- The first event that one user's page view gives in each of two processes: one key, and one
event in the counts where two were delivered. -/
theorem first_events_share_key :
    ∃ fleet : Fleet Bool, machine.Reachable derivesKeys (new usual) fleet ∧ ¬ fleet.KeysIdentify ∧
      ¬ fleet.CountsEvents (fun _ => some 0) { tenantId := "acme", environmentKey := "production" } := by
  have hAt : ∀ i, (firstEvents "user-1" "user-1").recordedAt (i, 0) = some (first "user-1") := by
    intro i
    rw [recordedAt, recorded_firstEvents, ite_self]
    rfl
  refine ⟨firstEvents "user-1" "user-1", firstEvents_reachable "user-1" "user-1", ?_, ?_⟩
  · intro hIdentify
    exact absurd (hIdentify (false, 0) (true, 0) _ _ (hAt false) (hAt true) rfl) (by decide)
  · intro hCounts
    let row : ExposureRow := {
      tenantId := "acme"
      environmentKey := "production"
      flagKey := "checkout"
      variationKey := "on"
      contextKey := "user-1"
      rulesetVersion := .ofNat 3
      timestamp := "1970-01-01 00:00:00.000"
      dedupeKey := derivedKey (page "user-1") 1 }
    have hRow : validateEvent (fun _ => some 0) 0 { tenantId := "acme", environmentKey := "production" }
        (first "user-1").event.toJson = .ok (.ok row) := by decide +kernel
    let deliveries : List (Delivery Bool) := [{ id := (false, 0), now := 0, row }, { id := (true, 0), now := 0, row }]
    have hDelivered : ∀ delivery ∈ deliveries, (firstEvents "user-1" "user-1").Delivered (fun _ => some 0)
        { tenantId := "acme", environmentKey := "production" } delivery := by
      intro delivery hMem
      simp only [deliveries, List.mem_cons, List.not_mem_nil, or_false] at hMem
      rcases hMem with rfl | rfl
      · exact ⟨first "user-1", hAt false, hRow⟩
      · exact ⟨first "user-1", hAt true, hRow⟩
    have hCount := hCounts deliveries [row, row] hDelivered ⟨fun _ h => h, fun row h => ⟨row, h, rfl⟩⟩ "checkout"
    exact absurd hCount (by decide +kernel)

end Fleet

end Flagship.EndToEnd
