import Flagship.ControlPlane.Ingest
import Flagship.Sdk.ExposureAccounts

/-! # The batch limit between the SDK and ingest

A flush hands over the whole queue, so a batch is as large as what arrived while the one before
it was being sent. A producer that never finds a full batch waiting stays within the limit of
the route; a send that outlasts a burst does not.
-/

namespace Flagship.EndToEnd

open Lib Flagship.Sdk Flagship.Sdk.ExposureRun Flagship.ControlPlane

def defaultOptions : ExposureBufferOptions where
  batchSize := none
  maxQueueSize := none
  samplingThreshold := none

variable {run : ExposureRun}

/-! ## Producers that keep to the limit -/

/-- `record` is not called on an open buffer in which as many events wait as a batch may have. -/
def keepsUp (run : ExposureRun) : ExposureRun.Action → Bool
  | .record _ _ _ => run.buffer.closed || decide (run.buffer.queue.length < MAX_BATCH_SIZE)
  | _ => true

structure WithinLimit (run : ExposureRun) : Prop where
  queued : run.buffer.queue.length ≤ MAX_BATCH_SIZE
  handed : ∀ batch ∈ run.handed, batch.length ≤ MAX_BATCH_SIZE

theorem WithinLimit.flush (h : WithinLimit run) : WithinLimit run.flush := by
  rcases flush_cases run with hSame | ⟨_, hFlush⟩
  · rw [hSame]
    exact h
  · rw [hFlush]
    constructor
    case queued => exact Nat.zero_le _
    case handed =>
      intro batch hBatch
      rcases List.mem_append.mp hBatch with hBefore | hQueue
      · exact h.handed batch hBefore
      · rw [List.mem_singleton.mp hQueue]
        exact h.queued

theorem WithinLimit.queuedEvent (h : WithinLimit run) (event : ExposureEvent)
    (hRoom : run.buffer.queue.length < MAX_BATCH_SIZE) : WithinLimit (run.queued event) where
  queued := by
    simp only [ExposureRun.queued, ExposureBuffer.push, List.length_append, List.length_singleton]
    omega
  handed := h.handed

theorem WithinLimit.records (h : WithinLimit run)
    (hRoom : run.buffer.closed = false → run.buffer.queue.length < MAX_BATCH_SIZE) {input : ExposureInput}
    {clock : Option String} {run' : ExposureRun} (hRecords : Records run input clock run') : WithinLimit run' := by
  cases hRecords with
  | closed hClosed => exact h
  | dropped hFull => exact { h with }
  | sampled hRate => exact { h with }
  | thrown hNoText => exact { h with }
  | queued event hOpen _ => exact h.queuedEvent event (hRoom hOpen)
  | flushed event hOpen _ => exact (h.queuedEvent event (hRoom hOpen)).flush

theorem WithinLimit.step {a : ExposureRun.Action} (h : WithinLimit run) (hKeepsUp : keepsUp run a = true) :
    WithinLimit (run.effect a) := by
  cases a with
  | start =>
    rw [effect, ExposureBuffer.start]
    split
    · exact h
    · exact { h with }
  | tick => exact h.flush
  | flush => exact h.flush
  | close =>
    have hClosed : WithinLimit { run with buffer := run.buffer.close } := { h with }
    exact hClosed.flush
  | record event random clock =>
    refine h.records ?_ (records_record run event random clock)
    intro hOpen
    simpa [keepsUp, hOpen] using hKeepsUp
  | sendSucceeded i => exact { h with }
  | sendFailed i => exact { h with }
  | settle => exact { h with }

variable {options : ExposureBufferOptions}

theorem withinLimit_of_reachable
    (hReach : machine.Reachable (fun run a => keepsUp run a = true) (.new options) run) : WithinLimit run := by
  refine hReach.invariant WithinLimit ⟨Nat.zero_le _, fun _ hNone => absurd hNone List.not_mem_nil⟩ ?_
  intro run a _ h _ hKeepsUp
  exact h.step hKeepsUp

/-! ## What ingest makes of a batch -/

section Ingest

variable {parseDate : String → Option ℤ} {now : ℤ}

theorem batch_readable (batch : List ExposureEvent) (scope : AuthenticatedKey) :
    ∀ event ∈ batch.map ExposureEvent.toJson, ∃ verdict, validateEvent parseDate now scope event = .ok verdict := by
  intro document hMem
  obtain ⟨event, _, rfl⟩ := List.mem_map.mp hMem
  exact validateEvent_ok rfl

end Ingest

theorem batches_admitted
    (hReach : machine.Reachable (fun run a => keepsUp run a = true) (.new defaultOptions) run)
    {batch : List ExposureEvent} (hBatch : batch ∈ run.handed) :
    batch.length ≤ MAX_BATCH_SIZE ∧ ∀ parseDate now authenticateKey sdkKey writer, ∃ writer' reply,
      postExposures parseDate now authenticateKey (some (HttpExposureTransport.authorization sdkKey)) writer
        (some (HttpExposureTransport.body batch)) = .ok (writer', reply) ∧ reply.code ≠ 413 := by
  have hFits := (withinLimit_of_reachable hReach).handed batch hBatch
  refine ⟨hFits, ?_⟩
  intro parseDate now authenticateKey sdkKey writer
  refine postExposures_fits ?_ (batch_readable batch) writer
  rw [List.length_map]
  exact hFits

/-- The hundredth event is flushed at once, and twenty more wait behind its send. -/
def tidy : List ExposureRun.Action := .start :: List.replicate 120 (pageView (some "t")) ++ [.sendSucceeded 0, .tick]

theorem batches_admitted_tidy : ∃ run, machine.runWithin keepsUp (.new defaultOptions) tidy = some run ∧
    run.handed.map List.length = [100, 20] ∧ ∀ batch ∈ run.handed,
      batch.length ≤ MAX_BATCH_SIZE ∧ ∀ parseDate now authenticateKey sdkKey writer, ∃ writer' reply,
        postExposures parseDate now authenticateKey (some (HttpExposureTransport.authorization sdkKey)) writer
          (some (HttpExposureTransport.body batch)) = .ok (writer', reply) ∧ reply.code ≠ 413 := by
  have hHanded : (machine.runWithin keepsUp (.new defaultOptions) tidy).map (fun run => run.handed.map List.length) =
      some [100, 20] := by decide +kernel
  obtain ⟨run, hRun, hLengths⟩ := Option.map_eq_some_iff.mp hHanded
  have hReach : machine.Reachable (fun run a => keepsUp run a = true) (.new defaultOptions) run :=
    Machine.Reachable.start.runWithin (fun _ _ _ hKeepsUp => hKeepsUp) hRun
  exact ⟨run, hRun, hLengths, fun batch hBatch => batches_admitted hReach hBatch⟩

/-! ## What an oversized queue leads to -/

theorem queue_mem_flush (hIdle : run.buffer.flushInFlight = false) (hSome : 0 < run.buffer.queue.length) :
    run.buffer.queue ∈ run.flush.handed := by
  have hWaiting : run.buffer.queue.isEmpty = false := by
    rw [List.isEmpty_eq_false_iff, ← List.length_pos_iff]
    exact hSome
  simp [ExposureRun.flush, ExposureBuffer.flush, hand, hIdle, hWaiting]

/-- What waits goes out as one batch, once the send that holds it up has ended. -/
theorem exists_handed {options : ExposureBufferOptions} (h : run.Accounts options)
    (hSome : 0 < run.buffer.queue.length) :
    ∃ actions run', machine.run run actions = some run' ∧ run.buffer.queue ∈ run'.handed := by
  cases hBusy : run.buffer.flushInFlight with
  | false => exact ⟨[.flush], run.flush, rfl, queue_mem_flush hBusy hSome⟩
  | true =>
    have hSingle := h.single
    rw [hBusy, if_pos rfl] at hSingle
    cases hReporting : run.reporting with
    | zero =>
      have hEnabled : machine.enabled run (.sendSucceeded 0) = true := by
        simp only [machine, enabled, decide_eq_true_eq]
        omega
      have hSent : run.buffer.queue ∈ (run.effect (.sendSucceeded 0)).flush.handed :=
        queue_mem_flush rfl hSome
      refine ⟨[.sendSucceeded 0, .flush], _, ?_, hSent⟩
      simp only [Machine.runWithin, hEnabled, Bool.and_true, if_true]
      rfl
    | succ others =>
      have hEnabled : machine.enabled run .settle = true := by
        simp only [machine, enabled, decide_eq_true_eq]
        omega
      have hSent : run.buffer.queue ∈ (run.effect .settle).flush.handed :=
        queue_mem_flush rfl hSome
      refine ⟨[.settle, .flush], _, ?_, hSent⟩
      simp only [Machine.runWithin, hEnabled, Bool.and_true, if_true]
      rfl

/-- The default cap is far off and half of it is not yet taken, so nothing is sampled. -/
theorem samplingRate_eq_one {buffer : ExposureBuffer} (hCap : buffer.maxQueueSize = .ofNat 10000)
    (hThreshold : buffer.samplingThreshold = .finite (1 / 2)) (hHalf : buffer.queue.length ≤ 5000) :
    buffer.samplingRate = .ofNat 1 := by
  have hLength : (buffer.queue.length : ℚ) ≤ 5000 := by exact_mod_cast hHalf
  have hOccupancy : ((Number.ofNat buffer.queue.length).div buffer.maxQueueSize) =
      .ofRat (buffer.queue.length / 10000) := by
    rw [hCap]
    simp [Number.div, Number.ofNat]
  have hPow : (2 : ℚ) ^ (-1 : ℤ) = 1 / 2 := by norm_num
  have hBelow : (Number.ofRat ((buffer.queue.length : ℚ) / 10000)).le (.finite (1 / 2)) = true := by
    rw [← hPow]
    apply Number.ofRat_le_zpow (by positivity) _ (by omega) (by omega)
    rw [div_le_iff₀ (by norm_num), hPow]
    linarith
  simp only [ExposureBuffer.samplingRate, hOccupancy, hThreshold, hBelow, if_true]

/-- Up to half of the default cap, an event that comes in joins the queue. -/
theorem queued_of_records (hCap : run.buffer.maxQueueSize = .ofNat 10000)
    (hThreshold : run.buffer.samplingThreshold = .finite (1 / 2)) (hOpen : run.buffer.closed = false)
    (hHalf : run.buffer.queue.length ≤ 5000) {input : ExposureInput} {text : String} {run' : ExposureRun}
    (hRecords : Records run input (some text) run') :
    ∃ event, run' = run.queued event ∨ run' = (run.queued event).flush := by
  cases hRecords with
  | closed hClosed =>
    rw [hOpen] at hClosed
    cases hClosed
  | dropped hFull =>
    rw [hCap, Number.le_ofNat, decide_eq_true_iff] at hFull
    omega
  | sampled hRate =>
    rw [samplingRate_eq_one hCap hThreshold hHalf, Number.lt_ofNat, decide_eq_true_iff] at hRate
    omega
  | thrown hNoText =>
    cases hStamp : input.timestamp with
    | none => simp [hStamp] at hNoText
    | some stamp => simp [hStamp] at hNoText
  | queued event _ _ => exact ⟨event, Or.inl rfl⟩
  | flushed event _ _ => exact ⟨event, Or.inr rfl⟩

/-- The condition leaves out nothing that is harmless: a call that breaks it queues its event,
and the oversized batch is handed over at the next chance. -/
theorem exceeds_of_late (hReach : machine.Reachable (fun run a => keepsUp run a = true) (.new defaultOptions) run)
    {input : ExposureInput} {random : Number} {text : String}
    (hLate : keepsUp run (.record input random (some text)) = false) :
    ∃ actions run', machine.run (run.effect (.record input random (some text))) actions = some run' ∧
      ∃ batch ∈ run'.handed, MAX_BATCH_SIZE < batch.length := by
  have hAccounts := accounts_of_reachable (hReach.mono fun _ _ _ => trivial)
  have hFits := (withinLimit_of_reachable hReach).queued
  obtain ⟨hOpen, hFull⟩ : run.buffer.closed = false ∧ MAX_BATCH_SIZE ≤ run.buffer.queue.length := by
    simpa [keepsUp] using hLate
  have hRoom : run.buffer.maxQueueSize.le (.ofNat run.buffer.queue.length) = false := by
    have hCap : run.buffer.maxQueueSize = .ofNat 10000 := hAccounts.config
    rw [hCap, Number.le_ofNat, decide_eq_false_iff_not]
    unfold MAX_BATCH_SIZE at hFits
    omega
  obtain ⟨event, hQueued⟩ := queued_of_records hAccounts.config hAccounts.threshold hOpen
    (hFits.trans (by decide)) (records_record run input random (some text))
  have hOver : MAX_BATCH_SIZE < (run.queued event).buffer.queue.length := by
    simp only [ExposureRun.queued, ExposureBuffer.push, List.length_append, List.length_singleton]
    omega
  have hStill := hAccounts.queued event hRoom
  rw [effect]
  rcases hQueued with hRun | hRun
  · obtain ⟨actions, run', hActions, hMem⟩ := exists_handed hStill (Nat.zero_lt_of_lt hOver)
    exact ⟨actions, run', hRun ▸ hActions, _, hMem, hOver⟩
  · rw [hRun]
    rcases flush_cases (run.queued event) with hSame | ⟨hIdle, _⟩
    · rw [hSame]
      obtain ⟨actions, run', hActions, hMem⟩ := exists_handed hStill (Nat.zero_lt_of_lt hOver)
      exact ⟨actions, run', hActions, _, hMem, hOver⟩
    · exact ⟨[], _, rfl, _, queue_mem_flush hIdle (Nat.zero_lt_of_lt hOver), hOver⟩

/-! ## A burst during a slow send -/

/-- An open buffer with the default bounds, one batch on its way, and how many events wait. -/
structure Stalled (run : ExposureRun) (waiting : ℕ) : Prop where
  isOpen : run.buffer.closed = false
  busy : run.buffer.flushInFlight = true
  cap : run.buffer.maxQueueSize = .ofNat 10000
  threshold : run.buffer.samplingThreshold = .finite (1 / 2)
  inFlight : run.inFlight.length = 1
  queued : run.buffer.queue.length = waiting

variable {waiting : ℕ}

theorem Stalled.queuedEvent (h : Stalled run waiting) (event : ExposureEvent) :
    Stalled (run.queued event) (waiting + 1) where
  isOpen := h.isOpen
  busy := h.busy
  cap := h.cap
  threshold := h.threshold
  inFlight := h.inFlight
  queued := by simp only [ExposureRun.queued, ExposureBuffer.push, List.length_append, List.length_singleton, h.queued]

theorem Stalled.flush (h : Stalled run waiting) : run.flush = run := by
  rcases flush_cases run with hSame | ⟨hIdle, _⟩
  · exact hSame
  · rw [h.busy] at hIdle
    cases hIdle

theorem Stalled.records (h : Stalled run waiting) (hHalf : waiting ≤ 5000) {input : ExposureInput} {text : String}
    {run' : ExposureRun} (hRecords : Records run input (some text) run') : Stalled run' (waiting + 1) := by
  have hLength := h.queued
  obtain ⟨event, rfl | rfl⟩ := queued_of_records h.cap h.threshold h.isOpen (by omega) hRecords
  · exact h.queuedEvent event
  · rw [(h.queuedEvent event).flush]
    exact h.queuedEvent event

theorem Stalled.burst (count : ℕ) (h : Stalled run waiting) (hHalf : waiting + count ≤ 5001) :
    ∃ run', machine.run run (List.replicate count (pageView (some "t"))) = some run' ∧
      Stalled run' (waiting + count) := by
  induction count generalizing run waiting with
  | zero => exact ⟨run, rfl, h⟩
  | succ count ih =>
    have hNext := h.records (by omega) (records_record run (page none) (.ofNat 0) (some "t"))
    obtain ⟨run', hRun, hStalled⟩ := ih hNext (by omega)
    refine ⟨run', hRun, ?_⟩
    rw [show waiting + (count + 1) = waiting + 1 + count by omega]
    exact hStalled

theorem Stalled.release (h : Stalled run waiting) (hSome : 0 < waiting) :
    ∃ run' batch, machine.run run [.sendSucceeded 0, .flush] = some run' ∧
      batch ∈ run'.handed ∧ batch.length = waiting := by
  have hEnabled : machine.enabled run (.sendSucceeded 0) = true := by
    simp [machine, enabled, h.inFlight]
  have hSent : run.buffer.queue ∈ (run.effect (.sendSucceeded 0)).flush.handed :=
    queue_mem_flush rfl (h.queued ▸ hSome)
  refine ⟨_, run.buffer.queue, ?_, hSent, h.queued⟩
  simp only [Machine.runWithin, hEnabled, Bool.and_true, if_true]
  rfl

def slowSend : List ExposureRun.Action :=
  [pageView (some "t"), .flush] ++ (List.replicate 1001 (pageView (some "t")) ++ [.sendSucceeded 0, .flush])

theorem stalled_slowSend : ∃ run, machine.run (.new defaultOptions) [pageView (some "t"), .flush] = some run ∧
    Stalled run 0 := by
  have hFacts : (machine.run (.new defaultOptions) [pageView (some "t"), .flush]).map (fun run =>
      (run.buffer.closed, run.buffer.flushInFlight, run.buffer.maxQueueSize, run.buffer.samplingThreshold,
        run.inFlight.length, run.buffer.queue.length)) =
      some (false, true, .ofNat 10000, .finite (1 / 2), 1, 0) := by decide +kernel
  obtain ⟨run, hRun, hFacts⟩ := Option.map_eq_some_iff.mp hFacts
  simp only [Prod.mk.injEq] at hFacts
  obtain ⟨hOpen, hBusy, hCap, hThreshold, hInFlight, hQueued⟩ := hFacts
  exact ⟨run, hRun, hOpen, hBusy, hCap, hThreshold, hInFlight, hQueued⟩

/-- The events that arrive during one send make a batch that ingest refuses, whatever the scope
of the key and the state of the writer. -/
theorem slowSend_refused : ∃ run batch, machine.run (.new defaultOptions) slowSend = some run ∧
    batch ∈ run.handed ∧ batch.length = 1001 ∧
    ∀ parseDate now authenticateKey sdkKey scope writer, authenticateKey sdkKey = some scope →
      postExposures parseDate now authenticateKey (some (HttpExposureTransport.authorization sdkKey)) (some writer)
        (some (HttpExposureTransport.body batch)) = .ok (some writer, .batchTooLarge) := by
  obtain ⟨run, hRun, hStalled⟩ := stalled_slowSend
  obtain ⟨loaded, hLoaded, hBurst⟩ := hStalled.burst 1001 (by omega)
  obtain ⟨last, batch, hLast, hMem, hLength⟩ := hBurst.release (by omega)
  refine ⟨last, batch, ?_, hMem, hLength, ?_⟩
  · exact (Machine.runWithin_append hRun).trans ((Machine.runWithin_append hLoaded).trans hLast)
  · intro parseDate now authenticateKey sdkKey scope writer hKey
    refine postExposures_exceeds ?_ ((requireSdkKey_bearer sdkKey).trans hKey) writer
    rw [List.length_map, hLength]
    decide

end Flagship.EndToEnd
