import Flagship.Sdk.Exposure

/-! # The books of the exposure pipeline

Whatever the timing, every call of `record` that returns is counted once, every recorded event
is in one place, and the batches and the queue, read in order, are the events as they were
recorded.
-/

namespace Flagship.Sdk

open Lib

namespace ExposureRun

variable {run : ExposureRun}

/-! ## What the steps can do -/

/-- The run after an event has been queued, and before the flush it may set off. -/
def queued (run : ExposureRun) (event : ExposureEvent) : ExposureRun :=
  { run with
    buffer := { run.buffer with sequence := run.buffer.sequence + 1 }.push event
    history := run.history ++ [event]
    calls := run.calls + 1
    returned := run.returned + 1 }

theorem hand_none (run : ExposureRun) : run.hand none = run := by
  simp [hand]

theorem flush_cases (run : ExposureRun) :
    run.flush = run ∨
    run.buffer.flushInFlight = false ∧ run.flush =
      { run with
        buffer := { run.buffer with flushInFlight := true, queue := [] }
        inFlight := run.inFlight ++ [run.buffer.queue]
        handed := run.handed ++ [run.buffer.queue] } := by
  rw [flush, ExposureBuffer.flush]
  cases hInFlight : run.buffer.flushInFlight with
  | true => exact Or.inl (hand_none run)
  | false =>
    cases hEmpty : run.buffer.queue.isEmpty with
    | true => exact Or.inl (hand_none run)
    | false => exact Or.inr ⟨rfl, rfl⟩

/-- What a call of `record` can do to a run, and when. -/
inductive Records (run : ExposureRun) (input : ExposureInput) (clock : Option String) : ExposureRun → Prop where
  | closed (hClosed : run.buffer.closed = true) : Records run input clock run
  | dropped (hFull : run.buffer.maxQueueSize.le (.ofNat run.buffer.queue.length) = true) :
      Records run input clock { run with
        buffer := { run.buffer with dropped := run.buffer.dropped + 1 }
        calls := run.calls + 1
        returned := run.returned + 1 }
  | sampled (hRate : run.buffer.samplingRate.lt (.ofNat 1) = true) : Records run input clock { run with
      buffer := { run.buffer with sampled := run.buffer.sampled + 1 }
      calls := run.calls + 1
      returned := run.returned + 1 }
  | thrown (hNoText : input.timestamp.or clock = none) : Records run input clock { run with
      buffer := { run.buffer with sequence := run.buffer.sequence + 1 }
      calls := run.calls + 1 }
  | queued (event : ExposureEvent) (hOpen : run.buffer.closed = false)
      (hRoom : run.buffer.maxQueueSize.le (.ofNat run.buffer.queue.length) = false) :
      Records run input clock (run.queued event)
  | flushed (event : ExposureEvent) (hOpen : run.buffer.closed = false)
      (hRoom : run.buffer.maxQueueSize.le (.ofNat run.buffer.queue.length) = false) :
      Records run input clock (run.queued event).flush

theorem records_record (run : ExposureRun) (input : ExposureInput) (random : Number) (clock : Option String) :
    Records run input clock (run.record input random clock) := by
  rw [record, ExposureBuffer.record]
  by_cases hClosed : run.buffer.closed = true
  · simp only [if_pos hClosed, if_pos (Or.inl hClosed), Option.toList_none, List.append_nil, hand_none]
    exact .closed hClosed
  · have hOpen : run.buffer.closed = false := Bool.eq_false_of_not_eq_true hClosed
    simp only [if_neg hClosed, or_iff_right hClosed]
    split
    · rename_i hFull
      simp only [reduceCtorEq, if_false, Option.toList_none, List.append_nil, hand_none]
      exact .dropped hFull
    · rename_i hNotFull
      have hRoom := Bool.eq_false_of_not_eq_true hNotFull
      split
      · rename_i hSampled
        simp only [reduceCtorEq, if_false, Option.toList_none, List.append_nil, hand_none]
        exact .sampled (Bool.and_eq_true_iff.mp hSampled).1
      · cases hText : input.timestamp.or clock with
        | none =>
          simp only [if_true, Option.toList_none, List.append_nil, hand_none]
          exact .thrown hText
        | some timestamp =>
          simp only
          split
          · exact .flushed _ hOpen hRoom
          · rw [hand_none]
            exact .queued _ hOpen hRoom

/-! ## The invariant -/

structure Accounts (options : ExposureBufferOptions) (run : ExposureRun) : Prop where
  config : run.buffer.maxQueueSize = (ExposureBuffer.new options).maxQueueSize
  threshold : run.buffer.samplingThreshold = (ExposureBuffer.new options).samplingThreshold
  counted : run.returned = run.buffer.recorded + run.buffer.sampled + run.buffer.dropped
  balance : run.buffer.recorded =
    run.buffer.sent + run.buffer.failed + run.buffer.queue.length + (run.inFlight.map List.length).sum
  single : run.inFlight.length + run.reporting = if run.buffer.flushInFlight then 1 else 0
  bounded : ∀ cap, run.buffer.maxQueueSize = .finite cap → run.buffer.queue.length ≤ ⌈cap⌉₊
  order : run.handed.flatten ++ run.buffer.queue = run.history
  recorded : run.buffer.recorded = run.history.length

variable {options : ExposureBufferOptions}

theorem accounts_new (options : ExposureBufferOptions) : (new options).Accounts options :=
  ⟨rfl, rfl, rfl, rfl, rfl, fun _ _ => Nat.zero_le _, rfl, rfl⟩

theorem Accounts.flush (h : run.Accounts options) : run.flush.Accounts options := by
  rcases flush_cases run with hSame | ⟨hIdle, hFlush⟩
  · rw [hSame]
    exact h
  · have hSingle := h.single
    have hBalance := h.balance
    rw [hIdle, if_neg Bool.false_ne_true] at hSingle
    rw [hFlush]
    constructor
    case config => exact h.config
    case threshold => exact h.threshold
    case counted => exact h.counted
    case balance =>
      simp only [List.map_append, List.map_cons, List.map_nil, List.sum_append, List.sum_singleton, List.length_nil]
      omega
    case single =>
      simp only [List.length_append, List.length_singleton, if_true]
      omega
    case bounded => exact fun _ _ => Nat.zero_le _
    case order =>
      rw [List.flatten_append, List.flatten_singleton, List.append_nil]
      exact h.order
    case recorded => exact h.recorded

/-- The queue has room for one more: its length is below the cap, and stays within the cap
rounded up. -/
theorem length_le_of_room {cap : ℚ} {length : ℕ} (h : (Number.finite cap).le (.ofNat length) = false) :
    length + 1 ≤ ⌈cap⌉₊ := by
  simp only [Number.le, Number.lt, Number.eq, Number.ofNat, Bool.or_eq_false_iff, decide_eq_false_iff_not,
    Number.finite.injEq] at h
  have hBelow : (length : ℚ) < cap := lt_of_le_of_ne (not_lt.mp h.1) fun hSame => h.2 hSame.symm
  exact Nat.lt_ceil.mpr hBelow

theorem Accounts.queued (h : run.Accounts options) (event : ExposureEvent)
    (hRoom : run.buffer.maxQueueSize.le (.ofNat run.buffer.queue.length) = false) :
    (run.queued event).Accounts options := by
  have hCounted := h.counted
  have hBalance := h.balance
  constructor
  case config => exact h.config
  case threshold => exact h.threshold
  case counted =>
    simp only [ExposureRun.queued, ExposureBuffer.push]
    omega
  case balance =>
    simp only [ExposureRun.queued, ExposureBuffer.push, List.length_append, List.length_singleton]
    omega
  case single => exact h.single
  case bounded =>
    intro cap hCap
    change run.buffer.maxQueueSize = .finite cap at hCap
    rw [hCap] at hRoom
    simp only [ExposureRun.queued, ExposureBuffer.push, List.length_append, List.length_singleton]
    exact length_le_of_room hRoom
  case order =>
    simp only [ExposureRun.queued, ExposureBuffer.push]
    rw [← List.append_assoc, h.order]
  case recorded =>
    simp only [ExposureRun.queued, ExposureBuffer.push, List.length_append, List.length_singleton, h.recorded]

theorem Accounts.records (h : run.Accounts options) {input : ExposureInput} {clock : Option String}
    {run' : ExposureRun} (hRecords : Records run input clock run') : run'.Accounts options := by
  have hCounted := h.counted
  cases hRecords with
  | closed hClosed => exact h
  | dropped hFull => exact { h with counted := by simp only; omega }
  | sampled hRate => exact { h with counted := by simp only; omega }
  | thrown hNoText => exact { h with }
  | queued event hOpen hRoom => exact h.queued event hRoom
  | flushed event hOpen hRoom => exact (h.queued event hRoom).flush

/-- Only one batch is in flight, so the send that ends is that one, and nothing is reporting. -/
theorem Accounts.only (h : run.Accounts options) {i : ℕ} (hInFlight : i < run.inFlight.length) :
    ∃ batch, run.inFlight = [batch] ∧ i = 0 ∧ run.reporting = 0 ∧ run.buffer.flushInFlight = true := by
  have hSingle := h.single
  split at hSingle
  · rename_i hFlag
    obtain ⟨batch, hBatch⟩ := List.length_eq_one_iff.mp (show run.inFlight.length = 1 by omega)
    exact ⟨batch, hBatch, by omega, by omega, hFlag⟩
  · omega

theorem Accounts.sendSucceeded (h : run.Accounts options) {i : ℕ} (hInFlight : i < run.inFlight.length) :
    (run.effect (.sendSucceeded i)).Accounts options := by
  obtain ⟨batch, hBatch, rfl, hReporting, _⟩ := h.only hInFlight
  have hBalance := h.balance
  simp only [hBatch, List.map_cons, List.map_nil, List.sum_singleton] at hBalance
  simp only [effect, ExposureBuffer.sendSucceeded, hBatch, List.getD_cons_zero, List.eraseIdx_cons_zero]
  exact { h with
    balance := by simp only [List.map_nil, List.sum_nil]; omega
    single := by simp [hReporting] }

theorem Accounts.sendFailed (h : run.Accounts options) {i : ℕ} (hInFlight : i < run.inFlight.length) :
    (run.effect (.sendFailed i)).Accounts options := by
  obtain ⟨batch, hBatch, rfl, hReporting, hFlag⟩ := h.only hInFlight
  have hBalance := h.balance
  simp only [hBatch, List.map_cons, List.map_nil, List.sum_singleton] at hBalance
  simp only [effect, ExposureBuffer.sendFailed, hBatch, List.getD_cons_zero, List.eraseIdx_cons_zero]
  exact { h with
    balance := by simp only [List.map_nil, List.sum_nil]; omega
    single := by simp [hReporting, hFlag] }

theorem Accounts.settle (h : run.Accounts options) (hReporting : 0 < run.reporting) :
    (run.effect .settle).Accounts options := by
  have hSingle := h.single
  have hNone : run.inFlight.length + (run.reporting - 1) = 0 := by
    split at hSingle <;> omega
  exact { h with single := hNone }

theorem Accounts.step {a : Action} (h : run.Accounts options) (hEnabled : run.enabled a = true) :
    (run.effect a).Accounts options := by
  cases a with
  | start =>
    rw [effect, ExposureBuffer.start]
    split
    · exact h
    · exact { h with }
  | tick => exact h.flush
  | flush => exact h.flush
  | close =>
    have hClosed : Accounts options { run with buffer := run.buffer.close } := { h with }
    exact hClosed.flush
  | record input random clock => exact h.records (records_record run input random clock)
  | sendSucceeded i => exact h.sendSucceeded (of_decide_eq_true hEnabled)
  | sendFailed i => exact h.sendFailed (of_decide_eq_true hEnabled)
  | settle => exact h.settle (of_decide_eq_true hEnabled)

theorem accounts_of_reachable (hReach : machine.Reachable Machine.anyStep (new options) run) :
    run.Accounts options := by
  refine hReach.invariant (Accounts options) (accounts_new options) ?_
  intro run a _ h hEnabled _
  exact h.step hEnabled

/-- The books of a buffer, whatever its options: the calls that returned, where the recorded
events are, the cap rounded up to a whole number of events, and what the transport has seen. -/
theorem exposures_accounted (hReach : machine.Reachable Machine.anyStep (new options) run) :
    run.returned = run.buffer.stats.recorded + run.buffer.stats.sampled + run.buffer.stats.dropped ∧
    run.buffer.stats.recorded = run.buffer.stats.sent + run.buffer.stats.failed + run.buffer.stats.queued +
      (run.inFlight.map List.length).sum ∧
    (∀ cap, options.maxQueueSize.getD (.ofNat 10000) = .finite cap → run.buffer.stats.queued ≤ ⌈cap⌉₊) ∧
    run.inFlight.length ≤ 1 ∧
    run.handed.flatten ++ run.buffer.queue = run.history ∧
    run.buffer.stats.recorded = run.history.length := by
  have h := accounts_of_reachable hReach
  have hSingle := h.single
  refine ⟨h.counted, h.balance, ?_, ?_, h.order, h.recorded⟩
  · intro cap hCap
    exact h.bounded cap (h.config.trans hCap)
  · split at hSingle <;> omega

def page (timestamp : Option String) : ExposureInput where
  flagKey := "checkout"
  variationKey := "on"
  contextKey := "u1"
  rulesetVersion := .ofNat 1
  timestamp := timestamp
  dedupeKey := none

def pageView (clock : Option String) : Action := .record (page none) (.ofNat 0) clock

def pairs : ExposureBufferOptions where
  batchSize := some (.ofNat 2)
  maxQueueSize := some (.ofNat 2)
  samplingThreshold := some (.ofNat 1)

/-- Three events and a closing flush, the first batch delivered and the second lost. -/
def closing : List Action :=
  [.start, pageView (some "t"), pageView (some "t"), pageView (some "t"), .tick, .sendSucceeded 0, .close,
    pageView (some "t"), .sendFailed 0, .settle]

theorem exposures_accounted_closing : ∃ run, machine.run (new pairs) closing = some run ∧
    run.returned = run.buffer.stats.recorded + run.buffer.stats.sampled + run.buffer.stats.dropped ∧
    run.buffer.stats.recorded = run.buffer.stats.sent + run.buffer.stats.failed + run.buffer.stats.queued +
      (run.inFlight.map List.length).sum ∧
    (∀ cap, pairs.maxQueueSize.getD (.ofNat 10000) = .finite cap → run.buffer.stats.queued ≤ ⌈cap⌉₊) ∧
    run.inFlight.length ≤ 1 ∧
    run.handed.flatten ++ run.buffer.queue = run.history ∧
    run.buffer.stats.recorded = run.history.length := by
  have hRuns : (machine.run (new pairs) closing).isSome = true := by decide +kernel
  obtain ⟨run, hRun⟩ := Option.isSome_iff_exists.mp hRuns
  exact ⟨run, hRun, exposures_accounted (Machine.reachable_of_run hRun)⟩

def oneAndAHalf : ExposureBufferOptions where
  batchSize := none
  maxQueueSize := some (.finite (3 / 2))
  samplingThreshold := some (.ofNat 1)

/-- A cap that is no whole number is passed by the event that reaches it, and a call that the
clock stops is in none of the counters. -/
theorem exposures_unaccounted :
    (∃ run, machine.run (new oneAndAHalf) [pageView (some "t"), pageView (some "t")] = some run ∧
      run.buffer.maxQueueSize.lt (.ofNat run.buffer.stats.queued) = true) ∧
    ∃ run, machine.run (new pairs) [pageView none] = some run ∧ run.calls = 1 ∧
      run.buffer.stats.recorded + run.buffer.stats.sampled + run.buffer.stats.dropped = 0 := by
  have hPast : (machine.run (new oneAndAHalf) [pageView (some "t"), pageView (some "t")]).map (fun run =>
      run.buffer.maxQueueSize.lt (.ofNat run.buffer.stats.queued)) = some true := by decide +kernel
  have hStopped : (machine.run (new pairs) [pageView none]).map (fun run =>
      (run.calls, run.buffer.stats.recorded + run.buffer.stats.sampled + run.buffer.stats.dropped)) =
      some (1, 0) := by decide +kernel
  obtain ⟨stopped, hStoppedRun, hCounters⟩ := Option.map_eq_some_iff.mp hStopped
  obtain ⟨hCalls, hNone⟩ := Prod.mk.inj hCounters
  exact ⟨Option.map_eq_some_iff.mp hPast, stopped, hStoppedRun, hCalls, hNone⟩

end ExposureRun

end Flagship.Sdk
