import Flagship.Sdk.ExposureAccounts

/-! # Closing a buffer

`close` awaits its own flush and no other: where a send is on its way that flush returns at
once, and what has been queued behind the send stays queued. A call of `close` is followed from
its flush to the moment its promise resolves.
-/

namespace Flagship.Sdk

open Lib

/-- A run, and the calls of `close` whose flush awaits a send, whose flush is over, and whose
promise has resolved. -/
structure ClosingRun where
  run : ExposureRun
  waiting : ℕ
  returning : ℕ
  resolved : ℕ

namespace ClosingRun

def new (options : ExposureBufferOptions) : ClosingRun where
  run := .new options
  waiting := 0
  returning := 0
  resolved := 0

inductive Action where
  | buffer (action : ExposureRun.Action)
  | resolve

variable (state : ClosingRun)

/-- At most one send is on its way, so the one that has ended is the one that is awaited. -/
def sendEnded : ClosingRun :=
  { state with waiting := 0, returning := state.returning + state.waiting }

def closed : ClosingRun :=
  if state.run.buffer.close.flush.2.isSome then { state with waiting := state.waiting + 1 }
  else { state with returning := state.returning + 1 }

def enabled : Action → Bool
  | .buffer action => state.run.enabled action
  | .resolve => decide (0 < state.returning)

def effect : Action → ClosingRun
  | .buffer .close => { state.closed with run := state.run.effect .close }
  | .buffer (.sendSucceeded i) => { state.sendEnded with run := state.run.effect (.sendSucceeded i) }
  | .buffer .settle => { state.sendEnded with run := state.run.effect .settle }
  | .buffer action => { state with run := state.run.effect action }
  | .resolve => { state with returning := state.returning - 1, resolved := state.resolved + 1 }

def machine : Machine ClosingRun Action where
  enabled := enabled
  effect := effect

/-- `close` is not called while events wait behind a send. -/
def closesIdle (state : ClosingRun) (a : Action) : Prop :=
  a = .buffer .close → state.run.buffer.flushInFlight = false ∨ state.run.buffer.queue = []

variable {state : ClosingRun}

/-! ## Closed buffers -/

/-- Nothing more is recorded. -/
structure Shut (history : List ExposureEvent) (run : ExposureRun) : Prop where
  closed : run.buffer.closed = true
  history : run.history = history

variable {history : List ExposureEvent} {run : ExposureRun}

theorem record_of_closed (hClosed : run.buffer.closed = true) (input : ExposureInput) (random : Number)
    (clock : Option String) : run.record input random clock = run := by
  simp [ExposureRun.record, ExposureBuffer.record, hClosed, ExposureRun.hand]

theorem Shut.flush (h : Shut history run) : Shut history run.flush := by
  obtain hSame | ⟨_, hFlush⟩ := ExposureRun.flush_cases run
  · rw [hSame]
    exact h
  · rw [hFlush]
    exact ⟨h.closed, h.history⟩

theorem Shut.step (h : Shut history run) (a : ExposureRun.Action) : Shut history (run.effect a) := by
  cases a with
  | start =>
    rw [ExposureRun.effect, ExposureBuffer.start, h.closed, Bool.or_true, if_pos rfl]
    exact h
  | tick => exact h.flush
  | flush => exact h.flush
  | close =>
    have hClose : Shut history { run with buffer := run.buffer.close } := ⟨rfl, h.history⟩
    exact hClose.flush
  | record input random clock =>
    rw [ExposureRun.effect, record_of_closed h.closed]
    exact h
  | sendSucceeded i => exact ⟨h.closed, h.history⟩
  | sendFailed i => exact ⟨h.closed, h.history⟩
  | settle => exact ⟨h.closed, h.history⟩

theorem flush_of_empty (hEmpty : run.buffer.queue = []) : run.flush = run := by
  rw [ExposureRun.flush, ExposureBuffer.flush, if_pos (by simp [hEmpty])]
  exact ExposureRun.hand_none run

theorem queue_flush (h : run.buffer.flushInFlight = false ∨ run.buffer.queue = []) : run.flush.buffer.queue = [] := by
  by_cases hEmpty : run.buffer.queue = []
  · rw [flush_of_empty hEmpty]
    exact hEmpty
  · have hIdle := h.resolve_right hEmpty
    have hWaiting : run.buffer.queue.isEmpty = false := List.isEmpty_eq_false_iff.mpr hEmpty
    simp [ExposureRun.flush, ExposureBuffer.flush, ExposureRun.hand, hIdle, hWaiting]

/-- With nothing queued and nothing more recorded, nothing comes to be queued. -/
theorem queue_of_closed (hClosed : run.buffer.closed = true) (hEmpty : run.buffer.queue = [])
    (a : ExposureRun.Action) : (run.effect a).buffer.queue = [] := by
  cases a with
  | start =>
    rw [ExposureRun.effect, ExposureBuffer.start, hClosed, Bool.or_true, if_pos rfl]
    exact hEmpty
  | tick => exact queue_flush (Or.inr hEmpty)
  | flush => exact queue_flush (Or.inr hEmpty)
  | close =>
    apply queue_flush
    exact Or.inr hEmpty
  | record input random clock =>
    rw [ExposureRun.effect, record_of_closed hClosed]
    exact hEmpty
  | sendSucceeded i => exact hEmpty
  | sendFailed i => exact hEmpty
  | settle => exact hEmpty

/-! ## The invariant -/

/-- Once `close` has been called, whatever has become of its promise. -/
structure Flushed (state : ClosingRun) : Prop where
  closed : 0 < state.waiting + state.returning + state.resolved → state.run.buffer.closed = true
  queue : 0 < state.waiting + state.returning + state.resolved → state.run.buffer.queue = []

theorem run_buffer (state : ClosingRun) (action : ExposureRun.Action) :
    (state.effect (.buffer action)).run = state.run.effect action := by
  cases action <;> rfl

/-- A step that leaves the calls of `close` as many as they were. -/
theorem Flushed.keep (h : Flushed state) (action : ExposureRun.Action)
    (hPromises : (state.effect (.buffer action)).waiting + (state.effect (.buffer action)).returning +
      (state.effect (.buffer action)).resolved = state.waiting + state.returning + state.resolved) :
    Flushed (state.effect (.buffer action)) where
  closed := by
    rw [hPromises, run_buffer]
    intro hCalled
    exact (Shut.step ⟨h.closed hCalled, rfl⟩ action).closed
  queue := by
    rw [hPromises, run_buffer]
    intro hCalled
    exact queue_of_closed (h.closed hCalled) (h.queue hCalled) action

theorem Flushed.step {a : Action} (h : Flushed state) (hEnabled : state.enabled a = true)
    (hWithin : closesIdle state a) : Flushed (state.effect a) := by
  cases a with
  | resolve =>
    have hReturning : 0 < state.returning := of_decide_eq_true hEnabled
    exact {
      closed := fun _ => h.closed (by omega)
      queue := fun _ => h.queue (by omega) }
  | buffer action =>
    cases action with
    | close =>
      have hClosed : Shut state.run.history { state.run with buffer := state.run.buffer.close } := ⟨rfl, rfl⟩
      exact {
        closed := fun _ => hClosed.flush.closed
        queue := fun _ => queue_flush (hWithin rfl) }
    | sendSucceeded i =>
      apply h.keep (.sendSucceeded i)
      simp only [effect, sendEnded]
      omega
    | settle =>
      apply h.keep .settle
      simp only [effect, sendEnded]
      omega
    | start => exact h.keep .start rfl
    | tick => exact h.keep .tick rfl
    | flush => exact h.keep .flush rfl
    | record input random clock => exact h.keep (.record input random clock) rfl
    | sendFailed i => exact h.keep (.sendFailed i) rfl

variable {options : ExposureBufferOptions}

theorem flushed_of_reachable (hReach : machine.Reachable closesIdle (new options) state) : Flushed state := by
  refine hReach.invariant Flushed ⟨fun h => absurd h (lt_irrefl 0), fun h => absurd h (lt_irrefl 0)⟩ ?_
  intro state a _ h hEnabled hWithin
  exact h.step hEnabled hWithin

theorem accounts_of_reachable (hReach : machine.Reachable Machine.anyStep (new options) state) :
    state.run.Accounts options := by
  refine hReach.invariant (fun state => state.run.Accounts options) (ExposureRun.accounts_new options) ?_
  intro state a _ h hEnabled _
  cases a with
  | buffer action =>
    change (state.effect (.buffer action)).run.Accounts options
    rw [run_buffer]
    exact h.step hEnabled
  | resolve => exact h

theorem shut_of_reachable {later : ClosingRun} (hShut : Shut history state.run)
    (hReach : machine.Reachable Machine.anyStep state later) : Shut history later.run := by
  refine hReach.invariant (fun later => Shut history later.run) hShut ?_
  intro later a _ h _ _
  cases a with
  | buffer action =>
    change Shut history (later.effect (.buffer action)).run
    rw [run_buffer]
    exact h.step action
  | resolve => exact h

/-- What holds from the moment a promise of `close` has resolved. -/
theorem close_flushes (hReach : machine.Reachable closesIdle (new options) state) (hResolved : 0 < state.resolved) :
    state.run.buffer.queue = [] ∧ state.run.handed.flatten = state.run.history ∧
      ∀ later, machine.Reachable Machine.anyStep state later → later.run.history = state.run.history := by
  have hFlushed := flushed_of_reachable hReach
  have hQueue : state.run.buffer.queue = [] := hFlushed.queue (by omega)
  have hOrder := (accounts_of_reachable (hReach.mono fun _ _ _ => trivial)).order
  rw [hQueue, List.append_nil] at hOrder
  have hShut : Shut state.run.history state.run := ⟨hFlushed.closed (by omega), rfl⟩
  exact ⟨hQueue, hOrder, fun later hLater => (shut_of_reachable hShut hLater).history⟩

open ExposureRun (pageView pairs)

/-- Two events, the first delivered and the second lost with the flush of `close`. -/
def tidyClose : List Action :=
  [.buffer (pageView (some "t")), .buffer .flush, .buffer (.sendSucceeded 0), .buffer (pageView (some "t")),
    .buffer .close, .buffer (.sendFailed 0), .buffer .settle, .resolve]

instance (state : ClosingRun) (a : Action) : Decidable (closesIdle state a) :=
  match a with
  | .buffer .close => decidable_of_iff (state.run.buffer.flushInFlight = false ∨ state.run.buffer.queue.isEmpty = true)
      (by simp [closesIdle])
  | .buffer .start | .buffer .tick | .buffer .flush | .buffer .settle | .buffer (.record _ _ _)
  | .buffer (.sendSucceeded _) | .buffer (.sendFailed _) | .resolve => isTrue (fun h => nomatch h)

theorem close_flushes_tidy : ∃ state,
    machine.runWithin (fun state a => decide (closesIdle state a)) (new pairs) tidyClose = some state ∧
      state.run.buffer.queue = [] ∧ state.run.handed.flatten = state.run.history ∧
      ∀ later, machine.Reachable Machine.anyStep state later → later.run.history = state.run.history := by
  have hResolves : (machine.runWithin (fun state a => decide (closesIdle state a)) (new pairs) tidyClose).map
      ClosingRun.resolved = some 1 := by decide +kernel
  obtain ⟨state, hRun, hOne⟩ := Option.map_eq_some_iff.mp hResolves
  have hReach : machine.Reachable closesIdle (new pairs) state :=
    Machine.Reachable.start.runWithin (fun _ _ _ hWithin => of_decide_eq_true hWithin) hRun
  exact ⟨state, hRun, close_flushes hReach (by omega)⟩

/-- The condition leaves out nothing that is harmless: where it fails, the promise can resolve at
once, with what waits behind the send still waiting. -/
theorem close_keeps_queue (hBusy : state.run.buffer.flushInFlight = true) (hWaiting : state.run.buffer.queue ≠ []) :
    ∃ state', machine.run state [.buffer .close, .resolve] = some state' ∧ 0 < state'.resolved ∧
      state'.run.buffer.queue ≠ [] := by
  have hQueue : (state.run.effect .close).buffer.queue = state.run.buffer.queue := by
    rw [ExposureRun.effect, ExposureRun.flush, ExposureBuffer.flush, if_pos (by simp [ExposureBuffer.close, hBusy])]
    rfl
  have hNothing : state.run.buffer.close.flush.2.isSome = false := by
    simp [ExposureBuffer.flush, ExposureBuffer.close, hBusy]
  have hReturning : (state.effect (.buffer .close)).returning = state.returning + 1 := by
    simp only [effect, closed, hNothing, Bool.false_eq_true, if_false]
  have hClose : machine.enabled state (.buffer .close) = true := rfl
  have hResolve : machine.enabled (state.effect (.buffer .close)) .resolve = true := by
    simp only [machine, enabled, hReturning, decide_eq_true_eq]
    omega
  refine ⟨(state.effect (.buffer .close)).effect .resolve, ?_, Nat.succ_pos _, ?_⟩
  · simp only [Machine.runWithin, hClose, Bool.and_true, if_true]
    exact if_pos hResolve
  · change (state.run.effect .close).buffer.queue ≠ []
    rw [hQueue]
    exact hWaiting

/-- An event that comes in while a send is on its way. -/
def lateEvent : List Action :=
  [.buffer (pageView (some "t")), .buffer .flush, .buffer (pageView (some "t")), .buffer .close, .resolve]

theorem close_leaves_late_event : ¬ ∀ options state, machine.Reachable Machine.anyStep (new options) state →
    0 < state.resolved → state.run.buffer.queue = [] ∧ state.run.handed.flatten = state.run.history ∧
      ∀ later, machine.Reachable Machine.anyStep state later → later.run.history = state.run.history := by
  intro hFlushes
  have hFacts : (machine.run (new pairs) lateEvent).map (fun state =>
      (state.resolved, state.run.buffer.queue.length)) = some (1, 1) := by decide +kernel
  obtain ⟨state, hRun, hFacts⟩ := Option.map_eq_some_iff.mp hFacts
  obtain ⟨hResolved, hQueued⟩ := Prod.mk.inj hFacts
  obtain ⟨hEmpty, _⟩ := hFlushes pairs state (Machine.reachable_of_run hRun) (by omega)
  rw [hEmpty] at hQueued
  cases hQueued

end ClosingRun

end Flagship.Sdk
