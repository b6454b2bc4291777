import Flagship.ControlPlane.Ingest
import Flagship.Lib.Doubles
import Flagship.Lib.Tally
import Flagship.Lib.Transition

/-! # Backpressure of the exposure writer

`ExposureWriter` of `apps/control-plane/src/exposures.ts` over time. An insert ends either way and
at any time; the handlers chained to it run after it one by one, and calls of `enqueue` come
between any two of them.
-/

namespace Flagship.ControlPlane

open Lib

/-- How far the promise chain of an insert has come: `fulfilled` before its `then`, `rejected`
before its `catch`, `counted` before its `finally`. -/
inductive WriteStage where
  | inserting
  | fulfilled
  | rejected
  | counted
  | settled
deriving DecidableEq

structure Write where
  rows : List ExposureRow
  stage : WriteStage

structure WriterStats where
  accepted : ℕ
  refused : ℕ
  written : ℕ
  failed : ℕ
  inFlightRows : ℕ

/-- The `finally` of a write. -/
def ExposureWriter.release (writer : ExposureWriter) (rows : List ExposureRow) : ExposureWriter :=
  { writer with inFlightRows := writer.inFlightRows - rows.length, inFlight := writer.inFlight.erase rows }

/-- The condition on which the loop of `drain` ends. -/
def ExposureWriter.drained (writer : ExposureWriter) : Bool := writer.inFlight.isEmpty

structure WriterRun where
  writer : ExposureWriter
  written : ℕ
  failed : ℕ
  /-- Every insert that was ever made. -/
  writes : List Write

namespace WriterRun

def new (maxInFlightRows : Option Number) : WriterRun where
  writer := {
    maxInFlightRows := maxInFlightRows.getD (.ofNat 50000)
    inFlight := []
    inFlightRows := 0
    accepted := 0
    refused := 0 }
  written := 0
  failed := 0
  writes := []

inductive Action where
  | enqueue (rows : List ExposureRow)
  | insertFulfilled (i : ℕ)
  | insertRejected (i : ℕ)
  | countWritten (i : ℕ)
  | countFailed (i : ℕ)
  | release (i : ℕ)

variable (run : WriterRun)

def stats : WriterStats where
  accepted := run.writer.accepted
  refused := run.writer.refused
  written := run.written
  failed := run.failed
  inFlightRows := run.writer.inFlightRows

def enqueue (rows : List ExposureRow) : WriterRun × Bool :=
  let (writer, taken) := run.writer.enqueue rows
  let made := if taken && !rows.isEmpty then [{ rows, stage := .inserting }] else []
  ({ run with writer, writes := run.writes ++ made }, taken)

def rowsOf (i : ℕ) : List ExposureRow := (run.writes[i]?.map Write.rows).getD []

def setStage (i : ℕ) (stage : WriteStage) : WriterRun :=
  match run.writes[i]? with
  | none => run
  | some write => { run with writes := run.writes.set i { write with stage } }

def isAt (i : ℕ) (stage : WriteStage) : Bool := decide (run.writes[i]?.map Write.stage = some stage)

def enabled : Action → Bool
  | .enqueue _ => true
  | .insertFulfilled i | .insertRejected i => run.isAt i .inserting
  | .countWritten i => run.isAt i .fulfilled
  | .countFailed i => run.isAt i .rejected
  | .release i => run.isAt i .counted

def effect : Action → WriterRun
  | .enqueue rows => (run.enqueue rows).1
  | .insertFulfilled i => run.setStage i .fulfilled
  | .insertRejected i => run.setStage i .rejected
  | .countWritten i => { run.setStage i .counted with written := run.written + (run.rowsOf i).length }
  | .countFailed i => { run.setStage i .counted with failed := run.failed + (run.rowsOf i).length }
  | .release i => { run.setStage i .settled with writer := run.writer.release (run.rowsOf i) }

def machine : Machine WriterRun Action where
  enabled := enabled
  effect := effect

/-- No `then`, `catch` or `finally` is left to run for an insert that has ended. -/
def NoHandlerPending : Prop := ∀ write ∈ run.writes, write.stage = .inserting ∨ write.stage = .settled

end WriterRun

/-! ## The rows of the writes -/

namespace Write

def size (write : Write) : ℕ := write.rows.length

def isTracked (write : Write) : Bool := decide (write.stage ≠ .settled)

/-- The rows of a write that has not settled. -/
def unsettled (write : Write) : ℕ := if write.isTracked then write.size else 0

/-- The rows of a write that neither `then` nor `catch` has counted. -/
def uncounted (write : Write) : ℕ :=
  match write.stage with
  | .inserting | .fulfilled | .rejected => write.size
  | .counted | .settled => 0

end Write

namespace WriterRun

variable {run : WriterRun}

/-- An enabled handler finds its write, and moves it on. -/
theorem exists_of_isAt {i : ℕ} {stage : WriteStage} (h : run.isAt i stage = true) :
    ∃ write, run.writes[i]? = some write ∧ write.stage = stage ∧ run.rowsOf i = write.rows ∧
      ∀ stage', run.setStage i stage' = { run with writes := run.writes.set i { write with stage := stage' } } := by
  obtain ⟨write, hWrite, hStage⟩ := Option.map_eq_some_iff.mp (of_decide_eq_true h)
  exact ⟨write, hWrite, hStage, by simp [rowsOf, hWrite], fun stage' => by simp [setStage, hWrite]⟩

/-- A call of `enqueue` takes its batch whole or refuses it whole. -/
inductive Enqueues (run : WriterRun) (rows : List ExposureRow) : WriterRun × Bool → Prop where
  | empty (hEmpty : rows = []) : Enqueues run rows (run, true)
  | refused (hFull : run.writer.maxInFlightRows.lt (.ofNat (run.writer.inFlightRows + rows.length)) = true) :
      Enqueues run rows
        ({ run with writer := { run.writer with refused := run.writer.refused + rows.length } }, false)
  | taken (hSome : rows ≠ [])
      (hRoom : run.writer.maxInFlightRows.lt (.ofNat (run.writer.inFlightRows + rows.length)) = false) :
      Enqueues run rows
        ({ run with
            writer := { run.writer with
              inFlight := run.writer.inFlight ++ [rows]
              inFlightRows := run.writer.inFlightRows + rows.length
              accepted := run.writer.accepted + rows.length }
            writes := run.writes ++ [{ rows, stage := .inserting }] }, true)

theorem enqueues_enqueue (run : WriterRun) (rows : List ExposureRow) : Enqueues run rows (run.enqueue rows) := by
  rw [enqueue, ExposureWriter.enqueue]
  cases rows with
  | nil =>
    have hNothing : Enqueues run [] (run, true) := .empty rfl
    simpa using hNothing
  | cons row rest =>
    cases hFull : run.writer.maxInFlightRows.lt (.ofNat (run.writer.inFlightRows + (row :: rest).length)) with
    | true =>
      have hRefused := Enqueues.refused hFull
      simpa [hFull] using hRefused
    | false =>
      have hTaken := Enqueues.taken (List.cons_ne_nil row rest) hFull
      simpa [hFull] using hTaken

/-! ## The invariant -/

structure Balanced (maxInFlightRows : Number) (run : WriterRun) : Prop where
  limit : run.writer.maxInFlightRows = maxInFlightRows
  tracked : run.writer.inFlight.Perm ((run.writes.filter Write.isTracked).map Write.rows)
  inFlightRows : run.writer.inFlightRows = tally Write.unsettled run.writes
  bounded : (Number.ofNat run.writer.inFlightRows).le maxInFlightRows = true
  accepted : run.writer.accepted = tally Write.size run.writes
  counted : run.written + run.failed + tally Write.uncounted run.writes = run.writer.accepted

variable {maxInFlightRows : Number}

theorem balanced_new {option : Option Number} (hLimit : (Number.ofNat 1).le (option.getD (.ofNat 50000)) = true) :
    (new option).Balanced (option.getD (.ofNat 50000)) := by
  exact ⟨rfl, List.Perm.refl _, rfl, Number.ofNat_le_of_le (Nat.zero_le 1) hLimit, rfl, rfl⟩

theorem Balanced.enqueued (h : run.Balanced maxInFlightRows) (rows : List ExposureRow) :
    (run.enqueue rows).1.Balanced maxInFlightRows := by
  have hEnqueues := enqueues_enqueue run rows
  generalize run.enqueue rows = after at hEnqueues ⊢
  cases hEnqueues with
  | empty hEmpty => exact h
  | refused hFull => exact ⟨h.limit, h.tracked, h.inFlightRows, h.bounded, h.accepted, h.counted⟩
  | taken hSome hRoom =>
    have hInFlight := h.inFlightRows
    have hAccepted := h.accepted
    have hCounted := h.counted
    constructor
    case limit => exact h.limit
    case tracked =>
      rw [List.filter_append, List.map_append]
      exact h.tracked.append_right _
    case inFlightRows =>
      simp only [tally_append, tally_singleton, Write.unsettled, Write.isTracked, Write.size]
      simpa using hInFlight
    case bounded =>
      rw [h.limit] at hRoom
      exact Number.le_of_lt_eq_false (Number.ne_nan_of_le h.bounded) Number.noConfusion hRoom
    case accepted =>
      simp only [tally_append, tally_singleton, Write.size]
      omega
    case counted =>
      simp only [tally_append, tally_singleton, Write.uncounted, Write.size]
      omega

/-- A handler that settles nothing: what it counts is what leaves the uncounted rows. -/
theorem Balanced.counts (h : run.Balanced maxInFlightRows) {i : ℕ} {write : Write} {stage : WriteStage}
    (hWrite : run.writes[i]? = some write) (hBefore : write.stage ≠ .settled) (hAfter : stage ≠ .settled)
    {written failed : ℕ}
    (hCounts : written + failed + Write.uncounted { write with stage } =
      run.written + run.failed + write.uncounted) :
    Balanced maxInFlightRows { run with
      writes := run.writes.set i { write with stage }
      written
      failed } := by
  have hTracked : Write.isTracked { write with stage } = write.isTracked := by
    simp [Write.isTracked, hBefore, hAfter]
  have hUnsettled := tally_set Write.unsettled hWrite { write with stage }
  have hSize := tally_set Write.size hWrite { write with stage }
  have hUncounted := tally_set Write.uncounted hWrite { write with stage }
  have hSame : Write.unsettled { write with stage } = write.unsettled := by
    simp only [Write.unsettled, hTracked]
    rfl
  have hSameSize : Write.size { write with stage } = write.size := rfl
  have hInFlight := h.inFlightRows
  have hAccepted := h.accepted
  have hCounted := h.counted
  constructor
  case limit => exact h.limit
  case tracked =>
    rw [filter_map_set Write.rows hWrite hTracked rfl]
    exact h.tracked
  case inFlightRows =>
    dsimp only
    omega
  case bounded => exact h.bounded
  case accepted =>
    dsimp only
    omega
  case counted =>
    dsimp only
    omega

theorem Balanced.released (h : run.Balanced maxInFlightRows) {i : ℕ} {write : Write}
    (hWrite : run.writes[i]? = some write) (hStage : write.stage = .counted) :
    Balanced maxInFlightRows { run with
      writes := run.writes.set i { write with stage := .settled }
      writer := run.writer.release write.rows } := by
  have hUnsettled := tally_set Write.unsettled hWrite { write with stage := .settled }
  have hSize := tally_set Write.size hWrite { write with stage := .settled }
  have hUncounted := tally_set Write.uncounted hWrite { write with stage := .settled }
  have hBefore : write.unsettled = write.rows.length := by
    simp [Write.unsettled, Write.isTracked, hStage, Write.size]
  have hAfter : Write.unsettled { write with stage := .settled } = 0 := by
    simp [Write.unsettled, Write.isTracked]
  have hNothing : write.uncounted = 0 := by simp [Write.uncounted, hStage]
  have hStill : Write.uncounted { write with stage := .settled } = 0 := rfl
  have hSameSize : Write.size { write with stage := .settled } = write.size := rfl
  have hInFlight := h.inFlightRows
  have hAccepted := h.accepted
  have hCounted := h.counted
  have hRows : (run.writer.release write.rows).inFlightRows + write.rows.length = run.writer.inFlightRows := by
    change run.writer.inFlightRows - write.rows.length + write.rows.length = _
    omega
  have hRelease : (run.writer.release write.rows).accepted = run.writer.accepted := rfl
  constructor
  case limit => exact h.limit
  case tracked =>
    refine (h.tracked.erase write.rows).trans (filter_set_perm_erase Write.rows hWrite ?_ ?_).symm
    · simp [Write.isTracked, hStage]
    · simp [Write.isTracked]
  case inFlightRows =>
    dsimp only
    omega
  case bounded =>
    have hFewer : (run.writer.release write.rows).inFlightRows ≤ run.writer.inFlightRows := by omega
    exact Number.ofNat_le_of_le hFewer h.bounded
  case accepted =>
    dsimp only
    omega
  case counted =>
    dsimp only
    omega

theorem Balanced.step (h : run.Balanced maxInFlightRows) {a : Action} (hEnabled : run.enabled a = true) :
    (run.effect a).Balanced maxInFlightRows := by
  cases a with
  | enqueue rows => exact h.enqueued rows
  | insertFulfilled i =>
    obtain ⟨write, hWrite, hStage, _, hSet⟩ := exists_of_isAt hEnabled
    rw [effect, hSet]
    exact h.counts hWrite (by simp [hStage]) (by simp) (by simp [Write.uncounted, Write.size, hStage])
  | insertRejected i =>
    obtain ⟨write, hWrite, hStage, _, hSet⟩ := exists_of_isAt hEnabled
    rw [effect, hSet]
    exact h.counts hWrite (by simp [hStage]) (by simp) (by simp [Write.uncounted, Write.size, hStage])
  | countWritten i =>
    obtain ⟨write, hWrite, hStage, hRows, hSet⟩ := exists_of_isAt hEnabled
    rw [effect, hSet, hRows]
    refine h.counts hWrite (by simp [hStage]) (by simp) ?_
    simp only [Write.uncounted, Write.size, hStage]
    omega
  | countFailed i =>
    obtain ⟨write, hWrite, hStage, hRows, hSet⟩ := exists_of_isAt hEnabled
    rw [effect, hSet, hRows]
    refine h.counts hWrite (by simp [hStage]) (by simp) ?_
    simp only [Write.uncounted, Write.size, hStage]
    omega
  | release i =>
    obtain ⟨write, hWrite, hStage, hRows, hSet⟩ := exists_of_isAt hEnabled
    rw [effect, hSet, hRows]
    exact h.released hWrite hStage

theorem balanced_of_reachable {option : Option Number}
    (hLimit : (Number.ofNat 1).le (option.getD (.ofNat 50000)) = true)
    (h : machine.Reachable Machine.anyStep (new option) run) : run.Balanced (option.getD (.ofNat 50000)) := by
  refine h.invariant (fun run => run.Balanced (option.getD (.ofNat 50000))) (balanced_new hLimit) ?_
  intro run a _ hBalanced hEnabled _
  exact hBalanced.step hEnabled

/-! ## The books -/

theorem Balanced.accounted (h : run.Balanced maxInFlightRows) (hNone : run.NoHandlerPending) :
    run.stats.accepted = run.stats.written + run.stats.failed + run.stats.inFlightRows := by
  have hSame : tally Write.uncounted run.writes = tally Write.unsettled run.writes := by
    apply tally_eq_of_forall
    intro write hMem
    obtain hStage | hStage := hNone write hMem <;>
      simp [Write.uncounted, Write.unsettled, Write.isTracked, hStage]
  have hCounted := h.counted
  have hInFlight := h.inFlightRows
  simp only [stats]
  omega

theorem Balanced.settled (h : run.Balanced maxInFlightRows) (hDrained : run.writer.drained = true) :
    ∀ write ∈ run.writes, write.stage = .settled := by
  have hEmpty : run.writer.inFlight = [] := List.isEmpty_iff.mp hDrained
  have hNone := h.tracked.symm
  rw [hEmpty, List.perm_nil, List.map_eq_nil_iff, List.filter_eq_nil_iff] at hNone
  intro write hMem
  simpa [Write.isTracked] using hNone write hMem

/-- The batch is taken whole or refused whole, and every other counter stays as it is. -/
def EnqueuesWhole (run : WriterRun) (rows : List ExposureRow) : Prop :=
  (run.enqueue rows).2 = true ∧
      (run.enqueue rows).1.stats = { run.stats with
        accepted := run.stats.accepted + rows.length
        inFlightRows := run.stats.inFlightRows + rows.length } ∧
      (rows ≠ [] → (run.enqueue rows).1.writes = run.writes ++ [{ rows, stage := .inserting }]) ∨
    (run.enqueue rows).2 = false ∧
      (run.enqueue rows).1.stats = { run.stats with refused := run.stats.refused + rows.length } ∧
      (run.enqueue rows).1.writes = run.writes

theorem enqueuesWhole (run : WriterRun) (rows : List ExposureRow) : run.EnqueuesWhole rows := by
  have hEnqueues := enqueues_enqueue run rows
  rw [EnqueuesWhole]
  generalize run.enqueue rows = after at hEnqueues ⊢
  cases hEnqueues with
  | empty hEmpty =>
    subst hEmpty
    exact Or.inl ⟨rfl, rfl, fun h => absurd rfl h⟩
  | refused hFull => exact Or.inr ⟨rfl, rfl, rfl⟩
  | taken hSome hRoom => exact Or.inl ⟨rfl, rfl, fun _ => rfl⟩

/-- In every reachable state of a writer whose limit is at least one row. -/
theorem ingest_accounted {option : Option Number}
    (hLimit : (Number.ofNat 1).le (option.getD (.ofNat 50000)) = true)
    (h : machine.Reachable Machine.anyStep (new option) run) :
    run.stats.inFlightRows = tally Write.unsettled run.writes ∧
    (Number.ofNat run.stats.inFlightRows).le (option.getD (.ofNat 50000)) = true ∧
    (run.NoHandlerPending → run.stats.accepted = run.stats.written + run.stats.failed + run.stats.inFlightRows) ∧
    (∀ rows, run.EnqueuesWhole rows) ∧
    run.stats.accepted = tally Write.size run.writes ∧
    (run.writer.drained = true → ∀ write ∈ run.writes, write.stage = .settled) := by
  have hBalanced := balanced_of_reachable hLimit h
  exact ⟨hBalanced.inFlightRows, hBalanced.bounded, hBalanced.accounted, enqueuesWhole run, hBalanced.accepted,
    hBalanced.settled⟩

def pageRow : ExposureRow where
  tenantId := "acme"
  environmentKey := "production"
  flagKey := "checkout"
  variationKey := "on"
  contextKey := "user-1"
  rulesetVersion := .ofNat 3
  timestamp := "1970-01-01 00:00:00.000"
  dedupeKey := "user-1:checkout:3:1"

/-- A second batch is shed while the first is on its way, and the first then fails. -/
def shedding : List Action :=
  [.enqueue [pageRow], .enqueue [pageRow], .insertRejected 0, .countFailed 0, .release 0]

theorem ingest_accounted_shedding :
    ∃ run, machine.Reachable Machine.anyStep (new (some (.ofNat 1))) run ∧ run.stats.refused = 1 ∧
      run.stats.accepted = 1 ∧ ∀ write ∈ run.writes, write.stage = .settled := by
  have hCounters : (machine.run (new (some (.ofNat 1))) shedding).map
      (fun run => (run.stats.refused, run.stats.accepted, run.writer.drained)) = some (1, 1, true) := by
    decide +kernel
  obtain ⟨run, hRun, hStats⟩ := Option.map_eq_some_iff.mp hCounters
  obtain ⟨hRefused, hAccepted, hDrained⟩ :
      run.stats.refused = 1 ∧ run.stats.accepted = 1 ∧ run.writer.drained = true := by
    simpa using hStats
  have hReachable := Machine.reachable_of_run hRun
  have hLimit : (Number.ofNat 1).le ((some (Number.ofNat 1)).getD (.ofNat 50000)) = true := by decide +kernel
  exact ⟨run, hReachable, hRefused, hAccepted, (ingest_accounted hLimit hReachable).2.2.2.2.2 hDrained⟩

end WriterRun

end Flagship.ControlPlane
