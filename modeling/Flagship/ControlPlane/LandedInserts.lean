import Flagship.ControlPlane.Backpressure

/-! # Inserts and the table

The inserts of a writer, with a list of those whose rows have got into the table. What the writer
counts as written is in the table, and the table holds rows of inserts, each taken once.
-/

namespace Flagship.ControlPlane

open Lib

theorem enqueue_writes (run : WriterRun) (rows : List ExposureRow) :
    (run.enqueue rows).1.writes = run.writes ++
      ((run.enqueue rows).1.writer.inFlight.drop run.writer.inFlight.length).map
        fun rows => { rows, stage := .inserting } := by
  have hEnqueues := WriterRun.enqueues_enqueue run rows
  generalize run.enqueue rows = after at hEnqueues ⊢
  cases hEnqueues with
  | empty hEmpty => simp
  | refused hFull => simp
  | taken hSome hRoom => simp

/-- The stage of an insert after which its rows have been counted. -/
def IsCounted (writer : WriterRun) (w : ℕ) : Prop :=
  writer.isAt w .counted = true ∨ writer.isAt w .settled = true

/-- The inserts in the table are inserts of the writer; those that were counted as written, each
counted once, are among them. -/
structure Landed (writer : WriterRun) (inserted : List ℕ) : Prop where
  once : inserted.Nodup
  made : ∀ w ∈ inserted, w < writer.writes.length
  fulfilled : ∀ w, writer.isAt w .fulfilled = true → w ∈ inserted
  written : ∃ credited : List ℕ, credited.Nodup ∧ credited ⊆ inserted ∧ (∀ w ∈ credited, IsCounted writer w) ∧
    writer.written = tally (fun w => (writer.rowsOf w).length) credited

variable {writer writer' : WriterRun} {inserted : List ℕ}

theorem Landed.inserts (h : Landed writer inserted) {w : ℕ} (hMade : w < writer.writes.length) (hNew : w ∉ inserted) :
    Landed writer (inserted ++ [w]) := by
  obtain ⟨credited, hNodup, hSubset, hCounted, hWritten⟩ := h.written
  constructor
  case once => exact List.nodup_append'.mpr ⟨h.once, List.nodup_singleton w, by simpa using hNew⟩
  case made =>
    intro v hMem
    rcases List.mem_append.mp hMem with hOld | hHere
    · exact h.made v hOld
    · exact List.mem_singleton.mp hHere ▸ hMade
  case fulfilled => exact fun v hFulfilled => List.mem_append_left _ (h.fulfilled v hFulfilled)
  case written => exact ⟨credited, hNodup, fun v hMem => List.mem_append_left _ (hSubset hMem), hCounted, hWritten⟩

theorem Landed.enqueued (h : Landed writer inserted) (rows : List ExposureRow) :
    Landed (writer.enqueue rows).1 inserted := by
  have hWrites := enqueue_writes writer rows
  generalize (writer.enqueue rows).1.writer.inFlight.drop writer.writer.inFlight.length = made at hWrites
  have hCount : (writer.enqueue rows).1.written = writer.written := rfl
  have hOld : ∀ w < writer.writes.length, (writer.enqueue rows).1.writes[w]? = writer.writes[w]? := by
    intro w hBelow
    rw [hWrites, List.getElem?_append_left hBelow]
  have hStage : ∀ w < writer.writes.length, ∀ stage,
      (writer.enqueue rows).1.isAt w stage = writer.isAt w stage := by
    intro w hBelow stage
    rw [WriterRun.isAt, WriterRun.isAt, hOld w hBelow]
  obtain ⟨credited, hNodup, hSubset, hCounted, hWritten⟩ := h.written
  constructor
  case once => exact h.once
  case made =>
    intro w hMem
    have hBelow := h.made w hMem
    rw [hWrites, List.length_append]
    omega
  case fulfilled =>
    intro w hFulfilled
    by_cases hBelow : w < writer.writes.length
    · exact h.fulfilled w (hStage w hBelow .fulfilled ▸ hFulfilled)
    · obtain ⟨write, hWrite, hIs⟩ := Option.map_eq_some_iff.mp (of_decide_eq_true hFulfilled)
      rw [hWrites, List.getElem?_append_right (not_lt.mp hBelow)] at hWrite
      obtain ⟨taken, _, rfl⟩ := List.mem_map.mp (List.mem_of_getElem? hWrite)
      cases hIs
  case written =>
    refine ⟨credited, hNodup, hSubset, fun w hMem => ?_, ?_⟩
    · have hBelow := h.made w (hSubset hMem)
      rw [IsCounted, hStage w hBelow, hStage w hBelow]
      exact hCounted w hMem
    · rw [hCount, hWritten]
      refine tally_eq_of_forall fun w hMem => ?_
      rw [WriterRun.rowsOf, WriterRun.rowsOf, hOld w (h.made w (hSubset hMem))]

structure Moves (writer : WriterRun) (i : ℕ) (stage : WriteStage) (writer' : WriterRun) : Prop where
  length : writer'.writes.length = writer.writes.length
  rowsOf : ∀ w, writer'.rowsOf w = writer.rowsOf w
  here : ∀ stage', writer'.isAt i stage' = true → stage' = stage
  now : writer'.isAt i stage = true
  elsewhere : ∀ w, w ≠ i → ∀ stage', writer'.isAt w stage' = writer.isAt w stage'

theorem moves_of_isAt {i : ℕ} {before : WriteStage} (h : writer.isAt i before = true) (stage : WriteStage)
    (hWrites : writer'.writes = (writer.setStage i stage).writes) : Moves writer i stage writer' := by
  obtain ⟨write, hWrite, _, _, hSet⟩ := WriterRun.exists_of_isAt h
  rw [hSet] at hWrites
  have hHere : writer'.writes[i]? = some { write with stage } := by
    rw [hWrites, List.getElem?_set_self (List.getElem?_eq_some_iff.mp hWrite).1]
  have hElsewhere : ∀ w, w ≠ i → writer'.writes[w]? = writer.writes[w]? := by
    intro w hOther
    rw [hWrites, List.getElem?_set_ne (Ne.symm hOther)]
  constructor
  case length => rw [hWrites, List.length_set]
  case rowsOf =>
    intro w
    rw [WriterRun.rowsOf, WriterRun.rowsOf]
    by_cases hSame : w = i
    · rw [hSame, hHere, hWrite]
      rfl
    · rw [hElsewhere w hSame]
  case here =>
    intro stage' hAt
    have hStage := of_decide_eq_true hAt
    rw [hHere] at hStage
    exact (Option.some.inj hStage).symm
  case now => exact decide_eq_true (by rw [hHere]; rfl)
  case elsewhere =>
    intro w hOther stage'
    rw [WriterRun.isAt, WriterRun.isAt, hElsewhere w hOther]

theorem moves_effect {a : WriterRun.Action} (hEnabled : writer.enabled a = true)
    (hNotEnqueue : ∀ rows, a ≠ .enqueue rows) : ∃ i stage, Moves writer i stage (writer.effect a) := by
  cases a with
  | enqueue rows => exact absurd rfl (hNotEnqueue rows)
  | insertFulfilled i => exact ⟨i, _, moves_of_isAt hEnabled .fulfilled rfl⟩
  | insertRejected i => exact ⟨i, _, moves_of_isAt hEnabled .rejected rfl⟩
  | countWritten i => exact ⟨i, _, moves_of_isAt hEnabled .counted rfl⟩
  | countFailed i => exact ⟨i, _, moves_of_isAt hEnabled .counted rfl⟩
  | release i => exact ⟨i, _, moves_of_isAt hEnabled .settled rfl⟩

/-- A move that counts nothing as written. -/
theorem Landed.moved (h : Landed writer inserted) {i : ℕ} {stage : WriteStage} (hMoves : Moves writer i stage writer')
    (hFulfilled : stage = .fulfilled → i ∈ inserted)
    (hStays : IsCounted writer i → stage = .counted ∨ stage = .settled) (hWritten : writer'.written = writer.written) :
    Landed writer' inserted := by
  obtain ⟨credited, hNodup, hSubset, hCounted, hSum⟩ := h.written
  constructor
  case once => exact h.once
  case made => exact fun w hMem => hMoves.length ▸ h.made w hMem
  case fulfilled =>
    intro w hAt
    by_cases hSame : w = i
    · subst hSame
      exact hFulfilled (hMoves.here _ hAt).symm
    · exact h.fulfilled w (hMoves.elsewhere w hSame _ ▸ hAt)
  case written =>
    refine ⟨credited, hNodup, hSubset, fun w hMem => ?_, ?_⟩
    · by_cases hSame : w = i
      · subst hSame
        rcases hStays (hCounted w hMem) with rfl | rfl
        · exact Or.inl hMoves.now
        · exact Or.inr hMoves.now
      · rw [IsCounted, hMoves.elsewhere w hSame, hMoves.elsewhere w hSame]
        exact hCounted w hMem
    · rw [hWritten, hSum]
      exact tally_eq_of_forall fun w _ => by rw [hMoves.rowsOf w]

/-- The rows of an insert that succeeded are counted as written. -/
theorem Landed.counted (h : Landed writer inserted) {i : ℕ} (hMoves : Moves writer i .counted writer')
    (hBefore : writer.isAt i .fulfilled = true)
    (hWritten : writer'.written = writer.written + (writer.rowsOf i).length) : Landed writer' inserted := by
  obtain ⟨credited, hNodup, hSubset, hCounted, hSum⟩ := h.written
  have hStage := of_decide_eq_true hBefore
  have hNew : i ∉ credited := by
    intro hMem
    rcases hCounted i hMem with hAt | hAt
    · rw [of_decide_eq_true hAt] at hStage
      cases hStage
    · rw [of_decide_eq_true hAt] at hStage
      cases hStage
  constructor
  case once => exact h.once
  case made => exact fun w hMem => hMoves.length ▸ h.made w hMem
  case fulfilled =>
    intro w hAt
    by_cases hSame : w = i
    · subst hSame
      cases hMoves.here _ hAt
    · exact h.fulfilled w (hMoves.elsewhere w hSame _ ▸ hAt)
  case written =>
    refine ⟨i :: credited, List.nodup_cons.mpr ⟨hNew, hNodup⟩, ?_, fun w hMem => ?_, ?_⟩
    · exact List.cons_subset.mpr ⟨h.fulfilled i hBefore, hSubset⟩
    · by_cases hSame : w = i
      · exact hSame ▸ Or.inl hMoves.now
      · rw [IsCounted, hMoves.elsewhere w hSame, hMoves.elsewhere w hSame]
        exact hCounted w ((List.mem_cons.mp hMem).resolve_left hSame)
    · have hSame : tally (fun w => (writer'.rowsOf w).length) credited =
          tally (fun w => (writer.rowsOf w).length) credited :=
        tally_eq_of_forall fun w _ => by rw [hMoves.rowsOf w]
      rw [tally, List.map_cons, List.sum_cons, hMoves.rowsOf i, hWritten, hSum, ← hSame, Nat.add_comm]
      rfl

theorem Landed.step (h : Landed writer inserted) {a : WriterRun.Action} (hEnabled : writer.enabled a = true)
    (hNotEnqueue : ∀ rows, a ≠ .enqueue rows) (hInserted : ∀ i, a = .insertFulfilled i → i ∈ inserted) :
    Landed (writer.effect a) inserted := by
  have hNotCounted : ∀ {i stage}, writer.isAt i stage = true → stage ≠ .counted → stage ≠ .settled →
      ¬ IsCounted writer i := by
    rintro i stage hAt hCounted hSettled (hOther | hOther)
    · exact hCounted (Option.some.inj ((of_decide_eq_true hAt).symm.trans (of_decide_eq_true hOther)))
    · exact hSettled (Option.some.inj ((of_decide_eq_true hAt).symm.trans (of_decide_eq_true hOther)))
  have hSame : ∀ i stage, (writer.setStage i stage).written = writer.written := by
    intro i stage
    rw [WriterRun.setStage]
    split <;> rfl
  cases a with
  | enqueue rows => exact absurd rfl (hNotEnqueue rows)
  | insertFulfilled i =>
    refine h.moved (moves_of_isAt hEnabled .fulfilled rfl) (fun _ => hInserted i rfl) (fun hCounted => ?_) (hSame _ _)
    exact absurd hCounted (hNotCounted hEnabled (by decide) (by decide))
  | insertRejected i =>
    refine h.moved (moves_of_isAt hEnabled .rejected rfl) (fun hNever => by cases hNever) (fun hCounted => ?_)
      (hSame _ _)
    exact absurd hCounted (hNotCounted hEnabled (by decide) (by decide))
  | countWritten i => exact h.counted (moves_of_isAt hEnabled .counted rfl) hEnabled rfl
  | countFailed i =>
    exact h.moved (moves_of_isAt hEnabled .counted rfl) (fun hNever => by cases hNever) (fun _ => Or.inl rfl)
      (hSame _ _)
  | release i =>
    exact h.moved (moves_of_isAt hEnabled .settled rfl) (fun hNever => by cases hNever) (fun _ => Or.inr rfl)
      (hSame _ _)

theorem tally_writes (writer : WriterRun) (weight : List ExposureRow → ℕ) :
    tally (fun w => weight (writer.rowsOf w)) (List.range writer.writes.length) =
      tally (fun write => weight write.rows) writer.writes :=
  tally_range (fun write => weight ((write.map Write.rows).getD [])) writer.writes

theorem Moves.tally_rows {i : ℕ} {stage : WriteStage} (h : Moves writer i stage writer')
    (weight : List ExposureRow → ℕ) :
    tally (fun write => weight write.rows) writer'.writes = tally (fun write => weight write.rows) writer.writes := by
  rw [← tally_writes, ← tally_writes, h.length]
  exact tally_eq_of_forall fun w _ => by rw [h.rowsOf w]

/-- Each row of the table is a row of an insert, taken once. -/
theorem Landed.stored_le (h : Landed writer inserted) (weight : ExposureRow → ℕ) :
    tally weight (inserted.flatMap writer.rowsOf) ≤ tally (fun write => tally weight write.rows) writer.writes := by
  have hPlaces : inserted ⊆ List.range writer.writes.length := fun w hMem => List.mem_range.mpr (h.made w hMem)
  calc
    tally weight (inserted.flatMap writer.rowsOf) = tally (fun w => tally weight (writer.rowsOf w)) inserted :=
      tally_flatMap weight writer.rowsOf inserted
    _ ≤ tally (fun w => tally weight (writer.rowsOf w)) (List.range writer.writes.length) :=
      tally_le_of_subset h.once hPlaces
    _ = tally (fun write => tally weight write.rows) writer.writes := tally_writes writer (tally weight)

theorem Landed.written_le (h : Landed writer inserted) :
    writer.written ≤ (inserted.flatMap writer.rowsOf).length := by
  obtain ⟨credited, hNodup, hSubset, _, hWritten⟩ := h.written
  rw [length_eq_tally, tally_flatMap, hWritten]
  calc
    tally (fun w => (writer.rowsOf w).length) credited ≤ tally (fun w => (writer.rowsOf w).length) inserted :=
      tally_le_of_subset hNodup hSubset
    _ = tally (fun w => tally (fun _ => 1) (writer.rowsOf w)) inserted :=
      tally_eq_of_forall fun w _ => length_eq_tally (writer.rowsOf w)

end Flagship.ControlPlane
