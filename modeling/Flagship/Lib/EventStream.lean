import Mathlib.Data.List.Basic

/-! # Event streams

How a browser reads `text/event-stream`, on bytes: every byte that the grammar looks at is
ASCII. A line ends at LF, CR or CRLF, a field is a name, a colon and a value, and an empty line
dispatches what the fields before it have gathered.
-/

namespace Flagship.Lib

abbrev Bytes := List UInt8

def ascii (text : String) : Bytes := text.toList.map fun c => UInt8.ofNat c.toNat

namespace EventStream

def LF : UInt8 := 0x0a

def CR : UInt8 := 0x0d

def COLON : UInt8 := 0x3a

def SPACE : UInt8 := 0x20

/-- The lines that end in a stream; `line` is what there is of the first, and an LF right after a
CR belongs to the end of the line before. -/
def lines (afterReturn : Bool) (line : Bytes) : Bytes → List Bytes
  | [] => []
  | b :: rest =>
    if b = LF then
      if afterReturn then lines false line rest else line :: lines false [] rest
    else if b = CR then line :: lines true [] rest
    else lines false (line ++ [b]) rest

structure Event where
  type : Bytes
  data : Bytes
  lastEventId : Bytes
deriving DecidableEq

structure Buffers where
  data : Bytes
  eventType : Bytes
  lastEventId : Bytes

def Buffers.empty : Buffers := { data := [], eventType := [], lastEventId := [] }

/-- The name and the value of a line; one space after the colon is not part of the value. -/
def field (line : Bytes) : Bytes × Bytes :=
  match line.dropWhile (· ≠ COLON) with
  | [] => (line, [])
  | _ :: value => (line.takeWhile (· ≠ COLON), if value.head? = some SPACE then value.tail else value)

namespace Buffers

/-- A `retry` field is about the connection and leaves the buffers as they are. -/
def process (buffers : Buffers) (name value : Bytes) : Buffers :=
  if name = ascii "event" then { buffers with eventType := value }
  else if name = ascii "data" then { buffers with data := buffers.data ++ value ++ [LF] }
  else if name = ascii "id" then if 0 ∈ value then buffers else { buffers with lastEventId := value }
  else buffers

def dispatch (buffers : Buffers) : Buffers × Option Event :=
  if buffers.data = [] then ({ buffers with eventType := [] }, none)
  else ({ buffers with data := [], eventType := [] }, some {
    type := if buffers.eventType = [] then ascii "message" else buffers.eventType
    data := buffers.data.dropLast
    lastEventId := buffers.lastEventId })

def step (buffers : Buffers) (line : Bytes) : Buffers × Option Event :=
  if line = [] then buffers.dispatch
  else if line.head? = some COLON then (buffers, none)
  else (buffers.process (field line).1 (field line).2, none)

end Buffers

/-- The events dispatched over some lines. -/
def interpret (buffers : Buffers) : List Bytes → List Event
  | [] => []
  | line :: rest => (buffers.step line).2.toList ++ interpret (buffers.step line).1 rest

def parse (stream : Bytes) : List Event := interpret .empty (lines false [] stream)

/-! ## Lines -/

variable {buffers : Buffers}

theorem lines_of_plain {line text : Bytes} (hPlain : ∀ b ∈ text, b ≠ LF ∧ b ≠ CR) (rest : Bytes) :
    lines false line (text ++ rest) = lines false (line ++ text) rest := by
  induction text generalizing line with
  | nil => rw [List.nil_append, List.append_nil]
  | cons b text ih =>
    obtain ⟨hNotLF, hNotCR⟩ := hPlain b List.mem_cons_self
    rw [List.cons_append, lines, if_neg hNotLF, if_neg hNotCR,
      ih fun c hMem => hPlain c (List.mem_cons_of_mem _ hMem), List.append_assoc, List.singleton_append]

theorem lines_ended {text : Bytes} (hPlain : ∀ b ∈ text, b ≠ LF ∧ b ≠ CR) (rest : Bytes) :
    lines false [] (text ++ LF :: rest) = text :: lines false [] rest := by
  rw [lines_of_plain hPlain, List.nil_append, lines, if_pos rfl]
  rfl

/-! ## Fields -/

theorem interpret_of_silent {line : Bytes} {after : Buffers} (h : buffers.step line = (after, none))
    (rest : List Bytes) : interpret buffers (line :: rest) = interpret after rest := by
  rw [interpret, h]
  rfl

theorem step_event {value : Bytes} :
    buffers.step (ascii "event: " ++ value) = ({ buffers with eventType := value }, none) := by
  have hName : ascii "event: " = [0x65, 0x76, 0x65, 0x6e, 0x74, 0x3a, 0x20] := by decide
  rw [hName]
  rfl

theorem step_data {value : Bytes} :
    buffers.step (ascii "data: " ++ value) = ({ buffers with data := buffers.data ++ value ++ [LF] }, none) := by
  have hName : ascii "data: " = [0x64, 0x61, 0x74, 0x61, 0x3a, 0x20] := by decide
  rw [hName]
  rfl

theorem step_id {value : Bytes} (hNoNull : 0 ∉ value) :
    buffers.step (ascii "id: " ++ value) = ({ buffers with lastEventId := value }, none) := by
  have hName : ascii "id: " = [0x69, 0x64, 0x3a, 0x20] := by decide
  have hStep : buffers.step ([0x69, 0x64, 0x3a, 0x20] ++ value) =
      (if 0 ∈ value then buffers else { buffers with lastEventId := value }, none) := rfl
  rw [hName, hStep, if_neg hNoNull]

theorem head_field {b : UInt8} {line : Bytes} (hNotComment : b ≠ COLON) : (field (b :: line)).1.head? = some b := by
  have hKeep : decide (b ≠ COLON) = true := decide_eq_true hNotComment
  unfold field
  split
  · rfl
  · rw [List.takeWhile_cons, if_pos hKeep, List.head?_cons]

/-- A line that is not empty is of no effect if its first byte starts no name of a field. -/
theorem step_of_unknown {line : Bytes} (hSome : line ≠ [])
    (hHead : ∀ b, line.head? = some b → b ≠ 0x64 ∧ b ≠ 0x65 ∧ b ≠ 0x69) : buffers.step line = (buffers, none) := by
  cases line with
  | nil => exact absurd rfl hSome
  | cons b line =>
    obtain ⟨hNotD, hNotE, hNotI⟩ := hHead b rfl
    rw [Buffers.step, if_neg hSome]
    split
    · rfl
    · rename_i hComment
      have hName : (field (b :: line)).1.head? = some b := head_field fun hColon => hComment (congrArg some hColon)
      have hFirst : ∀ {name : Bytes} {c : UInt8}, name.head? = some c → b ≠ c → (field (b :: line)).1 ≠ name := by
        intro name c hOther hDiffer hSame
        rw [hSame, hOther] at hName
        exact hDiffer (Option.some.inj hName).symm
      rw [Buffers.process, if_neg (hFirst (c := 0x65) (by decide) hNotE),
        if_neg (hFirst (c := 0x64) (by decide) hNotD), if_neg (hFirst (c := 0x69) (by decide) hNotI)]

end EventStream

end Flagship.Lib
