import Flagship.Core.Murmur

/-! # The shared encoding buffer

`encodeInto` stops where the buffer is full. Over any sequence of calls it never is, and what one
call leaves in the buffer does not reach the hash of another.
-/

namespace Flagship.Core.Murmur

open Lib

structure Call where
  input : CodeUnits
  seed : Int

/-- `encoder.encodeInto` with what it does in a buffer that is too small. -/
def encodeIntoSlice (input : CodeUnits) (buffer : List UInt8) : List UInt8 × Nat :=
  let bytes := CodeUnits.encodeWithin [0xef, 0xbf, 0xbd] buffer.length input.scalars
  (bytes ++ buffer.drop bytes.length, bytes.length)

def Call.scratch (call : Call) (scratch : List UInt8) : List UInt8 :=
  ensureCapacity scratch (call.input.length * MAX_BYTES_PER_CODE_UNIT)

def Call.run (call : Call) (scratch : List UInt8) : Int × List UInt8 :=
  let (scratch, written) := encodeIntoSlice call.input (call.scratch scratch)
  (murmurHash3x86_32 scratch call.seed (some written), scratch)

/-- The hashes of calls made one after another, and the buffer they leave. -/
def runCalls (scratch : List UInt8) : List Call → List Int × List UInt8
  | [] => ([], scratch)
  | call :: rest =>
    let (hash, scratch) := call.run scratch
    let (hashes, scratch) := runCalls scratch rest
    (hash :: hashes, scratch)

/-- The hash of the freshly allocated encoding. -/
def Call.plainHash (call : Call) : Int := murmurHash3x86_32 call.input.encode call.seed none

theorem ensureCapacity_length (scratch : List UInt8) (upperBound : Nat) :
    upperBound ≤ (ensureCapacity scratch upperBound).length ∧
      scratch.length ≤ (ensureCapacity scratch upperBound).length := by
  rw [ensureCapacity]
  split
  · rw [List.length_replicate]
    omega
  · omega

theorem encode_fits (call : Call) (scratch : List UInt8) :
    call.input.encode.length ≤ (call.scratch scratch).length :=
  Nat.le_trans (CodeUnits.encode_length_le call.input) (ensureCapacity_length scratch _).1

theorem encodeIntoSlice_length (input : CodeUnits) (buffer : List UInt8) :
    (encodeIntoSlice input buffer).1.length = buffer.length := by
  have hBound := CodeUnits.encodeWithin_length_le [0xef, 0xbf, 0xbd] buffer.length input.scalars
  rw [encodeIntoSlice, List.length_append, List.length_drop]
  omega

theorem encodeIntoSlice_eq {input : CodeUnits} {buffer : List UInt8} (h : input.encode.length ≤ buffer.length) :
    encodeIntoSlice input buffer = encodeInto input buffer := by
  rw [CodeUnits.encode_eq, CodeUnits.encodeWith] at h
  rw [encodeIntoSlice, encodeInto, CodeUnits.encode_eq, CodeUnits.encodeWith, CodeUnits.encodeWithin_eq h]

theorem run_eq (call : Call) (scratch : List UInt8) :
    call.run scratch = hashThrough scratch call.input call.seed := by
  rw [Call.run, encodeIntoSlice_eq (encode_fits call scratch)]
  rfl

theorem run_hash (call : Call) (scratch : List UInt8) : (call.run scratch).1 = call.plainHash := by
  rw [run_eq, hashThrough, encodeInto]
  exact murmurHash3x86_32_append _ _ call.seed

/-- What a call does with the buffer it finds. -/
structure Encodes (call : Call) (scratch : List UInt8) : Prop where
  bound : call.input.encode.length ≤ call.input.length * MAX_BYTES_PER_CODE_UNIT
  fits : call.input.encode.length ≤ (call.scratch scratch).length
  hash : (call.run scratch).1 = call.plainHash
  /-- The encoding is whole, from the first byte on, with the old bytes behind it. -/
  written : (call.run scratch).2 = call.input.encode ++ (call.scratch scratch).drop call.input.encode.length
  grows : scratch.length ≤ (call.run scratch).2.length

theorem encodes (call : Call) (scratch : List UInt8) : Encodes call scratch := by
  constructor
  case bound => exact CodeUnits.encode_length_le call.input
  case fits => exact encode_fits call scratch
  case hash => exact run_hash call scratch
  case written =>
    rw [run_eq]
    rfl
  case grows =>
    have hLength : (call.run scratch).2.length = (call.scratch scratch).length := encodeIntoSlice_length _ _
    rw [hLength]
    exact (ensureCapacity_length scratch _).2

theorem runCalls_hashes (calls : List Call) (scratch : List UInt8) :
    (runCalls scratch calls).1 = calls.map Call.plainHash := by
  induction calls generalizing scratch with
  | nil => rfl
  | cons call rest ih =>
    rw [List.map_cons, ← run_hash call scratch, ← ih (call.run scratch).2]
    rfl

/-- From the first buffer of the program, whatever was hashed before. -/
theorem shared_buffer_hashes_alike (calls : List Call) :
    (runCalls initialScratch calls).1 = calls.map Call.plainHash ∧
      (∀ before call after, calls = before ++ call :: after → Encodes call (runCalls initialScratch before).2) ∧
      ∀ call scratch scratch', (Call.run call scratch).1 = (Call.run call scratch').1 := by
  refine ⟨runCalls_hashes calls initialScratch, ?_, ?_⟩
  · intro before call after _
    exact encodes call _
  · intro call scratch scratch'
    rw [run_hash, run_hash]

end Flagship.Core.Murmur
