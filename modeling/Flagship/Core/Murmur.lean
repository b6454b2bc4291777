import Flagship.Lib.Int32
import Flagship.Lib.MurmurHash3
import Flagship.Lib.Utf16
import Mathlib.Data.List.GetD

/-! # MurmurHash3 x86_32, the reference implementation

The operators of `packages/core/src/murmur.ts`, with every `>>> 0` where the source has it. A
read outside the buffer gives `undefined`, which every bitwise operator takes for zero.
-/

namespace Flagship.Core.Murmur

open Lib Lib.Int32

def C1 : Int := 0xcc9e2d51

def C2 : Int := 0x1b873593

def rotl32 (x : Int) (r : Nat) : Int :=
  shiftRight (bitOr (shiftLeft x r) (shiftRight x (32 - r))) 0

def byteAt (data : List UInt8) (index : Nat) : Int := (data.getD index 0).toNat

def blockAt (data : List UInt8) (o : Nat) : Int :=
  shiftRight (bitOr (bitOr (bitOr (byteAt data o) (shiftLeft (byteAt data (o + 1)) 8))
    (shiftLeft (byteAt data (o + 2)) 16)) (shiftLeft (byteAt data (o + 3)) 24)) 0

def mixK1 (k1 : Int) : Int :=
  shiftRight (imul (rotl32 (shiftRight (imul k1 C1) 0) 15) C2) 0

def mixBlock (data : List UInt8) (h1 : Int) (i : Nat) : Int :=
  let k1 := mixK1 (blockAt data (i * 4))
  shiftRight (imul (rotl32 (shiftRight (bitXor h1 k1) 0) 13) 5 + 0xe6546b64) 0

/-- The switch on `len & 3`; each case falls through to the ones below it. -/
def mixTail (data : List UInt8) (len : Nat) (h1 : Int) : Int :=
  let tail := len / 4 * 4
  let third (k1 : Int) := bitXor k1 (shiftLeft (byteAt data (tail + 2)) 16)
  let second (k1 : Int) := bitXor k1 (shiftLeft (byteAt data (tail + 1)) 8)
  let first (k1 : Int) :=
    shiftRight (bitXor h1 (mixK1 (shiftRight (bitXor k1 (byteAt data tail)) 0))) 0
  match len % 4 with
  | 3 => first (second (third 0))
  | 2 => first (second 0)
  | 1 => first 0
  | _ => h1

def finalize (h1 : Int) : Int :=
  let h1 := shiftRight (bitXor h1 (shiftRight h1 16)) 0
  let h1 := shiftRight (imul h1 0x85ebca6b) 0
  let h1 := shiftRight (bitXor h1 (shiftRight h1 13)) 0
  let h1 := shiftRight (imul h1 0xc2b2ae35) 0
  shiftRight (bitXor h1 (shiftRight h1 16)) 0

def murmurHash3x86_32 (data : List UInt8) (seed : Int) (byteLength : Option Nat) : Int :=
  let len := byteLength.getD data.length
  let h1 := (List.range (len / 4)).foldl (mixBlock data) (shiftRight seed 0)
  finalize (shiftRight (bitXor (mixTail data len h1) len) 0)

def MAX_BYTES_PER_CODE_UNIT : Nat := 3

def initialScratch : List UInt8 := List.replicate 512 0

def ensureCapacity (scratch : List UInt8) (upperBound : Nat) : List UInt8 :=
  if scratch.length < upperBound then List.replicate (max upperBound (scratch.length * 2)) 0 else scratch

/-- `encoder.encodeInto`: the bytes written over the start of the buffer, and their number. -/
def encodeInto (input : CodeUnits) (buffer : List UInt8) : List UInt8 × Nat :=
  let bytes := input.encode
  (bytes ++ buffer.drop bytes.length, bytes.length)

/-- Hashes a string through the shared buffer and returns the buffer it leaves behind. -/
def hashThrough (scratch : List UInt8) (input : CodeUnits) (seed : Int) : Int × List UInt8 :=
  let scratch := ensureCapacity scratch (input.length * MAX_BYTES_PER_CODE_UNIT)
  let (scratch, written) := encodeInto input scratch
  (murmurHash3x86_32 scratch seed (some written), scratch)

def murmurHash3x86_32String (input : CodeUnits) (seed : Int) : Int :=
  (hashThrough initialScratch input seed).1

theorem murmurHash3x86_32_nonneg (data : List UInt8) (seed : Int) (byteLength : Option Nat) :
    0 ≤ murmurHash3x86_32 data seed byteLength := shiftRight_nonneg _ _

theorem murmurHash3x86_32String_nonneg (input : CodeUnits) (seed : Int) :
    0 ≤ murmurHash3x86_32String input seed := murmurHash3x86_32_nonneg _ _ _

/-! ## The port computes the reference hash -/

section Reference

theorem word_rotl32 (x : Int) {r : Nat} (h : r < 32) : word (rotl32 x r) = (word x).rotateLeft r := by
  rw [rotl32, word_shiftRight, word_bitOr, word_shiftLeft, word_shiftRight, BitVec.ushiftRight_zero,
    BitVec.rotateLeft_def, Nat.mod_eq_of_lt h]

theorem word_byteAt (data : List UInt8) (index : Nat) :
    word (byteAt data index) = MurmurHash3.byteAt data index := by
  rw [byteAt, word_natCast, MurmurHash3.byteAt, ← UInt8.toNat_toBitVec, BitVec.ofNat_toNat]

theorem word_blockAt (data : List UInt8) (o : Nat) : word (blockAt data o) = MurmurHash3.wordAt data o := by
  simp only [blockAt, word_shiftRight, word_bitOr, word_shiftLeft, word_byteAt, BitVec.ushiftRight_zero,
    MurmurHash3.wordAt]

theorem word_mixK1 (k1 : Int) : word (mixK1 k1) = MurmurHash3.scramble (word k1) := by
  rw [mixK1, word_shiftRight, word_imul, word_rotl32 _ (by decide), word_shiftRight, word_imul,
    BitVec.ushiftRight_zero, BitVec.ushiftRight_zero, MurmurHash3.scramble]
  rfl

theorem word_mixBlock (data : List UInt8) (h1 : Int) (i : Nat) :
    word (mixBlock data h1 i) = MurmurHash3.round (word h1) (MurmurHash3.wordAt data (i * 4)) := by
  rw [mixBlock, word_shiftRight, word_add, word_imul, word_rotl32 _ (by decide), word_shiftRight, word_bitXor,
    word_mixK1, word_blockAt, BitVec.ushiftRight_zero, BitVec.ushiftRight_zero, MurmurHash3.round]
  rfl

theorem word_mixTail (data : List UInt8) (len : Nat) (h1 : Int) :
    word (mixTail data len h1) =
      word h1 ^^^ MurmurHash3.scramble (MurmurHash3.tailAt data (len / 4 * 4) (len % 4)) := by
  have hZero : word 0 = 0#32 := rfl
  have hFour : len % 4 < 4 := Nat.mod_lt _ (by decide)
  rw [mixTail]
  match len % 4, hFour with
  | 0, _ => simp only [MurmurHash3.tailAt, MurmurHash3.scramble_zero, BitVec.xor_zero]
  | 1, _ =>
    simp only [word_shiftRight, word_bitXor, word_mixK1, word_byteAt, hZero, BitVec.ushiftRight_zero, BitVec.zero_xor,
      MurmurHash3.tailAt]
  | 2, _ =>
    simp only [word_shiftRight, word_shiftLeft, word_bitXor, word_mixK1, word_byteAt, hZero, BitVec.ushiftRight_zero,
      BitVec.zero_xor, MurmurHash3.tailAt]
  | 3, _ =>
    simp only [word_shiftRight, word_shiftLeft, word_bitXor, word_mixK1, word_byteAt, hZero, BitVec.ushiftRight_zero,
      BitVec.zero_xor, MurmurHash3.tailAt]

theorem finalize_eq (h1 : Int) : finalize h1 = (MurmurHash3.fmix (word h1)).toNat := by
  simp only [finalize, shiftRight_zero, word_bitXor, word_shiftRight, word_imul, word_natCast, BitVec.ofNat_toNat,
    BitVec.setWidth_eq, MurmurHash3.fmix]
  rfl

theorem word_loop (data : List UInt8) (blocks : List Nat) (h1 : Int) :
    word (blocks.foldl (mixBlock data) h1) =
      (blocks.map fun i => MurmurHash3.wordAt data (i * 4)).foldl MurmurHash3.round (word h1) := by
  induction blocks generalizing h1 with
  | nil => rfl
  | cons i rest ih => rw [List.foldl_cons, ih, word_mixBlock, List.map_cons, List.foldl_cons]

theorem murmurHash3x86_32_eq (data : List UInt8) (seed : Int) :
    murmurHash3x86_32 data seed none = (MurmurHash3.hash data (word seed)).toNat := by
  rw [murmurHash3x86_32, finalize_eq, Option.getD_none, word_shiftRight, word_bitXor, word_mixTail, word_loop,
    word_natCast, word_shiftRight, BitVec.ushiftRight_zero, BitVec.ushiftRight_zero, MurmurHash3.hash,
    MurmurHash3.blocks_eq, MurmurHash3.littleEndian_remainder]

end Reference

/-! ## Strings are hashed through the shared buffer -/

section Prefix

variable (bytes rest : List UInt8)

theorem byteAt_append {index : Nat} (h : index < bytes.length) :
    byteAt (bytes ++ rest) index = byteAt bytes index := by
  rw [byteAt, byteAt, List.getD_append _ _ _ _ h]

theorem mixBlock_append (h1 : Int) {i : Nat} (h : i < bytes.length / 4) :
    mixBlock (bytes ++ rest) h1 i = mixBlock bytes h1 i := by
  rw [mixBlock, mixBlock, blockAt, blockAt, byteAt_append bytes rest (by omega), byteAt_append bytes rest (by omega),
    byteAt_append bytes rest (by omega), byteAt_append bytes rest (by omega)]

theorem mixTail_append (h1 : Int) : mixTail (bytes ++ rest) bytes.length h1 = mixTail bytes bytes.length h1 := by
  have hSplit := Nat.div_add_mod' bytes.length 4
  have hFour : bytes.length % 4 < 4 := Nat.mod_lt _ (by decide)
  have hRead : ∀ index < bytes.length, byteAt (bytes ++ rest) index = byteAt bytes index :=
    fun _ h => byteAt_append bytes rest h
  rw [mixTail, mixTail]
  match bytes.length % 4, hSplit, hFour with
  | 0, _, _ => simp only
  | 1, hSplit, _ => simp only [hRead (bytes.length / 4 * 4) (by omega)]
  | 2, hSplit, _ =>
    simp only [hRead (bytes.length / 4 * 4) (by omega), hRead (bytes.length / 4 * 4 + 1) (by omega)]
  | 3, hSplit, _ =>
    simp only [hRead (bytes.length / 4 * 4) (by omega), hRead (bytes.length / 4 * 4 + 1) (by omega),
      hRead (bytes.length / 4 * 4 + 2) (by omega)]

/-- A hash of a prefix of the buffer sees nothing behind it. -/
theorem murmurHash3x86_32_append (seed : Int) :
    murmurHash3x86_32 (bytes ++ rest) seed (some bytes.length) = murmurHash3x86_32 bytes seed none := by
  have hBlocks : (List.range (bytes.length / 4)).foldl (mixBlock (bytes ++ rest)) (shiftRight seed 0) =
      (List.range (bytes.length / 4)).foldl (mixBlock bytes) (shiftRight seed 0) :=
    List.foldl_ext _ _ _ fun h1 i hMem => mixBlock_append bytes rest h1 (List.mem_range.mp hMem)
  rw [murmurHash3x86_32, murmurHash3x86_32, Option.getD_some, Option.getD_none, hBlocks, mixTail_append]

end Prefix

/-- The buffer's earlier contents do not matter. -/
theorem hashThrough_eq (scratch : List UInt8) (input : CodeUnits) (seed : Int) :
    (hashThrough scratch input seed).1 = (MurmurHash3.hash input.encode (word seed)).toNat := by
  rw [hashThrough, encodeInto]
  exact (murmurHash3x86_32_append _ _ seed).trans (murmurHash3x86_32_eq _ seed)

theorem murmurHash3x86_32String_eq (input : CodeUnits) (seed : Int) :
    murmurHash3x86_32String input seed = (MurmurHash3.hash input.encode (word seed)).toNat :=
  hashThrough_eq initialScratch input seed

end Flagship.Core.Murmur
