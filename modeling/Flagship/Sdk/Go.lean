import Flagship.Lib.MurmurHash3
import Flagship.Lib.Utf16
import Mathlib.Data.List.GetD

/-! # The hash and the rollouts of the Go SDK

`sdks/go/murmur.go` and `sdks/go/bucket.go`, on wrapping `uint32`. A slice read out of range would
panic; the reads below stay inside, and give zero elsewhere. A string that is hashed is its bytes.
-/

namespace Flagship.Sdk.Go

open Lib

def c1 : UInt32 := 0xcc9e2d51

def c2 : UInt32 := 0x1b873593

/-- `bits.RotateLeft32`, for a count strictly between 0 and 32. -/
def rotateLeft32 (x k : UInt32) : UInt32 := x <<< k ||| x >>> (32 - k)

def byteAt (data : List UInt8) (index : Nat) : UInt32 := (data.getD index 0).toUInt32

def blockAt (data : List UInt8) (o : Nat) : UInt32 :=
  byteAt data o ||| byteAt data (o + 1) <<< 8 ||| byteAt data (o + 2) <<< 16 ||| byteAt data (o + 3) <<< 24

def mixK1 (k1 : UInt32) : UInt32 := rotateLeft32 (k1 * c1) 15 * c2

def mixBlock (data : List UInt8) (h1 : UInt32) (i : Nat) : UInt32 :=
  rotateLeft32 (h1 ^^^ mixK1 (blockAt data (i * 4))) 13 * 5 + 0xe6546b64

/-- The switch on `len(tail)`, each case falling through to the next. -/
def mixTail (tail : List UInt8) (h1 : UInt32) : UInt32 :=
  let third (k1 : UInt32) := k1 ^^^ byteAt tail 2 <<< 16
  let second (k1 : UInt32) := k1 ^^^ byteAt tail 1 <<< 8
  let first (k1 : UInt32) := h1 ^^^ mixK1 (k1 ^^^ byteAt tail 0)
  match tail.length with
  | 3 => first (second (third 0))
  | 2 => first (second 0)
  | 1 => first 0
  | _ => h1

def finalize (h1 : UInt32) : UInt32 :=
  let h1 := h1 ^^^ h1 >>> 16
  let h1 := h1 * 0x85ebca6b
  let h1 := h1 ^^^ h1 >>> 13
  let h1 := h1 * 0xc2b2ae35
  h1 ^^^ h1 >>> 16

def murmurHash3x86_32 (data : List UInt8) (seed : UInt32) : UInt32 :=
  let nblocks := data.length / 4
  let h1 := (List.range nblocks).foldl (mixBlock data) seed
  finalize (mixTail (data.drop (nblocks * 4)) h1 ^^^ UInt32.ofNat data.length)

def murmurHash3String (input : List UInt8) (seed : UInt32) : UInt32 := murmurHash3x86_32 input seed

def bucketSpace : UInt32 := 100000

def bucketSeparator : List UInt8 := utf8 ":"

def bucketingInput (flagKey salt bucketKey : List UInt8) : List UInt8 :=
  flagKey ++ bucketSeparator ++ salt ++ bucketSeparator ++ bucketKey

def bucketFor (flagKey salt bucketKey : List UInt8) : UInt32 :=
  murmurHash3String (bucketingInput flagKey salt bucketKey) 0 % bucketSpace

structure Distribution where
  variationKey : String
  weight : UInt32

def walkFrom (cumulative bucket : UInt32) : List Distribution → String × Bool
  | [] => ("", false)
  | entry :: rest =>
    let cumulative := cumulative + entry.weight
    if bucket < cumulative then (entry.variationKey, true) else walkFrom cumulative bucket rest

/-- `VariationForBucket`: the key, and whether there is one. -/
def variationForBucket (distribution : List Distribution) (bucket : UInt32) : String × Bool :=
  walkFrom 0 bucket distribution

/-! ## The port computes the reference hash -/

theorem toBitVec_rotateLeft32 (x : UInt32) {k : UInt32} (hPos : 0 < k.toNat) (hLt : k.toNat < 32) :
    (rotateLeft32 x k).toBitVec = x.toBitVec.rotateLeft k.toNat := by
  simp [rotateLeft32, UInt32.toBitVec_shiftRight, UInt32.toBitVec_shiftLeft, BitVec.rotateLeft_def,
    Nat.mod_eq_of_lt hLt]
  congr 2
  omega

theorem toBitVec_byteAt (data : List UInt8) (index : Nat) :
    (byteAt data index).toBitVec = MurmurHash3.byteAt data index := rfl

theorem toBitVec_blockAt (data : List UInt8) (o : Nat) :
    (blockAt data o).toBitVec = MurmurHash3.wordAt data o := by
  simp only [blockAt, UInt32.toBitVec_or, UInt32.toBitVec_shiftLeft, toBitVec_byteAt, MurmurHash3.wordAt]
  rfl

theorem toBitVec_mixK1 (k1 : UInt32) : (mixK1 k1).toBitVec = MurmurHash3.scramble k1.toBitVec := by
  rw [mixK1, UInt32.toBitVec_mul, toBitVec_rotateLeft32 _ (by decide) (by decide), UInt32.toBitVec_mul,
    MurmurHash3.scramble]
  rfl

theorem toBitVec_mixBlock (data : List UInt8) (h1 : UInt32) (i : Nat) :
    (mixBlock data h1 i).toBitVec = MurmurHash3.round h1.toBitVec (MurmurHash3.wordAt data (i * 4)) := by
  rw [mixBlock, UInt32.toBitVec_add, UInt32.toBitVec_mul, toBitVec_rotateLeft32 _ (by decide) (by decide),
    UInt32.toBitVec_xor, toBitVec_mixK1, toBitVec_blockAt, MurmurHash3.round]
  rfl

theorem toBitVec_shiftLeft_eight (x : UInt32) : (x <<< 8).toBitVec = x.toBitVec <<< 8 := rfl

theorem toBitVec_shiftLeft_sixteen (x : UInt32) : (x <<< 16).toBitVec = x.toBitVec <<< 16 := rfl

theorem toBitVec_mixTail (tail : List UInt8) (h1 : UInt32) (hShort : tail.length < 4) :
    (mixTail tail h1).toBitVec =
      h1.toBitVec ^^^ MurmurHash3.scramble (MurmurHash3.tailAt tail 0 tail.length) := by
  have hZero : (0 : UInt32).toBitVec = 0#32 := rfl
  rw [mixTail]
  match tail.length, hShort with
  | 0, _ => simp only [MurmurHash3.tailAt, MurmurHash3.scramble_zero, BitVec.xor_zero]
  | 1, _ =>
    simp only [UInt32.toBitVec_xor, toBitVec_mixK1, toBitVec_byteAt, hZero, BitVec.zero_xor, MurmurHash3.tailAt]
  | 2, _ =>
    simp only [UInt32.toBitVec_xor, toBitVec_shiftLeft_eight, toBitVec_mixK1, toBitVec_byteAt, hZero, BitVec.zero_xor,
      MurmurHash3.tailAt]
  | 3, _ =>
    simp only [UInt32.toBitVec_xor, toBitVec_shiftLeft_eight, toBitVec_shiftLeft_sixteen, toBitVec_mixK1,
      toBitVec_byteAt, hZero, BitVec.zero_xor, MurmurHash3.tailAt]

theorem toBitVec_finalize (h1 : UInt32) : (finalize h1).toBitVec = MurmurHash3.fmix h1.toBitVec := rfl

theorem toBitVec_loop (data : List UInt8) (blocks : List Nat) (h1 : UInt32) :
    (blocks.foldl (mixBlock data) h1).toBitVec =
      (blocks.map fun i => MurmurHash3.wordAt data (i * 4)).foldl MurmurHash3.round h1.toBitVec := by
  induction blocks generalizing h1 with
  | nil => rfl
  | cons i rest ih => rw [List.foldl_cons, ih, toBitVec_mixBlock, List.map_cons, List.foldl_cons]

theorem murmurHash3x86_32_eq (data : List UInt8) (seed : UInt32) :
    (murmurHash3x86_32 data seed).toBitVec = MurmurHash3.hash data seed.toBitVec := by
  have hTail : (data.drop (data.length / 4 * 4)).length = data.length % 4 := by
    rw [List.length_drop]
    omega
  have hLength : (UInt32.ofNat data.length).toBitVec = BitVec.ofNat 32 data.length := rfl
  rw [murmurHash3x86_32, toBitVec_finalize, UInt32.toBitVec_xor, hLength,
    toBitVec_mixTail _ _ (by rw [hTail]; exact Nat.mod_lt _ (by decide)), toBitVec_loop, hTail,
    MurmurHash3.tailAt_drop, MurmurHash3.hash, MurmurHash3.blocks_eq, MurmurHash3.littleEndian_remainder]

end Flagship.Sdk.Go
