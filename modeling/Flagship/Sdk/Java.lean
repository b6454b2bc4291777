import Flagship.Lib.MurmurHash3
import Flagship.Lib.Utf16
import Mathlib.Data.List.GetD

/-! # The hash and the bucketing of the Java SDK

`MurmurHash3.java` and `Bucketing.java`. An `int` is signed, so `>>>` goes through the unsigned
word, and a `byte` is widened with its sign before the mask takes it off again.
-/

namespace Flagship.Sdk.Java

open Lib

def C1 : Int32 := 0xcc9e2d51

def C2 : Int32 := 0x1b873593

/-- `x >>> count` -/
def unsignedShiftRight (x : Int32) (count : UInt32) : Int32 := (x.toUInt32 >>> count).toInt32

/-- `Integer.rotateLeft`, for a distance strictly between 0 and 32. -/
def rotateLeft (i : Int32) (distance : Int32) : Int32 :=
  i <<< distance ||| unsignedShiftRight i (32 - distance).toUInt32

def byteAt (data : List Int8) (index : Nat) : Int32 := (data.getD index 0).toInt32 &&& 0xff

def blockAt (data : List Int8) (offset : Nat) : Int32 :=
  byteAt data offset ||| byteAt data (offset + 1) <<< 8 ||| byteAt data (offset + 2) <<< 16 |||
    byteAt data (offset + 3) <<< 24

def mixK (k : Int32) : Int32 := rotateLeft (k * C1) 15 * C2

def mixBlock (data : List Int8) (hash : Int32) (block : Nat) : Int32 :=
  rotateLeft (hash ^^^ mixK (blockAt data (block * 4))) 13 * 5 + 0xe6546b64

/-- The switch on `data.length & 3`, each case falling through to the next. -/
def mixTail (data : List Int8) (hash : Int32) : Int32 :=
  let tailOffset := data.length / 4 * 4
  let third (k : Int32) := k ^^^ byteAt data (tailOffset + 2) <<< 16
  let second (k : Int32) := k ^^^ byteAt data (tailOffset + 1) <<< 8
  let first (k : Int32) := hash ^^^ mixK (k ^^^ byteAt data tailOffset)
  match data.length % 4 with
  | 3 => first (second (third 0))
  | 2 => first (second 0)
  | 1 => first 0
  | _ => hash

def finalize (hash : Int32) : Int32 :=
  let hash := hash ^^^ unsignedShiftRight hash 16
  let hash := hash * 0x85ebca6b
  let hash := hash ^^^ unsignedShiftRight hash 13
  let hash := hash * 0xc2b2ae35
  hash ^^^ unsignedShiftRight hash 16

def hash (data : List Int8) (seed : Int32) : Int64 :=
  let mixed := (List.range (data.length / 4)).foldl (mixBlock data) seed
  (finalize (mixTail data mixed ^^^ Int32.ofNat data.length)).toInt64 &&& 0xFFFFFFFF

/-- `String.getBytes(UTF_8)`, which writes a question mark for an unpaired surrogate. -/
def getBytes (input : CodeUnits) : List Int8 := (input.encodeWith [0x3f]).map UInt8.toInt8

def hashUtf8 (input : CodeUnits) (seed : Int32) : Int64 := hash (getBytes input) seed

def BUCKET_SPACE : Int64 := 100000

def BUCKET_SEPARATOR : CodeUnits := CodeUnits.ofString ":"

def bucketingInput (flagKey salt bucketKey : CodeUnits) : CodeUnits :=
  flagKey ++ BUCKET_SEPARATOR ++ salt ++ BUCKET_SEPARATOR ++ bucketKey

def bucketFor (flagKey salt bucketKey : CodeUnits) : Int32 :=
  (hashUtf8 (bucketingInput flagKey salt bucketKey) 0 % BUCKET_SPACE).toInt32

structure Distribution where
  variationKey : String
  weight : Int32

def walkFrom (cumulative bucket : Int32) : List Distribution → Option String
  | [] => none
  | entry :: rest =>
    let cumulative := cumulative + entry.weight
    if bucket < cumulative then some entry.variationKey else walkFrom cumulative bucket rest

def variationForBucket (distribution : List Distribution) (bucket : Int32) : Option String :=
  walkFrom 0 bucket distribution

/-- The total is a `long`. -/
def totalFrom (total : Int64) : List Distribution → Option Int64
  | [] => some total
  | entry :: rest => if entry.weight < 0 then none else totalFrom (total + entry.weight.toInt64) rest

def isValidDistribution (distribution : List Distribution) : Bool :=
  !distribution.isEmpty && totalFrom 0 distribution = some BUCKET_SPACE

/-! ## The port computes the reference hash -/

/-- Masking a sign-extended value takes the sign off again. -/
theorem signExtend_and_mask {w v : Nat} (x : BitVec w) :
    x.signExtend v &&& (BitVec.allOnes w).setWidth v = x.setWidth v := by
  apply BitVec.eq_of_getLsbD_eq
  intro i hi
  rw [BitVec.getLsbD_and, BitVec.getLsbD_signExtend, BitVec.getLsbD_setWidth, BitVec.getLsbD_setWidth,
    BitVec.getLsbD_allOnes]
  by_cases hLow : i < w
  · simp [hLow, hi]
  · simp [hLow, BitVec.getLsbD_of_ge x i (by omega)]

theorem toBitVec_unsignedShiftRight_sixteen (x : Int32) :
    (unsignedShiftRight x 16).toBitVec = x.toBitVec >>> 16 := rfl

theorem toBitVec_unsignedShiftRight_thirteen (x : Int32) :
    (unsignedShiftRight x 13).toBitVec = x.toBitVec >>> 13 := rfl

theorem toBitVec_rotateLeft_fifteen (x : Int32) : (rotateLeft x 15).toBitVec = x.toBitVec.rotateLeft 15 := rfl

theorem toBitVec_rotateLeft_thirteen (x : Int32) : (rotateLeft x 13).toBitVec = x.toBitVec.rotateLeft 13 := rfl

theorem toBitVec_shiftLeft_eight (x : Int32) : (x <<< 8).toBitVec = x.toBitVec <<< 8 := rfl

theorem toBitVec_shiftLeft_sixteen (x : Int32) : (x <<< 16).toBitVec = x.toBitVec <<< 16 := rfl

theorem toBitVec_shiftLeft_twentyfour (x : Int32) : (x <<< 24).toBitVec = x.toBitVec <<< 24 := rfl

section Reference

variable (data : List UInt8)

theorem toBitVec_byteAt (index : Nat) :
    (byteAt (data.map UInt8.toInt8) index).toBitVec = MurmurHash3.byteAt data index := by
  have hMask : (0xff : Int32).toBitVec = (BitVec.allOnes 8).setWidth 32 := by decide
  have hRead : ((data.map UInt8.toInt8).getD index 0).toBitVec = (data.getD index 0).toBitVec := by
    rw [List.getD_eq_getElem?_getD, List.getElem?_map, List.getD_eq_getElem?_getD]
    cases data[index]? with
    | none => rfl
    | some byte => rfl
  rw [byteAt, Int32.toBitVec_and, Int8.toBitVec_toInt32, hMask, signExtend_and_mask, hRead, MurmurHash3.byteAt]

theorem toBitVec_blockAt (offset : Nat) :
    (blockAt (data.map UInt8.toInt8) offset).toBitVec = MurmurHash3.wordAt data offset := by
  rw [blockAt, Int32.toBitVec_or, Int32.toBitVec_or, Int32.toBitVec_or, toBitVec_shiftLeft_eight,
    toBitVec_shiftLeft_sixteen, toBitVec_shiftLeft_twentyfour, toBitVec_byteAt, toBitVec_byteAt, toBitVec_byteAt,
    toBitVec_byteAt, MurmurHash3.wordAt]

theorem toBitVec_mixK (k : Int32) : (mixK k).toBitVec = MurmurHash3.scramble k.toBitVec := by
  rw [mixK, Int32.toBitVec_mul, toBitVec_rotateLeft_fifteen, Int32.toBitVec_mul, MurmurHash3.scramble]
  rfl

theorem toBitVec_mixBlock (hash : Int32) (block : Nat) :
    (mixBlock (data.map UInt8.toInt8) hash block).toBitVec =
      MurmurHash3.round hash.toBitVec (MurmurHash3.wordAt data (block * 4)) := by
  rw [mixBlock, Int32.toBitVec_add, Int32.toBitVec_mul, toBitVec_rotateLeft_thirteen, Int32.toBitVec_xor,
    toBitVec_mixK, toBitVec_blockAt, MurmurHash3.round]
  rfl

theorem toBitVec_mixTail (hash : Int32) :
    (mixTail (data.map UInt8.toInt8) hash).toBitVec = hash.toBitVec ^^^
      MurmurHash3.scramble (MurmurHash3.tailAt data (data.length / 4 * 4) (data.length % 4)) := by
  have hZero : (0 : Int32).toBitVec = 0#32 := rfl
  have hFour : data.length % 4 < 4 := Nat.mod_lt _ (by decide)
  rw [mixTail, List.length_map]
  match data.length % 4, hFour with
  | 0, _ => simp only [MurmurHash3.tailAt, MurmurHash3.scramble_zero, BitVec.xor_zero]
  | 1, _ =>
    simp only [Int32.toBitVec_xor, toBitVec_mixK, toBitVec_byteAt, hZero, BitVec.zero_xor, MurmurHash3.tailAt]
  | 2, _ =>
    simp only [Int32.toBitVec_xor, toBitVec_shiftLeft_eight, toBitVec_mixK, toBitVec_byteAt, hZero, BitVec.zero_xor,
      MurmurHash3.tailAt]
  | 3, _ =>
    simp only [Int32.toBitVec_xor, toBitVec_shiftLeft_eight, toBitVec_shiftLeft_sixteen, toBitVec_mixK,
      toBitVec_byteAt, hZero, BitVec.zero_xor, MurmurHash3.tailAt]

theorem toBitVec_finalize (hash : Int32) : (finalize hash).toBitVec = MurmurHash3.fmix hash.toBitVec := by
  simp only [finalize, Int32.toBitVec_xor, Int32.toBitVec_mul, toBitVec_unsignedShiftRight_sixteen,
    toBitVec_unsignedShiftRight_thirteen, MurmurHash3.fmix]
  rfl

theorem toBitVec_loop (blocks : List Nat) (hash : Int32) :
    (blocks.foldl (mixBlock (data.map UInt8.toInt8)) hash).toBitVec =
      (blocks.map fun block => MurmurHash3.wordAt data (block * 4)).foldl MurmurHash3.round hash.toBitVec := by
  induction blocks generalizing hash with
  | nil => rfl
  | cons block rest ih => rw [List.foldl_cons, ih, toBitVec_mixBlock, List.map_cons, List.foldl_cons]

theorem toBitVec_hash (seed : Int32) :
    (hash (data.map UInt8.toInt8) seed).toBitVec = (MurmurHash3.hash data seed.toBitVec).setWidth 64 := by
  have hMask : (0xFFFFFFFF : Int64).toBitVec = (BitVec.allOnes 32).setWidth 64 := by decide
  have hLength : (Int32.ofNat data.length).toBitVec = BitVec.ofNat 32 data.length := rfl
  rw [hash, Int64.toBitVec_and, Int32.toBitVec_toInt64, hMask, signExtend_and_mask, toBitVec_finalize,
    Int32.toBitVec_xor, List.length_map, hLength, toBitVec_mixTail, toBitVec_loop, MurmurHash3.hash,
    MurmurHash3.blocks_eq, MurmurHash3.littleEndian_remainder]

/-- The mask leaves a `long` that reads the same with and without a sign. -/
theorem hash_eq (seed : Int32) :
    (hash (data.map UInt8.toInt8) seed).toInt = (MurmurHash3.hash data seed.toBitVec).toNat := by
  have hSmall := (MurmurHash3.hash data seed.toBitVec).isLt
  have hWidened : ((MurmurHash3.hash data seed.toBitVec).setWidth 64).toNat =
      (MurmurHash3.hash data seed.toBitVec).toNat := by
    rw [BitVec.toNat_setWidth]
    exact Nat.mod_eq_of_lt (by omega)
  rw [Int64.toInt, toBitVec_hash, BitVec.toInt_eq_toNat_of_lt (by omega), hWidened]

end Reference

end Flagship.Sdk.Java
