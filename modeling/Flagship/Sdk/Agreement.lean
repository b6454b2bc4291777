import Flagship.Core.Bucketing
import Flagship.Sdk.Go
import Flagship.Sdk.Java

/-! # The SDKs assign the same buckets

All three ports of the hash compute the reference, so two SDKs can differ only in the bytes
they take a string for. They do where half of a surrogate pair stands alone.
-/

namespace Flagship.Sdk

open Lib

/-- The three hashes of the same bytes, each with its own seed and byte types, as numbers. -/
theorem murmurHash3x86_32_agree (data : List UInt8) (seed : UInt32) :
    Core.Murmur.murmurHash3x86_32 data seed.toNat none = (MurmurHash3.hash data seed.toBitVec).toNat ∧
      (Go.murmurHash3x86_32 data seed).toNat = (MurmurHash3.hash data seed.toBitVec).toNat ∧
      (Java.hash (data.map UInt8.toInt8) seed.toInt32).toInt = (MurmurHash3.hash data seed.toBitVec).toNat ∧
      (MurmurHash3.hash data seed.toBitVec).toNat < 2 ^ 32 := by
  refine ⟨?_, ?_, ?_, ?_⟩
  · have hSeed : Int32.word seed.toNat = seed.toBitVec := by
      rw [Int32.word_natCast, ← UInt32.toNat_toBitVec, BitVec.ofNat_toNat, BitVec.setWidth_eq]
    rw [Core.Murmur.murmurHash3x86_32_eq, hSeed]
  · rw [← UInt32.toNat_toBitVec, Go.murmurHash3x86_32_eq]
  · exact Java.hash_eq data seed.toInt32
  · exact (MurmurHash3.hash data seed.toBitVec).isLt

/-! ## Strings -/

section Strings

variable (flagKey salt bucketKey : CodeUnits)

theorem bucketFor_eq : Core.bucketFor flagKey salt bucketKey =
    (MurmurHash3.hash (Core.bucketingInput flagKey salt bucketKey).encode 0).toNat % Core.BUCKET_SPACE := by
  rw [Core.bucketFor, Core.Murmur.murmurHash3x86_32String_eq]
  exact Int.toNat_natCast _

theorem java_bucketFor_eq : (Java.bucketFor flagKey salt bucketKey).toInt =
    (MurmurHash3.hash ((Core.bucketingInput flagKey salt bucketKey).encodeWith [0x3f]) 0).toNat %
      Core.BUCKET_SPACE := by
  have hHash := Java.hash_eq ((Core.bucketingInput flagKey salt bucketKey).encodeWith [0x3f]) 0
  have hSpace : Java.BUCKET_SPACE.toInt = Core.BUCKET_SPACE := by decide
  have hInput : Java.bucketingInput flagKey salt bucketKey = Core.bucketingInput flagKey salt bucketKey := rfl
  have hZero : (0 : Int32).toBitVec = 0 := rfl
  rw [Java.bucketFor, Int64.toInt_toInt32, Int64.toInt_mod, Java.hashUtf8, Java.getBytes, hInput, hHash, hSpace,
    hZero, Int.tmod_eq_emod_of_nonneg (Int.natCast_nonneg _)]
  generalize (MurmurHash3.hash ((Core.bucketingInput flagKey salt bucketKey).encodeWith [0x3f]) 0).toNat = h
  have hLower := Int.emod_nonneg (h : Int) (b := (Core.BUCKET_SPACE : Int)) (by decide)
  have hUpper := Int.emod_lt_of_pos (h : Int) (b := (Core.BUCKET_SPACE : Int)) (by decide)
  have hValue : (Core.BUCKET_SPACE : Int) = 100000 := rfl
  rw [hValue] at hLower hUpper ⊢
  exact Int.bmod_eq_of_le (by omega) (by omega)

theorem wellFormed_bucketingInput : (Core.bucketingInput flagKey salt bucketKey).WellFormed ↔
    flagKey.WellFormed ∧ salt.WellFormed ∧ bucketKey.WellFormed := by
  have hSeparator : Core.BUCKET_SEPARATOR = [58] := by decide
  rw [Core.bucketingInput, hSeparator, List.append_assoc, List.append_assoc, List.append_assoc,
    List.singleton_append, List.singleton_append, CodeUnits.wellFormed_append_cons (by decide) (by decide),
    CodeUnits.wellFormed_append_cons (by decide) (by decide)]

/-- The encoders agree on the joined input when none of the three strings has an unpaired surrogate. -/
theorem encode_agree_iff : (Core.bucketingInput flagKey salt bucketKey).encode =
    (Core.bucketingInput flagKey salt bucketKey).encodeWith [0x3f] ↔
      flagKey.WellFormed ∧ salt.WellFormed ∧ bucketKey.WellFormed := by
  rw [CodeUnits.encode_eq, CodeUnits.encodeWith_eq_iff (by decide), wellFormed_bucketingInput]

theorem java_bucketFor_lt : 0 ≤ (Java.bucketFor flagKey salt bucketKey).toInt ∧
    (Java.bucketFor flagKey salt bucketKey).toInt < Core.BUCKET_SPACE := by
  rw [java_bucketFor_eq]
  exact ⟨Int.emod_nonneg _ (by decide), Int.emod_lt_of_pos _ (by decide)⟩

/-- Both SDKs always answer inside the bucket space. They hash the same bytes exactly for
well-formed strings, and there they answer alike. -/
theorem bucketFor_agree :
    (Core.bucketFor flagKey salt bucketKey < Core.BUCKET_SPACE ∧ 0 ≤ (Java.bucketFor flagKey salt bucketKey).toInt ∧
      (Java.bucketFor flagKey salt bucketKey).toInt < Core.BUCKET_SPACE) ∧
    ((Core.bucketingInput flagKey salt bucketKey).encode.map UInt8.toInt8 =
        Java.getBytes (Java.bucketingInput flagKey salt bucketKey) ↔
      flagKey.WellFormed ∧ salt.WellFormed ∧ bucketKey.WellFormed) ∧
    (flagKey.WellFormed ∧ salt.WellFormed ∧ bucketKey.WellFormed →
      (Core.bucketFor flagKey salt bucketKey : Int) = (Java.bucketFor flagKey salt bucketKey).toInt) := by
  refine ⟨⟨Core.bucketFor_lt flagKey salt bucketKey, java_bucketFor_lt flagKey salt bucketKey⟩, ?_, ?_⟩
  · have hInjective : Function.Injective UInt8.toInt8 := fun a b hSame => by
      rw [← UInt8.toUInt8_toInt8 a, hSame, UInt8.toUInt8_toInt8]
    rw [← encode_agree_iff]
    exact (List.map_injective_iff.mpr hInjective).eq_iff
  · intro hWellFormed
    rw [bucketFor_eq, java_bucketFor_eq, (encode_agree_iff flagKey salt bucketKey).mpr hWellFormed]
    rfl

end Strings

/-- A name cut in half: the two SDKs put the same user into buckets 8226 and 46885. -/
theorem bucketFor_differs : ¬ ∀ flagKey salt bucketKey : CodeUnits,
    (Core.bucketFor flagKey salt bucketKey : Int) = (Java.bucketFor flagKey salt bucketKey).toInt := by
  intro hAgree
  have hSame := hAgree [102] [115] [0xd800]
  rw [bucketFor_eq, java_bucketFor_eq] at hSame
  revert hSame
  decide

end Flagship.Sdk
