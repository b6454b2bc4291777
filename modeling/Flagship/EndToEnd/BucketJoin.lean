import Flagship.ControlPlane.Admin
import Flagship.Core.Bucketing
import Flagship.Lib.Identity

/-! # What a bucketing input joins

The separator is not escaped. The control plane takes no key with one and generates salts without
one, so the first two in a joined text are the ones that were put there; what stands after them
may have more.
-/

namespace Flagship.EndToEnd

open Lib Flagship.Core Flagship.ControlPlane Flagship.ControlPlane.Admin

/-- The one unit of `BUCKET_SEPARATOR`. -/
def COLON : UInt16 := 0x3a

theorem bucketingInput_eq (flagKey salt bucketKey : CodeUnits) :
    bucketingInput flagKey salt bucketKey = flagKey ++ COLON :: (salt ++ COLON :: bucketKey) := by
  have hSeparator : BUCKET_SEPARATOR = [COLON] := by decide
  rw [bucketingInput, hSeparator, List.append_assoc, List.append_assoc, List.append_assoc]
  rfl

theorem bucketingInput_inj {flagKey flagKey' salt salt' bucketKey bucketKey' : CodeUnits} (hKey : COLON ∉ flagKey)
    (hKey' : COLON ∉ flagKey') (hSalt : COLON ∉ salt) (hSalt' : COLON ∉ salt')
    (h : bucketingInput flagKey salt bucketKey = bucketingInput flagKey' salt' bucketKey') :
    flagKey = flagKey' ∧ salt = salt' ∧ bucketKey = bucketKey' := by
  rw [bucketingInput_eq, bucketingInput_eq] at h
  obtain ⟨hFirst, hRest⟩ := append_cons_inj_of_notMem_before hKey hKey' h
  exact ⟨hFirst, append_cons_inj_of_notMem_before hSalt hSalt' hRest⟩

/-! ## Keys of flags -/

/-- The check of `POST /v1/flags`. -/
def IsFlagKey (key : String) : Prop := key.toList.all isKeyCharacter = true

/-- A flag is created under no other key. -/
theorem isFlagKey_of_created (runtime : Runtime) (s : Admin) {body : CreateFlagBody} {id salt : String}
    {course : Course} {reply : Reply} (h : (s.postFlags runtime body id salt course).2 = some reply)
    (hCreated : reply.code = 201) : ∃ key, given body.key = some key ∧ IsFlagKey key := by
  rw [Admin.postFlags] at h
  split at h
  · rename_i tenantId key hTenant hGiven
    split at h
    · cases h
      cases hCreated
    · rename_i hCharacters
      refine ⟨key, hGiven, ?_⟩
      rwa [Bool.not_eq_true', Bool.not_eq_false] at hCharacters
  · cases h
    cases hCreated

theorem keyCharacter_lt {c : Char} (h : isKeyCharacter c = true) : c.toNat < 128 := by
  simp only [isKeyCharacter, Bool.or_eq_true, decide_eq_true_eq] at h
  obtain ((hAlphanum | rfl) | rfl) | rfl := h
  · exact Nat.lt_of_le_of_lt (UInt32.le_iff_toNat_le.mp (alphanum_bounds hAlphanum).2) (by decide)
  all_goals decide

/-- Each character of such a key is one unit. -/
theorem chars_of_flagKey {key : String} (hKey : IsFlagKey key) :
    (CodeUnits.ofString key).map (fun unit => Char.ofNat unit.toNat) = key.toList := by
  have hUnit : ∀ c ∈ key.toList, CodeUnits.ofChar c = [UInt16.ofNat c.toNat] := by
    intro c hMem
    have hAscii := keyCharacter_lt (List.all_eq_true.mp hKey c hMem)
    exact if_pos (Nat.lt_trans hAscii (by decide))
  rw [CodeUnits.ofString, List.flatMap_congr hUnit, ← List.map_eq_flatMap, List.map_map]
  apply (List.map_congr_left _).trans (List.map_id _)
  intro c hMem
  have hAscii := keyCharacter_lt (List.all_eq_true.mp hKey c hMem)
  have hCode : (UInt16.ofNat c.toNat).toNat = c.toNat := UInt16.toNat_ofNat_of_lt (Nat.lt_trans hAscii (by decide))
  change Char.ofNat (UInt16.ofNat c.toNat).toNat = c
  rw [hCode, Char.ofNat_toNat]

theorem colon_notMem_flagKey {key : String} (hKey : IsFlagKey key) : COLON ∉ CodeUnits.ofString key := by
  intro hMem
  have hChar := List.mem_map_of_mem (f := fun unit : UInt16 => Char.ofNat unit.toNat) hMem
  rw [chars_of_flagKey hKey] at hChar
  exact absurd (List.all_eq_true.mp hKey _ hChar) (by decide)

theorem bucketingInput_injective {flagKey flagKey' : String} {salt salt' bucketKey bucketKey' : CodeUnits}
    (hKey : IsFlagKey flagKey) (hKey' : IsFlagKey flagKey') (hSalt : COLON ∉ salt) (hSalt' : COLON ∉ salt')
    (h : bucketingInput (.ofString flagKey) salt bucketKey = bucketingInput (.ofString flagKey') salt' bucketKey') :
    (flagKey, salt, bucketKey) = (flagKey', salt', bucketKey') := by
  obtain ⟨hUnits, rfl, rfl⟩ :=
    bucketingInput_inj (colon_notMem_flagKey hKey) (colon_notMem_flagKey hKey') hSalt hSalt' h
  have hChars := congrArg (List.map fun unit : UInt16 => Char.ofNat unit.toNat) hUnits
  rw [chars_of_flagKey hKey, chars_of_flagKey hKey'] at hChars
  rw [String.toList_inj.mp hChars]

/-- A key with a separator in it, after a salt without one. -/
theorem tenant_key_rejoined : ("a.b", CodeUnits.ofString "5f-0", CodeUnits.ofString "t:7") =
    ("a.b", [0x35, 0x66, 0x2d, 0x30], [0x74, 0x3a, 0x37]) := by
  apply bucketingInput_injective
  · rfl
  · rfl
  · decide
  · decide
  · decide

end Flagship.EndToEnd
