import Flagship.DataPlane.Framing

/-! # The id of a frame, echoed

A client sends the id of its last frame back as `Last-Event-ID`. Broadcasts write it with a loop of
their own and replays with the library; the text is one, and reading it gives the version.
-/

namespace Flagship.DataPlane

open Lib Lib.EventStream

/-- The header that echoes an id, one character a byte. -/
def headerOf (id : Bytes) : String := String.ofList (id.map fun b => Char.ofNat b.toNat)

theorem toList_headerOf (n : ℕ) : (headerOf (formatInt n)).toList = Nat.toDigits 10 n := by
  rw [headerOf, String.toList_ofList, formatInt_natCast, List.map_map]
  apply (List.map_congr_left _).trans (List.map_id _)
  intro c hMem
  obtain ⟨hLow, hHigh⟩ := toDigits_range hMem
  have hByte : (UInt8.ofNat c.toNat).toNat = c.toNat := UInt8.toNat_ofNat_of_lt (Nat.lt_of_le_of_lt hHigh (by decide))
  change Char.ofNat (UInt8.ofNat c.toNat).toNat = c
  rw [hByte, Char.ofNat_toNat]

theorem first_of_toDigits {n : ℕ} {first : Char} {rest : List Char} (h : Nat.toDigits 10 n = first :: rest) :
    48 ≤ first.toNat := by
  apply And.left (toDigits_range (n := n) _)
  rw [h]
  exact List.mem_cons_self

theorem parseInt_of_digits {n : ℕ} (hInt64 : (n : Int) < 2 ^ 63) {header : String}
    (hHeader : header.toList = Nat.toDigits 10 n) : parseInt header = some (n : Int) := by
  have hSome : (Nat.toDigits 10 n).isEmpty = false := List.isEmpty_eq_false_iff.mpr Nat.toDigits_ne_nil
  have hNoOther : (Nat.toDigits 10 n).any (fun c => !c.isDigit) = false := by
    rw [List.any_eq_false]
    intro c hMem
    rw [Nat.isDigit_of_mem_toDigits (by decide) (by decide) hMem]
    decide
  have hValue : (Nat.toDigits 10 n).foldl (fun n c => 10 * n + (c.toNat - '0'.toNat)) 0 = n :=
    Nat.ofDigitChars_ten_toDigits
  have hRange : ¬ ((n : Int) < -9223372036854775808 ∨ 9223372036854775807 < (n : Int)) := by omega
  rw [parseInt, hHeader]
  split
  rename_i negative digits hSign
  -- The first character is a digit, so there is no sign to take off.
  split at hSign
  · rename_i hPlus
    exact absurd (first_of_toDigits hPlus) (by decide)
  · rename_i hMinus
    exact absurd (first_of_toDigits hMinus) (by decide)
  · cases hSign
    rw [hSome, hNoOther, hValue]
    exact if_neg hRange

/-- What a frame of a version echoes. -/
structure Echoes (version : Int) (payload : Bytes) : Prop where
  /-- A broadcast writes what a replay of the same snapshot does. -/
  frame : broadcastFrame version payload = some (replayFrame version payload)
  /-- No digit falls outside the buffer. -/
  buffer : ∃ id, formatVersion version = some id ∧ id ≠ [] ∧ id.length ≤ 20
  parsed : ∀ id, formatVersion version = some id → parseInt (headerOf id) = some version
  header : ∀ id query, formatVersion version = some id → presentedVersion (headerOf id) query = version
  query : ∀ id, formatVersion version = some id → presentedVersion "" (headerOf id) = version

theorem echoed_id_presents_version {version : Int} (hPos : 0 < version) (hInt64 : version < 2 ^ 63)
    (payload : Bytes) : Echoes version payload := by
  obtain ⟨n, rfl⟩ := Int.eq_ofNat_of_zero_le (Int.le_of_lt hPos)
  have hFormat := formatVersion_eq hPos hInt64
  have hParsed : parseInt (headerOf (formatInt n)) = some (n : Int) := parseInt_of_digits hInt64 (toList_headerOf n)
  have hSome : headerOf (formatInt n) ≠ "" := by
    intro hNone
    have hDigits := toList_headerOf n
    rw [hNone] at hDigits
    exact Nat.toDigits_ne_nil hDigits.symm
  have hOnly {id : Bytes} (hId : formatVersion n = some id) : id = formatInt n :=
    Option.some.inj (hId.symm.trans hFormat)
  constructor
  case frame =>
    rw [broadcastFrame, hFormat]
    rfl
  case buffer =>
    refine ⟨formatInt n, hFormat, formatInt_ne_nil hPos, ?_⟩
    rw [formatInt_natCast, List.length_map, Nat.length_toDigits_le_iff (by decide) (by decide)]
    omega
  case parsed =>
    intro id hId
    rw [hOnly hId, hParsed]
  case header =>
    intro id query hId
    rw [hOnly hId, presentedVersion, if_neg hSome, if_neg hSome, hParsed, Option.getD_some]
  case query =>
    intro id hId
    rw [hOnly hId, presentedVersion, if_pos rfl, if_neg hSome, hParsed, Option.getD_some]

theorem echoes_largest : Echoes 9223372036854775807 (ascii "\x7b\x7d") :=
  echoed_id_presents_version (by decide) (by decide) _

end Flagship.DataPlane
