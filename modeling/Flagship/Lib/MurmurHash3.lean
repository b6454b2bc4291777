import Mathlib.Data.List.Basic

/-! # MurmurHash3 x86_32 over 32-bit words

The bytes are taken in whole blocks of four, and what is left at the end is read like a block
that does not rotate the state. The second part reads the same words off byte indices, the
way a program with a loop and a switch does.
-/

namespace Flagship.Lib.MurmurHash3

abbrev Word := BitVec 32

def littleEndian : List UInt8 → Word
  | [] => 0#32
  | byte :: rest => littleEndian rest <<< 8 ||| byte.toBitVec.setWidth 32

def blocks : List UInt8 → List Word
  | a :: b :: c :: d :: rest => littleEndian [a, b, c, d] :: blocks rest
  | _ => []

def remainder : List UInt8 → List UInt8
  | _ :: _ :: _ :: _ :: rest => remainder rest
  | tail => tail

def scramble (k : Word) : Word := (k * 0xcc9e2d51#32).rotateLeft 15 * 0x1b873593#32

def round (h k : Word) : Word := (h ^^^ scramble k).rotateLeft 13 * 5#32 + 0xe6546b64#32

def fmix (h : Word) : Word :=
  let h := (h ^^^ h >>> 16) * 0x85ebca6b#32
  let h := (h ^^^ h >>> 13) * 0xc2b2ae35#32
  h ^^^ h >>> 16

def hash (data : List UInt8) (seed : Word) : Word :=
  fmix ((blocks data).foldl round seed ^^^ scramble (littleEndian (remainder data)) ^^^ BitVec.ofNat 32 data.length)

/-! ## Reading words by index -/

def byteAt (data : List UInt8) (index : Nat) : Word := (data.getD index 0).toBitVec.setWidth 32

def wordAt (data : List UInt8) (offset : Nat) : Word :=
  byteAt data offset ||| byteAt data (offset + 1) <<< 8 ||| byteAt data (offset + 2) <<< 16 |||
    byteAt data (offset + 3) <<< 24

/-- The last bytes, as the cases of a switch on their number put them together. -/
def tailAt (data : List UInt8) (offset : Nat) : Nat → Word
  | 3 => byteAt data (offset + 2) <<< 16 ^^^ byteAt data (offset + 1) <<< 8 ^^^ byteAt data offset
  | 2 => byteAt data (offset + 1) <<< 8 ^^^ byteAt data offset
  | 1 => byteAt data offset
  | _ => 0#32

theorem littleEndian_cons (byte : UInt8) (rest : List UInt8) :
    littleEndian (byte :: rest) = littleEndian rest <<< 8 ^^^ byte.toBitVec.setWidth 32 := by
  rw [littleEndian]
  apply BitVec.eq_of_getLsbD_eq
  intro i _
  rw [BitVec.getLsbD_or, BitVec.getLsbD_xor, BitVec.getLsbD_shiftLeft, BitVec.getLsbD_setWidth]
  by_cases hLow : i < 8
  · simp [hLow]
  · simp [BitVec.getLsbD_of_ge byte.toBitVec i (by omega)]

theorem littleEndian_block (a b c d : UInt8) (rest : List UInt8) :
    littleEndian [a, b, c, d] = wordAt (a :: b :: c :: d :: rest) 0 := by
  simp only [littleEndian, wordAt, byteAt, List.getD_cons_zero, List.getD_cons_succ, Nat.zero_add]
  generalize a.toBitVec.setWidth 32 = a, b.toBitVec.setWidth 32 = b, c.toBitVec.setWidth 32 = c,
    d.toBitVec.setWidth 32 = d
  have hTwo (x : Word) : x <<< 8 <<< 8 = x <<< 16 := (BitVec.shiftLeft_add x 8 8).symm
  have hThree (x : Word) : x <<< 8 <<< 16 = x <<< 24 := (BitVec.shiftLeft_add x 8 16).symm
  rw [BitVec.zero_shiftLeft, BitVec.zero_or, BitVec.shiftLeft_or_distrib, BitVec.shiftLeft_or_distrib,
    BitVec.shiftLeft_or_distrib, hTwo, hTwo, hThree]
  generalize d <<< 24 = d, c <<< 16 = c, b <<< 8 = b
  ac_rfl

/-- Fewer than four bytes are no block, and all of the remainder. -/
theorem short_cases {tail : List UInt8}
    (hShort : ∀ (a b c d : UInt8) (rest : List UInt8), tail = a :: b :: c :: d :: rest → False) :
    tail = [] ∨ (∃ a, tail = [a]) ∨ (∃ a b, tail = [a, b]) ∨ ∃ a b c, tail = [a, b, c] := by
  match tail, hShort with
  | [], _ => exact Or.inl rfl
  | [a], _ => exact Or.inr (Or.inl ⟨a, rfl⟩)
  | [a, b], _ => exact Or.inr (Or.inr (Or.inl ⟨a, b, rfl⟩))
  | [a, b, c], _ => exact Or.inr (Or.inr (Or.inr ⟨a, b, c, rfl⟩))
  | a :: b :: c :: d :: rest, hShort => exact absurd rfl (hShort a b c d rest)

theorem blocks_eq (data : List UInt8) :
    blocks data = (List.range (data.length / 4)).map fun i => wordAt data (i * 4) := by
  induction data using blocks.induct with
  | case1 a b c d rest ih =>
    have hBlocks : (a :: b :: c :: d :: rest).length / 4 = rest.length / 4 + 1 := by
      simp only [List.length_cons]
      omega
    have hRead : ∀ i, wordAt (a :: b :: c :: d :: rest) (i.succ * 4) = wordAt rest (i * 4) := by
      intro i
      rw [Nat.succ_mul]
      rfl
    rw [blocks, ih, hBlocks, List.range_succ_eq_map, List.map_cons, List.map_map,
      littleEndian_block a b c d rest, Nat.zero_mul]
    congr 1
    exact List.map_congr_left fun i _ => (hRead i).symm
  | case2 tail hShort =>
    rcases short_cases hShort with rfl | ⟨a, rfl⟩ | ⟨a, b, rfl⟩ | ⟨a, b, c, rfl⟩ <;> simp [blocks]

theorem littleEndian_remainder (data : List UInt8) :
    littleEndian (remainder data) = tailAt data (data.length / 4 * 4) (data.length % 4) := by
  induction data using remainder.induct with
  | case1 a b c d rest ih =>
    have hOffset : (a :: b :: c :: d :: rest).length / 4 * 4 = rest.length / 4 * 4 + 4 := by
      simp only [List.length_cons]
      omega
    have hLeft : (a :: b :: c :: d :: rest).length % 4 = rest.length % 4 := by
      simp only [List.length_cons]
      omega
    rw [remainder, ih, hOffset, hLeft]
    rfl
  | case2 tail hShort =>
    rcases short_cases hShort with rfl | ⟨a, rfl⟩ | ⟨a, b, rfl⟩ | ⟨a, b, c, rfl⟩
    · rfl
    · simp [remainder, littleEndian_cons, littleEndian.eq_1, tailAt, byteAt]
    · simp [remainder, littleEndian_cons, littleEndian.eq_1, tailAt, byteAt]
    · simp [remainder, littleEndian_cons, littleEndian.eq_1, tailAt, byteAt, BitVec.shiftLeft_xor_distrib,
        ← BitVec.shiftLeft_add]

theorem byteAt_drop (data : List UInt8) (offset index : Nat) :
    byteAt (data.drop offset) index = byteAt data (offset + index) := by
  rw [byteAt, byteAt, List.getD_eq_getElem?_getD, List.getElem?_drop, List.getD_eq_getElem?_getD]

theorem tailAt_drop (data : List UInt8) (offset count : Nat) :
    tailAt (data.drop offset) 0 count = tailAt data offset count := by
  match count with
  | 0 | _ + 4 => rfl
  | 1 => simp only [tailAt, byteAt_drop, Nat.add_zero]
  | 2 | 3 => simp only [tailAt, byteAt_drop, Nat.zero_add, Nat.add_zero]

theorem scramble_zero : scramble 0#32 = 0#32 := by decide

end Flagship.Lib.MurmurHash3
