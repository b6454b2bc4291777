import Mathlib.Data.Int.Basic

/-! # Bitwise operators of a language whose numbers are doubles

The operands are integer-valued numbers; each operator first reduces them to 32 bits. All but
`>>>` read the result as signed.
-/

namespace Flagship.Lib.Int32

def word (x : Int) : BitVec 32 := BitVec.ofInt 32 x

def bitOr (x y : Int) : Int := (word x ||| word y).toInt

def bitXor (x y : Int) : Int := (word x ^^^ word y).toInt

def shiftLeft (x : Int) (count : Nat) : Int := (word x <<< count).toInt

/-- `x >>> count`, the one operator with an unsigned result. -/
def shiftRight (x : Int) (count : Nat) : Int := (word x >>> count).toNat

def imul (x y : Int) : Int := (word x * word y).toInt

theorem shiftRight_nonneg (x : Int) (count : Nat) : 0 ≤ shiftRight x count := Int.natCast_nonneg _

/-! ## Every operator works on the words alone -/

section Words

variable (x y : Int) (count : Nat)

@[simp] theorem word_natCast (n : Nat) : word n = BitVec.ofNat 32 n := BitVec.ofInt_natCast 32 n

@[simp] theorem word_add : word (x + y) = word x + word y := BitVec.ofInt_add x y

@[simp] theorem word_bitOr : word (bitOr x y) = word x ||| word y := BitVec.ofInt_toInt

@[simp] theorem word_bitXor : word (bitXor x y) = word x ^^^ word y := BitVec.ofInt_toInt

@[simp] theorem word_shiftLeft : word (shiftLeft x count) = word x <<< count := BitVec.ofInt_toInt

@[simp] theorem word_imul : word (imul x y) = word x * word y := BitVec.ofInt_toInt

@[simp] theorem word_shiftRight : word (shiftRight x count) = word x >>> count := by
  rw [shiftRight, word_natCast, BitVec.ofNat_toNat, BitVec.setWidth_eq]

theorem shiftRight_zero : shiftRight x 0 = (word x).toNat := by
  rw [shiftRight, BitVec.ushiftRight_zero]

end Words

end Flagship.Lib.Int32
