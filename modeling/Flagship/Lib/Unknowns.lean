import Mathlib.Data.Bool.Basic
import Mathlib.Order.BooleanAlgebra.Basic
import Mathlib.Data.List.Basic

/-! # Boolean formulas with unknown leaves

Each unknown is a leaf of its own: an assignment gives it a value by its position. Read as true
under an odd number of negations and as false elsewhere, the unknowns make the formula as false as
any assignment can make it.
-/

namespace Flagship.Lib

inductive Formula where
  | known (value : Bool)
  | unknown
  | every (parts : List Formula)
  | any (parts : List Formula)
  | neg (inner : Formula)

namespace Formula

@[elab_as_elim]
theorem induct {motive : Formula → Prop} (known : ∀ value, motive (.known value)) (unknown : motive .unknown)
    (every : ∀ parts, (∀ part ∈ parts, motive part) → motive (.every parts))
    (any : ∀ parts, (∀ part ∈ parts, motive part) → motive (.any parts))
    (neg : ∀ inner, motive inner → motive (.neg inner)) (formula : Formula) : motive formula := by
  refine @Formula.rec motive (fun parts => ∀ part ∈ parts, motive part) known unknown every any neg ?_ ?_ formula
  · intro part hPart
    cases hPart
  · intro head rest hHead hRest part hPart
    rcases List.mem_cons.mp hPart with rfl | hPart
    · exact hHead
    · exact hRest part hPart

/-- The value of the unknown at each position, a position being the way down to it. -/
abbrev Assignment := List Nat → Bool

def Assignment.below (assign : Assignment) (index : Nat) : Assignment := fun position => assign (index :: position)

mutual
def eval : Formula → Assignment → Bool
  | .known value, _ => value
  | .unknown, assign => assign []
  | .every parts, assign => evalEvery parts assign.below
  | .any parts, assign => evalAny parts assign.below
  | .neg inner, assign => !eval inner (assign.below 0)

def evalEvery : List Formula → (Nat → Assignment) → Bool
  | [], _ => true
  | part :: rest, assigns => eval part (assigns 0) && evalEvery rest fun index => assigns (index + 1)

def evalAny : List Formula → (Nat → Assignment) → Bool
  | [], _ => false
  | part :: rest, assigns => eval part (assigns 0) || evalAny rest fun index => assigns (index + 1)
end

mutual
/-- The formula with each unknown read as true under an odd number of negations and as false
elsewhere; `odd` says which number the formula itself stands under. -/
def readOdd (odd : Bool) : Formula → Bool
  | .known value => value
  | .unknown => odd
  | .every parts => readOddEvery odd parts
  | .any parts => readOddAny odd parts
  | .neg inner => !readOdd (!odd) inner

def readOddEvery (odd : Bool) : List Formula → Bool
  | [] => true
  | part :: rest => readOdd odd part && readOddEvery odd rest

def readOddAny (odd : Bool) : List Formula → Bool
  | [] => false
  | part :: rest => readOdd odd part || readOddAny odd rest
end

/-- Between the reading and its opposite lies every assignment. -/
def Bounded (formula : Formula) : Prop :=
  ∀ assign, formula.readOdd false ≤ formula.eval assign ∧ formula.eval assign ≤ formula.readOdd true

theorem evalEvery_bounded {parts : List Formula} (h : ∀ part ∈ parts, Bounded part) (assigns : Nat → Assignment) :
    readOddEvery false parts ≤ evalEvery parts assigns ∧ evalEvery parts assigns ≤ readOddEvery true parts := by
  induction parts generalizing assigns with
  | nil => exact ⟨le_refl _, le_refl _⟩
  | cons part rest ih =>
    obtain ⟨hLow, hHigh⟩ := h part List.mem_cons_self (assigns 0)
    obtain ⟨hRestLow, hRestHigh⟩ :=
      ih (fun other hMem => h other (List.mem_cons_of_mem _ hMem)) fun index => assigns (index + 1)
    exact ⟨inf_le_inf hLow hRestLow, inf_le_inf hHigh hRestHigh⟩

theorem evalAny_bounded {parts : List Formula} (h : ∀ part ∈ parts, Bounded part) (assigns : Nat → Assignment) :
    readOddAny false parts ≤ evalAny parts assigns ∧ evalAny parts assigns ≤ readOddAny true parts := by
  induction parts generalizing assigns with
  | nil => exact ⟨le_refl _, le_refl _⟩
  | cons part rest ih =>
    obtain ⟨hLow, hHigh⟩ := h part List.mem_cons_self (assigns 0)
    obtain ⟨hRestLow, hRestHigh⟩ :=
      ih (fun other hMem => h other (List.mem_cons_of_mem _ hMem)) fun index => assigns (index + 1)
    exact ⟨sup_le_sup hLow hRestLow, sup_le_sup hHigh hRestHigh⟩

theorem bounded (formula : Formula) : Bounded formula := by
  induction formula using Formula.induct with
  | known value => exact fun _ => ⟨le_refl _, le_refl _⟩
  | unknown => exact fun assign => ⟨Bool.false_le _, Bool.le_true _⟩
  | every parts ih => exact fun assign => evalEvery_bounded ih assign.below
  | any parts ih => exact fun assign => evalAny_bounded ih assign.below
  | neg inner ih =>
    intro assign
    obtain ⟨hLow, hHigh⟩ := ih (assign.below 0)
    exact ⟨compl_le_compl hHigh, compl_le_compl hLow⟩

/-- Some assignment comes to what the reading comes to. -/
def Attained (odd : Bool) (formula : Formula) : Prop := ∃ assign, formula.eval assign = formula.readOdd odd

theorem evalEvery_attained {odd : Bool} {parts : List Formula} (h : ∀ part ∈ parts, Attained odd part) :
    ∃ assigns, evalEvery parts assigns = readOddEvery odd parts := by
  induction parts with
  | nil => exact ⟨fun _ _ => false, rfl⟩
  | cons part rest ih =>
    obtain ⟨assign, hPart⟩ := h part List.mem_cons_self
    obtain ⟨assigns, hRest⟩ := ih fun other hMem => h other (List.mem_cons_of_mem _ hMem)
    refine ⟨fun | 0 => assign | index + 1 => assigns index, ?_⟩
    rw [evalEvery, readOddEvery, hPart, hRest]

theorem evalAny_attained {odd : Bool} {parts : List Formula} (h : ∀ part ∈ parts, Attained odd part) :
    ∃ assigns, evalAny parts assigns = readOddAny odd parts := by
  induction parts with
  | nil => exact ⟨fun _ _ => false, rfl⟩
  | cons part rest ih =>
    obtain ⟨assign, hPart⟩ := h part List.mem_cons_self
    obtain ⟨assigns, hRest⟩ := ih fun other hMem => h other (List.mem_cons_of_mem _ hMem)
    refine ⟨fun | 0 => assign | index + 1 => assigns index, ?_⟩
    rw [evalAny, readOddAny, hPart, hRest]

/-- The assignment that is each of the given ones below its own index. -/
def Assignment.join (assigns : Nat → Assignment) : Assignment
  | [] => false
  | index :: position => assigns index position

theorem attained (formula : Formula) (odd : Bool) : Attained odd formula := by
  induction formula using Formula.induct generalizing odd with
  | known value => exact ⟨fun _ => false, rfl⟩
  | unknown => exact ⟨fun _ => odd, rfl⟩
  | every parts ih =>
    obtain ⟨assigns, hParts⟩ := evalEvery_attained fun part hMem => ih part hMem odd
    exact ⟨Assignment.join assigns, hParts⟩
  | any parts ih =>
    obtain ⟨assigns, hParts⟩ := evalAny_attained fun part hMem => ih part hMem odd
    exact ⟨Assignment.join assigns, hParts⟩
  | neg inner ih =>
    obtain ⟨assign, hInner⟩ := ih (!odd)
    exact ⟨Assignment.join fun _ => assign, congrArg (!·) hInner⟩

theorem eval_true_iff (formula : Formula) :
    (∀ assign, formula.eval assign = true) ↔ formula.readOdd false = true := by
  constructor
  · intro hAll
    obtain ⟨assign, hAttained⟩ := attained formula false
    exact hAttained.symm.trans (hAll assign)
  · intro hWorst assign
    have hLow := (bounded formula assign).1
    rw [hWorst] at hLow
    exact top_le_iff.mp hLow

/-- That the formula, true where every unknown is false, is true anyway: the unknowns under an odd
number of negations do not matter to it. -/
theorem eval_true_of_false_iff (formula : Formula) :
    ((formula.eval fun _ => false) = true → ∀ assign, formula.eval assign = true) ↔
      formula.readOdd false = formula.eval fun _ => false := by
  rw [eval_true_iff]
  have hLow := (bounded formula fun _ => false).1
  cases hWorst : formula.readOdd false with
  | true =>
    rw [hWorst] at hLow
    simp [top_le_iff.mp hLow]
  | false =>
    cases formula.eval fun _ => false with
    | true => simp
    | false => simp

end Formula

end Flagship.Lib
