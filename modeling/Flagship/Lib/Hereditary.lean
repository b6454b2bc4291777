import Mathlib.Logic.Relation
import Mathlib.Order.WellFoundedSet

/-! # Predicates inherited along a reference relation

`Hereditary ok refers a` holds when `a` is `ok` and everything it refers to is hereditary in
turn. As an inductive predicate it rules out cycles: nothing hereditary reaches itself.
-/

namespace Flagship.Lib

variable {α : Type*}

inductive Hereditary (ok : α → Prop) (refers : α → α → Prop) : α → Prop where
  | intro (a : α) (hOk : ok a) (hNext : ∀ b, refers a b → Hereditary ok refers b) : Hereditary ok refers a

namespace Hereditary

variable {ok : α → Prop} {refers : α → α → Prop} {a b : α}

theorem holds (h : Hereditary ok refers a) : ok a := by
  cases h with
  | intro _ hOk _ => exact hOk

theorem next (h : Hereditary ok refers a) (hRefers : refers a b) : Hereditary ok refers b := by
  cases h with
  | intro _ _ hNext => exact hNext b hRefers

theorem irreflexive (h : Hereditary ok refers a) : ¬ Relation.TransGen refers a a := by
  induction h with
  | intro a _ _ ih =>
    intro hCycle
    rcases Relation.TransGen.head'_iff.mp hCycle with ⟨b, hStep, hBack⟩
    exact ih b hStep (Relation.TransGen.tail' hBack hStep)

theorem mono {ok' : α → Prop} (hOk : ∀ a, ok a → ok' a) (h : Hereditary ok refers a) :
    Hereditary ok' refers a := by
  induction h with
  | intro a hHere _ ih => exact intro a (hOk a hHere) ih

theorem mono_refers {refers' : α → α → Prop} (hRefers : ∀ a b, refers' a b → refers a b)
    (h : Hereditary ok refers a) : Hereditary ok refers' a := by
  induction h with
  | intro a hHere _ ih => exact intro a hHere fun b hb => ih b (hRefers a b hb)

theorem of_wellFounded (hGrounded : WellFounded fun b a => refers a b) (hOk : ∀ a, ok a) (a : α) :
    Hereditary ok refers a := by
  induction a using hGrounded.induction with
  | h a ih => exact intro a (hOk a) ih

end Hereditary

section Acyclic

variable {refers : α → α → Prop}

/-- Only the finitely many sources go on, and none of them comes back to itself. -/
theorem wellFounded_of_acyclic {sources : Set α} (hFinite : sources.Finite)
    (hSources : ∀ a b, refers a b → a ∈ sources) (hAcyclic : ∀ a, ¬ Relation.TransGen refers a a) :
    WellFounded fun b a => refers a b := by
  have : IsTrans α fun b a => Relation.TransGen refers a b := ⟨fun _ _ _ hba hcb => hcb.trans hba⟩
  have : Std.Irrefl fun b a => Relation.TransGen refers a b := ⟨hAcyclic⟩
  have : IsStrictOrder α fun b a => Relation.TransGen refers a b := {}
  have hLeaf : ∀ a, a ∉ sources → Acc (fun b a => refers a b) a :=
    fun a hNot => Acc.intro a fun b hRefers => absurd (hSources a b hRefers) hNot
  refine ⟨fun a => ?_⟩
  by_cases hSource : a ∈ sources
  · have hOrder : sources.WellFoundedOn fun b a => Relation.TransGen refers a b := hFinite.wellFoundedOn
    apply hOrder.induction hSource
    intro a _ ih
    refine Acc.intro a fun b hRefers => ?_
    by_cases hNext : b ∈ sources
    · exact ih b hNext (Relation.TransGen.single hRefers)
    · exact hLeaf b hNext
  · exact hLeaf a hSource

theorem acyclic_of_rank (rank : α → ℕ) (hRank : ∀ a b, refers a b → rank b < rank a) (a : α) :
    ¬ Relation.TransGen refers a a := by
  have hFalls : ∀ {a b}, Relation.TransGen refers a b → rank b < rank a := by
    intro a b hPath
    induction hPath with
    | single hRefers => exact hRank _ _ hRefers
    | tail _ hRefers ih => exact (hRank _ _ hRefers).trans ih
  exact fun hCycle => Nat.lt_irrefl _ (hFalls hCycle)

end Acyclic

section Reachable

variable {ok : α → Prop} {refers : α → α → Prop} {a b : α}

theorem Hereditary.reach (h : Hereditary ok refers a) (hPath : Relation.ReflTransGen refers a b) :
    Hereditary ok refers b := by
  induction hPath with
  | refl => exact h
  | tail _ hRefers ih => exact ih.next hRefers

/-- Where finitely many things refer to others, what is hereditary is what reaches only `ok` things
and no cycle. -/
theorem hereditary_iff_reachable {sources : Set α} (hFinite : sources.Finite)
    (hSources : ∀ a b, refers a b → a ∈ sources) :
    Hereditary ok refers a ↔
      ∀ b, Relation.ReflTransGen refers a b → ok b ∧ ¬ Relation.TransGen refers b b := by
  constructor
  · intro h b hPath
    exact ⟨(h.reach hPath).holds, (h.reach hPath).irreflexive⟩
  · intro h
    have hBelow : ∀ {c d}, Relation.TransGen (fun c d => refers c d ∧ Relation.ReflTransGen refers a c) c d →
        Relation.TransGen refers c d ∧ Relation.ReflTransGen refers a c := by
      intro c d hPath
      induction hPath with
      | single hStep => exact ⟨Relation.TransGen.single hStep.1, hStep.2⟩
      | tail _ hStep ih => exact ⟨ih.1.tail hStep.1, ih.2⟩
    have hGrounded := wellFounded_of_acyclic hFinite (fun c d hStep => hSources c d hStep.1) fun c hCycle =>
      (h c (hBelow hCycle).2).2 (hBelow hCycle).1
    have hAll : ∀ b, Relation.ReflTransGen refers a b → Hereditary ok refers b := by
      intro b
      induction b using hGrounded.induction with
      | h b ih =>
        intro hPath
        exact Hereditary.intro b (h b hPath).1 fun c hStep => ih c ⟨hStep, hPath⟩ (hPath.tail hStep)
    exact hAll a Relation.ReflTransGen.refl

end Reachable

end Flagship.Lib
