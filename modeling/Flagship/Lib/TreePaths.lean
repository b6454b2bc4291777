import Mathlib.Data.List.Infix

/-! # Changing a tree at an address

Trees of any kind that has nodes with children, addressed by the positions of children from the
root on. A node is changed by rebuilding the ones above it; every law of such changes that compares
two addresses comes down to where they part.
-/

namespace Flagship.Lib.TreePaths

/-- Some trees have children, and can be given others in their place. -/
class Branching (τ : Type*) where
  children : τ → Option (List τ)
  rebuild : τ → List τ → τ
  children_rebuild {t : τ} {cs : List τ} : children t = some cs → ∀ ds, children (rebuild t ds) = some ds
  rebuild_children {t : τ} {cs : List τ} : children t = some cs → rebuild t cs = t
  rebuild_rebuild (t : τ) (cs ds : List τ) : rebuild (rebuild t cs) ds = rebuild t ds

open Branching

abbrev Address := List ℕ

/-- Neither address leads through the other. -/
def Apart {α : Type*} (p q : List α) : Prop := ¬ p <+: q ∧ ¬ q <+: p

theorem apart_cons {α : Type*} {i j : α} {p q : List α} (h : Apart (i :: p) (j :: q)) :
    i ≠ j ∨ i = j ∧ Apart p q := by
  obtain hSame | hOther := Classical.em (i = j)
  · subst hSame
    refine Or.inr ⟨rfl, ?_, ?_⟩
    · exact fun hPrefix => h.1 (List.cons_prefix_cons.mpr ⟨rfl, hPrefix⟩)
    · exact fun hPrefix => h.2 (List.cons_prefix_cons.mpr ⟨rfl, hPrefix⟩)
  · exact Or.inl hOther

section

variable {τ : Type*} [Branching τ]

def child (t : τ) (i : ℕ) : Option τ := (children t).bind (·[i]?)

def subtreeAt (t : τ) : Address → Option τ
  | [] => some t
  | i :: rest => (child t i).bind (subtreeAt · rest)

def modifyChild (t : τ) (i : ℕ) (f : τ → τ) : τ :=
  match children t with
  | none => t
  | some cs => rebuild t (cs.modify i f)

def modifyAt (t : τ) (address : Address) (f : τ → τ) : τ :=
  match address with
  | [] => f t
  | i :: rest => modifyChild t i (modifyAt · rest f)

def eraseChild (i : ℕ) (t : τ) : τ :=
  match children t with
  | none => t
  | some cs => rebuild t (cs.eraseIdx i)

def eraseAt (t : τ) : Address → τ
  | [] => t
  | [i] => eraseChild i t
  | i :: rest => modifyChild t i (eraseAt · rest)

/-! ## One level -/

section

variable {t : τ} {cs : List τ}

theorem child_of_children (h : children t = some cs) (i : ℕ) : child t i = cs[i]? := by
  rw [child, h, Option.bind_some]

theorem child_rebuild (h : children t = some cs) (ds : List τ) (i : ℕ) : child (rebuild t ds) i = ds[i]? :=
  child_of_children (children_rebuild h ds) i

theorem modifyChild_of_leaf (h : children t = none) (i : ℕ) (f : τ → τ) : modifyChild t i f = t := by
  rw [modifyChild, h]

theorem modifyChild_of_children (h : children t = some cs) (i : ℕ) (f : τ → τ) :
    modifyChild t i f = rebuild t (cs.modify i f) := by
  rw [modifyChild, h]

theorem eraseChild_of_leaf (h : children t = none) (i : ℕ) : eraseChild i t = t := by
  rw [eraseChild, h]

theorem eraseChild_of_children (h : children t = some cs) (i : ℕ) :
    eraseChild i t = rebuild t (cs.eraseIdx i) := by
  rw [eraseChild, h]

end

theorem child_modifyChild (t : τ) (i j : ℕ) (f : τ → τ) :
    child (modifyChild t i f) j = if i = j then (child t j).map f else child t j := by
  cases hChildren : children t with
  | none => simp [modifyChild_of_leaf hChildren, child, hChildren]
  | some cs =>
    rw [modifyChild_of_children hChildren, child_rebuild hChildren, child_of_children hChildren, List.getElem?_modify]
    split
    · rfl
    · exact congrFun Option.map_id _

theorem child_modifyChild_self (t : τ) (i : ℕ) (f : τ → τ) : child (modifyChild t i f) i = (child t i).map f := by
  rw [child_modifyChild, if_pos rfl]

theorem child_modifyChild_ne {i j : ℕ} (h : i ≠ j) (t : τ) (f : τ → τ) :
    child (modifyChild t i f) j = child t j := by
  rw [child_modifyChild, if_neg h]

theorem modifyChild_of_fixed {t : τ} {i : ℕ} {f : τ → τ} (h : ∀ c, child t i = some c → f c = c) :
    modifyChild t i f = t := by
  cases hChildren : children t with
  | none => exact modifyChild_of_leaf hChildren i f
  | some cs =>
    have hSame : cs.modify i f = cs := by
      apply List.ext_getElem?
      intro j
      rw [List.getElem?_modify]
      split
      · rename_i hPlace
        subst hPlace
        cases hChild : cs[i]? with
        | none => rfl
        | some c => exact congrArg some (h c ((child_of_children hChildren i).trans hChild))
      · exact congrFun Option.map_id _
    rw [modifyChild_of_children hChildren, hSame, rebuild_children hChildren]

theorem modifyChild_modifyChild (t : τ) (i : ℕ) (f g : τ → τ) :
    modifyChild (modifyChild t i f) i g = modifyChild t i (g ∘ f) := by
  cases hChildren : children t with
  | none => simp only [modifyChild_of_leaf hChildren]
  | some cs =>
    rw [modifyChild_of_children hChildren, modifyChild_of_children hChildren,
      modifyChild_of_children (children_rebuild hChildren _), rebuild_rebuild, List.modify_modify_eq]

theorem modifyChild_comm {i j : ℕ} (h : i ≠ j) (t : τ) (f g : τ → τ) :
    modifyChild (modifyChild t i f) j g = modifyChild (modifyChild t j g) i f := by
  cases hChildren : children t with
  | none => simp only [modifyChild_of_leaf hChildren]
  | some cs =>
    rw [modifyChild_of_children hChildren, modifyChild_of_children hChildren,
      modifyChild_of_children (children_rebuild hChildren _), modifyChild_of_children (children_rebuild hChildren _),
      rebuild_rebuild, rebuild_rebuild, List.modify_modify_ne _ _ _ h]

/-- The children after the erased one move up. -/
theorem child_eraseChild (t : τ) (i j : ℕ) :
    child (eraseChild i t) j = child t (if j < i then j else j + 1) := by
  cases hChildren : children t with
  | none => simp [eraseChild_of_leaf hChildren, child, hChildren]
  | some cs =>
    rw [eraseChild_of_children hChildren, child_rebuild hChildren, child_of_children hChildren,
      List.getElem?_eraseIdx]
    split <;> rfl

theorem eraseChild_of_none {t : τ} {i : ℕ} (h : child t i = none) : eraseChild i t = t := by
  cases hChildren : children t with
  | none => exact eraseChild_of_leaf hChildren i
  | some cs =>
    rw [child_of_children hChildren, List.getElem?_eq_none_iff] at h
    rw [eraseChild_of_children hChildren, List.eraseIdx_of_length_le h, rebuild_children hChildren]

/-! ## Any level -/

theorem subtreeAt_append (t : τ) (p q : Address) : subtreeAt t (p ++ q) = (subtreeAt t p).bind (subtreeAt · q) := by
  induction p generalizing t with
  | nil => rfl
  | cons i rest ih =>
    rw [List.cons_append, subtreeAt, subtreeAt]
    cases child t i with
    | none => rfl
    | some c => exact ih c

theorem modifyAt_append (t : τ) (p q : Address) (f : τ → τ) :
    modifyAt t (p ++ q) f = modifyAt t p (modifyAt · q f) := by
  induction p generalizing t with
  | nil => rfl
  | cons i rest ih =>
    rw [List.cons_append, modifyAt, modifyAt]
    congr 1
    exact funext ih

theorem subtreeAt_modifyAt (t : τ) (p : Address) (f : τ → τ) :
    subtreeAt (modifyAt t p f) p = (subtreeAt t p).map f := by
  induction p generalizing t with
  | nil => rfl
  | cons i rest ih =>
    rw [modifyAt, subtreeAt, subtreeAt, child_modifyChild_self]
    cases child t i with
    | none => rfl
    | some c => exact ih c

/-- Below the changed node, its new subtrees. -/
theorem subtreeAt_modifyAt_append (t : τ) (p q : Address) (f : τ → τ) :
    subtreeAt (modifyAt t p f) (p ++ q) = (subtreeAt t p).bind fun s => subtreeAt (f s) q := by
  rw [subtreeAt_append, subtreeAt_modifyAt]
  cases subtreeAt t p <;> rfl

/-- Above it, the change where it stands. -/
theorem subtreeAt_modifyAt_prefix (t : τ) (p q : Address) (f : τ → τ) :
    subtreeAt (modifyAt t (p ++ q) f) p = (subtreeAt t p).map (modifyAt · q f) := by
  rw [modifyAt_append, subtreeAt_modifyAt]

theorem subtreeAt_modifyAt_apart {p q : Address} (h : Apart p q) (t : τ) (f : τ → τ) :
    subtreeAt (modifyAt t p f) q = subtreeAt t q := by
  induction p generalizing t q with
  | nil => exact absurd List.nil_prefix h.1
  | cons i rest ih =>
    cases q with
    | nil => exact absurd List.nil_prefix h.2
    | cons j others =>
      rw [modifyAt, subtreeAt, subtreeAt]
      obtain hOther | ⟨rfl, hRest⟩ := apart_cons h
      · rw [child_modifyChild_ne hOther]
      · rw [child_modifyChild_self]
        cases child t i with
        | none => rfl
        | some c => exact ih hRest c

/-- A change that leaves the node alone, or finds none, leaves the tree alone. -/
theorem modifyAt_of_fixed {t : τ} {p : Address} {f : τ → τ} (h : ∀ s, subtreeAt t p = some s → f s = s) :
    modifyAt t p f = t := by
  induction p generalizing t with
  | nil => exact h t rfl
  | cons i rest ih =>
    apply modifyChild_of_fixed
    intro c hChild
    apply ih
    intro s hSubtree
    exact h s (by rw [subtreeAt, hChild, Option.bind_some, hSubtree])

theorem modifyAt_comm {p q : Address} (h : Apart p q) (t : τ) (f g : τ → τ) :
    modifyAt (modifyAt t p f) q g = modifyAt (modifyAt t q g) p f := by
  induction p generalizing t q with
  | nil => exact absurd List.nil_prefix h.1
  | cons i rest ih =>
    cases q with
    | nil => exact absurd List.nil_prefix h.2
    | cons j others =>
      rw [modifyAt, modifyAt, modifyAt, modifyAt]
      obtain hOther | ⟨rfl, hRest⟩ := apart_cons h
      · exact modifyChild_comm hOther t _ _
      · rw [modifyChild_modifyChild, modifyChild_modifyChild]
        congr 1
        exact funext (ih hRest)

theorem eraseAt_concat (t : τ) (p : Address) (i : ℕ) : eraseAt t (p ++ [i]) = modifyAt t p (eraseChild i) := by
  induction p generalizing t with
  | nil => rfl
  | cons j rest ih =>
    have hMore : rest ++ [i] ≠ [] := List.concat_ne_nil i rest
    rw [List.cons_append, eraseAt.eq_3 t j (rest ++ [i]) hMore, modifyAt]
    congr 1
    exact funext ih

theorem eraseAt_of_none {t : τ} {p : Address} (h : subtreeAt t p = none) : eraseAt t p = t := by
  obtain rfl | ⟨before, i, rfl⟩ := List.eq_nil_or_concat p
  · rfl
  · rw [List.concat_eq_append, eraseAt_concat]
    apply modifyAt_of_fixed
    intro s hSubtree
    rw [List.concat_eq_append, subtreeAt_append, hSubtree, Option.bind_some, subtreeAt] at h
    apply eraseChild_of_none
    cases hChild : child s i with
    | none => rfl
    | some c =>
      rw [hChild, Option.bind_some] at h
      cases h

/-- Where a child was erased, the later ones and all below them are found one place earlier. -/
theorem subtreeAt_eraseChild (t : τ) (p : Address) (i j : ℕ) (q : Address) :
    subtreeAt (modifyAt t p (eraseChild i)) (p ++ j :: q) =
      subtreeAt t (p ++ (if j < i then j else j + 1) :: q) := by
  rw [subtreeAt_modifyAt_append, subtreeAt_append]
  congr 1
  funext s
  rw [subtreeAt, subtreeAt, child_eraseChild]

end

end Flagship.Lib.TreePaths
