import Mathlib.Data.List.Forall2

/-! # Traversals that can fail

A traversal succeeds exactly when the step succeeds on every element, and the results then
stand in the order of the elements.
-/

namespace Flagship.Lib

universe u

variable {α β : Type u} {ε : Type*}

theorem bind_eq_ok {x : Except ε α} {f : α → Except ε β} {r : β} :
    (x >>= f) = .ok r ↔ ∃ a, x = .ok a ∧ f a = .ok r := by
  cases x with
  | error error =>
    constructor
    · intro h
      cases h
    · rintro ⟨_, h, _⟩
      cases h
  | ok a =>
    constructor
    · intro h
      exact ⟨a, rfl, h⟩
    · rintro ⟨_, hSame, h⟩
      obtain rfl := Except.ok.inj hSame
      exact h

theorem mapM_eq_some {f : α → Option β} {xs : List α} {ys : List β} :
    xs.mapM f = some ys ↔ List.Forall₂ (fun x y => f x = some y) xs ys := by
  induction xs generalizing ys with
  | nil =>
    rw [List.mapM_nil, List.forall₂_nil_left_iff]
    exact ⟨fun h => (Option.some.inj h).symm, fun h => congrArg some h.symm⟩
  | cons x rest ih =>
    rw [List.mapM_cons, List.forall₂_cons_left_iff]
    constructor
    · intro h
      obtain ⟨y, hHead, h⟩ := Option.bind_eq_some_iff.mp h
      obtain ⟨ys', hRest, h⟩ := Option.bind_eq_some_iff.mp h
      exact ⟨y, ys', hHead, ih.mp hRest, (Option.some.inj h).symm⟩
    · rintro ⟨y, ys', hHead, hRest, rfl⟩
      rw [hHead, ih.mpr hRest]
      rfl

theorem filterMap_of_mapM {f : α → Option β} {xs : List α} {ys : List β} (h : xs.mapM f = some ys) :
    xs.filterMap f = ys := by
  rw [mapM_eq_some] at h
  induction h with
  | nil => rfl
  | cons hHead _ ih => rw [List.filterMap_cons_some hHead, ih]

theorem mapM_eq_ok {f : α → Except ε β} {xs : List α} {ys : List β} :
    xs.mapM f = .ok ys ↔ List.Forall₂ (fun x y => f x = .ok y) xs ys := by
  induction xs generalizing ys with
  | nil =>
    rw [List.mapM_nil, List.forall₂_nil_left_iff]
    exact ⟨fun h => (Except.ok.inj h).symm, fun h => congrArg Except.ok h.symm⟩
  | cons x rest ih =>
    rw [List.mapM_cons, List.forall₂_cons_left_iff]
    constructor
    · intro h
      obtain ⟨y, hHead, h⟩ := bind_eq_ok.mp h
      obtain ⟨ys', hRest, h⟩ := bind_eq_ok.mp h
      exact ⟨y, ys', hHead, ih.mp hRest, (Except.ok.inj h).symm⟩
    · rintro ⟨y, ys', hHead, hRest, rfl⟩
      rw [hHead, ih.mpr hRest]
      rfl

theorem exists_mapM_eq_ok_iff {f : α → Except ε β} {xs : List α} :
    (∃ ys, xs.mapM f = .ok ys) ↔ ∀ x ∈ xs, ∃ y, f x = .ok y := by
  simp only [mapM_eq_ok]
  induction xs with
  | nil => simp
  | cons x rest ih =>
    simp only [List.forall₂_cons_left_iff, List.forall_mem_cons, ← ih]
    constructor
    · rintro ⟨_, y, ys, hHead, hRest, rfl⟩
      exact ⟨⟨y, hHead⟩, ys, hRest⟩
    · rintro ⟨⟨y, hHead⟩, ys, hRest⟩
      exact ⟨y :: ys, y, ys, hHead, hRest, rfl⟩

theorem exists_mapM_eq_some_forall {f : α → Option β} {P : β → Prop} {xs : List α}
    (h : ∀ x ∈ xs, ∃ y, f x = some y ∧ P y) : ∃ ys, xs.mapM f = some ys ∧ ∀ y ∈ ys, P y := by
  induction xs with
  | nil => exact ⟨[], rfl, fun _ hMem => absurd hMem List.not_mem_nil⟩
  | cons x rest ih =>
    obtain ⟨y, hHead, hHolds⟩ := h x List.mem_cons_self
    obtain ⟨ys, hRest, hAll⟩ := ih fun other hOther => h other (List.mem_cons_of_mem _ hOther)
    refine ⟨y :: ys, ?_, List.forall_mem_cons.mpr ⟨hHolds, hAll⟩⟩
    rw [mapM_eq_some] at hRest ⊢
    exact List.Forall₂.cons hHead hRest

theorem exists_mapM_eq_some {f : α → Option β} {xs : List α} (h : ∀ x ∈ xs, ∃ y, f x = some y) :
    ∃ ys, xs.mapM f = some ys := by
  obtain ⟨ys, hYs, _⟩ := exists_mapM_eq_some_forall (P := fun _ => True) fun x hMem =>
    let ⟨y, hHead⟩ := h x hMem
    ⟨y, hHead, trivial⟩
  exact ⟨ys, hYs⟩

/-- Checks that each give a list of findings, and none was found. -/
theorem forall_of_flatten_eq_nil {f : α → Except ε (List β)} {xs : List α} {found : List (List β)}
    (h : xs.mapM f = .ok found) (hNone : found.flatten = []) : ∀ x ∈ xs, f x = .ok [] := by
  rw [mapM_eq_ok] at h
  induction h with
  | nil =>
    intro x hMem
    cases hMem
  | @cons x here xs rest hHead _ ih =>
    rw [List.flatten_cons, List.append_eq_nil_iff] at hNone
    intro other hMem
    rcases List.mem_cons.mp hMem with rfl | hMem
    · rw [hHead, hNone.1]
    · exact ih hNone.2 other hMem

theorem flatten_eq_nil_of_forall {f : α → Except ε (List β)} {xs : List α} (h : ∀ x ∈ xs, f x = .ok []) :
    ∃ found, xs.mapM f = .ok found ∧ found.flatten = [] := by
  induction xs with
  | nil => exact ⟨[], rfl, rfl⟩
  | cons x rest ih =>
    obtain ⟨found, hRest, hFlat⟩ := ih fun other hOther => h other (List.mem_cons_of_mem _ hOther)
    refine ⟨[] :: found, ?_, hFlat⟩
    rw [mapM_eq_ok] at hRest ⊢
    exact List.Forall₂.cons (h x List.mem_cons_self) hRest

theorem map_eq_map_of_forall₂ {γ : Type*} {R : α → β → Prop} {f : α → γ} {g : β → γ} {xs : List α}
    {ys : List β} (hSame : ∀ x y, R x y → f x = g y) (h : List.Forall₂ R xs ys) : xs.map f = ys.map g := by
  induction h with
  | nil => rfl
  | cons hHead _ ih => rw [List.map_cons, List.map_cons, hSame _ _ hHead, ih]

theorem any_eq_any_of_forall₂ {R : α → β → Prop} {p : α → Bool} {q : β → Bool} {xs : List α} {ys : List β}
    (hSame : ∀ x y, R x y → p x = q y) (h : List.Forall₂ R xs ys) : xs.any p = ys.any q := by
  induction h with
  | nil => rfl
  | cons hHead _ ih => rw [List.any_cons, List.any_cons, hSame _ _ hHead, ih]

theorem filter_eq_filter_of_forall₂ {R : α → α → Prop} {p q : α → Bool} {xs ys : List α}
    (h : List.Forall₂ R xs ys)
    (hKept : ∀ x ∈ xs, ∀ y, R x y → p x = q y ∧ (p x = true → x = y)) : xs.filter p = ys.filter q := by
  induction h with
  | nil => rfl
  | @cons x y xs ys hHead _ ih =>
    obtain ⟨hSame, hEqual⟩ := hKept x List.mem_cons_self y hHead
    have hRest := ih fun other hMem => hKept other (List.mem_cons_of_mem _ hMem)
    cases hKeep : p x with
    | false =>
      rw [List.filter_cons_of_neg (by simp [hKeep]), List.filter_cons_of_neg (by simp [← hSame, hKeep]), hRest]
    | true =>
      rw [List.filter_cons_of_pos hKeep, List.filter_cons_of_pos (hSame ▸ hKeep), hRest, hEqual hKeep]

theorem exists_of_mem_forall₂ {R : α → β → Prop} {xs : List α} {ys : List β} (h : List.Forall₂ R xs ys) :
    ∀ y ∈ ys, ∃ x ∈ xs, R x y := by
  induction h with
  | nil =>
    intro y hMem
    cases hMem
  | @cons x y xs ys hHead _ ih =>
    intro other hMem
    rcases List.mem_cons.mp hMem with rfl | hMem
    · exact ⟨x, List.mem_cons_self, hHead⟩
    · obtain ⟨found, hFound, hRel⟩ := ih other hMem
      exact ⟨found, List.mem_cons_of_mem _ hFound, hRel⟩

end Flagship.Lib
