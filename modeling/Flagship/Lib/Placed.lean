import Flagship.Lib.Traverse

/-! # Elements with their places

What a list keeps of its elements, each with the place where it stood. The places ascend, and
each of them is determined by the element that stands there.
-/

namespace Flagship.Lib

universe u

variable {α β : Type u}

/-- Places are counted from a given one on. -/
def placed (select : α → Option β) (start : ℕ) (xs : List α) : List (ℕ × β) :=
  (xs.zipIdx start).filterMap fun entry => (select entry.1).map fun b => (entry.2, b)

/-- What is kept of changed elements is the change of what is kept, place by place. -/
theorem placed_map {select : α → Option β} {change : α → α} {changed : β → β}
    (h : ∀ x, select (change x) = (select x).map changed) (start : ℕ) (xs : List α) :
    placed select start (xs.map change) = (placed select start xs).map fun entry => (entry.1, changed entry.2) := by
  induction xs generalizing start with
  | nil => rfl
  | cons x rest ih =>
    have hRest := ih (start + 1)
    simp only [placed, List.map_cons, List.zipIdx_cons, List.filterMap_cons, h] at hRest ⊢
    cases select x with
    | none => exact hRest
    | some b => simp [hRest]

theorem mem_placed {select : α → Option β} {xs : List α} {i : ℕ} {b : β} :
    (i, b) ∈ placed select 0 xs ↔ ∃ x, xs[i]? = some x ∧ select x = some b := by
  rw [placed, List.mem_filterMap]
  constructor
  · rintro ⟨⟨x, place⟩, hMem, hSelect⟩
    obtain ⟨_, hKept, hSame⟩ := Option.map_eq_some_iff.mp hSelect
    obtain ⟨rfl, rfl⟩ := Prod.mk.inj hSame
    exact ⟨x, List.mk_mem_zipIdx_iff_getElem?.mp hMem, hKept⟩
  · rintro ⟨x, hAt, hKept⟩
    exact ⟨(x, i), List.mk_mem_zipIdx_iff_getElem?.mpr hAt, by rw [hKept]; rfl⟩

theorem pairwise_placed (select : α → Option β) (start : ℕ) (xs : List α) :
    (placed select start xs).Pairwise fun a b => a.1 < b.1 := by
  have hPlaces : (xs.zipIdx start).Pairwise fun a b => a.2 < b.2 := by
    apply List.pairwise_map.mp
    rw [List.zipIdx_map_snd]
    exact List.pairwise_lt_range'
  apply hPlaces.filterMap
  rintro ⟨x, i⟩ ⟨y, j⟩ hBelow a hFirst b hSecond
  obtain ⟨_, _, rfl⟩ := Option.map_eq_some_iff.mp hFirst
  obtain ⟨_, _, rfl⟩ := Option.map_eq_some_iff.mp hSecond
  exact hBelow

/-! ## Places in a traversal -/

variable {ε : Type*} {f : α → Except ε β} {xs : List α} {ys : List β}

theorem length_of_mapM (h : xs.mapM f = .ok ys) : ys.length = xs.length :=
  (mapM_eq_ok.mp h).length_eq.symm

theorem getElem?_of_mapM (h : xs.mapM f = .ok ys) {i : ℕ} {y : β} (hAt : ys[i]? = some y) :
    ∃ x, xs[i]? = some x ∧ f x = .ok y := by
  rw [mapM_eq_ok] at h
  induction h generalizing i with
  | nil => simp at hAt
  | @cons x here xs ys hHead _ ih =>
    cases i with
    | zero =>
      obtain rfl := Option.some.inj hAt
      exact ⟨x, rfl, hHead⟩
    | succ i => exact ih hAt

end Flagship.Lib
