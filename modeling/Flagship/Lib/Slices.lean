import Mathlib.Algebra.Ring.Nat
import Mathlib.Data.List.Infix
import Mathlib.Order.Interval.Finset.Nat

/-! # Consecutive slices of a range

Keyed slices are laid end to end from a start, each as wide as its weight. The walk with a
running total cuts the range into them: every point inside belongs to one slice, and a key owns
as many points as its slices are wide together.
-/

namespace Flagship.Lib.Slices

variable {κ : Type*}

def width (slices : List (κ × ℕ)) : ℕ := (slices.map Prod.snd).sum

/-- The key of the first slice that ends past the point. -/
def keyAt (start point : ℕ) : List (κ × ℕ) → Option κ
  | [] => none
  | slice :: rest => if point < start + slice.2 then some slice.1 else keyAt (start + slice.2) point rest

@[simp] theorem width_nil : width ([] : List (κ × ℕ)) = 0 := rfl

@[simp] theorem width_cons (slice : κ × ℕ) (rest : List (κ × ℕ)) : width (slice :: rest) = slice.2 + width rest := by
  rw [width, List.map_cons, List.sum_cons, width]

@[simp] theorem width_append (before after : List (κ × ℕ)) :
    width (before ++ after) = width before + width after := by
  rw [width, List.map_append, List.sum_append, width, width]

theorem width_le_of_prefix {taken slices : List (κ × ℕ)} (h : taken <+: slices) : width taken ≤ width slices := by
  obtain ⟨rest, rfl⟩ := h
  rw [width_append]
  exact Nat.le_add_right _ _

theorem keyAt_append (start point : ℕ) (before after : List (κ × ℕ)) :
    keyAt start point (before ++ after) =
      (keyAt start point before).or (keyAt (start + width before) point after) := by
  induction before generalizing start with
  | nil => rfl
  | cons slice rest ih =>
    rw [List.cons_append, keyAt, keyAt, ih, width_cons, Nat.add_assoc]
    split
    · rfl
    · rfl

theorem keyAt_map {μ : Type*} (rename : κ → μ) (start point : ℕ) (slices : List (κ × ℕ)) :
    keyAt start point (slices.map fun slice => (rename slice.1, slice.2)) = (keyAt start point slices).map rename := by
  induction slices generalizing start with
  | nil => rfl
  | cons slice rest ih =>
    rw [List.map_cons, keyAt, keyAt, ih]
    split
    · rfl
    · rfl

theorem keyAt_eq_none_iff {start point : ℕ} (hStart : start ≤ point) {slices : List (κ × ℕ)} :
    keyAt start point slices = none ↔ start + width slices ≤ point := by
  induction slices generalizing start with
  | nil => simp [keyAt, hStart]
  | cons slice rest ih =>
    rw [keyAt, width_cons, ← Nat.add_assoc]
    by_cases hInside : point < start + slice.2
    · rw [if_pos hInside]
      constructor
      · intro h
        cases h
      · intro h
        omega
    · rw [if_neg hInside, ih (by omega)]

theorem mem_of_keyAt {start point : ℕ} {slices : List (κ × ℕ)} {key : κ} (h : keyAt start point slices = some key) :
    key ∈ slices.map Prod.fst := by
  induction slices generalizing start with
  | nil => cases h
  | cons slice rest ih =>
    rw [keyAt] at h
    rw [List.map_cons]
    split at h
    · obtain rfl := Option.some.inj h
      exact List.mem_cons_self
    · exact List.mem_cons_of_mem _ (ih h)

theorem exists_keyAt {start point : ℕ} {slices : List (κ × ℕ)} (hStart : start ≤ point)
    (hPoint : point < start + width slices) : ∃ key, keyAt start point slices = some key := by
  apply Option.ne_none_iff_exists'.mp
  intro hNone
  have hPast := (keyAt_eq_none_iff hStart).mp hNone
  omega

/-- A key that stands once owns one interval: from the slices before it to the end of its own. -/
theorem keyAt_eq_some_iff {start point : ℕ} {before after : List (κ × ℕ)} {key : κ} {weight : ℕ}
    (hStart : start ≤ point) (hBefore : key ∉ before.map Prod.fst) (hAfter : key ∉ after.map Prod.fst) :
    keyAt start point (before ++ (key, weight) :: after) = some key ↔
      start + width before ≤ point ∧ point < start + width before + weight := by
  rw [keyAt_append]
  cases hFirst : keyAt start point before with
  | some other =>
    rw [Option.some_or]
    constructor
    · intro hSame
      obtain rfl := Option.some.inj hSame
      exact absurd (mem_of_keyAt hFirst) hBefore
    · rintro ⟨hPast, _⟩
      rw [(keyAt_eq_none_iff hStart).mpr hPast] at hFirst
      cases hFirst
  | none =>
    have hPast := (keyAt_eq_none_iff hStart).mp hFirst
    rw [Option.none_or, keyAt]
    constructor
    · intro hFound
      split at hFound
      · rename_i hInside
        exact ⟨hPast, hInside⟩
      · exact absurd (mem_of_keyAt hFound) hAfter
    · rintro ⟨_, hInside⟩
      rw [if_pos hInside]

/-- The walk hands every key exactly the width of its slices. -/
theorem card_keyAt [DecidableEq κ] (start : ℕ) (slices : List (κ × ℕ)) (key : κ) :
    ((Finset.Ico start (start + width slices)).filter fun point => keyAt start point slices = some key).card =
      width (slices.filter fun slice => slice.1 = key) := by
  induction slices generalizing start with
  | nil => simp
  | cons slice rest ih =>
    -- the first slice, and what the walk does with its end as the new start
    have hSplit : Finset.Ico start (start + width (slice :: rest)) =
        Finset.Ico start (start + slice.2) ∪ Finset.Ico (start + slice.2) (start + slice.2 + width rest) := by
      rw [width_cons, ← Nat.add_assoc, Finset.Ico_union_Ico_eq_Ico (Nat.le_add_right _ _) (Nat.le_add_right _ _)]
    have hFirst : (Finset.Ico start (start + slice.2)).filter
        (fun point => keyAt start point (slice :: rest) = some key) =
        if slice.1 = key then Finset.Ico start (start + slice.2) else ∅ := by
      rw [← Finset.filter_const]
      apply Finset.filter_congr
      intro point hPoint
      rw [keyAt, if_pos (Finset.mem_Ico.mp hPoint).2, Option.some.injEq]
    have hRest : (Finset.Ico (start + slice.2) (start + slice.2 + width rest)).filter
        (fun point => keyAt start point (slice :: rest) = some key) =
        (Finset.Ico (start + slice.2) (start + slice.2 + width rest)).filter
          fun point => keyAt (start + slice.2) point rest = some key := by
      apply Finset.filter_congr
      intro point hPoint
      rw [keyAt, if_neg (not_lt.mpr (Finset.mem_Ico.mp hPoint).1)]
    rw [hSplit, Finset.filter_union, Finset.card_union_of_disjoint, hFirst, hRest, ih, List.filter_cons]
    · by_cases hKey : slice.1 = key
      · simp [hKey]
      · simp [hKey]
    · exact Finset.disjoint_filter_filter (Finset.Ico_disjoint_Ico_consecutive _ _ _)

/-! ## Walking with a machine's numbers -/

/-- The numbers in which a machine keeps a running total. -/
structure Totals (α : Type*) where
  ofNat : ℕ → α
  add : α → α → α
  lt : α → α → Bool

namespace Totals

variable {α : Type*} (numbers : Totals α)

structure Exact (bound : ℕ) : Prop where
  add : ∀ m n, m + n ≤ bound → numbers.add (numbers.ofNat m) (numbers.ofNat n) = numbers.ofNat (m + n)
  lt : ∀ m n, m ≤ bound → n ≤ bound → numbers.lt (numbers.ofNat m) (numbers.ofNat n) = decide (m < n)

def walk (total point : α) : List (κ × α) → Option κ
  | [] => none
  | slice :: rest =>
    let total := numbers.add total slice.2
    if numbers.lt point total then some slice.1 else walk total point rest

def encode (slices : List (κ × ℕ)) : List (κ × α) := slices.map fun slice => (slice.1, numbers.ofNat slice.2)

variable {numbers} {bound : ℕ}

/-- Below the bound the machine's walk is the walk. -/
theorem Exact.walk_eq (h : numbers.Exact bound) {start point : ℕ} {slices : List (κ × ℕ)} (hPoint : point ≤ bound)
    (hFits : start + width slices ≤ bound) :
    numbers.walk (numbers.ofNat start) (numbers.ofNat point) (numbers.encode slices) = keyAt start point slices := by
  induction slices generalizing start with
  | nil => rfl
  | cons slice rest ih =>
    rw [width_cons] at hFits
    rw [encode, List.map_cons, walk, keyAt]
    simp only [h.add start slice.2 (by omega), h.lt point (start + slice.2) hPoint (by omega), decide_eq_true_eq]
    rw [← encode, ih (by omega)]

/-- The running total stays the exact sum. -/
theorem Exact.foldl_eq (h : numbers.Exact bound) {start : ℕ} {slices : List (κ × ℕ)}
    (hFits : start + width slices ≤ bound) :
    (numbers.encode slices).foldl (fun total slice => numbers.add total slice.2) (numbers.ofNat start) =
      numbers.ofNat (start + width slices) := by
  induction slices generalizing start with
  | nil => rfl
  | cons slice rest ih =>
    rw [width_cons] at hFits
    rw [encode, List.map_cons, List.foldl_cons, h.add start slice.2 (by omega), ← encode, ih (by omega), width_cons,
      Nat.add_assoc]

end Totals

end Flagship.Lib.Slices
