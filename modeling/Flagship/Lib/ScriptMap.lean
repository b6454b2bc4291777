import Mathlib.Data.List.Nodup

/-! # Insertion-ordered sets, and maps built from a list of entries

A map is the list of its `set` calls; the last one for a key is the one that counts.
-/

namespace Flagship.Lib

variable {κ β : Type*}

def insertLast [DecidableEq κ] (keys : List κ) (key : κ) : List κ :=
  if key ∈ keys then keys else keys ++ [key]

@[simp] theorem mem_insertLast [DecidableEq κ] {keys : List κ} {key added : κ} :
    key ∈ insertLast keys added ↔ key ∈ keys ∨ key = added := by
  unfold insertLast
  split
  · rename_i hMem
    constructor
    · exact Or.inl
    · rintro (h | rfl)
      · exact h
      · exact hMem
  · simp

def mapGet (same : κ → κ → Bool) (entries : List (κ × β)) (key : κ) : Option β :=
  (entries.reverse.find? fun entry => same key entry.1).map Prod.snd

theorem mem_of_mapGet {same : κ → κ → Bool} {entries : List (κ × β)} {key : κ} {value : β}
    (h : mapGet same entries key = some value) : ∃ stored, (stored, value) ∈ entries ∧ same key stored = true := by
  obtain ⟨⟨stored, _⟩, hFind, rfl⟩ := Option.map_eq_some_iff.mp h
  exact ⟨stored, List.mem_reverse.mp (List.mem_of_find?_eq_some hFind), by simpa using List.find?_some hFind⟩

theorem mapGet_isSome {same : κ → κ → Bool} {entries : List (κ × β)} {key : κ} :
    (mapGet same entries key).isSome = true ↔ ∃ entry ∈ entries, same key entry.1 = true := by
  simp [mapGet, List.find?_isSome]

theorem mapGet_map {γ : Type*} {same : κ → κ → Bool} {entries : List (κ × β)} {key : κ} (f : β → γ) :
    mapGet same (entries.map fun entry => (entry.1, f entry.2)) key = (mapGet same entries key).map f := by
  rw [mapGet, mapGet, ← List.map_reverse, List.find?_map, Option.map_map, Option.map_map]
  rfl

variable [DecidableEq κ]

abbrev keyGet (entries : List (κ × β)) (key : κ) : Option β := mapGet (fun a b => decide (a = b)) entries key

theorem mem_of_keyGet {entries : List (κ × β)} {key : κ} {value : β} (h : keyGet entries key = some value) :
    (key, value) ∈ entries := by
  obtain ⟨stored, hMem, hSame⟩ := mem_of_mapGet h
  rwa [of_decide_eq_true hSame]

theorem mem_keys_of_keyGet {entries : List (κ × β)} {key : κ} {value : β} (h : keyGet entries key = some value) :
    key ∈ entries.map Prod.fst := List.mem_map.mpr ⟨(key, value), mem_of_keyGet h, rfl⟩

theorem keyGet_of_mem {entries : List (κ × β)} {key : κ} {value : β} (hNodup : (entries.map Prod.fst).Nodup)
    (h : (key, value) ∈ entries) : keyGet entries key = some value := by
  have hSome : (keyGet entries key).isSome = true := mapGet_isSome.mpr ⟨(key, value), h, by simp⟩
  obtain ⟨found, hFound⟩ := Option.isSome_iff_exists.mp hSome
  have hMem := mem_of_keyGet hFound
  rw [hFound, (Prod.mk.inj (List.inj_on_of_nodup_map hNodup hMem h rfl)).2]

theorem keyGet_eq_none {entries : List (κ × β)} {key : κ} :
    keyGet entries key = none ↔ key ∉ entries.map Prod.fst := by
  rw [← Option.not_isSome_iff_eq_none, mapGet_isSome]
  simp only [List.mem_map, decide_eq_true_eq]
  constructor
  · rintro h ⟨entry, hMem, rfl⟩
    exact h ⟨entry, hMem, rfl⟩
  · rintro h ⟨entry, hMem, rfl⟩
    exact h ⟨entry, hMem, rfl⟩

theorem keyGet_filter {entries : List (κ × β)} (keep : κ → Bool) {key : κ} (hKeep : keep key = true) :
    keyGet (entries.filter (keep ·.1)) key = keyGet entries key := by
  rw [keyGet, keyGet, mapGet, mapGet, ← List.filter_reverse, List.find?_filter]
  congr 2
  funext entry
  by_cases hSame : key = entry.1
  · simp [← hSame, hKeep]
  · simp [hSame]

end Flagship.Lib
