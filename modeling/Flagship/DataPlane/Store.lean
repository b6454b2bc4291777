import Mathlib.Data.List.Basic
import Mathlib.Logic.Function.Basic

/-! # Current snapshots and their bounded history

`apps/data-plane/internal/store/store.go`. An environment's history ends with its current
snapshot and is increasing in version; its state carries the proof.
-/

namespace Flagship.DataPlane

variable {π : Type}

structure Snapshot (π : Type) where
  environment : String
  version : Int
  payload : π
  etag : String

structure EnvironmentState (π : Type) where
  current : Snapshot π
  history : List (Snapshot π)
  positive : ∀ snapshot ∈ history, 0 < snapshot.version
  increasing : history.Pairwise fun older newer => older.version < newer.version
  latest : history.getLast? = some current

namespace EnvironmentState

theorem current_mem (state : EnvironmentState π) : state.current ∈ state.history :=
  List.mem_of_getLast? state.latest

theorem version_pos (state : EnvironmentState π) : 0 < state.current.version :=
  state.positive state.current state.current_mem

theorem le_current (state : EnvironmentState π) {snapshot : Snapshot π} (hMem : snapshot ∈ state.history) :
    snapshot.version ≤ state.current.version := by
  obtain ⟨older, hHistory⟩ := List.getLast?_eq_some_iff.mp state.latest
  have hIncreasing := state.increasing
  rw [hHistory] at hMem hIncreasing
  rcases List.mem_append.mp hMem with hOlder | hLast
  · exact Int.le_of_lt
      ((List.pairwise_append.mp hIncreasing).2.2 snapshot hOlder state.current (List.mem_singleton.mpr rfl))
  · exact Int.le_of_eq (congrArg Snapshot.version (List.mem_singleton.mp hLast))

def first (snapshot : Snapshot π) (hVersion : 0 < snapshot.version) : EnvironmentState π where
  current := snapshot
  history := [snapshot]
  positive := by simpa using hVersion
  increasing := List.pairwise_singleton _ _
  latest := rfl

def extended (historySize : Nat) (history : List (Snapshot π)) (snapshot : Snapshot π) : List (Snapshot π) :=
  if historySize < (history ++ [snapshot]).length then (history ++ [snapshot]).tail else history ++ [snapshot]

theorem extended_sublist (historySize : Nat) (history : List (Snapshot π)) (snapshot : Snapshot π) :
    (extended historySize history snapshot).Sublist (history ++ [snapshot]) := by
  rw [extended]
  split
  · exact List.tail_sublist _
  · exact List.Sublist.refl _

theorem getLast?_extended {historySize : Nat} {history : List (Snapshot π)} (hNonempty : history ≠ [])
    (snapshot : Snapshot π) : (extended historySize history snapshot).getLast? = some snapshot := by
  rw [extended]
  split
  · obtain ⟨oldest, rest, rfl⟩ := List.exists_cons_of_ne_nil hNonempty
    exact List.getLast?_append_of_ne_nil rest (List.cons_ne_nil _ _)
  · exact List.getLast?_append_of_ne_nil history (List.cons_ne_nil _ _)

def push (state : EnvironmentState π) (historySize : Nat) (snapshot : Snapshot π)
    (hVersion : state.current.version < snapshot.version) : EnvironmentState π where
  current := snapshot
  history := extended historySize state.history snapshot
  positive := by
    intro other hMem
    rcases List.mem_append.mp ((extended_sublist ..).subset hMem) with hOlder | hNew
    · exact state.positive other hOlder
    · rw [List.mem_singleton.mp hNew]
      exact Int.lt_trans state.version_pos hVersion
  increasing := by
    refine List.Pairwise.sublist (extended_sublist ..) (List.pairwise_append.mpr ⟨state.increasing,
      List.pairwise_singleton _ _, ?_⟩)
    intro older hOlder newer hNewer
    rw [List.mem_singleton.mp hNewer]
    exact Int.lt_of_le_of_lt (state.le_current hOlder) hVersion
  latest := getLast?_extended (List.ne_nil_of_mem state.current_mem) snapshot

end EnvironmentState

structure Store (π : Type) where
  environments : String → Option (EnvironmentState π)
  historySize : Nat

inductive PublishError (π : Type) where
  | notPositive
  | stale (current : Snapshot π)

inductive Resumption (π : Type) where
  | missed (snapshots : List (Snapshot π))
  | fullResync

namespace Store

def DefaultHistorySize : Nat := 64

def new (historySize : Int) : Store π where
  environments := fun _ => none
  historySize := if historySize ≤ 0 then DefaultHistorySize else historySize.toNat

def put (store : Store π) (environment : String) (state : EnvironmentState π) : Store π :=
  { store with environments := Function.update store.environments environment (some state) }

/-- The part of `Publish` under the store's lock. An unknown environment starts at version 0,
which no version that comes this far can fail to pass. -/
def publish (store : Store π) (computeETag : π → String) (environment : String) (version : Int) (payload : π) :
    Store π × Except (PublishError π) (Snapshot π) :=
  if hPositive : version ≤ 0 then (store, .error .notPositive)
  else
    let snapshot : Snapshot π := { environment, version, payload, etag := computeETag payload }
    match store.environments environment with
    | none => (store.put environment (.first snapshot (Int.not_le.mp hPositive)), .ok snapshot)
    | some state =>
      if hStale : version ≤ state.current.version then (store, .error (.stale state.current))
      else (store.put environment (state.push store.historySize snapshot (Int.not_le.mp hStale)), .ok snapshot)

def current (store : Store π) (environment : String) : Option (Snapshot π) :=
  match store.environments environment with
  | none => none
  | some state => if state.current.version = 0 then none else some state.current

def resume (store : Store π) (environment : String) (afterVersion : Int) : Option (Resumption π) :=
  match store.environments environment with
  | none => none
  | some state =>
    if state.current.version = 0 then none
    else if state.current.version ≤ afterVersion then some (.missed [])
    else
      match state.history.head? with
      | none => some .fullResync
      | some oldest =>
        if afterVersion < oldest.version - 1 then some .fullResync
        else some (.missed (state.history.filter fun snapshot => afterVersion < snapshot.version))

variable {store : Store π} {computeETag : π → String} {environment : String} {version : Int} {payload : π}

theorem current_eq (store : Store π) (environment : String) :
    store.current environment = (store.environments environment).map EnvironmentState.current := by
  rw [current]
  cases store.environments environment with
  | none => rfl
  | some state => exact if_neg (Int.ne_of_gt state.version_pos)

def Accepts (store : Store π) (environment : String) (version : Int) : Prop :=
  0 < version ∧ ∀ current, store.current environment = some current → current.version < version

/-- What `Publish` can do: leave the store alone, or replace one environment's current snapshot by a newer one. -/
theorem publish_cases (store : Store π) (computeETag : π → String) (environment : String) (version : Int)
    (payload : π) :
    (∃ error, store.publish computeETag environment version payload = (store, .error error) ∧
      (error = .notPositive ∧ version ≤ 0 ∨
        ∃ current, error = .stale current ∧ store.current environment = some current ∧ version ≤ current.version)) ∨
    ∃ state, store.publish computeETag environment version payload = (store.put environment state, .ok state.current) ∧
      state.current = { environment, version, payload, etag := computeETag payload } ∧
      (∀ snapshot ∈ state.history, snapshot = state.current ∨
        ∃ before, store.environments environment = some before ∧ snapshot ∈ before.history) ∧
      store.Accepts environment version := by
  rw [publish, Accepts]
  split
  · rename_i hPositive
    exact Or.inl ⟨_, rfl, Or.inl ⟨rfl, hPositive⟩⟩
  rename_i hPositive
  rw [current_eq]
  simp only
  split
  · rename_i hUnknown
    refine Or.inr ⟨_, rfl, rfl, ?_, Int.not_le.mp hPositive, ?_⟩
    · intro snapshot hMem
      exact Or.inl (List.mem_singleton.mp hMem)
    · intro current hCurrent
      rw [hUnknown] at hCurrent
      cases hCurrent
  · rename_i state hKnown
    split
    · rename_i hStale
      exact Or.inl ⟨_, rfl, Or.inr ⟨state.current, rfl, by rw [hKnown]; rfl, hStale⟩⟩
    · rename_i hNewer
      refine Or.inr ⟨_, rfl, rfl, ?_, Int.not_le.mp hPositive, ?_⟩
      · intro snapshot hMem
        rcases List.mem_append.mp ((EnvironmentState.extended_sublist ..).subset hMem) with hOlder | hNew
        · exact Or.inr ⟨state, hKnown, hOlder⟩
        · exact Or.inl (List.mem_singleton.mp hNew)
      · intro current hCurrent
        rw [hKnown] at hCurrent
        obtain rfl := Option.some.inj hCurrent
        exact Int.not_le.mp hNewer

theorem resume_reaches {afterVersion : Int} {missed : List (Snapshot π)} {current : Snapshot π}
    (hResume : store.resume environment afterVersion = some (.missed missed))
    (hCurrent : store.current environment = some current) :
    current.version ≤ afterVersion ∨ current ∈ missed := by
  rw [current_eq] at hCurrent
  obtain ⟨state, hState, rfl⟩ := Option.map_eq_some_iff.mp hCurrent
  by_cases hReached : state.current.version ≤ afterVersion
  · exact Or.inl hReached
  · rw [resume, hState] at hResume
    simp only [Int.ne_of_gt state.version_pos, hReached, if_false] at hResume
    split at hResume
    · cases hResume
    · split at hResume
      · cases hResume
      · obtain rfl := Resumption.missed.inj (Option.some.inj hResume)
        refine Or.inr (List.mem_filter.mpr ⟨state.current_mem, ?_⟩)
        exact decide_eq_true (Int.not_le.mp hReached)

theorem resume_eq_none (h : store.resume environment version = none) : store.current environment = none := by
  rw [current_eq]
  rw [resume] at h
  split at h
  · rename_i hUnknown
    rw [hUnknown]
    rfl
  · rename_i state _
    rw [if_neg (Int.ne_of_gt state.version_pos)] at h
    split at h
    · cases h
    · split at h
      · cases h
      · split at h
        · cases h
        · cases h

theorem mem_history_of_current {snapshot : Snapshot π} (h : store.current environment = some snapshot) :
    ∃ state, store.environments environment = some state ∧ snapshot ∈ state.history := by
  rw [current_eq] at h
  obtain ⟨state, hState, rfl⟩ := Option.map_eq_some_iff.mp h
  exact ⟨state, hState, state.current_mem⟩

theorem mem_history_of_resume {afterVersion : Int} {missed : List (Snapshot π)}
    (h : store.resume environment afterVersion = some (.missed missed)) {snapshot : Snapshot π}
    (hMem : snapshot ∈ missed) : ∃ state, store.environments environment = some state ∧ snapshot ∈ state.history := by
  rw [resume] at h
  split at h
  · cases h
  rename_i state hState
  refine ⟨state, hState, ?_⟩
  split at h
  · cases h
  split at h
  · obtain rfl := Resumption.missed.inj (Option.some.inj h)
    cases hMem
  split at h
  · cases h
  split at h
  · cases h
  · obtain rfl := Resumption.missed.inj (Option.some.inj h)
    exact List.mem_of_mem_filter hMem

theorem environments_put (store : Store π) (environment other : String) (state : EnvironmentState π) :
    (store.put environment state).environments other =
      if other = environment then some state else store.environments other :=
  Function.update_apply ..

end Store

end Flagship.DataPlane
