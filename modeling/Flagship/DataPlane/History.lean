import Flagship.DataPlane.Store
import Flagship.Lib.Newest
import Mathlib.Data.List.DropRight

/-! # What the history retains of the accepted publishes

`apps/data-plane/internal/store/store.go`. Any calls of `Publish` leave each environment with the
last `historySize` of the snapshots accepted for it. `Resume` replays from there, and asks for a
full resync when something older than what is retained could be missing.
-/

namespace Flagship.DataPlane

variable {π : Type}

structure PublishCall (π : Type) where
  environment : String
  version : Int
  payload : π

namespace PublishCall

def snapshot (call : PublishCall π) (computeETag : π → String) : Snapshot π :=
  { environment := call.environment, version := call.version, payload := call.payload,
    etag := computeETag call.payload }

end PublishCall

namespace Store

def history (store : Store π) (environment : String) : List (Snapshot π) :=
  match store.environments environment with
  | none => []
  | some state => state.history

def publishCall (computeETag : π → String) (store : Store π) (call : PublishCall π) :
    Store π × Except (PublishError π) (Snapshot π) :=
  store.publish computeETag call.environment call.version call.payload

def afterPublishes (computeETag : π → String) (store : Store π) (calls : List (PublishCall π)) : Store π :=
  calls.foldl (fun store call => (store.publishCall computeETag call).1) store

/-- The snapshots the calls were answered with, in the order of the calls. -/
def accepted (computeETag : π → String) : Store π → List (PublishCall π) → List (Snapshot π)
  | _, [] => []
  | store, call :: rest =>
    match store.publishCall computeETag call with
    | (store, .ok snapshot) => snapshot :: accepted computeETag store rest
    | (store, .error _) => accepted computeETag store rest

def inEnvironment (environment : String) (snapshots : List (Snapshot π)) : List (Snapshot π) :=
  snapshots.filter fun snapshot => snapshot.environment = environment

variable {computeETag : π → String} {store : Store π} {call : PublishCall π} {environment : String}

theorem getLast?_history (store : Store π) (environment : String) :
    (store.history environment).getLast? = store.current environment := by
  rw [history, current_eq]
  cases store.environments environment with
  | none => rfl
  | some state => exact state.latest

theorem increasing_history (store : Store π) (environment : String) :
    (store.history environment).Pairwise fun older newer => older.version < newer.version := by
  rw [history]
  cases store.environments environment with
  | none => exact List.Pairwise.nil
  | some state => exact state.increasing

theorem history_put (store : Store π) (environment other : String) (state : EnvironmentState π) :
    (store.put environment state).history other =
      if other = environment then state.history else store.history other := by
  rw [history, environments_put]
  by_cases hSame : other = environment
  · rw [if_pos hSame, if_pos hSame]
  · rw [if_neg hSame, if_neg hSame, history]

theorem publishCall_fst_of_error {error : PublishError π} (h : (store.publishCall computeETag call).2 = .error error) :
    (store.publishCall computeETag call).1 = store := by
  rw [publishCall] at h ⊢
  rcases publish_cases store computeETag call.environment call.version call.payload with
    ⟨_, hAnswer, _⟩ | ⟨_, hAnswer, _⟩
  · rw [hAnswer]
  · rw [hAnswer] at h
    cases h

theorem accepts_of_ok {snapshot : Snapshot π} (h : (store.publishCall computeETag call).2 = .ok snapshot) :
    store.Accepts call.environment call.version := by
  rcases publish_cases store computeETag call.environment call.version call.payload with
    ⟨_, hAnswer, _⟩ | ⟨_, _, _, _, hAccepts⟩
  · rw [publishCall, hAnswer] at h
    cases h
  · exact hAccepts

theorem extended_nil {historySize : ℕ} (hSize : 1 ≤ historySize) (snapshot : Snapshot π) :
    EnvironmentState.extended historySize [] snapshot = [snapshot] := by
  have hFits : ¬ historySize < 1 := Nat.not_lt.mpr hSize
  rw [EnvironmentState.extended]
  simp only [List.nil_append, List.length_singleton, hFits, if_false]

/-- An accepted publish appends to one environment's history and drops its oldest entry when that
is one too many. -/
theorem publishCall_of_ok {snapshot : Snapshot π} (hSize : 1 ≤ store.historySize)
    (h : (store.publishCall computeETag call).2 = .ok snapshot) :
    snapshot = call.snapshot computeETag ∧ store.Accepts call.environment call.version ∧
      (store.publishCall computeETag call).1.historySize = store.historySize ∧
      ∀ environment, (store.publishCall computeETag call).1.history environment =
        if environment = call.environment
        then EnvironmentState.extended store.historySize (store.history environment) snapshot
        else store.history environment := by
  have hAccepts := accepts_of_ok h
  rw [publishCall, publish] at h ⊢
  have hPositive : ¬ call.version ≤ 0 := Int.not_le.mpr hAccepts.1
  simp only [hPositive, dif_neg, not_false_eq_true] at h ⊢
  cases hState : store.environments call.environment with
  | none =>
    have hEmpty : store.history call.environment = [] := by rw [history, hState]
    simp only [hState] at h ⊢
    obtain rfl := Except.ok.inj h
    refine ⟨rfl, hAccepts, rfl, fun environment => ?_⟩
    rw [history_put]
    by_cases hSame : environment = call.environment
    · rw [if_pos hSame, if_pos hSame, hSame, hEmpty, extended_nil hSize]
      rfl
    · rw [if_neg hSame, if_neg hSame]
  | some state =>
    have hHistory : store.history call.environment = state.history := by rw [history, hState]
    have hFresh : ¬ call.version ≤ state.current.version := by
      refine Int.not_le.mpr (hAccepts.2 state.current ?_)
      rw [current_eq, hState]
      rfl
    simp only [hState, hFresh, dif_neg, not_false_eq_true] at h ⊢
    obtain rfl := Except.ok.inj h
    refine ⟨rfl, hAccepts, rfl, fun environment => ?_⟩
    rw [history_put]
    by_cases hSame : environment = call.environment
    · rw [if_pos hSame, if_pos hSame, hSame, hHistory]
      rfl
    · rw [if_neg hSame, if_neg hSame]

theorem inEnvironment_append (environment : String) (before after : List (Snapshot π)) :
    inEnvironment environment (before ++ after) =
      inEnvironment environment before ++ inEnvironment environment after :=
  List.filter_append ..

theorem inEnvironment_snapshot (environment : String) (call : PublishCall π) (computeETag : π → String) :
    inEnvironment environment [call.snapshot computeETag] =
      if environment = call.environment then [call.snapshot computeETag] else [] := by
  rw [inEnvironment, List.filter_singleton]
  by_cases hSame : environment = call.environment
  · simp [PublishCall.snapshot, hSame]
  · have hOther : call.environment ≠ environment := fun h => hSame h.symm
    simp [PublishCall.snapshot, hSame, hOther]

theorem extended_rtake (historySize : Nat) (taken : List (Snapshot π)) (snapshot : Snapshot π) :
    EnvironmentState.extended historySize (taken.rtake historySize) snapshot =
      (taken ++ [snapshot]).rtake historySize := by
  have hDrop : taken.drop (taken.length - historySize) ++ [snapshot] =
      (taken ++ [snapshot]).drop (taken.length - historySize) :=
    (List.drop_append_of_le_length (Nat.sub_le ..)).symm
  rw [EnvironmentState.extended, List.rtake, List.rtake, hDrop, List.length_append, List.length_singleton]
  split
  · rename_i hFull
    rw [List.length_drop, List.length_append, List.length_singleton] at hFull
    rw [List.tail_drop]
    congr 1
    omega
  · rename_i hRoom
    rw [List.length_drop, List.length_append, List.length_singleton] at hRoom
    congr 1
    omega

/-- The store holds the tail of what was accepted, environment by environment. -/
structure Retains (historySize : Nat) (taken : List (Snapshot π)) (store : Store π) : Prop where
  size : store.historySize = historySize
  history : ∀ environment, store.history environment = (inEnvironment environment taken).rtake historySize
  increasing : ∀ environment,
    (inEnvironment environment taken).Pairwise fun older newer => older.version < newer.version

namespace Retains

variable {historySize : Nat} {taken : List (Snapshot π)}

theorem getLast? (h : Retains historySize taken store) (hSize : 1 ≤ historySize) (environment : String) :
    (inEnvironment environment taken).getLast? = store.current environment := by
  rw [← getLast?_history, h.history, List.rtake, List.getLast?_drop]
  split
  · rename_i hNone
    have hEmpty : inEnvironment environment taken = [] := List.length_eq_zero_iff.mp (by omega)
    rw [hEmpty]
    rfl
  · rfl

theorem le_current (h : Retains historySize taken store) (hSize : 1 ≤ historySize) {current : Snapshot π}
    (hCurrent : store.current environment = some current) :
    current ∈ inEnvironment environment taken ∧
      ∀ snapshot ∈ inEnvironment environment taken, snapshot.version ≤ current.version := by
  have hIncreasing := h.increasing environment
  obtain ⟨older, hTaken⟩ := List.getLast?_eq_some_iff.mp ((h.getLast? hSize environment).trans hCurrent)
  rw [hTaken] at hIncreasing ⊢
  refine ⟨List.mem_append_right _ List.mem_cons_self, fun snapshot hMem => ?_⟩
  rcases List.mem_append.mp hMem with hOlder | hLast
  · exact Int.le_of_lt
      ((List.pairwise_append.mp hIncreasing).2.2 snapshot hOlder current (List.mem_singleton.mpr rfl))
  · rw [List.mem_singleton.mp hLast]

theorem publish (h : Retains historySize taken store) (hSize : 1 ≤ historySize) {snapshot : Snapshot π}
    (hAnswer : (store.publishCall computeETag call).2 = .ok snapshot) :
    Retains historySize (taken ++ [snapshot]) (store.publishCall computeETag call).1 := by
  obtain ⟨rfl, hAccepts, hKeptSize, hHistory⟩ := publishCall_of_ok (h.size.symm ▸ hSize) hAnswer
  constructor
  · exact hKeptSize.trans h.size
  · intro environment
    rw [hHistory, inEnvironment_append, inEnvironment_snapshot, h.size, h.history]
    by_cases hSame : environment = call.environment
    · rw [if_pos hSame, if_pos hSame, extended_rtake]
    · rw [if_neg hSame, if_neg hSame, List.append_nil]
  · intro environment
    rw [inEnvironment_append, inEnvironment_snapshot]
    by_cases hSame : environment = call.environment
    · rw [if_pos hSame]
      refine List.pairwise_append.mpr ⟨h.increasing environment, List.pairwise_singleton _ _, ?_⟩
      intro older hOlder newer hNewer
      rw [List.mem_singleton.mp hNewer]
      cases hCurrent : store.current environment with
      | none =>
        rw [← h.getLast? hSize, List.getLast?_eq_none_iff] at hCurrent
        rw [hCurrent] at hOlder
        cases hOlder
      | some current =>
        have hBelow := (h.le_current hSize hCurrent).2 older hOlder
        have hAbove := hAccepts.2 current (hSame ▸ hCurrent)
        exact Int.lt_of_le_of_lt hBelow hAbove
    · rw [if_neg hSame, List.append_nil]
      exact h.increasing environment

/-- Every run of calls keeps it, with what the calls had accepted appended. -/
theorem afterPublishes (h : Retains historySize taken store) (hSize : 1 ≤ historySize)
    (calls : List (PublishCall π)) :
    Retains historySize (taken ++ accepted computeETag store calls) (store.afterPublishes computeETag calls) := by
  induction calls generalizing store taken with
  | nil =>
    rw [accepted, List.append_nil]
    exact h
  | cons call rest ih =>
    rw [Store.afterPublishes, List.foldl_cons, accepted]
    split
    · rename_i next snapshot hAnswer
      have hNext := h.publish hSize (congrArg Prod.snd hAnswer)
      rw [hAnswer] at hNext ⊢
      rw [List.append_cons]
      exact ih hNext
    · rename_i next error hAnswer
      have hSame := publishCall_fst_of_error (congrArg Prod.snd hAnswer)
      rw [hAnswer] at hSame ⊢
      obtain rfl := hSame
      exact ih h

theorem new (computeETag : π → String) (hSize : 1 ≤ historySize) (calls : List (PublishCall π)) :
    Retains historySize (accepted computeETag (new historySize) calls)
      ((Store.new historySize).afterPublishes computeETag calls) := by
  have hPositive : ¬ (historySize : Int) ≤ 0 := by omega
  suffices hStart : Retains historySize [] (Store.new historySize) from hStart.afterPublishes hSize calls
  constructor
  · rw [Store.new]
    simp only [hPositive, if_false, Int.toNat_natCast]
  · intro environment
    rw [inEnvironment, List.filter_nil, List.rtake_nil]
    rfl
  · intro environment
    exact List.Pairwise.nil

/-- What is not in the history is older than its first entry. -/
theorem filter_history (h : Retains historySize taken store) {state : EnvironmentState π} {oldest : Snapshot π}
    {afterVersion : Int} (hState : store.environments environment = some state)
    (hOldest : state.history.head? = some oldest) (hCovered : oldest.version - 1 ≤ afterVersion) :
    ((inEnvironment environment taken).filter fun snapshot => afterVersion < snapshot.version) =
      state.history.filter fun snapshot => afterVersion < snapshot.version := by
  have hHistory := h.history environment
  have hIncreasing := h.increasing environment
  rw [Store.history, hState, List.rtake] at hHistory
  simp only at hHistory
  have hSplit := List.take_append_drop ((inEnvironment environment taken).length - historySize)
    (inEnvironment environment taken)
  rw [← hHistory] at hSplit
  rw [← hSplit] at hIncreasing ⊢
  rw [List.filter_append, List.filter_eq_nil_iff.mpr, List.nil_append]
  intro snapshot hMem
  have hBelow := (List.pairwise_append.mp hIncreasing).2.2 snapshot hMem oldest
    (List.mem_of_head? hOldest)
  rw [decide_eq_true_eq]
  omega

/-- A replay that starts no more than one version before the retained ones misses nothing. -/
theorem resume (h : Retains historySize taken store) (hSize : 1 ≤ historySize) {current : Snapshot π}
    (hCurrent : store.current environment = some current) (afterVersion : Int) :
    store.resume environment afterVersion = some .fullResync ∨
      store.resume environment afterVersion = some (.missed
        ((inEnvironment environment taken).filter fun snapshot => afterVersion < snapshot.version)) := by
  have hLatest := (h.le_current hSize hCurrent).2
  rw [current_eq] at hCurrent
  rw [Store.resume]
  cases hState : store.environments environment with
  | none =>
    rw [hState] at hCurrent
    cases hCurrent
  | some state =>
    rw [hState] at hCurrent
    obtain rfl := Option.some.inj hCurrent
    simp only [Int.ne_of_gt state.version_pos, if_false]
    split
    · rename_i hReached
      right
      rw [List.filter_eq_nil_iff.mpr]
      intro snapshot hMem
      rw [decide_eq_true_eq, Int.not_lt]
      exact (hLatest snapshot hMem).trans hReached
    · split
      · exact Or.inl rfl
      · rename_i oldest hOldest
        split
        · exact Or.inl rfl
        · rename_i hCovered
          right
          rw [h.filter_history hState hOldest (Int.not_lt.mp hCovered)]

end Retains

section Order

/-- The call as it is offered to the environment's current snapshot, when its version is positive. -/
def offers (computeETag : π → String) (environment : String) (calls : List (PublishCall π)) : List (Snapshot π) :=
  (calls.filter fun call => call.environment = environment ∧ 0 < call.version).map (·.snapshot computeETag)

theorem current_publishCall (computeETag : π → String) (store : Store π) (call : PublishCall π)
    (environment : String) :
    (store.publishCall computeETag call).1.current environment =
      (offers computeETag environment [call]).foldl (Lib.offer Snapshot.version) (store.current environment) := by
  rw [offers, List.filter_singleton, publishCall]
  rcases publish_cases store computeETag call.environment call.version call.payload with
    ⟨error, hAnswer, hWhy⟩ | ⟨state, hAnswer, hState, _, hAccepts⟩
  · rw [hAnswer]
    rcases hWhy with ⟨_, hVersion⟩ | ⟨held, _, hHeld, hStale⟩
    · have hSkipped : ¬ (call.environment = environment ∧ 0 < call.version) := fun h => by omega
      simp [hSkipped]
    · by_cases hOffered : call.environment = environment ∧ 0 < call.version
      · rw [hOffered.1] at hHeld
        have hOld : ¬ held.version < call.version := Int.not_lt.mpr hStale
        simp [hOffered, hHeld, Lib.offer, Lib.isNewer, PublishCall.snapshot, hOld]
      · simp [hOffered]
  · rw [hAnswer]
    simp only
    rw [current_eq, environments_put]
    by_cases hHere : environment = call.environment
    · subst hHere
      have hNewer : Lib.isNewer Snapshot.version (store.current call.environment) (call.snapshot computeETag) =
          true := by
        rw [Lib.isNewer, Option.all_eq_true]
        intro held hHeld
        exact decide_eq_true (hAccepts.2 held hHeld)
      rw [if_pos rfl, Option.map_some, hState]
      simp only [hAccepts.1, and_self, decide_true, cond_true, List.map_cons, List.map_nil, List.foldl_cons,
        List.foldl_nil, Lib.offer, hNewer, if_true]
      rfl
    · have hSkipped : ¬ (call.environment = environment ∧ 0 < call.version) := fun h => hHere h.1.symm
      simp [hSkipped, hHere, current_eq]

theorem current_afterPublishes (computeETag : π → String) (store : Store π) (calls : List (PublishCall π))
    (environment : String) :
    (store.afterPublishes computeETag calls).current environment =
      (offers computeETag environment calls).foldl (Lib.offer Snapshot.version) (store.current environment) := by
  induction calls generalizing store with
  | nil => rfl
  | cons call rest ih =>
    rw [afterPublishes, List.foldl_cons]
    refine (ih _).trans ?_
    rw [current_publishCall, ← List.foldl_append]
    congr 1
    rw [offers, offers, ← List.map_append, ← List.filter_append, offers, List.singleton_append]

theorem current_new (computeETag : π → String) (historySize : Int) (calls : List (PublishCall π))
    (environment : String) :
    ((new historySize).afterPublishes computeETag calls).current environment =
      Lib.newest Snapshot.version (offers computeETag environment calls) :=
  current_afterPublishes computeETag (new historySize) calls environment

theorem current_perm {calls calls' : List (PublishCall π)} (computeETag : π → String) (historySize : Int)
    (hPerm : calls.Perm calls')
    (hOne : ∀ a ∈ calls, ∀ b ∈ calls, a.environment = b.environment → a.version = b.version → a.payload = b.payload)
    (environment : String) :
    ((new historySize).afterPublishes computeETag calls).current environment =
      ((new historySize).afterPublishes computeETag calls').current environment := by
  rw [current_new, current_new]
  apply Lib.newest_confluent
  · intro snapshot
    rw [offers, offers, List.mem_map, List.mem_map]
    simp only [List.mem_filter, hPerm.mem_iff]
  · intro first hFirst second hSecond hVersion
    obtain ⟨a, hA, rfl⟩ := List.mem_map.mp hFirst
    obtain ⟨b, hB, rfl⟩ := List.mem_map.mp hSecond
    obtain ⟨hA, hHereA⟩ := List.mem_filter.mp hA
    obtain ⟨hB, hHereB⟩ := List.mem_filter.mp hB
    have hSame : a.environment = b.environment := (of_decide_eq_true hHereA).1.trans (of_decide_eq_true hHereB).1.symm
    have hPayload := hOne a hA b hB hSame hVersion
    have hVersion : a.version = b.version := hVersion
    rw [PublishCall.snapshot, PublishCall.snapshot, hSame, hVersion, hPayload]

end Order

/-- What a published environment's history and replay say of the snapshots accepted for it. -/
structure CompleteFor (historySize : Nat) (taken : List (Snapshot π)) (store : Store π) (environment : String)
    (current : Snapshot π) : Prop where
  increasing : (store.history environment).Pairwise fun older newer => older.version < newer.version
  bounded : (store.history environment).length ≤ historySize
  ends : (store.history environment).getLast? = some current
  greatest : current ∈ inEnvironment environment taken ∧
    ∀ snapshot ∈ inEnvironment environment taken, snapshot.version ≤ current.version
  ordered : (inEnvironment environment taken).Pairwise fun older newer => older.version < newer.version
  replays : ∀ afterVersion, store.resume environment afterVersion = some .fullResync ∨
    store.resume environment afterVersion = some (.missed
      ((inEnvironment environment taken).filter fun snapshot => afterVersion < snapshot.version))

theorem Retains.completeFor {historySize : Nat} {taken : List (Snapshot π)} {current : Snapshot π}
    (h : Retains historySize taken store) (hSize : 1 ≤ historySize)
    (hCurrent : store.current environment = some current) :
    CompleteFor historySize taken store environment current where
  increasing := store.increasing_history environment
  bounded := by
    rw [h.history, List.rtake, List.length_drop]
    omega
  ends := by rw [getLast?_history, hCurrent]
  greatest := h.le_current hSize hCurrent
  ordered := h.increasing environment
  replays := h.resume hSize hCurrent

/-- After any calls the history and its replay account for every accepted publish, an environment
is published when one was accepted for it, and the order of the calls does not decide what is
current. -/
theorem history_complete (computeETag : π → String) (historySize : Nat) (hSize : 1 ≤ historySize)
    (calls : List (PublishCall π)) :
    (∀ environment current,
      ((new historySize).afterPublishes computeETag calls).current environment = some current →
        CompleteFor historySize (accepted computeETag (new historySize) calls)
          ((new historySize).afterPublishes computeETag calls) environment current) ∧
    (∀ environment, ((new historySize).afterPublishes computeETag calls).current environment = none ↔
      inEnvironment environment (accepted computeETag (new historySize) calls) = []) ∧
    ∀ calls', calls.Perm calls' →
      (∀ a ∈ calls, ∀ b ∈ calls, a.environment = b.environment → a.version = b.version → a.payload = b.payload) →
        ∀ environment, ((new historySize).afterPublishes computeETag calls).current environment =
          ((new historySize).afterPublishes computeETag calls').current environment := by
  have hRetains := Retains.new computeETag hSize calls
  refine ⟨?_, ?_, ?_⟩
  · intro environment current hCurrent
    exact hRetains.completeFor hSize hCurrent
  · intro environment
    rw [← hRetains.getLast? hSize, List.getLast?_eq_none_iff]
  · intro calls' hPerm hOne environment
    exact current_perm computeETag historySize hPerm hOne environment

section Example

def exampleCalls : List (PublishCall String) :=
  [ { environment := "production", version := 3, payload := "a" },
    { environment := "staging", version := 1, payload := "b" },
    { environment := "production", version := 2, payload := "c" },
    { environment := "production", version := 7, payload := "d" } ]

theorem history_complete_example :
    (∃ current, ((new 1).afterPublishes id exampleCalls).current "production" = some current ∧ current.version = 7 ∧
      CompleteFor 1 (accepted id (new 1) exampleCalls) ((new 1).afterPublishes id exampleCalls) "production" current) ∧
    ((new 1).afterPublishes id exampleCalls).current "production" =
      ((new 1).afterPublishes id exampleCalls.reverse).current "production" := by
  have hAll := history_complete id 1 (Nat.le_refl 1) exampleCalls
  constructor
  · exact ⟨_, rfl, rfl, hAll.1 "production" _ rfl⟩
  · exact hAll.2.2 exampleCalls.reverse (List.reverse_perm exampleCalls).symm (by decide) "production"

end Example

end Store

end Flagship.DataPlane
