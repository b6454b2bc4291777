import Flagship.DataPlane.Server

/-! # Streams lose no update

The current version of a stream's environment is at all times one it has reached, one it is
still to read from the store, or one the hub owes it. Once nothing is in progress and its
channel is empty, only the first is left.
-/

namespace Flagship.DataPlane

open Lib

variable {π : Type}

namespace Connection

variable {connection : Connection π} {version : Int}

/-- The newest version the client has: the one it presented, or that of a frame written to it. -/
def newest (connection : Connection π) : Int :=
  (connection.frames.filterMap Frame.version?).foldl max connection.afterVersion

theorem le_foldl_max {versions : List Int} {first : Int} :
    version ≤ versions.foldl max first ↔ version ≤ first ∨ ∃ reached ∈ versions, version ≤ reached := by
  induction versions generalizing first with
  | nil => simp
  | cons head rest ih =>
    have hMax : version ≤ max first head ↔ version ≤ first ∨ version ≤ head := by omega
    rw [List.foldl_cons, ih, hMax, List.exists_mem_cons_iff, or_assoc]

/-- The connection has the version, is about to write it, or has yet to read the store. -/
def Reaches (connection : Connection π) (version : Int) : Prop :=
  version ≤ connection.newest ∨ connection.isReading = true ∨
    ∃ pending, connection.phase = .replaying pending ∧ ∃ snapshot ∈ pending, version ≤ snapshot.version

def Ended (connection : Connection π) : Prop := connection.phase = .returning ∨ connection.phase = .closed

theorem newest_writeEvent (frame : Frame π) : version ≤ (connection.writeEvent frame).newest ↔
    version ≤ connection.newest ∨ ∃ reached, frame.version? = some reached ∧ version ≤ reached := by
  rw [newest, writeEvent, List.filterMap_append, List.foldl_append, le_foldl_max]
  constructor
  · rintro (hBefore | ⟨reached, hMem, hReached⟩)
    · exact Or.inl hBefore
    · obtain ⟨last, hLast, hVersion⟩ := List.mem_filterMap.mp hMem
      obtain rfl := List.mem_singleton.mp hLast
      exact Or.inr ⟨reached, hVersion, hReached⟩
  · rintro (hBefore | ⟨reached, hVersion, hReached⟩)
    · exact Or.inl hBefore
    · exact Or.inr ⟨reached, List.mem_filterMap.mpr ⟨frame, List.mem_singleton.mpr rfl, hVersion⟩, hReached⟩

theorem reaches_readCurrent {store : Store π} {environment : String} {current : Snapshot π}
    (hCurrent : store.current environment = some current) :
    (connection.readCurrent store environment).Reaches current.version := by
  rw [readCurrent, hCurrent]
  exact Or.inr (Or.inr ⟨_, rfl, current, List.mem_singleton.mpr rfl, Int.le_refl _⟩)

theorem reaches_read (hReading : connection.isReading = true) {store : Store π} {environment : String}
    {current : Snapshot π} (hCurrent : store.current environment = some current) :
    (connection.read store environment).Reaches current.version := by
  rw [isReading] at hReading
  split at hReading
  · rename_i hPhase
    rw [read, hPhase]
    simp only
    split
    · exact reaches_readCurrent hCurrent
    · split
      · rename_i hNone
        rw [Store.resume_eq_none hNone] at hCurrent
        cases hCurrent
      · exact Or.inr (Or.inl rfl)
      · rename_i missed hMissed
        rcases Store.resume_reaches hMissed hCurrent with hHeld | hMem
        · exact Or.inl (le_foldl_max.mpr (Or.inl hHeld))
        · exact Or.inr (Or.inr ⟨missed, rfl, current, hMem, Int.le_refl _⟩)
  · rename_i hPhase
    rw [read, hPhase]
    exact reaches_readCurrent hCurrent
  · cases hReading

theorem Reaches.replay (hReaches : connection.Reaches version) (hReplaying : connection.isReplaying = true) :
    connection.replay.Reaches version := by
  rw [isReplaying] at hReplaying
  split at hReplaying
  · rename_i pending hPhase
    rw [Connection.replay, hPhase]
    rcases hReaches with hHeld | hReading | ⟨others, hSame, snapshot, hMem, hVersion⟩
    · cases pending with
      | nil => exact Or.inl hHeld
      | cons snapshot rest => exact Or.inl ((newest_writeEvent _).mpr (Or.inl hHeld))
    · rw [isReading, hPhase] at hReading
      cases hReading
    · obtain rfl := Phase.replaying.inj (hPhase.symm.trans hSame)
      cases pending with
      | nil => cases hMem
      | cons first rest =>
        rcases List.mem_cons.mp hMem with rfl | hRest
        · have hWritten : version ≤ (connection.writeEvent (.ruleset snapshot.version snapshot.payload)).newest :=
            (newest_writeEvent _).mpr (Or.inr ⟨_, rfl, hVersion⟩)
          exact Or.inl hWritten
        · exact Or.inr (Or.inr ⟨rest, rfl, snapshot, hRest, hVersion⟩)
  · cases hReplaying

theorem Reaches.writeEvent (hReaches : connection.Reaches version) (frame : Frame π) :
    (connection.writeEvent frame).Reaches version := by
  rcases hReaches with hHeld | hRest
  · exact Or.inl ((newest_writeEvent frame).mpr (Or.inl hHeld))
  · exact Or.inr hRest

theorem Reaches.forward (hReaches : connection.Reaches version) (offer : Option (Offer π)) :
    (connection.forward offer).Reaches version := by
  cases offer with
  | none => exact hReaches
  | some offer => exact hReaches.writeEvent _

theorem ended_observeDone (reason : Option DropReason) : (connection.observeDone reason).Ended := by
  rw [observeDone]
  split <;> exact Or.inl rfl

end Connection

namespace Server

variable {s : Server π} {computeETag : π → String}

def FreshIds (s : Server π) : Action π → Prop
  | .connect id _ _ _ => ∀ c < s.hub.allocated, (s.hub.subscribers c).id ≠ id
  | _ => True

theorem hub_effect (computeETag : π → String) {a : Action π} (hEnabled : s.enabled a = true) :
    (s.effect computeETag a).hub = s.hub ∨
    ∃ inner, (s.effect computeETag a).hub = s.hub.effect inner ∧ s.hub.enabled inner = true ∧
      (s.FreshIds a → s.hub.Fresh inner) ∧ ∀ c, inner = .receive c → a = .forward c := by
  cases a with
  | publish environment version payload =>
    simp only [effect]
    split
    · exact Or.inr ⟨.broadcast environment { version, payload }, rfl, rfl, fun _ => trivial, nofun⟩
    · exact Or.inl rfl
  | hub inner =>
    obtain ⟨hInside, hInner⟩ := Bool.and_eq_true_iff.mp hEnabled
    refine Or.inr ⟨inner, rfl, hInner, fun _ => ?_, ?_⟩
    · cases inner <;> trivial
    · rintro c rfl
      cases hInside
  | connect id environment header query =>
    exact Or.inr ⟨.subscribe id environment, rfl, (Bool.and_eq_true_iff.mp hEnabled).2, fun hFresh => hFresh, nofun⟩
  | forward c =>
    refine Or.inr ⟨.receive c, rfl, (Bool.and_eq_true_iff.mp hEnabled).2, fun _ => trivial, ?_⟩
    intro c' hSame
    rw [Hub.Action.receive.inj hSame]
  | unsubscribe c =>
    exact Or.inr ⟨.unsubscribe c, rfl, (Bool.and_eq_true_iff.mp hEnabled).2, fun _ => trivial, nofun⟩
  | _ => exact Or.inl rfl

theorem tidy_step (hTidy : s.hub.Tidy) {a : Action π} (hEnabled : s.enabled a = true) (hFresh : s.FreshIds a) :
    (s.effect computeETag a).hub.Tidy := by
  rcases hub_effect computeETag hEnabled with hSame | ⟨inner, hInner, hEnabled, hFreshInner, _⟩
  · exact hSame ▸ hTidy
  · exact hInner ▸ hTidy.step hEnabled (hFreshInner hFresh)

theorem allocated_le {a : Action π} (hEnabled : s.enabled a = true) :
    s.hub.allocated ≤ (s.effect computeETag a).hub.allocated := by
  rcases hub_effect computeETag hEnabled with hSame | ⟨inner, hInner, _⟩
  · exact Nat.le_of_eq (congrArg Hub.allocated hSame.symm)
  · rw [hInner]
    exact Hub.allocated_le inner

theorem environmentOf_eq {a : Action π} (hEnabled : s.enabled a = true) {c : Nat} (hAllocated : c < s.hub.allocated) :
    (s.effect computeETag a).environmentOf c = s.environmentOf c := by
  rw [environmentOf, environmentOf]
  rcases hub_effect computeETag hEnabled with hSame | ⟨inner, hInner, _⟩
  · rw [hSame]
  · rw [hInner]
    exact (Hub.identity_eq inner hAllocated).2

theorem owed_step (hTidy : s.hub.Tidy) {a : Action π} (hEnabled : s.enabled a = true) {c : Nat} {version : Int}
    (hAllocated : c < s.hub.allocated) (hOther : a ≠ .forward c) (hOwed : s.hub.Owed c version) :
    (s.effect computeETag a).hub.Owed c version := by
  rcases hub_effect computeETag hEnabled with hSame | ⟨inner, hInner, hEnabled, _, hReceive⟩
  · exact hSame ▸ hOwed
  · rw [hInner]
    exact hOwed.step hTidy hAllocated hEnabled fun hSame => hOther (hReceive c hSame)

theorem new_connection {a : Action π} (hEnabled : s.enabled a = true) {c : Nat}
    (hAllocated : c < (s.effect computeETag a).hub.allocated) (hNew : ¬ c < s.hub.allocated) :
    ∃ id environment header query, a = .connect id environment header query ∧
      (s.effect computeETag a).connections c = .accept header query := by
  cases a with
  | connect id environment header query =>
    have hSame : c = s.hub.allocated := by
      change c < s.hub.allocated + 1 at hAllocated
      omega
    subst hSame
    exact ⟨id, environment, header, query, rfl, Function.update_self ..⟩
  | publish environment version payload =>
    simp only [effect] at hAllocated
    split at hAllocated <;> exact absurd hAllocated hNew
  | hub inner =>
    obtain ⟨hInside, _⟩ := Bool.and_eq_true_iff.mp hEnabled
    cases inner <;> first | exact absurd hAllocated hNew | cases hInside
  | _ => exact absurd hAllocated hNew

/-! ## The invariant -/

def Covers (s : Server π) (c : Nat) : Prop :=
  (s.connections c).Ended ∨ ∀ current, s.store.current (s.environmentOf c) = some current →
    (s.connections c).Reaches current.version ∨ s.hub.Owed c current.version

inductive ConnectionStep (s : Server π) (c : Nat) : Action π → Connection π → Prop where
  | same (a : Action π) (hOther : a ≠ .forward c) : ConnectionStep s c a (s.connections c)
  | read (hReading : (s.connections c).isReading = true) :
      ConnectionStep s c (.read c) ((s.connections c).read s.store (s.environmentOf c))
  | replay (hReplaying : (s.connections c).isReplaying = true) :
      ConnectionStep s c (.replay c) (s.connections c).replay
  | forward : ConnectionStep s c (.forward c) ((s.connections c).forward (s.hub.subscribers c).messages.head?)
  | observeDone : ConnectionStep s c (.observeDone c) ((s.connections c).observeDone (s.hub.subscribers c).done)
  | disconnect : ConnectionStep s c (.disconnect c) { s.connections c with phase := .returning }
  | unsubscribe : ConnectionStep s c (.unsubscribe c) { s.connections c with phase := .closed }

theorem connection_step (computeETag : π → String) {a : Action π} (hEnabled : s.enabled a = true) {c : Nat}
    (hAllocated : c < s.hub.allocated) :
    ConnectionStep s c a ((s.effect computeETag a).connections c) := by
  have hAt : ∀ {c' : Nat} {value : Connection π}, (c = c' → ConnectionStep s c a value) →
      (c ≠ c' → a ≠ .forward c) → ConnectionStep s c a (Function.update s.connections c' value c) :=
    fun hOwn hOther => update_cases hOwn fun hSame => ConnectionStep.same a (hOther hSame)
  cases a with
  | publish environment version payload =>
    have hSame : (s.effect computeETag (.publish environment version payload)).connections = s.connections := by
      simp only [effect]
      split <;> rfl
    rw [hSame]
    exact ConnectionStep.same _ nofun
  | hub inner => exact ConnectionStep.same _ nofun
  | connect id environment header query =>
    exact hAt (fun hSame => absurd hSame (Nat.ne_of_lt hAllocated)) fun _ => nofun
  | read c' =>
    refine hAt ?_ fun _ => nofun
    rintro rfl
    exact ConnectionStep.read (Bool.and_eq_true_iff.mp hEnabled).2
  | replay c' =>
    refine hAt ?_ fun _ => nofun
    rintro rfl
    exact ConnectionStep.replay (Bool.and_eq_true_iff.mp hEnabled).2
  | forward c' =>
    refine hAt ?_ ?_
    · rintro rfl
      exact ConnectionStep.forward
    · intro hOther hSame
      exact hOther (Action.forward.inj hSame).symm
  | observeDone c' =>
    refine hAt ?_ fun _ => nofun
    rintro rfl
    exact ConnectionStep.observeDone
  | disconnect c' =>
    refine hAt ?_ fun _ => nofun
    rintro rfl
    exact ConnectionStep.disconnect
  | unsubscribe c' =>
    refine hAt ?_ fun _ => nofun
    rintro rfl
    exact ConnectionStep.unsubscribe
  | getSnapshot environment ifNoneMatch => exact ConnectionStep.same _ nofun

/-- A step changes the current snapshot of an environment only to the one it broadcasts. -/
theorem current_step (computeETag : π → String) (a : Action π) (environment : String) :
    (s.effect computeETag a).store.current environment = s.store.current environment ∨
      ∃ version payload state, a = .publish environment version payload ∧
        (s.effect computeETag a).store.current environment = some state ∧ state.version = version ∧
        (s.effect computeETag a).hub = s.hub.effect (.broadcast environment { version, payload }) := by
  cases a with
  | publish other version payload =>
    rcases Store.publish_cases s.store computeETag other version payload with
      ⟨error, hSame, _⟩ | ⟨state, hAccepted, hCurrent, _⟩
    · refine Or.inl ?_
      simp only [effect, hSame]
    · simp only [effect, hAccepted, Store.current_eq, Store.environments_put]
      by_cases hOther : environment = other
      · subst hOther
        refine Or.inr ⟨version, payload, state.current, rfl, ?_, ?_, rfl⟩
        · rw [if_pos rfl]
          rfl
        · rw [hCurrent]
      · rw [if_neg hOther]
        exact Or.inl rfl
  | _ => exact Or.inl rfl

theorem Covers.step (hTidy : s.hub.Tidy) {a : Action π} (hEnabled : s.enabled a = true) {c : Nat}
    (hAllocated : c < s.hub.allocated) (hCovers : s.Covers c) : (s.effect computeETag a).Covers c := by
  rw [Covers, environmentOf_eq hEnabled hAllocated]
  have hStep := connection_step computeETag hEnabled hAllocated
  generalize (s.effect computeETag a).connections c = after at hStep ⊢
  rcases current_step computeETag a (s.environmentOf c) with
    hStore | ⟨version, payload, state, rfl, hState, hVersion, hHub⟩
  · -- the current snapshot stays: what was reached stays reached, what was owed is owed or taken
    rw [hStore]
    rcases hCovers with hEnded | hReached
    · cases hStep with
      | same => exact Or.inl hEnded
      | read hReading => rcases hEnded with hPhase | hPhase <;> simp [Connection.isReading, hPhase] at hReading
      | replay hReplaying => rcases hEnded with hPhase | hPhase <;> simp [Connection.isReplaying, hPhase] at hReplaying
      | forward =>
        rcases hEnded with hPhase | hPhase <;> simp [enabled, Connection.isStreaming, hPhase] at hEnabled
      | observeDone => exact Or.inl (Connection.ended_observeDone _)
      | disconnect => exact Or.inl (Or.inl rfl)
      | unsubscribe => exact Or.inl (Or.inr rfl)
    · have hOwed : a ≠ .forward c → ∀ version, s.hub.Owed c version → (s.effect computeETag a).hub.Owed c version :=
        fun hOther _ => owed_step hTidy hEnabled hAllocated hOther
      cases hStep with
      | same _ hOther =>
        refine Or.inr fun current hCurrent => ?_
        exact (hReached current hCurrent).imp id (hOwed hOther current.version)
      | read hReading => exact Or.inr fun current hCurrent => Or.inl (Connection.reaches_read hReading hCurrent)
      | replay hReplaying =>
        refine Or.inr fun current hCurrent => ?_
        exact (hReached current hCurrent).imp (fun h => h.replay hReplaying) (hOwed nofun current.version)
      | forward =>
        refine Or.inr fun current hCurrent => ?_
        obtain ⟨_, hReceive⟩ := Bool.and_eq_true_iff.mp hEnabled
        rcases hReached current hCurrent with hReaches | hOwes
        · exact Or.inl (hReaches.forward _)
        · rcases hOwes.receive hTidy hAllocated hReceive with ⟨offer, hHead, hVersion⟩ | hStill
          · rw [hHead]
            exact Or.inl (Or.inl ((Connection.newest_writeEvent _).mpr (Or.inr ⟨_, rfl, hVersion⟩)))
          · exact Or.inr hStill
      | observeDone => exact Or.inl (Connection.ended_observeDone _)
      | disconnect => exact Or.inl (Or.inl rfl)
      | unsubscribe => exact Or.inl (Or.inr rfl)
  · -- a new current snapshot comes with a broadcast that has all shards ahead of it
    refine Or.inr fun current hCurrent => Or.inr ?_
    obtain rfl := Option.some.inj (hState.symm.trans hCurrent)
    rw [hHub, hVersion]
    exact Hub.owed_of_broadcast hAllocated { version, payload }

theorem unsubscribing_step
    (hClosed : ∀ c ∈ s.hub.unsubscribing, c < s.hub.allocated ∧ (s.connections c).phase = .closed)
    {a : Action π} (hEnabled : s.enabled a = true) : ∀ c ∈ (s.effect computeETag a).hub.unsubscribing,
      c < (s.effect computeETag a).hub.allocated ∧ ((s.effect computeETag a).connections c).phase = .closed := by
  have hOld : ∀ c ∈ s.hub.unsubscribing, c < (s.effect computeETag a).hub.allocated ∧
      ((s.effect computeETag a).connections c).phase = .closed := by
    intro c hMem
    obtain ⟨hAllocated, hPhase⟩ := hClosed c hMem
    refine ⟨Nat.lt_of_lt_of_le hAllocated (allocated_le hEnabled), ?_⟩
    have hStep := connection_step computeETag hEnabled hAllocated
    generalize (s.effect computeETag a).connections c = after at hStep ⊢
    cases hStep with
    | same => exact hPhase
    | read hReading => simp [Connection.isReading, hPhase] at hReading
    | replay hReplaying => simp [Connection.isReplaying, hPhase] at hReplaying
    | forward => simp [enabled, Connection.isStreaming, hPhase] at hEnabled
    | observeDone => simp [enabled, Connection.isStreaming, hPhase] at hEnabled
    | disconnect => simp [enabled, Connection.isStreaming, hPhase] at hEnabled
    | unsubscribe => rfl
  intro c hMem
  cases a with
  | unsubscribe c' =>
    rcases List.mem_cons.mp hMem with rfl | hMem
    · simp only [enabled, Hub.enabled, Bool.and_eq_true, decide_eq_true_eq] at hEnabled
      refine ⟨hEnabled.2.1, ?_⟩
      simp [effect, setConnection]
    · exact hOld c hMem
  | hub inner =>
    apply hOld
    cases inner with
    | closeUnsubscribed c' => exact List.mem_of_mem_erase hMem
    | unsubscribe c' => cases hEnabled
    | _ => exact hMem
  | publish environment version payload =>
    apply hOld
    simp only [effect] at hMem
    split at hMem <;> exact hMem
  | _ => exact hOld c hMem

structure Delivers (s : Server π) : Prop where
  tidy : s.hub.Tidy
  closed : ∀ c ∈ s.hub.unsubscribing, c < s.hub.allocated ∧ (s.connections c).phase = .closed
  covers : ∀ c < s.hub.allocated, s.Covers c

theorem Delivers.step (hDelivers : s.Delivers) {a : Action π} (hEnabled : s.enabled a = true) (hFresh : s.FreshIds a) :
    (s.effect computeETag a).Delivers where
  tidy := tidy_step hDelivers.tidy hEnabled hFresh
  closed := unsubscribing_step hDelivers.closed hEnabled
  covers := by
    intro c hAllocated
    by_cases hOld : c < s.hub.allocated
    · exact (hDelivers.covers c hOld).step hDelivers.tidy hEnabled hOld
    · obtain ⟨id, environment, header, query, _, hNew⟩ := new_connection hEnabled hAllocated hOld
      refine Or.inr fun current _ => Or.inl (Or.inr (Or.inl ?_))
      rw [hNew]
      rfl

theorem delivers_of_reachable [Inhabited π] {options : Options} {historySize : Int}
    (hReach : (machine computeETag).Reachable FreshIds (new options historySize) s) : s.Delivers := by
  refine hReach.invariant Delivers ?_ ?_
  · refine { tidy := Hub.tidy_new options, closed := ?_, covers := ?_ }
    · intro c hMem
      cases hMem
    · intro c hAllocated
      exact absurd hAllocated (Nat.not_lt_zero c)
  · intro s a _ hDelivers hEnabled hFresh
    exact hDelivers.step hEnabled hFresh

/-- With no publish or broadcast in progress, a stream that has replayed, is neither evicted nor
closed and has nothing left in its channel has come at least to the current version. -/
theorem newest_of_drained [Inhabited π] (computeETag : π → String) (options : Options) (historySize : Int)
    {s : Server π} (hReach : (machine computeETag).Reachable FreshIds (new options historySize) s)
    (hIdle : s.hub.Idle) : ∀ c < s.hub.allocated, (s.connections c).phase = .streaming →
      (s.hub.subscribers c).done = none → (s.hub.subscribers c).messages = [] →
      ∀ current, s.store.current (s.environmentOf c) = some current →
        current.version ≤ (s.connections c).newest := by
  intro c hAllocated hStreaming hOpen hDrained current hCurrent
  have hDelivers := delivers_of_reachable hReach
  rcases hDelivers.covers c hAllocated with hEnded | hReached
  · rcases hEnded with hPhase | hPhase <;> rw [hStreaming] at hPhase <;> cases hPhase
  rcases hReached current hCurrent with hReaches | hOwed
  · rcases hReaches with hHeld | hReading | ⟨pending, hPhase, _⟩
    · exact hHeld
    · simp [Connection.isReading, hStreaming] at hReading
    · rw [hStreaming] at hPhase
      cases hPhase
  · refine absurd hOwed (Hub.not_owed_of_idle hDelivers.tidy hIdle hDrained hOpen fun hMem => ?_)
    have hPhase := (hDelivers.closed c hMem).2
    rw [hStreaming] at hPhase
    cases hPhase

def freshIds (s : Server π) : Action π → Bool
  | .connect id _ _ _ => decide (∀ c < s.hub.allocated, (s.hub.subscribers c).id ≠ id)
  | _ => true

theorem freshIds_sound (s : Server π) (a : Action π) (h : s.freshIds a = true) : s.FreshIds a := by
  cases a with
  | connect id environment header query =>
    rw [freshIds, decide_eq_true_eq] at h
    exact h
  | _ => trivial

/-- Version 1 is there when the stream connects, and version 2 is published before it reads. -/
def updateDuringReplay : List (Action String) :=
  [.publish "production" 1 "first", .hub (.lock 0), .hub (.unlock 0), .connect "sub-1" "production" "" "",
    .publish "production" 2 "second", .read 0, .hub (.lock 1), .replay 0, .hub (.send 1 0), .replay 0,
    .hub (.unlock 1), .forward 0]

theorem updateDuringReplay_newest : ∃ s,
    (machine id).runWithin freshIds (new Hub.small 0) updateDuringReplay = some s ∧
    s.hub.Idle ∧ ∀ c < s.hub.allocated, (s.connections c).phase = .streaming →
      (s.hub.subscribers c).done = none → (s.hub.subscribers c).messages = [] →
      ∀ current, s.store.current (s.environmentOf c) = some current →
        current.version ≤ (s.connections c).newest := by
  have hEnd : ((machine id).runWithin freshIds (new Hub.small 0) updateDuringReplay).map
      (fun s => decide s.hub.Idle) = some true := by decide +kernel
  obtain ⟨s, hRun, hIdle⟩ := Option.map_eq_some_iff.mp hEnd
  have hReach := Machine.Reachable.start.runWithin (fun s a _ => freshIds_sound s a) hRun
  exact ⟨s, hRun, of_decide_eq_true hIdle, newest_of_drained id Hub.small 0 hReach (of_decide_eq_true hIdle)⟩

end Server

end Flagship.DataPlane
