import Flagship.DataPlane.Delivery

/-! # What the data plane hands out was published

A payload that reaches a client, by whatever way, was accepted in a publish for the
environment the client asked for. A property of environments and payloads that all accepted
publishes have is one that all answers have.
-/

namespace Flagship.DataPlane

open Lib

variable {π : Type} {P : String → π → Prop}

namespace Hub

variable {hub : Hub π}

/-- The property holds of all messages of the hub, each under the environment it is for. -/
structure Carries (P : String → π → Prop) (hub : Hub π) : Prop where
  entries : hub.Entries
  scans : hub.Scans
  broadcasts : ∀ b < hub.started, P (hub.broadcasts b).environment (hub.broadcasts b).message.payload
  offers : ∀ h < hub.allocated, ∀ offer ∈ (hub.subscribers h).offers, P (hub.subscribers h).environment
    offer.message.payload

theorem Carries.broadcasts_step (hCarries : Carries P hub) {a : Action π}
    (hNew : ∀ environment message, a = .broadcast environment message → P environment message.payload) :
    ∀ b < (hub.effect a).started, P ((hub.effect a).broadcasts b).environment
      ((hub.effect a).broadcasts b).message.payload := by
  intro b hStarted
  by_cases hOld : b < hub.started
  · have hBefore := hCarries.broadcasts b hOld
    have hStep := broadcast_step a hOld
    generalize (hub.effect a).broadcasts b = after at hStep ⊢
    cases hStep <;> exact hBefore
  · obtain ⟨environment, message, rfl, _, hAfter⟩ := scanning_of_new hStarted hOld
    rw [hAfter]
    exact hNew environment message rfl

theorem Carries.offers_step (hCarries : Carries P hub) {a : Action π} (hEnabled : hub.enabled a = true) :
    ∀ h < (hub.effect a).allocated, ∀ offer ∈ ((hub.effect a).subscribers h).offers,
      P ((hub.effect a).subscribers h).environment offer.message.payload := by
  intro h hAllocated offer hMem
  by_cases hOld : h < hub.allocated
  · rw [(identity_eq a hOld).2]
    have hBefore := hCarries.offers h hOld
    have hStep := subscriber_step a hOld
    generalize (hub.effect a).subscribers h = after at hStep hMem
    cases hStep with
    | send b =>
      simp only [enabled, Bool.and_eq_true, decide_eq_true_eq] at hEnabled
      rw [Subscriber.offered] at hMem
      split at hMem
      · exact hBefore offer hMem
      · rcases List.mem_append.mp hMem with hEarlier | hLast
        · exact hBefore offer hEarlier
        · -- the broadcast scans entries of its own environment
          obtain ⟨entry, hEntry, rfl, hEnvironment, _⟩ := hCarries.scans b hEnabled.1 h hEnabled.2
          rw [List.mem_singleton.mp hLast, ← (hCarries.entries entry hEntry).2.2, hEnvironment]
          exact hCarries.broadcasts b hEnabled.1
    | _ => exact hBefore offer hMem
  · obtain ⟨id, environment, rfl, _, hNew⟩ := skipped_of_new hAllocated hOld
    rw [hNew] at hMem
    cases hMem

theorem Carries.step (hCarries : Carries P hub) {a : Action π} (hEnabled : hub.enabled a = true)
    (hNew : ∀ environment message, a = .broadcast environment message → P environment message.payload) :
    Carries P (hub.effect a) where
  entries := hCarries.entries.step a
  scans := hCarries.scans.step hEnabled
  broadcasts := hCarries.broadcasts_step hNew
  offers := hCarries.offers_step hEnabled

theorem carries_new [Inhabited π] (options : Options) : Carries P (Hub.new options) where
  entries entry hMem := by cases hMem
  scans b hStarted := absurd hStarted (Nat.not_lt_zero b)
  broadcasts b hStarted := absurd hStarted (Nat.not_lt_zero b)
  offers h hAllocated := absurd hAllocated (Nat.not_lt_zero h)

end Hub

/-! ## The store -/

def Store.Carries (P : String → π → Prop) (store : Store π) : Prop :=
  ∀ environment state, store.environments environment = some state →
    ∀ snapshot ∈ state.history, P environment snapshot.payload

theorem Store.Carries.current {store : Store π} (hCarries : Store.Carries P store) {environment : String}
    {snapshot : Snapshot π} (hCurrent : store.current environment = some snapshot) :
    P environment snapshot.payload := by
  obtain ⟨state, hState, hMem⟩ := Store.mem_history_of_current hCurrent
  exact hCarries environment state hState snapshot hMem

theorem Store.Carries.publish {store : Store π} (hCarries : Store.Carries P store) (computeETag : π → String)
    (environment : String) (version : Int) {payload : π}
    (hNew : store.Accepts environment version → P environment payload) :
    Store.Carries P (store.publish computeETag environment version payload).1 := by
  rcases store.publish_cases computeETag environment version payload with
    ⟨error, hSame, _⟩ | ⟨state, hAccepted, hCurrent, hHistory, hAccepts⟩
  · rw [hSame]
    exact hCarries
  · rw [hAccepted]
    intro other found hFound snapshot hMem
    rw [Store.environments_put] at hFound
    split at hFound
    · rename_i hHere
      obtain rfl := Option.some.inj hFound
      rcases hHistory snapshot hMem with rfl | ⟨before, hBefore, hOlder⟩
      · rw [hHere, hCurrent]
        exact hNew hAccepts
      · exact hHere ▸ hCarries environment before hBefore snapshot hOlder
    · exact hCarries other found hFound snapshot hMem

/-! ## Connections -/

def Phase.pending : Phase π → List (Snapshot π)
  | .replaying pending => pending
  | _ => []

structure Connection.Carries (P : π → Prop) (connection : Connection π) : Prop where
  pending : ∀ snapshot ∈ connection.phase.pending, P snapshot.payload
  frames : ∀ version payload, .ruleset version payload ∈ connection.frames → P payload

namespace Connection

variable {connection : Connection π} {Q : π → Prop}

theorem Carries.enter (hCarries : connection.Carries Q) {phase : Phase π}
    (hPhase : ∀ snapshot ∈ phase.pending, Q snapshot.payload) : ({ connection with phase } : Connection π).Carries Q :=
  { pending := hPhase, frames := hCarries.frames }

theorem Carries.writeEvent (hCarries : connection.Carries Q) {frame : Frame π}
    (hFrame : ∀ version payload, frame = .ruleset version payload → Q payload) :
    (connection.writeEvent frame).Carries Q where
  pending := hCarries.pending
  frames := by
    intro version payload hMem
    rcases List.mem_append.mp hMem with hOld | hNew
    · exact hCarries.frames version payload hOld
    · exact hFrame version payload (List.mem_singleton.mp hNew).symm

theorem Carries.readCurrent (hCarries : connection.Carries Q) {store : Store π} {environment : String}
    (hStore : ∀ snapshot, store.current environment = some snapshot → Q snapshot.payload) :
    (connection.readCurrent store environment).Carries Q := by
  rw [Connection.readCurrent]
  split
  · exact hCarries.enter (List.forall_mem_nil _)
  · rename_i current hCurrent
    refine hCarries.enter ?_
    intro snapshot hMem
    rw [List.mem_singleton.mp hMem]
    exact hStore current hCurrent

theorem Carries.read (hCarries : connection.Carries (P environment)) {store : Store π}
    (hStore : Store.Carries P store) :
    (connection.read store environment).Carries (P environment) := by
  have hCurrent : ∀ snapshot, store.current environment = some snapshot → P environment snapshot.payload :=
    fun _ => hStore.current
  rw [Connection.read]
  split
  · split
    · exact hCarries.readCurrent hCurrent
    · split
      · exact hCarries.enter (List.forall_mem_nil _)
      · exact hCarries.enter (List.forall_mem_nil _)
      · rename_i missed hMissed
        refine hCarries.enter ?_
        intro snapshot hMem
        obtain ⟨state, hState, hHistory⟩ := Store.mem_history_of_resume hMissed hMem
        exact hStore environment state hState snapshot hHistory
  · exact hCarries.readCurrent hCurrent
  · exact hCarries

theorem Carries.replay (hCarries : connection.Carries Q) : connection.replay.Carries Q := by
  rw [Connection.replay]
  split
  · rename_i snapshot rest hPhase
    have hPending := hCarries.pending
    rw [hPhase] at hPending
    have hWritten : (connection.writeEvent (.ruleset snapshot.version snapshot.payload)).Carries Q := by
      refine hCarries.writeEvent ?_
      intro version payload hFrame
      obtain ⟨_, rfl⟩ := Frame.ruleset.inj hFrame
      exact hPending snapshot List.mem_cons_self
    refine hWritten.enter ?_
    intro other hMem
    exact hPending other (List.mem_cons_of_mem _ hMem)
  · exact hCarries.enter (List.forall_mem_nil _)
  · exact hCarries

theorem Carries.forward (hCarries : connection.Carries Q) {offer : Option (Offer π)}
    (hOffer : ∀ taken, offer = some taken → Q taken.message.payload) : (connection.forward offer).Carries Q := by
  cases offer with
  | none => exact hCarries
  | some taken =>
    refine hCarries.writeEvent ?_
    intro version payload hFrame
    obtain ⟨_, rfl⟩ := Frame.ruleset.inj hFrame
    exact hOffer taken rfl

theorem Carries.observeDone (hCarries : connection.Carries Q) (reason : Option DropReason) :
    (connection.observeDone reason).Carries Q := by
  rw [Connection.observeDone]
  split
  · refine Carries.enter (hCarries.writeEvent ?_) (List.forall_mem_nil _)
    intro version payload hFrame
    cases hFrame
  · exact hCarries.enter (List.forall_mem_nil _)

end Connection

theorem current_of_ok {store : Store π} {environment ifNoneMatch : String} {snapshot : Snapshot π}
    (h : handleSnapshot store environment ifNoneMatch = .ok snapshot) : store.current environment = some snapshot := by
  rw [handleSnapshot] at h
  split at h
  · cases h
  split at h
  · cases h
  rename_i hCurrent
  split at h
  · cases h
  · rw [← SnapshotResponse.ok.inj h]
    exact hCurrent

/-! ## The server -/

namespace Server

variable {s : Server π} {computeETag : π → String}

structure Carries (P : String → π → Prop) (s : Server π) : Prop where
  store : Store.Carries P s.store
  hub : Hub.Carries P s.hub
  connections : ∀ c < s.hub.allocated, (s.connections c).Carries (P (s.environmentOf c))
  responses : ∀ environment snapshot, (environment, .ok snapshot) ∈ s.responses → P environment snapshot.payload

theorem Carries.hub_step (hCarries : s.Carries P) {a : Action π} (hEnabled : s.enabled a = true)
    (hNew : ∀ environment version payload, a = .publish environment version payload →
      s.store.Accepts environment version → P environment payload) : Hub.Carries P (s.effect computeETag a).hub := by
  have hStep : ∀ inner, s.hub.enabled inner = true → (∀ environment message, inner ≠ .broadcast environment message) →
      Hub.Carries P (s.hub.effect inner) := by
    intro inner hInner hOther
    exact hCarries.hub.step hInner fun environment message hSame => absurd hSame (hOther environment message)
  cases a with
  | publish environment version payload =>
    rcases s.store.publish_cases computeETag environment version payload with
      ⟨error, hSame, _⟩ | ⟨state, hAccepted, _, _, hAccepts⟩
    · simp only [effect, hSame]
      exact hCarries.hub
    · simp only [effect, hAccepted]
      refine hCarries.hub.step rfl ?_
      intro environment' message hBroadcast
      obtain ⟨rfl, rfl⟩ := Hub.Action.broadcast.inj hBroadcast
      exact hNew _ _ _ rfl hAccepts
  | hub inner =>
    obtain ⟨hInside, hInner⟩ := Bool.and_eq_true_iff.mp hEnabled
    refine hStep inner hInner ?_
    rintro environment message rfl
    cases hInside
  | connect id environment header query =>
    exact hStep _ (Bool.and_eq_true_iff.mp hEnabled).2 fun _ _ hSame => by cases hSame
  | forward c => exact hStep _ (Bool.and_eq_true_iff.mp hEnabled).2 fun _ _ hSame => by cases hSame
  | unsubscribe c => exact hStep _ (Bool.and_eq_true_iff.mp hEnabled).2 fun _ _ hSame => by cases hSame
  | _ => exact hCarries.hub

theorem Carries.connections_step (hCarries : s.Carries P) {a : Action π} (hEnabled : s.enabled a = true) :
    ∀ c < (s.effect computeETag a).hub.allocated,
      ((s.effect computeETag a).connections c).Carries (P ((s.effect computeETag a).environmentOf c)) := by
  intro c hAllocated
  by_cases hOld : c < s.hub.allocated
  · rw [environmentOf_eq hEnabled hOld]
    have hBefore := hCarries.connections c hOld
    have hStep := connection_step computeETag hEnabled hOld
    generalize (s.effect computeETag a).connections c = after at hStep ⊢
    cases hStep with
    | same => exact hBefore
    | read hReading => exact hBefore.read hCarries.store
    | replay hReplaying => exact hBefore.replay
    | forward =>
      refine hBefore.forward ?_
      intro taken hTaken
      have hMem : taken ∈ (s.hub.subscribers c).messages := List.mem_of_mem_head? hTaken
      exact hCarries.hub.offers c hOld taken (List.mem_of_mem_drop hMem)
    | observeDone => exact hBefore.observeDone _
    | disconnect => exact hBefore.enter (List.forall_mem_nil _)
    | unsubscribe => exact hBefore.enter (List.forall_mem_nil _)
  · obtain ⟨id, environment, header, query, _, hNew⟩ := new_connection hEnabled hAllocated hOld
    rw [hNew]
    exact { pending := List.forall_mem_nil _, frames := fun _ _ hMem => by cases hMem }

theorem Carries.step (hCarries : s.Carries P) {a : Action π} (hEnabled : s.enabled a = true)
    (hNew : ∀ environment version payload, a = .publish environment version payload →
      s.store.Accepts environment version → P environment payload) : Carries P (s.effect computeETag a) where
  hub := hCarries.hub_step hEnabled hNew
  connections := hCarries.connections_step hEnabled
  store := by
    cases a with
    | publish environment version payload =>
      have hAfter := hCarries.store.publish computeETag environment version (hNew environment version payload rfl)
      simp only [effect]
      split <;> simpa [*] using hAfter
    | _ => exact hCarries.store
  responses := by
    have hOld := hCarries.responses
    cases a with
    | publish environment version payload =>
      simp only [effect]
      split <;> exact hOld
    | getSnapshot environment ifNoneMatch =>
      intro other snapshot hMem
      rcases List.mem_append.mp hMem with hEarlier | hLast
      · exact hOld other snapshot hEarlier
      · obtain ⟨rfl, hBody⟩ := Prod.mk.inj (List.mem_singleton.mp hLast)
        exact hCarries.store.current (current_of_ok hBody.symm)
    | _ => exact hOld

theorem Carries.handlePublish (hCarries : s.Carries P) {environment : String} {version : Int} {payload : π}
    (hNew : s.store.Accepts environment version → P environment payload) :
    Carries P (s.handlePublish computeETag environment version payload) := by
  rw [Server.handlePublish]
  split
  · exact hCarries
  split
  · exact hCarries
  · refine hCarries.step rfl ?_
    intro environment' version' payload' hSame
    obtain ⟨rfl, rfl, rfl⟩ := Action.publish.inj hSame
    exact hNew

theorem Carries.mono {Q : String → π → Prop} (hCarries : s.Carries P)
    (hWeaker : ∀ environment payload, P environment payload → Q environment payload) : s.Carries Q where
  store environment state hState snapshot hMem := hWeaker _ _ (hCarries.store environment state hState snapshot hMem)
  hub := {
    entries := hCarries.hub.entries
    scans := hCarries.hub.scans
    broadcasts := fun b hStarted => hWeaker _ _ (hCarries.hub.broadcasts b hStarted)
    offers := fun h hAllocated offer hMem => hWeaker _ _ (hCarries.hub.offers h hAllocated offer hMem) }
  connections c hAllocated := {
    pending := fun snapshot hMem => hWeaker _ _ ((hCarries.connections c hAllocated).pending snapshot hMem)
    frames := fun version payload hMem =>
      hWeaker _ _ ((hCarries.connections c hAllocated).frames version payload hMem) }
  responses environment snapshot hMem := hWeaker _ _ (hCarries.responses environment snapshot hMem)

theorem carries_new [Inhabited π] (options : Options) (historySize : Int) : Carries P (new options historySize) where
  store environment state hState := by cases hState
  hub := Hub.carries_new options
  connections c hAllocated := absurd hAllocated (Nat.not_lt_zero c)
  responses environment snapshot hMem := by cases hMem

/-- A client that asked for the environment was sent the payload: as a snapshot body, or in a
frame of a cold start, a replay, a full resync or a live update. -/
def Serves (s : Server π) (environment : String) (payload : π) : Prop :=
  (∃ snapshot, (environment, .ok snapshot) ∈ s.responses ∧ snapshot.payload = payload) ∨
    ∃ c < s.hub.allocated, s.environmentOf c = environment ∧
      ∃ version, .ruleset version payload ∈ (s.connections c).frames

theorem Carries.serves (hCarries : s.Carries P) {environment : String} {payload : π}
    (hServes : s.Serves environment payload) : P environment payload := by
  rcases hServes with ⟨snapshot, hMem, rfl⟩ | ⟨c, hAllocated, rfl, version, hMem⟩
  · exact hCarries.responses environment snapshot hMem
  · exact (hCarries.connections c hAllocated).frames version payload hMem

end Server

end Flagship.DataPlane
