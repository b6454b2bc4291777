import Flagship.DataPlane.Provenance

/-! # What the data plane hands out under a version

A version and a payload that were published together stay together: in the history, in a
channel, in a replay and in a frame.
-/

namespace Flagship.DataPlane

open Lib

variable {π : Type} {R : Int → π → Prop}

namespace Hub

variable {hub : Hub π}

/-- The relation holds between the version and the payload of every message of the hub. -/
structure Stamps (R : Int → π → Prop) (hub : Hub π) : Prop where
  broadcasts : ∀ b < hub.started, R (hub.broadcasts b).message.version (hub.broadcasts b).message.payload
  offers : ∀ h < hub.allocated, ∀ offer ∈ (hub.subscribers h).offers, R offer.message.version offer.message.payload

theorem Stamps.broadcasts_step (hStamps : Stamps R hub) {a : Action π}
    (hNew : ∀ environment message, a = .broadcast environment message → R message.version message.payload) :
    ∀ b < (hub.effect a).started,
      R ((hub.effect a).broadcasts b).message.version ((hub.effect a).broadcasts b).message.payload := by
  intro b hStarted
  by_cases hOld : b < hub.started
  · have hBefore := hStamps.broadcasts b hOld
    have hStep := broadcast_step a hOld
    generalize (hub.effect a).broadcasts b = after at hStep ⊢
    cases hStep <;> exact hBefore
  · obtain ⟨environment, message, rfl, _, hAfter⟩ := scanning_of_new hStarted hOld
    rw [hAfter]
    exact hNew environment message rfl

theorem Stamps.offers_step (hStamps : Stamps R hub) {a : Action π} (hEnabled : hub.enabled a = true) :
    ∀ h < (hub.effect a).allocated, ∀ offer ∈ ((hub.effect a).subscribers h).offers,
      R offer.message.version offer.message.payload := by
  intro h hAllocated offer hMem
  by_cases hOld : h < hub.allocated
  · have hBefore := hStamps.offers h hOld
    have hStep := subscriber_step a hOld
    generalize (hub.effect a).subscribers h = after at hStep hMem
    cases hStep with
    | send b =>
      simp only [enabled, Bool.and_eq_true, decide_eq_true_eq] at hEnabled
      rw [Subscriber.offered] at hMem
      split at hMem
      · exact hBefore offer hMem
      · rcases List.mem_append.mp hMem with hEarlier | hLast
        · exact hBefore offer hEarlier
        · rw [List.mem_singleton.mp hLast]
          exact hStamps.broadcasts b hEnabled.1
    | _ => exact hBefore offer hMem
  · obtain ⟨id, environment, rfl, _, hNew⟩ := skipped_of_new hAllocated hOld
    rw [hNew] at hMem
    cases hMem

theorem Stamps.step (hStamps : Stamps R hub) {a : Action π} (hEnabled : hub.enabled a = true)
    (hNew : ∀ environment message, a = .broadcast environment message → R message.version message.payload) :
    Stamps R (hub.effect a) where
  broadcasts := hStamps.broadcasts_step hNew
  offers := hStamps.offers_step hEnabled

end Hub

def Store.Stamps (R : Int → π → Prop) (store : Store π) : Prop :=
  ∀ environment state, store.environments environment = some state →
    ∀ snapshot ∈ state.history, R snapshot.version snapshot.payload

theorem Store.Stamps.current {store : Store π} (hStamps : Store.Stamps R store) {environment : String}
    {snapshot : Snapshot π} (hCurrent : store.current environment = some snapshot) :
    R snapshot.version snapshot.payload := by
  obtain ⟨state, hState, hMem⟩ := Store.mem_history_of_current hCurrent
  exact hStamps environment state hState snapshot hMem

theorem Store.Stamps.publish {store : Store π} (hStamps : Store.Stamps R store) (computeETag : π → String)
    (environment : String) {version : Int} {payload : π} (hNew : R version payload) :
    Store.Stamps R (store.publish computeETag environment version payload).1 := by
  rcases store.publish_cases computeETag environment version payload with
    ⟨error, hSame, _⟩ | ⟨state, hAccepted, hCurrent, hHistory, _⟩
  · rw [hSame]
    exact hStamps
  · rw [hAccepted]
    intro other found hFound snapshot hMem
    rw [Store.environments_put] at hFound
    split at hFound
    · obtain rfl := Option.some.inj hFound
      rcases hHistory snapshot hMem with rfl | ⟨before, hBefore, hOlder⟩
      · rw [hCurrent]
        exact hNew
      · exact hStamps environment before hBefore snapshot hOlder
    · exact hStamps other found hFound snapshot hMem

/-! ## Connections -/

structure Connection.Stamps (R : Int → π → Prop) (connection : Connection π) : Prop where
  pending : ∀ snapshot ∈ connection.phase.pending, R snapshot.version snapshot.payload
  frames : ∀ version payload, .ruleset version payload ∈ connection.frames → R version payload

namespace Connection

variable {connection : Connection π} {store : Store π}

theorem Stamps.enter (hStamps : connection.Stamps R) {phase : Phase π}
    (hPhase : ∀ snapshot ∈ phase.pending, R snapshot.version snapshot.payload) :
    ({ connection with phase } : Connection π).Stamps R :=
  { pending := hPhase, frames := hStamps.frames }

theorem Stamps.writeEvent (hStamps : connection.Stamps R) {frame : Frame π}
    (hFrame : ∀ version payload, frame = .ruleset version payload → R version payload) :
    (connection.writeEvent frame).Stamps R where
  pending := hStamps.pending
  frames := by
    intro version payload hMem
    rcases List.mem_append.mp hMem with hOld | hNew
    · exact hStamps.frames version payload hOld
    · exact hFrame version payload (List.mem_singleton.mp hNew).symm

theorem Stamps.readCurrent (hStamps : connection.Stamps R) (hStore : Store.Stamps R store) (environment : String) :
    (connection.readCurrent store environment).Stamps R := by
  rw [Connection.readCurrent]
  split
  · exact hStamps.enter (List.forall_mem_nil _)
  · rename_i current hCurrent
    refine hStamps.enter ?_
    intro snapshot hMem
    rw [List.mem_singleton.mp hMem]
    exact hStore.current hCurrent

theorem Stamps.read (hStamps : connection.Stamps R) (hStore : Store.Stamps R store) (environment : String) :
    (connection.read store environment).Stamps R := by
  rw [Connection.read]
  split
  · split
    · exact hStamps.readCurrent hStore environment
    · split
      · exact hStamps.enter (List.forall_mem_nil _)
      · exact hStamps.enter (List.forall_mem_nil _)
      · rename_i missed hMissed
        refine hStamps.enter ?_
        intro snapshot hMem
        obtain ⟨state, hState, hHistory⟩ := Store.mem_history_of_resume hMissed hMem
        exact hStore environment state hState snapshot hHistory
  · exact hStamps.readCurrent hStore environment
  · exact hStamps

theorem Stamps.replay (hStamps : connection.Stamps R) : connection.replay.Stamps R := by
  rw [Connection.replay]
  split
  · rename_i snapshot rest hPhase
    have hPending := hStamps.pending
    rw [hPhase] at hPending
    have hWritten : (connection.writeEvent (.ruleset snapshot.version snapshot.payload)).Stamps R := by
      refine hStamps.writeEvent ?_
      intro version payload hFrame
      obtain ⟨rfl, rfl⟩ := Frame.ruleset.inj hFrame
      exact hPending snapshot List.mem_cons_self
    refine hWritten.enter ?_
    intro other hMem
    exact hPending other (List.mem_cons_of_mem _ hMem)
  · exact hStamps.enter (List.forall_mem_nil _)
  · exact hStamps

theorem Stamps.forward (hStamps : connection.Stamps R) {offer : Option (Offer π)}
    (hOffer : ∀ taken, offer = some taken → R taken.message.version taken.message.payload) :
    (connection.forward offer).Stamps R := by
  cases offer with
  | none => exact hStamps
  | some taken =>
    refine hStamps.writeEvent ?_
    intro version payload hFrame
    obtain ⟨rfl, rfl⟩ := Frame.ruleset.inj hFrame
    exact hOffer taken rfl

theorem Stamps.observeDone (hStamps : connection.Stamps R) (reason : Option DropReason) :
    (connection.observeDone reason).Stamps R := by
  rw [Connection.observeDone]
  split
  · refine Stamps.enter (hStamps.writeEvent ?_) (List.forall_mem_nil _)
    intro version payload hFrame
    cases hFrame
  · exact hStamps.enter (List.forall_mem_nil _)

end Connection

/-! ## The server -/

namespace Server

variable {s : Server π} {computeETag : π → String}

structure Stamps (R : Int → π → Prop) (s : Server π) : Prop where
  store : Store.Stamps R s.store
  hub : Hub.Stamps R s.hub
  connections : ∀ c < s.hub.allocated, (s.connections c).Stamps R

theorem Stamps.hub_step (hStamps : s.Stamps R) {a : Action π} (hEnabled : s.enabled a = true)
    (hNew : ∀ environment version payload, a = .publish environment version payload → R version payload) :
    Hub.Stamps R (s.effect computeETag a).hub := by
  have hStep : ∀ inner, s.hub.enabled inner = true → (∀ environment message, inner ≠ .broadcast environment message) →
      Hub.Stamps R (s.hub.effect inner) := by
    intro inner hInner hOther
    exact hStamps.hub.step hInner fun environment message hSame => absurd hSame (hOther environment message)
  cases a with
  | publish environment version payload =>
    have hBroadcast : Hub.Stamps R (s.hub.effect (.broadcast environment { version, payload })) := by
      refine hStamps.hub.step rfl ?_
      intro environment' message hSame
      obtain ⟨rfl, rfl⟩ := Hub.Action.broadcast.inj hSame
      exact hNew _ _ _ rfl
    simp only [effect]
    split
    · exact hBroadcast
    · exact hStamps.hub
  | hub inner =>
    obtain ⟨hInside, hInner⟩ := Bool.and_eq_true_iff.mp hEnabled
    refine hStep inner hInner ?_
    rintro environment message rfl
    cases hInside
  | connect id environment header query =>
    exact hStep _ (Bool.and_eq_true_iff.mp hEnabled).2 fun _ _ hSame => by cases hSame
  | forward c => exact hStep _ (Bool.and_eq_true_iff.mp hEnabled).2 fun _ _ hSame => by cases hSame
  | unsubscribe c => exact hStep _ (Bool.and_eq_true_iff.mp hEnabled).2 fun _ _ hSame => by cases hSame
  | _ => exact hStamps.hub

theorem Stamps.connections_step (hStamps : s.Stamps R) {a : Action π} (hEnabled : s.enabled a = true) :
    ∀ c < (s.effect computeETag a).hub.allocated, ((s.effect computeETag a).connections c).Stamps R := by
  intro c hAllocated
  by_cases hOld : c < s.hub.allocated
  · have hBefore := hStamps.connections c hOld
    have hStep := connection_step computeETag hEnabled hOld
    generalize (s.effect computeETag a).connections c = after at hStep ⊢
    cases hStep with
    | same => exact hBefore
    | read hReading => exact hBefore.read hStamps.store _
    | replay hReplaying => exact hBefore.replay
    | forward =>
      refine hBefore.forward ?_
      intro taken hTaken
      have hMem : taken ∈ (s.hub.subscribers c).messages := List.mem_of_mem_head? hTaken
      exact hStamps.hub.offers c hOld taken (List.mem_of_mem_drop hMem)
    | observeDone => exact hBefore.observeDone _
    | disconnect => exact hBefore.enter (List.forall_mem_nil _)
    | unsubscribe => exact hBefore.enter (List.forall_mem_nil _)
  · obtain ⟨id, environment, header, query, _, hNew⟩ := new_connection hEnabled hAllocated hOld
    rw [hNew]
    exact { pending := List.forall_mem_nil _, frames := fun _ _ hMem => by cases hMem }

theorem Stamps.step (hStamps : s.Stamps R) {a : Action π} (hEnabled : s.enabled a = true)
    (hNew : ∀ environment version payload, a = .publish environment version payload → R version payload) :
    Stamps R (s.effect computeETag a) where
  hub := hStamps.hub_step hEnabled hNew
  connections := hStamps.connections_step hEnabled
  store := by
    cases a with
    | publish environment version payload =>
      have hAfter := hStamps.store.publish computeETag environment (hNew environment version payload rfl)
      simp only [effect]
      split <;> simpa [*] using hAfter
    | _ => exact hStamps.store

theorem Stamps.handlePublish (hStamps : s.Stamps R) {environment : String} {version : Int} {payload : π}
    (hNew : R version payload) : Stamps R (s.handlePublish computeETag environment version payload) := by
  rw [Server.handlePublish]
  split
  · exact hStamps
  split
  · exact hStamps
  · refine hStamps.step rfl ?_
    intro environment' version' payload' hSame
    obtain ⟨rfl, rfl, rfl⟩ := Action.publish.inj hSame
    exact hNew

theorem stamps_new [Inhabited π] (options : Options) (historySize : Int) : Stamps R (new options historySize) where
  store environment state hState := by cases hState
  hub := {
    broadcasts := fun b hStarted => absurd hStarted (Nat.not_lt_zero b)
    offers := fun h hAllocated => absurd hAllocated (Nat.not_lt_zero h) }
  connections c hAllocated := absurd hAllocated (Nat.not_lt_zero c)

end Server

end Flagship.DataPlane
