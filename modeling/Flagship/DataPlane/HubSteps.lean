import Flagship.DataPlane.Hub

/-! # What a step of the hub can do

One lemma for each part of the state: a broadcast, a subscriber, the registry. The invariants
of the hub, and of the streams on top of it, are derived from these.
-/

namespace Flagship.DataPlane.Hub

open Lib

variable {π : Type} {hub : Hub π}

theorem allocated_le (a : Action π) : hub.allocated ≤ (hub.effect a).allocated := by
  cases a with
  | subscribe id environment => exact Nat.le_succ _
  | _ => exact Nat.le_refl _

theorem started_le (a : Action π) : hub.started ≤ (hub.effect a).started := by
  cases a with
  | broadcast environment message => exact Nat.le_succ _
  | _ => exact Nat.le_refl _

theorem shardCount_eq (a : Action π) : (hub.effect a).shardCount = hub.shardCount := by
  cases a <;> rfl

theorem shardFor_eq (a : Action π) (id : String) : (hub.effect a).shardFor id = hub.shardFor id := by
  rw [shardFor, shardFor, shardCount_eq]

inductive BroadcastStep (hub : Hub π) (b : Nat) : Action π → Broadcast π → Prop where
  | same (a : Action π) : BroadcastStep hub b a (hub.broadcasts b)
  | lock : BroadcastStep hub b (.lock b) { hub.broadcasts b with
      scanning := some (hub.registered (hub.broadcasts b).environment (hub.broadcasts b).shard) }
  | send (h : Nat) : BroadcastStep hub b (.send b h) { hub.broadcasts b with
      scanning := some (((hub.broadcasts b).scanning.getD []).erase h)
      evict := if hub.isFull h then (hub.broadcasts b).evict ++ [h] else (hub.broadcasts b).evict }
  | unlock : BroadcastStep hub b (.unlock b) { hub.broadcasts b with
      scanning := none, shard := (hub.broadcasts b).shard + 1 }
  | remove (h : Nat) : BroadcastStep hub b (.remove b h) { hub.broadcasts b with
      evict := (hub.broadcasts b).evict.tail, closing := some h }
  | closeEvicted (h : Nat) : BroadcastStep hub b (.closeEvicted b h) { hub.broadcasts b with closing := none }

theorem broadcast_step (a : Action π) {b : Nat} (hStarted : b < hub.started) :
    BroadcastStep hub b a ((hub.effect a).broadcasts b) := by
  have hAt : ∀ {b' : Nat} {value : Broadcast π}, (b = b' → BroadcastStep hub b a value) →
      BroadcastStep hub b a (Function.update hub.broadcasts b' value b) :=
    fun hOwn => update_cases hOwn fun _ => BroadcastStep.same a
  cases a with
  | broadcast environment message => exact hAt fun hSame => absurd hSame (Nat.ne_of_lt hStarted)
  | lock b' =>
    apply hAt
    rintro rfl
    exact BroadcastStep.lock
  | send b' h =>
    apply hAt
    rintro rfl
    exact BroadcastStep.send h
  | unlock b' =>
    apply hAt
    rintro rfl
    exact BroadcastStep.unlock
  | remove b' h =>
    apply hAt
    rintro rfl
    exact BroadcastStep.remove h
  | closeEvicted b' h =>
    apply hAt
    rintro rfl
    exact BroadcastStep.closeEvicted h
  | subscribe id environment => exact BroadcastStep.same _
  | receive subscriber => exact BroadcastStep.same _
  | unsubscribe subscriber => exact BroadcastStep.same _
  | closeUnsubscribed subscriber => exact BroadcastStep.same _

inductive SubscriberStep (hub : Hub π) (h : Nat) : Action π → Subscriber π → Prop where
  | same (a : Action π) : SubscriberStep hub h a (hub.subscribers h)
  | send (b : Nat) : SubscriberStep hub h (.send b h)
      ((hub.subscribers h).offered (hub.isFull h) (hub.broadcasts b).message)
  | receive : SubscriberStep hub h (.receive h)
      { hub.subscribers h with received := (hub.subscribers h).received + 1 }
  | closeEvicted (b : Nat) : SubscriberStep hub h (.closeEvicted b h)
      { hub.subscribers h with done := some ((hub.subscribers h).done.getD .slowConsumer) }
  | closeUnsubscribed : SubscriberStep hub h (.closeUnsubscribed h)
      { hub.subscribers h with done := some ((hub.subscribers h).done.getD .closed) }

theorem subscriber_step (a : Action π) {h : Nat} (hAllocated : h < hub.allocated) :
    SubscriberStep hub h a ((hub.effect a).subscribers h) := by
  have hAt : ∀ {h' : Nat} {value : Subscriber π}, (h = h' → SubscriberStep hub h a value) →
      SubscriberStep hub h a (Function.update hub.subscribers h' value h) :=
    fun hOwn => update_cases hOwn fun _ => SubscriberStep.same a
  cases a with
  | send b h' =>
    apply hAt
    rintro rfl
    exact SubscriberStep.send b
  | receive h' =>
    apply hAt
    rintro rfl
    exact SubscriberStep.receive
  | closeEvicted b h' =>
    apply hAt
    rintro rfl
    exact SubscriberStep.closeEvicted b
  | closeUnsubscribed h' =>
    apply hAt
    rintro rfl
    exact SubscriberStep.closeUnsubscribed
  | subscribe id environment => exact hAt fun hSame => absurd hSame (Nat.ne_of_lt hAllocated)
  | broadcast environment message => exact SubscriberStep.same _
  | lock b => exact SubscriberStep.same _
  | unlock b => exact SubscriberStep.same _
  | remove b h' => exact SubscriberStep.same _
  | unsubscribe h' => exact SubscriberStep.same _

theorem identity_eq (a : Action π) {h : Nat} (hAllocated : h < hub.allocated) :
    ((hub.effect a).subscribers h).id = (hub.subscribers h).id ∧
      ((hub.effect a).subscribers h).environment = (hub.subscribers h).environment := by
  have hStep := subscriber_step a hAllocated
  generalize (hub.effect a).subscribers h = after at hStep ⊢
  cases hStep with
  | send b =>
    rw [Subscriber.offered]
    split <;> exact ⟨rfl, rfl⟩
  | _ => exact ⟨rfl, rfl⟩

theorem mem_registry_effect {a : Action π} {entry : Entry} (h : entry ∈ (hub.effect a).registry) :
    entry ∈ hub.registry ∨ ∃ id environment, a = .subscribe id environment ∧
      entry = { environment, id, subscriber := hub.allocated } := by
  cases a with
  | remove b subscriber => exact Or.inl (List.mem_of_mem_filter h)
  | unsubscribe subscriber => exact Or.inl (List.mem_of_mem_filter h)
  | subscribe id environment =>
    rcases List.mem_append.mp h with hOld | hNew
    · exact Or.inl (List.mem_of_mem_filter hOld)
    · exact Or.inr ⟨id, environment, rfl, List.mem_singleton.mp hNew⟩
  | _ => exact Or.inl h

theorem isFree_iff {shard : Nat} : hub.isFree shard = true ↔
    ∀ b < hub.started, (hub.broadcasts b).scanning = none ∨ (hub.broadcasts b).shard ≠ shard := by
  rw [isFree, decide_eq_true_eq]

/-- An entry goes only while the lock of its shard is free: removed by its id, or replaced. -/
theorem mem_registry_or_removed {a : Action π} (hEnabled : hub.enabled a = true) {entry : Entry}
    (hMem : entry ∈ hub.registry) : entry ∈ (hub.effect a).registry ∨ hub.isFree (hub.shardFor entry.id) = true := by
  cases a with
  | remove b subscriber =>
    simp only [enabled, Bool.and_eq_true] at hEnabled
    by_cases hId : entry.id = (hub.subscribers subscriber).id
    · exact Or.inr (hId ▸ hEnabled.2)
    · simp [effect, deleteEntry, setBroadcast, hMem, hId]
  | unsubscribe subscriber =>
    simp only [enabled, Bool.and_eq_true] at hEnabled
    by_cases hId : entry.id = (hub.subscribers subscriber).id
    · exact Or.inr (hId ▸ hEnabled.2)
    · simp [effect, deleteEntry, hMem, hId]
  | subscribe id environment =>
    by_cases hId : entry.id = id
    · exact Or.inr (hId ▸ hEnabled)
    · simp [effect, register, hMem, hId]
  | _ => exact Or.inl hMem

/-! ## Invariants of the registry -/

def Entries (hub : Hub π) : Prop := ∀ entry ∈ hub.registry, entry.subscriber < hub.allocated ∧
  entry.id = (hub.subscribers entry.subscriber).id ∧
  entry.environment = (hub.subscribers entry.subscriber).environment

theorem Entries.step (hEntries : hub.Entries) (a : Action π) : (hub.effect a).Entries := by
  intro entry hMem
  rcases mem_registry_effect hMem with hOld | ⟨id, environment, rfl, rfl⟩
  · obtain ⟨hAllocated, hId, hEnvironment⟩ := hEntries entry hOld
    obtain ⟨hSameId, hSameEnvironment⟩ := identity_eq a hAllocated
    exact ⟨Nat.lt_of_lt_of_le hAllocated (allocated_le a), hId.trans hSameId.symm,
      hEnvironment.trans hSameEnvironment.symm⟩
  · simp only [effect, register, Function.update_self]
    exact ⟨Nat.lt_succ_self _, rfl, rfl⟩

/-- What a broadcast still has to visit under its lock is registered in the locked shard. -/
def Scans (hub : Hub π) : Prop := ∀ b < hub.started, ∀ h ∈ (hub.broadcasts b).scanning.getD [],
  ∃ entry ∈ hub.registry, entry.subscriber = h ∧ entry.environment = (hub.broadcasts b).environment ∧
    hub.shardFor entry.id = (hub.broadcasts b).shard

theorem mem_registered {environment : String} {shard h : Nat} : h ∈ hub.registered environment shard ↔
    ∃ entry ∈ hub.registry, entry.subscriber = h ∧ entry.environment = environment ∧
      hub.shardFor entry.id = shard := by
  simp only [registered, List.mem_map, List.mem_filter, decide_eq_true_eq]
  constructor
  · rintro ⟨entry, ⟨hMem, hEnvironment, hShard⟩, hSubscriber⟩
    exact ⟨entry, hMem, hSubscriber, hEnvironment, hShard⟩
  · rintro ⟨entry, hMem, hSubscriber, hEnvironment, hShard⟩
    exact ⟨entry, ⟨hMem, hEnvironment, hShard⟩, hSubscriber⟩

theorem scanning_of_new {a : Action π} {b : Nat} (hStarted : b < (hub.effect a).started) (hNew : ¬ b < hub.started) :
    ∃ environment message, a = .broadcast environment message ∧ b = hub.started ∧
      (hub.effect a).broadcasts b = Broadcast.start environment message := by
  cases a with
  | broadcast environment message =>
    have hSame : b = hub.started := by
      change b < hub.started + 1 at hStarted
      omega
    subst hSame
    exact ⟨environment, message, rfl, rfl, Function.update_self ..⟩
  | _ => exact absurd hStarted hNew

theorem Scans.step (hScans : hub.Scans) {a : Action π} (hEnabled : hub.enabled a = true) :
    (hub.effect a).Scans := by
  intro b hStarted h hMem
  by_cases hOld : b < hub.started
  · have hKept : ∀ entry ∈ hub.registry, (hub.broadcasts b).scanning ≠ none →
        hub.shardFor entry.id = (hub.broadcasts b).shard → entry ∈ (hub.effect a).registry := by
      intro entry hEntry hLocked hShard
      rcases mem_registry_or_removed hEnabled hEntry with hKept | hFree
      · exact hKept
      · rcases isFree_iff.mp hFree b hOld with hNone | hOther
        · exact absurd hNone hLocked
        · exact absurd hShard.symm hOther
    have hFound : ∀ h', h' ∈ (hub.broadcasts b).scanning.getD [] → ∃ entry ∈ (hub.effect a).registry,
        entry.subscriber = h' ∧ entry.environment = (hub.broadcasts b).environment ∧
          hub.shardFor entry.id = (hub.broadcasts b).shard := by
      intro h' hMem'
      obtain ⟨entry, hEntry, hRest⟩ := hScans b hOld h' hMem'
      refine ⟨entry, hKept entry hEntry ?_ hRest.2.2, hRest⟩
      intro hNone
      rw [hNone] at hMem'
      cases hMem'
    simp only [shardFor_eq]
    have hStep := broadcast_step a hOld
    generalize hAfter : (hub.effect a).broadcasts b = after at hStep hMem ⊢
    cases hStep with
    | same => exact hFound h hMem
    | lock => exact mem_registered.mp hMem
    | send h' => exact hFound h (List.mem_of_mem_erase hMem)
    | unlock => cases hMem
    | remove h' => exact hFound h hMem
    | closeEvicted h' => exact hFound h hMem
  · obtain ⟨environment, message, rfl, _, hNew⟩ := scanning_of_new hStarted hOld
    rw [hNew] at hMem
    cases hMem

end Flagship.DataPlane.Hub
