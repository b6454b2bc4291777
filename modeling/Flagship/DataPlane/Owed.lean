import Flagship.DataPlane.Eviction

/-! # What the hub owes a subscriber

A message for a subscriber's environment is in its channel, or with a broadcast that has yet to
come to it, or the subscriber is on its way out. With pairwise distinct ids no step but the
subscriber's own receive takes such a message away.
-/

namespace Flagship.DataPlane.Hub

open Lib

variable {π : Type} {hub : Hub π}

/-- A broadcast is about to evict the subscriber, or somebody is closing it or has closed it. -/
def Leaving (hub : Hub π) (h : Nat) : Prop :=
  hub.EvictionPending h ∨ (∃ b < hub.started, (hub.broadcasts b).closing = some h) ∨ h ∈ hub.unsubscribing ∨
    (hub.subscribers h).done ≠ none

theorem leaving_of_remove {b h : Nat} (hStarted : b < hub.started) : (hub.effect (.remove b h)).Leaving h := by
  refine Or.inr (Or.inl ⟨b, hStarted, ?_⟩)
  simp [effect, setBroadcast]

theorem leaving_of_closeEvicted (b h : Nat) : (hub.effect (.closeEvicted b h)).Leaving h := by
  refine Or.inr (Or.inr (Or.inr ?_))
  simp [effect, close, setSubscriber, setBroadcast]

theorem leaving_of_closeUnsubscribed (h : Nat) : (hub.effect (.closeUnsubscribed h)).Leaving h := by
  refine Or.inr (Or.inr (Or.inr ?_))
  simp [effect, close, setSubscriber]

theorem leaving_of_unsubscribe (h : Nat) : (hub.effect (.unsubscribe h)).Leaving h :=
  Or.inr (Or.inr (Or.inl List.mem_cons_self))

theorem done_step (a : Action π) {h : Nat} (hAllocated : h < hub.allocated) (hDone : (hub.subscribers h).done ≠ none) :
    ((hub.effect a).subscribers h).done ≠ none := by
  have hStep := subscriber_step a hAllocated
  generalize (hub.effect a).subscribers h = after at hStep ⊢
  cases hStep with
  | send b =>
    rw [Subscriber.offered]
    split <;> exact hDone
  | closeEvicted b => exact Option.some_ne_none _
  | closeUnsubscribed => exact Option.some_ne_none _
  | _ => exact hDone

theorem unsubscribing_step (a : Action π) {h : Nat} (hMem : h ∈ hub.unsubscribing) :
    h ∈ (hub.effect a).unsubscribing ∨ a = .closeUnsubscribed h := by
  cases a with
  | unsubscribe h' => exact Or.inl (List.mem_cons_of_mem _ hMem)
  | closeUnsubscribed h' =>
    by_cases hSame : h = h'
    · exact Or.inr (hSame ▸ rfl)
    · exact Or.inl ((List.mem_erase_of_ne hSame).mpr hMem)
  | _ => exact Or.inl hMem

theorem closing_step {a : Action π} (hEnabled : hub.enabled a = true) {b h : Nat} (hStarted : b < hub.started)
    (hClosing : (hub.broadcasts b).closing = some h) :
    ((hub.effect a).broadcasts b).closing = some h ∨ a = .closeEvicted b h := by
  have hStep := broadcast_step a hStarted
  generalize (hub.effect a).broadcasts b = after at hStep ⊢
  cases hStep with
  | remove h' =>
    simp only [enabled, Bool.and_eq_true, decide_eq_true_eq] at hEnabled
    rw [hEnabled.1.1.2] at hClosing
    cases hClosing
  | closeEvicted h' =>
    simp only [enabled, Bool.and_eq_true, decide_eq_true_eq] at hEnabled
    rw [hEnabled.2] at hClosing
    obtain rfl := Option.some.inj hClosing
    exact Or.inr rfl
  | _ => exact Or.inl hClosing

theorem Leaving.step {h : Nat} (hLeaving : hub.Leaving h) (hAllocated : h < hub.allocated) {a : Action π}
    (hEnabled : hub.enabled a = true) : (hub.effect a).Leaving h := by
  rcases hLeaving with hPending | ⟨b, hStarted, hClosing⟩ | hUnsubscribing | hDone
  · rcases hPending.step hEnabled with hStill | ⟨b, rfl⟩
    · exact Or.inl hStill
    · simp only [enabled, Bool.and_eq_true, decide_eq_true_eq] at hEnabled
      exact leaving_of_remove hEnabled.1.1.1.1
  · rcases closing_step hEnabled hStarted hClosing with hStill | rfl
    · exact Or.inr (Or.inl ⟨b, Nat.lt_of_lt_of_le hStarted (started_le a), hStill⟩)
    · exact leaving_of_closeEvicted b h
  · rcases unsubscribing_step a hUnsubscribing with hStill | rfl
    · exact Or.inr (Or.inr (Or.inl hStill))
    · exact leaving_of_closeUnsubscribed h
  · exact Or.inr (Or.inr (Or.inr (done_step a hAllocated hDone)))

/-! ## Invariants under distinct ids -/

def Fresh (hub : Hub π) : Action π → Prop
  | .subscribe id _ => ∀ h < hub.allocated, (hub.subscribers h).id ≠ id
  | _ => True

structure Tidy (hub : Hub π) : Prop where
  sharded : 0 < hub.shardCount
  entries : hub.Entries
  scans : hub.Scans
  evicts : ∀ b < hub.started, ∀ h ∈ (hub.broadcasts b).evict, h < hub.allocated
  receipts : ∀ h < hub.allocated, (hub.subscribers h).received ≤ (hub.subscribers h).offers.length
  distinct : ∀ h < hub.allocated, ∀ h' < hub.allocated, (hub.subscribers h).id = (hub.subscribers h').id → h = h'
  listed : ∀ h < hub.allocated, (∃ entry ∈ hub.registry, entry.subscriber = h) ∨ hub.Leaving h

theorem tidy_new [Inhabited π] (options : Options) : (Hub.new options : Hub π).Tidy where
  sharded := by
    rw [Hub.new]
    simp only
    split <;> omega
  entries entry hMem := by cases hMem
  scans b hStarted := absurd hStarted (Nat.not_lt_zero b)
  evicts b hStarted := absurd hStarted (Nat.not_lt_zero b)
  receipts h hAllocated := absurd hAllocated (Nat.not_lt_zero h)
  distinct h hAllocated := absurd hAllocated (Nat.not_lt_zero h)
  listed h hAllocated := absurd hAllocated (Nat.not_lt_zero h)

theorem Tidy.evicts_step (hTidy : hub.Tidy) {a : Action π} (hEnabled : hub.enabled a = true) :
    ∀ b < (hub.effect a).started, ∀ h ∈ ((hub.effect a).broadcasts b).evict, h < (hub.effect a).allocated := by
  intro b hStarted h hMem
  by_cases hOld : b < hub.started
  · apply Nat.lt_of_lt_of_le _ (allocated_le a)
    have hBefore := hTidy.evicts b hOld
    have hStep := broadcast_step a hOld
    generalize (hub.effect a).broadcasts b = after at hStep hMem
    cases hStep with
    | send h' =>
      simp only at hMem
      split at hMem
      · rcases List.mem_append.mp hMem with hMem | hLast
        · exact hBefore h hMem
        · rw [List.mem_singleton.mp hLast]
          simp only [enabled, Bool.and_eq_true, decide_eq_true_eq] at hEnabled
          obtain ⟨entry, hEntry, hName, _⟩ := hTidy.scans b hOld h' hEnabled.2
          exact hName ▸ (hTidy.entries entry hEntry).1
      · exact hBefore h hMem
    | remove h' => exact hBefore h (List.mem_of_mem_tail hMem)
    | _ => exact hBefore h hMem
  · obtain ⟨environment, message, rfl, _, hNew⟩ := scanning_of_new hStarted hOld
    rw [hNew] at hMem
    cases hMem

theorem Tidy.receipts_step (hTidy : hub.Tidy) {a : Action π} (hEnabled : hub.enabled a = true) :
    ∀ h < (hub.effect a).allocated,
      ((hub.effect a).subscribers h).received ≤ ((hub.effect a).subscribers h).offers.length := by
  intro h hAllocated
  by_cases hOld : h < hub.allocated
  · have hBefore := hTidy.receipts h hOld
    have hStep := subscriber_step a hOld
    generalize (hub.effect a).subscribers h = after at hStep ⊢
    cases hStep with
    | send b =>
      rw [Subscriber.offered]
      split
      · exact hBefore
      · simp only [List.length_append, List.length_singleton]
        omega
    | receive =>
      simp only [enabled, Bool.and_eq_true, decide_eq_true_eq] at hEnabled
      exact hEnabled.2
    | _ => exact hBefore
  · obtain ⟨id, environment, rfl, _, hNew⟩ := skipped_of_new hAllocated hOld
    rw [hNew]
    exact Nat.le_refl 0

theorem Tidy.distinct_step (hTidy : hub.Tidy) {a : Action π} (hFresh : hub.Fresh a) :
    ∀ h < (hub.effect a).allocated, ∀ h' < (hub.effect a).allocated,
      ((hub.effect a).subscribers h).id = ((hub.effect a).subscribers h').id → h = h' := by
  intro h hAllocated h' hAllocated' hSame
  by_cases hOld : h < hub.allocated
  · by_cases hOld' : h' < hub.allocated
    · rw [(identity_eq a hOld).1, (identity_eq a hOld').1] at hSame
      exact hTidy.distinct h hOld h' hOld' hSame
    · obtain ⟨id, environment, rfl, _, hNew⟩ := skipped_of_new hAllocated' hOld'
      rw [(identity_eq _ hOld).1, hNew] at hSame
      exact absurd hSame (hFresh h hOld)
  · obtain ⟨id, environment, rfl, rfl, hNew⟩ := skipped_of_new hAllocated hOld
    by_cases hOld' : h' < hub.allocated
    · rw [(identity_eq _ hOld').1, hNew] at hSame
      exact absurd hSame.symm (hFresh h' hOld')
    · obtain ⟨_, _, _, rfl, _⟩ := skipped_of_new hAllocated' hOld'
      rfl

theorem Tidy.listed_step (hTidy : hub.Tidy) {a : Action π} (hEnabled : hub.enabled a = true) (hFresh : hub.Fresh a) :
    ∀ h < (hub.effect a).allocated,
      (∃ entry ∈ (hub.effect a).registry, entry.subscriber = h) ∨ (hub.effect a).Leaving h := by
  intro h hAllocated
  by_cases hOld : h < hub.allocated
  · rcases hTidy.listed h hOld with ⟨entry, hEntry, hName⟩ | hLeaving
    · obtain ⟨_, hId, _⟩ := hTidy.entries entry hEntry
      rw [hName] at hId
      cases a with
      | remove b h' =>
        simp only [enabled, Bool.and_eq_true, decide_eq_true_eq] at hEnabled
        -- an entry goes by its id, which only one subscriber has
        by_cases hSame : entry.id = (hub.subscribers h').id
        · have hListed : h' ∈ (hub.broadcasts b).evict := List.mem_of_mem_head? hEnabled.1.2
          obtain rfl := hTidy.distinct h hOld h' (hTidy.evicts b hEnabled.1.1.1.1 h' hListed) (hId.symm.trans hSame)
          exact Or.inr (leaving_of_remove hEnabled.1.1.1.1)
        · refine Or.inl ⟨entry, ?_, hName⟩
          simp [effect, deleteEntry, setBroadcast, hEntry, hSame]
      | unsubscribe h' =>
        simp only [enabled, Bool.and_eq_true, decide_eq_true_eq] at hEnabled
        by_cases hSame : entry.id = (hub.subscribers h').id
        · obtain rfl := hTidy.distinct h hOld h' hEnabled.1 (hId.symm.trans hSame)
          exact Or.inr (leaving_of_unsubscribe h)
        · refine Or.inl ⟨entry, ?_, hName⟩
          simp [effect, deleteEntry, hEntry, hSame]
      | subscribe id environment =>
        have hOther : entry.id ≠ id := hId ▸ hFresh h hOld
        refine Or.inl ⟨entry, ?_, hName⟩
        simp [effect, register, hEntry, hOther]
      | _ => exact Or.inl ⟨entry, hEntry, hName⟩
    · exact Or.inr (hLeaving.step hOld hEnabled)
  · obtain ⟨id, environment, rfl, rfl, _⟩ := skipped_of_new hAllocated hOld
    exact Or.inl ⟨_, List.mem_append_right _ (List.mem_singleton.mpr rfl), rfl⟩

theorem Tidy.step (hTidy : hub.Tidy) {a : Action π} (hEnabled : hub.enabled a = true) (hFresh : hub.Fresh a) :
    (hub.effect a).Tidy where
  sharded := by
    rw [shardCount_eq a]
    exact hTidy.sharded
  entries := hTidy.entries.step a
  scans := hTidy.scans.step hEnabled
  evicts := hTidy.evicts_step hEnabled
  receipts := hTidy.receipts_step hEnabled
  distinct := hTidy.distinct_step hFresh
  listed := hTidy.listed_step hEnabled hFresh

/-! ## Messages on their way -/

/-- The broadcast has yet to come to the subscriber's shard, or to it in its shard. -/
def Ahead (hub : Hub π) (b h : Nat) : Prop :=
  (hub.broadcasts b).shard < hub.shardOf h ∨
    ((hub.broadcasts b).shard = hub.shardOf h ∧ (hub.broadcasts b).scanning = none) ∨
      h ∈ (hub.broadcasts b).scanning.getD []

/-- A version of at least `version` will be put before the subscriber, or it is on its way out. -/
def Owed (hub : Hub π) (h : Nat) (version : Int) : Prop :=
  (∃ offer ∈ (hub.subscribers h).messages, version ≤ offer.message.version) ∨
    (∃ b < hub.started, (hub.broadcasts b).environment = (hub.subscribers h).environment ∧
      version ≤ (hub.broadcasts b).message.version ∧ hub.Ahead b h) ∨
    hub.Leaving h

theorem shardOf_eq (a : Action π) {h : Nat} (hAllocated : h < hub.allocated) :
    (hub.effect a).shardOf h = hub.shardOf h := by
  rw [shardOf, shardOf, (identity_eq a hAllocated).1, shardFor_eq]

theorem messages_offered {s : Subscriber π} (hReceived : s.received ≤ s.offers.length) (message : Message π) :
    (s.offered false message).messages = s.messages ++ [{ message, late := s.skipped }] := by
  simp only [Subscriber.offered, Subscriber.messages, Bool.false_eq_true, if_false]
  exact List.drop_append_of_le_length hReceived

theorem mem_messages_step (hTidy : hub.Tidy) (a : Action π) {h : Nat} (hAllocated : h < hub.allocated)
    (hOther : a ≠ .receive h) {offer : Offer π} (hMem : offer ∈ (hub.subscribers h).messages) :
    offer ∈ ((hub.effect a).subscribers h).messages := by
  have hStep := subscriber_step a hAllocated
  generalize (hub.effect a).subscribers h = after at hStep ⊢
  cases hStep with
  | send b =>
    cases hub.isFull h with
    | true => exact hMem
    | false =>
      rw [messages_offered (hTidy.receipts h hAllocated)]
      exact List.mem_append_left _ hMem
  | receive => exact absurd rfl hOther
  | _ => exact hMem

theorem owed_of_send (hTidy : hub.Tidy) {b h : Nat} (hAllocated : h < hub.allocated)
    (hEnabled : hub.enabled (.send b h) = true) {version : Int}
    (hVersion : version ≤ (hub.broadcasts b).message.version) :
    (hub.effect (.send b h)).Owed h version := by
  cases hFull : hub.isFull h with
  | true => exact Or.inr (Or.inr (Or.inl (evictionPending_of_full hEnabled hFull)))
  | false =>
    refine Or.inl ⟨{ message := (hub.broadcasts b).message, late := (hub.subscribers h).skipped }, ?_, hVersion⟩
    have hAfter : (hub.effect (.send b h)).subscribers h =
        (hub.subscribers h).offered false (hub.broadcasts b).message := by
      simp [effect, offer, setBroadcast, setSubscriber, hFull]
    rw [hAfter, messages_offered (hTidy.receipts h hAllocated)]
    exact List.mem_append_right _ (List.mem_singleton.mpr rfl)

theorem ahead_step (hTidy : hub.Tidy) {a : Action π} (hEnabled : hub.enabled a = true) {b h : Nat}
    (hAllocated : h < hub.allocated) (hStarted : b < hub.started)
    (hEnvironment : (hub.broadcasts b).environment = (hub.subscribers h).environment) (hAhead : hub.Ahead b h) :
    (((hub.effect a).broadcasts b).environment = (hub.broadcasts b).environment ∧
      ((hub.effect a).broadcasts b).message = (hub.broadcasts b).message ∧ (hub.effect a).Ahead b h) ∨
    a = .send b h ∨ hub.Leaving h := by
  rw [Ahead, shardOf_eq a hAllocated]
  have hStep := broadcast_step a hStarted
  generalize (hub.effect a).broadcasts b = after at hStep ⊢
  cases hStep with
  | same => exact Or.inl ⟨rfl, rfl, hAhead⟩
  | lock =>
    simp only [enabled, Bool.and_eq_true, decide_eq_true_eq] at hEnabled
    rcases hAhead with hBefore | ⟨hAt, _⟩ | hMem
    · exact Or.inl ⟨rfl, rfl, Or.inl hBefore⟩
    · -- what the lock finds in the shard includes the subscriber, as long as it is registered
      rcases hTidy.listed h hAllocated with ⟨entry, hEntry, rfl⟩ | hLeaving
      · obtain ⟨_, hId, hSame⟩ := hTidy.entries entry hEntry
        refine Or.inl ⟨rfl, rfl, Or.inr (Or.inr (mem_registered.mpr ⟨entry, hEntry, rfl, ?_, ?_⟩))⟩
        · exact hSame.trans hEnvironment.symm
        · rw [hId, hAt, shardOf]
      · exact Or.inr (Or.inr hLeaving)
    · rw [hEnabled.2] at hMem
      cases hMem
  | send h' =>
    simp only [enabled, Bool.and_eq_true, decide_eq_true_eq] at hEnabled
    rcases hAhead with hBefore | ⟨_, hNone⟩ | hMem
    · exact Or.inl ⟨rfl, rfl, Or.inl hBefore⟩
    · rw [hNone] at hEnabled
      cases hEnabled.2
    · by_cases hSame : h = h'
      · exact Or.inr (Or.inl (hSame ▸ rfl))
      · exact Or.inl ⟨rfl, rfl, Or.inr (Or.inr ((List.mem_erase_of_ne hSame).mpr hMem))⟩
  | unlock =>
    simp only [enabled, Bool.and_eq_true, decide_eq_true_eq] at hEnabled
    rcases hAhead with hBefore | ⟨_, hNone⟩ | hMem
    · rcases Nat.lt_or_eq_of_le (Nat.succ_le_of_lt hBefore) with hStill | hThere
      · exact Or.inl ⟨rfl, rfl, Or.inl hStill⟩
      · exact Or.inl ⟨rfl, rfl, Or.inr (Or.inl ⟨hThere, rfl⟩)⟩
    · rw [hNone] at hEnabled
      cases hEnabled.2
    · rw [hEnabled.2] at hMem
      cases hMem
  | remove h' => exact Or.inl ⟨rfl, rfl, hAhead⟩
  | closeEvicted h' => exact Or.inl ⟨rfl, rfl, hAhead⟩

theorem Owed.step {h : Nat} {version : Int} (hOwed : hub.Owed h version) (hTidy : hub.Tidy)
    (hAllocated : h < hub.allocated) {a : Action π} (hEnabled : hub.enabled a = true) (hOther : a ≠ .receive h) :
    (hub.effect a).Owed h version := by
  rcases hOwed with ⟨offer, hMem, hVersion⟩ | ⟨b, hStarted, hEnvironment, hVersion, hAhead⟩ | hLeaving
  · exact Or.inl ⟨offer, mem_messages_step hTidy a hAllocated hOther hMem, hVersion⟩
  · rcases ahead_step hTidy hEnabled hAllocated hStarted hEnvironment hAhead with
      ⟨hSame, hMessage, hStill⟩ | rfl | hLeaving
    · refine Or.inr (Or.inl ⟨b, Nat.lt_of_lt_of_le hStarted (started_le a), ?_, ?_, hStill⟩)
      · rw [hSame, hEnvironment, (identity_eq a hAllocated).2]
      · rw [hMessage]
        exact hVersion
    · exact owed_of_send hTidy hAllocated hEnabled hVersion
    · exact Or.inr (Or.inr (hLeaving.step hAllocated hEnabled))
  · exact Or.inr (Or.inr (hLeaving.step hAllocated hEnabled))

theorem Owed.receive {h : Nat} {version : Int} (hOwed : hub.Owed h version) (hTidy : hub.Tidy)
    (hAllocated : h < hub.allocated) (hEnabled : hub.enabled (.receive h) = true) :
    (∃ offer, (hub.subscribers h).messages.head? = some offer ∧ version ≤ offer.message.version) ∨
      (hub.effect (.receive h)).Owed h version := by
  rcases hOwed with ⟨offer, hMem, hVersion⟩ | ⟨b, hStarted, hEnvironment, hVersion, hAhead⟩ | hLeaving
  · have hAfter : ((hub.effect (.receive h)).subscribers h).messages = (hub.subscribers h).messages.tail := by
      simp [effect, setSubscriber, Subscriber.messages]
    cases hMessages : (hub.subscribers h).messages with
    | nil =>
      rw [hMessages] at hMem
      cases hMem
    | cons first rest =>
      rw [hMessages] at hMem hAfter
      rcases List.mem_cons.mp hMem with rfl | hRest
      · exact Or.inl ⟨offer, rfl, hVersion⟩
      · exact Or.inr (Or.inl ⟨offer, hAfter ▸ hRest, hVersion⟩)
  · rcases ahead_step hTidy hEnabled hAllocated hStarted hEnvironment hAhead with
      ⟨hSame, hMessage, hStill⟩ | hSend | hLeaving
    · refine Or.inr (Or.inr (Or.inl ⟨b, hStarted, ?_, ?_, hStill⟩))
      · rw [hSame, hEnvironment, (identity_eq _ hAllocated).2]
      · rw [hMessage]
        exact hVersion
    · cases hSend
    · exact Or.inr (Or.inr (Or.inr (hLeaving.step hAllocated hEnabled)))
  · exact Or.inr (Or.inr (Or.inr (hLeaving.step hAllocated hEnabled)))

theorem owed_of_broadcast {h : Nat} (hAllocated : h < hub.allocated) (message : Message π) :
    (hub.effect (.broadcast (hub.subscribers h).environment message)).Owed h message.version := by
  refine Or.inr (Or.inl ⟨hub.started, Nat.lt_succ_self _, ?_, ?_, ?_⟩)
  · rw [(identity_eq _ hAllocated).2]
    simp [effect, setBroadcast, Broadcast.start]
  · simp [effect, setBroadcast, Broadcast.start]
  · rw [Ahead, shardOf_eq _ hAllocated]
    rcases Nat.eq_zero_or_pos (hub.shardOf h) with hZero | hPos
    · refine Or.inr (Or.inl ⟨?_, ?_⟩) <;> simp [effect, setBroadcast, Broadcast.start, hZero]
    · refine Or.inl ?_
      simpa [effect, setBroadcast, Broadcast.start] using hPos

/-! ## When the hub is idle -/

def Idle (hub : Hub π) : Prop := ∀ b < hub.started, (hub.broadcasts b).shard = hub.shardCount ∧
  (hub.broadcasts b).scanning = none ∧ (hub.broadcasts b).evict = [] ∧ (hub.broadcasts b).closing = none

instance (hub : Hub π) : Decidable hub.Idle := inferInstanceAs (Decidable (∀ b < hub.started, _))

theorem not_owed_of_idle (hTidy : hub.Tidy) (hIdle : hub.Idle) {h : Nat} {version : Int}
    (hDrained : (hub.subscribers h).messages = []) (hOpen : (hub.subscribers h).done = none)
    (hStays : h ∉ hub.unsubscribing) : ¬ hub.Owed h version := by
  rintro (⟨offer, hMem, _⟩ | ⟨b, hStarted, _, _, hAhead⟩ | ⟨b, hStarted, hMem⟩ |
    ⟨b, hStarted, hClosing⟩ | hMem | hDone)
  · rw [hDrained] at hMem
    cases hMem
  · obtain ⟨hShard, hScanning, _, _⟩ := hIdle b hStarted
    have hBound : hub.shardOf h < hub.shardCount := Nat.mod_lt _ hTidy.sharded
    rcases hAhead with hBefore | ⟨hAt, _⟩ | hMem
    · omega
    · omega
    · rw [hScanning] at hMem
      cases hMem
  · rw [(hIdle b hStarted).2.2.1] at hMem
    cases hMem
  · rw [(hIdle b hStarted).2.2.2] at hClosing
    cases hClosing
  · exact hStays hMem
  · exact hDone hOpen

end Flagship.DataPlane.Hub
