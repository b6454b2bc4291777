import Flagship.DataPlane.HubSteps
import Flagship.Lib.UniqueColumns

/-! # The registry between calls

The hub with its counters, one call after another. An entry is found by environment and id and
a subscriber is a handle of its own, and `remove` deletes the entry it finds without a look at
whose it is: the two agree for as long as no two handles that are in use share both.
-/

namespace Flagship.DataPlane

open Lib

variable {π : Type}

structure Stats where
  connected : Int
  totalDropped : Int
  slowConsumers : Int
  messagesSent : Int
  shards : Nat
  bufferSize : Nat

structure CountedHub (π : Type) where
  hub : Hub π
  connected : Int
  totalDropped : Int
  slowConsumers : Int
  sent : Int

/-- What the loop of a broadcast has come to. -/
structure Scan (π : Type) where
  hub : Hub π
  delivered : Nat
  evict : List Nat

def Scan.offer (message : Message π) (scan : Scan π) (subscriber : Nat) : Scan π :=
  let full := scan.hub.isFull subscriber
  let hub := scan.hub.setSubscriber subscriber ((scan.hub.subscribers subscriber).offered full message)
  if full then { scan with hub, evict := scan.evict ++ [subscriber] }
  else { scan with hub, delivered := scan.delivered + 1 }

/-- The entry that a removal of the subscriber finds. -/
def Subscriber.finds (s : Subscriber π) (entry : Entry) : Bool :=
  entry.environment = s.environment && entry.id = s.id

namespace CountedHub

def new [Inhabited π] (options : Options) : CountedHub π where
  hub := .new options
  connected := 0
  totalDropped := 0
  slowConsumers := 0
  sent := 0

variable (counted : CountedHub π)

/-- `byID[subscriber.id]` is there, whoever it belongs to. -/
def present (subscriber : Nat) : Bool := counted.hub.registry.any (counted.hub.subscribers subscriber).finds

/-- Where nothing is present, nothing is deleted either. -/
def remove (reason : DropReason) (subscriber : Nat) : CountedHub π :=
  let removed := { counted with hub := (counted.hub.deleteEntry subscriber).close subscriber reason }
  if counted.present subscriber then
    { removed with
      connected := counted.connected - 1
      totalDropped := counted.totalDropped + 1
      slowConsumers := if reason = .slowConsumer then counted.slowConsumers + 1 else counted.slowConsumers }
  else removed

def subscribe (id environment : String) : CountedHub π :=
  { counted with hub := counted.hub.register id environment, connected := counted.connected + 1 }

def registeredIn (environment : String) : List Nat :=
  (counted.hub.registry.filter fun entry => entry.environment = environment).map Entry.subscriber

/-- `order` is the order in which the maps of the shards are ranged over. -/
def broadcast (message : Message π) (order : List Nat) : CountedHub π :=
  let scan := order.foldl (Scan.offer message) { hub := counted.hub, delivered := 0, evict := [] }
  let evicted := scan.evict.foldl (fun counted subscriber => counted.remove .slowConsumer subscriber)
    { counted with hub := scan.hub }
  { evicted with sent := evicted.sent + scan.delivered }

def closeAll : CountedHub π :=
  let closed := counted.hub.registry.foldl (fun hub entry => hub.close entry.subscriber .closed) counted.hub
  { counted with hub := { closed with registry := [] }, connected := counted.connected - counted.hub.registry.length }

def stats : Stats where
  connected := counted.connected
  totalDropped := counted.totalDropped
  slowConsumers := counted.slowConsumers
  messagesSent := counted.sent
  shards := counted.hub.shardCount
  bufferSize := counted.hub.bufferSize

inductive Action (π : Type) where
  | subscribe (id environment : String)
  | unsubscribe (subscriber : Nat)
  | broadcast (environment : String) (message : Message π) (order : List Nat)
  | closeAll
  | receive (subscriber : Nat)

def enabled : Action π → Bool
  | .subscribe _ _ | .closeAll => true
  | .unsubscribe subscriber => decide (subscriber < counted.hub.allocated)
  | .broadcast environment _ order => decide (order.Perm (counted.registeredIn environment))
  | .receive subscriber => decide (subscriber < counted.hub.allocated) &&
      decide ((counted.hub.subscribers subscriber).received < (counted.hub.subscribers subscriber).offers.length)

def effect : Action π → CountedHub π
  | .subscribe id environment => counted.subscribe id environment
  | .unsubscribe subscriber => counted.remove .closed subscriber
  | .broadcast _ message order => counted.broadcast message order
  | .closeAll => counted.closeAll
  | .receive subscriber =>
    let s := counted.hub.subscribers subscriber
    { counted with hub := counted.hub.setSubscriber subscriber { s with received := s.received + 1 } }

def machine : Machine (CountedHub π) (Action π) where
  enabled := enabled
  effect := effect

/-! ## What is asked of the registry -/

def InRegistry (subscriber : Nat) : Prop := ∃ entry ∈ counted.hub.registry, entry.subscriber = subscriber

/-- The subscribers that `Subscribe` has returned and whose `Done` is not closed. -/
def openHandles : List Nat :=
  (List.range counted.hub.allocated).filter fun subscriber => (counted.hub.subscribers subscriber).done = none

/-- The subscribers a call is to remove. -/
def Removes (subscriber : Nat) : Action π → Prop
  | .unsubscribe removed => subscriber = removed
  | .broadcast environment _ _ =>
    (counted.hub.subscribers subscriber).environment = environment ∧ counted.hub.isFull subscriber = true
  | .closeAll => True
  | .subscribe _ _ | .receive _ => False

/-- A full subscriber is evicted, and every other one has the message last in its channel. -/
def Reached (subscriber : Nat) (message : Message π) (after : CountedHub π) : Prop :=
  if counted.hub.isFull subscriber then (after.hub.subscribers subscriber).done = some .slowConsumer
  else (after.hub.subscribers subscriber).done = none ∧ ∃ late,
    (after.hub.subscribers subscriber).offers = (counted.hub.subscribers subscriber).offers ++ [Offer.mk message late]

/-- `Subscribe` is given an environment and an id that no entry has, and `Unsubscribe` a
subscriber whose environment and id no other one has in the registry. -/
def ownKeys (counted : CountedHub π) : Action π → Prop
  | .subscribe id environment => ∀ entry ∈ counted.hub.registry, ¬ (entry.environment = environment ∧ entry.id = id)
  | .unsubscribe subscriber => ∀ entry ∈ counted.hub.registry,
      entry.environment = (counted.hub.subscribers subscriber).environment →
      entry.id = (counted.hub.subscribers subscriber).id → entry.subscriber = subscriber
  | .broadcast _ _ _ | .closeAll | .receive _ => True

/-- The entries are those of the open subscribers, and they are counted. -/
structure Consistent (counted : CountedHub π) : Prop where
  entries : counted.hub.Entries
  keys : (counted.hub.registry.map fun entry => (entry.environment, entry.id)).Nodup
  open_iff : ∀ subscriber < counted.hub.allocated,
    (counted.hub.subscribers subscriber).done = none ↔ counted.InRegistry subscriber
  counted : counted.connected = counted.hub.registry.length

variable {counted : CountedHub π} {reason : DropReason} {removed : Nat}

/-! ## Removals -/

theorem finds_iff {s : Subscriber π} {entry : Entry} :
    s.finds entry = true ↔ entry.environment = s.environment ∧ entry.id = s.id := by
  simp [Subscriber.finds]

theorem remove_hub (counted : CountedHub π) (reason : DropReason) (removed : Nat) :
    (counted.remove reason removed).hub = (counted.hub.deleteEntry removed).close removed reason := by
  rw [remove]
  split <;> rfl

theorem connected_remove (counted : CountedHub π) (reason : DropReason) (removed : Nat) :
    (counted.remove reason removed).connected =
      if counted.present removed then counted.connected - 1 else counted.connected := by
  rw [remove]
  split <;> rfl

theorem subscribers_remove_of_ne {subscriber : Nat} (hOther : subscriber ≠ removed) :
    (counted.remove reason removed).hub.subscribers subscriber = counted.hub.subscribers subscriber := by
  rw [remove_hub]
  exact Function.update_of_ne hOther _ _

theorem subscribers_remove_self : (counted.remove reason removed).hub.subscribers removed =
    { counted.hub.subscribers removed with done := some ((counted.hub.subscribers removed).done.getD reason) } := by
  rw [remove_hub]
  exact Function.update_self _ _ _

theorem identity_remove (counted : CountedHub π) (reason : DropReason) (removed subscriber : Nat) :
    ((counted.remove reason removed).hub.subscribers subscriber).id = (counted.hub.subscribers subscriber).id ∧
      ((counted.remove reason removed).hub.subscribers subscriber).environment =
        (counted.hub.subscribers subscriber).environment := by
  by_cases hSame : subscriber = removed
  · subst hSame
    rw [subscribers_remove_self]
    exact ⟨rfl, rfl⟩
  · rw [subscribers_remove_of_ne hSame]
    exact ⟨rfl, rfl⟩

theorem registry_remove (counted : CountedHub π) (reason : DropReason) (removed : Nat) :
    (counted.remove reason removed).hub.registry =
      counted.hub.registry.filter fun entry => !(counted.hub.subscribers removed).finds entry := by
  rw [remove_hub]
  apply List.filter_congr
  intro entry _
  simp [Subscriber.finds]

theorem mem_registry_remove {entry : Entry} : entry ∈ (counted.remove reason removed).hub.registry ↔
    entry ∈ counted.hub.registry ∧ ¬ (entry.environment = (counted.hub.subscribers removed).environment ∧
      entry.id = (counted.hub.subscribers removed).id) := by
  rw [registry_remove, List.mem_filter, Bool.not_eq_true', ← Bool.not_eq_true, finds_iff]

/-- The key of the removed subscriber is that of one entry at most. -/
theorem Consistent.length_remove (h : Consistent counted) (reason : DropReason) (removed : Nat) :
    (counted.remove reason removed).hub.registry.length + (if counted.present removed then 1 else 0) =
      counted.hub.registry.length := by
  have hOne : (counted.hub.registry.filter (counted.hub.subscribers removed).finds).length ≤ 1 :=
    length_filter_le_one h.keys fun entry hFound => finds_iff.mp hFound
  have hAll := List.length_eq_length_filter_add (l := counted.hub.registry) (counted.hub.subscribers removed).finds
  rw [registry_remove]
  split
  · rename_i hPresent
    obtain ⟨entry, hMem, hFound⟩ := List.any_eq_true.mp hPresent
    have hSome := List.length_pos_of_mem (List.mem_filter.mpr ⟨hMem, hFound⟩)
    omega
  · rename_i hAbsent
    have hNone : counted.hub.registry.filter (counted.hub.subscribers removed).finds = [] := by
      rw [List.filter_eq_nil_iff]
      intro entry hMem hFound
      exact hAbsent (List.any_eq_true.mpr ⟨entry, hMem, hFound⟩)
    rw [hNone, List.length_nil] at hAll
    omega

/-- A removal takes out the subscriber itself as long as the key is its own. -/
theorem Consistent.inRegistry_remove (h : Consistent counted) (hOwn : ownKeys counted (.unsubscribe removed))
    {subscriber : Nat} : (counted.remove reason removed).InRegistry subscriber ↔
      counted.InRegistry subscriber ∧ subscriber ≠ removed := by
  constructor
  · rintro ⟨entry, hMem, rfl⟩
    obtain ⟨hOld, hKey⟩ := mem_registry_remove.mp hMem
    refine ⟨⟨entry, hOld, rfl⟩, ?_⟩
    rintro rfl
    obtain ⟨_, hId, hEnvironment⟩ := h.entries entry hOld
    exact hKey ⟨hEnvironment, hId⟩
  · rintro ⟨⟨entry, hMem, rfl⟩, hOther⟩
    refine ⟨entry, mem_registry_remove.mpr ⟨hMem, ?_⟩, rfl⟩
    rintro ⟨hEnvironment, hId⟩
    exact hOther (hOwn entry hMem hEnvironment hId)

theorem Consistent.remove (h : Consistent counted) (hOwn : ownKeys counted (.unsubscribe removed)) :
    Consistent (counted.remove reason removed) where
  entries := by
    intro entry hMem
    obtain ⟨hAllocated, hId, hEnvironment⟩ := h.entries entry (mem_registry_remove.mp hMem).1
    obtain ⟨hSameId, hSameEnvironment⟩ := identity_remove counted reason removed entry.subscriber
    rw [hSameId, hSameEnvironment]
    refine ⟨?_, hId, hEnvironment⟩
    rw [remove_hub]
    exact hAllocated
  keys := by
    rw [registry_remove]
    exact h.keys.sublist (List.filter_sublist.map _)
  open_iff := by
    intro subscriber hAllocated
    rw [h.inRegistry_remove hOwn]
    by_cases hSame : subscriber = removed
    · subst hSame
      rw [subscribers_remove_self]
      simp
    · rw [subscribers_remove_of_ne hSame, and_iff_left hSame]
      apply h.open_iff
      rw [remove_hub] at hAllocated
      exact hAllocated
  counted := by
    have hLength := h.length_remove reason removed
    have hCounted := h.counted
    rw [connected_remove]
    split
    · rename_i hPresent
      rw [if_pos hPresent] at hLength
      omega
    · rename_i hAbsent
      rw [if_neg hAbsent] at hLength
      omega

/-! ## The other calls -/

/-- What the registry is about: who a subscriber is, and whether it is open. -/
structure SameHandles (counted counted' : CountedHub π) : Prop where
  registry : counted'.hub.registry = counted.hub.registry
  allocated : counted'.hub.allocated = counted.hub.allocated
  connected : counted'.connected = counted.connected
  id : ∀ h, (counted'.hub.subscribers h).id = (counted.hub.subscribers h).id
  environment : ∀ h, (counted'.hub.subscribers h).environment = (counted.hub.subscribers h).environment
  done : ∀ h, (counted'.hub.subscribers h).done = (counted.hub.subscribers h).done

theorem SameHandles.inRegistry {counted' : CountedHub π} (hSame : SameHandles counted counted') (subscriber : Nat) :
    counted'.InRegistry subscriber ↔ counted.InRegistry subscriber := by
  rw [InRegistry, InRegistry, hSame.registry]

theorem Consistent.same {counted' : CountedHub π} (h : Consistent counted) (hSame : SameHandles counted counted') :
    Consistent counted' where
  entries := by
    intro entry hMem
    rw [hSame.registry] at hMem
    rw [hSame.allocated, hSame.id, hSame.environment]
    exact h.entries entry hMem
  keys := by
    rw [hSame.registry]
    exact h.keys
  open_iff := by
    intro subscriber hAllocated
    rw [hSame.allocated] at hAllocated
    rw [hSame.done, hSame.inRegistry]
    exact h.open_iff subscriber hAllocated
  counted := by
    rw [hSame.connected, hSame.registry]
    exact h.counted

theorem registry_subscribe {id environment : String} (hOwn : ownKeys counted (.subscribe id environment)) :
    (counted.subscribe id environment).hub.registry =
      counted.hub.registry ++ [{ environment, id, subscriber := counted.hub.allocated }] := by
  have hKept : counted.hub.registry.filter (fun entry => ¬ (entry.environment = environment ∧ entry.id = id)) =
      counted.hub.registry := by
    rw [List.filter_eq_self]
    intro entry hMem
    exact decide_eq_true (hOwn entry hMem)
  exact congrArg (· ++ [_]) hKept

theorem subscribers_subscribe_of_lt {id environment : String} {subscriber : Nat}
    (hOld : subscriber < counted.hub.allocated) :
    (counted.subscribe id environment).hub.subscribers subscriber = counted.hub.subscribers subscriber :=
  Function.update_of_ne (Nat.ne_of_lt hOld) _ _

theorem subscribers_subscribe_self {id environment : String} :
    (counted.subscribe id environment).hub.subscribers counted.hub.allocated = Subscriber.open id environment :=
  Function.update_self _ _ _

theorem inRegistry_subscribe {id environment : String}
    (hOwn : ownKeys counted (.subscribe id environment)) {subscriber : Nat} :
    (counted.subscribe id environment).InRegistry subscriber ↔
      counted.InRegistry subscriber ∨ subscriber = counted.hub.allocated := by
  rw [InRegistry, registry_subscribe hOwn]
  simp [InRegistry, or_and_right, exists_or, eq_comm]

theorem Consistent.subscribe (h : Consistent counted) {id environment : String}
    (hOwn : ownKeys counted (.subscribe id environment)) : Consistent (counted.subscribe id environment) where
  entries := by
    intro entry hMem
    rw [registry_subscribe hOwn] at hMem
    obtain hOld | hNew := List.mem_append.mp hMem
    · obtain ⟨hAllocated, hId, hEnvironment⟩ := h.entries entry hOld
      rw [subscribers_subscribe_of_lt hAllocated]
      exact ⟨Nat.lt_succ_of_lt hAllocated, hId, hEnvironment⟩
    · obtain rfl := List.mem_singleton.mp hNew
      rw [subscribers_subscribe_self]
      exact ⟨Nat.lt_succ_self _, rfl, rfl⟩
  keys := by
    rw [registry_subscribe hOwn, List.map_append, List.map_singleton]
    apply h.keys.append (List.nodup_singleton _)
    rw [List.disjoint_singleton]
    intro hKey
    obtain ⟨entry, hMem, hSame⟩ := List.mem_map.mp hKey
    exact hOwn entry hMem (Prod.mk.inj hSame)
  open_iff := by
    intro subscriber hAllocated
    rw [inRegistry_subscribe hOwn]
    obtain hOld | rfl := Nat.lt_succ_iff_lt_or_eq.mp hAllocated
    · rw [subscribers_subscribe_of_lt hOld, or_iff_left (Nat.ne_of_lt hOld)]
      exact h.open_iff subscriber hOld
    · rw [subscribers_subscribe_self]
      exact ⟨fun _ => Or.inr rfl, fun _ => rfl⟩
  counted := by
    rw [registry_subscribe hOwn, List.length_append, List.length_singleton]
    have hCounted := h.counted
    simp only [CountedHub.subscribe]
    omega

/-- `CloseAll` closes who is registered, and empties the registry. -/
theorem closed_foldl (entries : List Entry) (hub : Hub π) (subscriber : Nat) :
    ((entries.foldl (fun hub entry => hub.close entry.subscriber .closed) hub).subscribers subscriber).done = none ↔
      (hub.subscribers subscriber).done = none ∧ ∀ entry ∈ entries, entry.subscriber ≠ subscriber := by
  induction entries generalizing hub with
  | nil => simp
  | cons entry rest ih =>
    rw [List.foldl_cons, ih, List.forall_mem_cons, ← and_assoc]
    apply and_congr_left'
    by_cases hSame : entry.subscriber = subscriber
    · subst hSame
      simp [Hub.close, Hub.setSubscriber]
    · have hOther : (hub.close entry.subscriber .closed).subscribers subscriber = hub.subscribers subscriber :=
        Function.update_of_ne (Ne.symm hSame) _ _
      rw [hOther, and_iff_left hSame]

theorem allocated_foldl (entries : List Entry) (hub : Hub π) :
    (entries.foldl (fun hub entry => hub.close entry.subscriber .closed) hub).allocated = hub.allocated := by
  induction entries generalizing hub with
  | nil => rfl
  | cons entry rest ih => exact ih _

theorem Consistent.closeAll (h : Consistent counted) : Consistent counted.closeAll where
  entries := fun _ hMem => absurd hMem List.not_mem_nil
  keys := List.nodup_nil
  open_iff := by
    intro subscriber hAllocated
    have hNone : ¬ counted.closeAll.InRegistry subscriber := by
      rintro ⟨_, hMem, _⟩
      exact absurd hMem List.not_mem_nil
    rw [iff_false_right hNone]
    change ¬ (((counted.hub.registry.foldl _ counted.hub).subscribers subscriber).done = none)
    rw [closed_foldl]
    rintro ⟨hOpen, hUnregistered⟩
    have hOld : subscriber < counted.hub.allocated := by
      have hSame := allocated_foldl counted.hub.registry counted.hub
      exact hSame ▸ hAllocated
    obtain ⟨entry, hMem, hSubscriber⟩ := (h.open_iff subscriber hOld).mp hOpen
    exact hUnregistered entry hMem hSubscriber
  counted := by
    have hCounted := h.counted
    simp only [CountedHub.closeAll, List.length_nil]
    omega

/-! ## Broadcasts -/

/-- The loop offers the message to each in turn, and collects those that are full. -/
theorem scan_foldl (message : Message π) (order : List Nat) (scan : Scan π) (hDistinct : order.Nodup) :
    let after := order.foldl (Scan.offer message) scan
    after.hub.registry = scan.hub.registry ∧ after.hub.allocated = scan.hub.allocated ∧
      after.evict = scan.evict ++ order.filter scan.hub.isFull ∧
      ∀ h, after.hub.subscribers h = if h ∈ order then
        (scan.hub.subscribers h).offered (scan.hub.isFull h) message else scan.hub.subscribers h := by
  induction order generalizing scan with
  | nil => simp
  | cons first rest ih =>
    obtain ⟨hFirst, hRest⟩ := List.nodup_cons.mp hDistinct
    have hHub : (scan.offer message first).hub =
        scan.hub.setSubscriber first ((scan.hub.subscribers first).offered (scan.hub.isFull first) message) := by
      rw [Scan.offer]
      split <;> rfl
    have hOthers : ∀ h, h ≠ first → (scan.offer message first).hub.subscribers h = scan.hub.subscribers h := by
      intro h hOther
      rw [hHub]
      exact Function.update_of_ne hOther _ _
    have hFull : ∀ h ∈ rest, (scan.offer message first).hub.isFull h = scan.hub.isFull h := by
      intro h hMem
      have hOther : h ≠ first := fun hSame => hFirst (hSame ▸ hMem)
      rw [Hub.isFull, Hub.isFull, hOthers h hOther, hHub]
      rfl
    obtain ⟨hRegistry, hAllocated, hEvict, hSubscribers⟩ := ih (scan.offer message first) hRest
    rw [List.foldl_cons]
    refine ⟨?_, ?_, ?_, ?_⟩
    · rw [hRegistry, hHub]
      rfl
    · rw [hAllocated, hHub]
      rfl
    · rw [hEvict, List.filter_congr hFull]
      cases hFirstFull : scan.hub.isFull first with
      | true => simp [Scan.offer, hFirstFull]
      | false => simp [Scan.offer, hFirstFull]
    · intro h
      rw [hSubscribers]
      by_cases hSame : h = first
      · subst hSame
        rw [if_neg hFirst, if_pos List.mem_cons_self, hHub]
        exact Function.update_self _ _ _
      · by_cases hMem : h ∈ rest
        · rw [if_pos hMem, if_pos (List.mem_cons_of_mem _ hMem), hOthers h hSame, hFull h hMem]
        · have hNeither : ¬ h ∈ first :: rest := by
            rw [List.mem_cons]
            exact not_or.mpr ⟨hSame, hMem⟩
          rw [if_neg hMem, if_neg hNeither, hOthers h hSame]

/-- Where the registry is consistent, an entry that is there is found by its own key alone. -/
theorem Consistent.own_key (h : Consistent counted) {subscriber : Nat} (hIn : counted.InRegistry subscriber) :
    ownKeys counted (.unsubscribe subscriber) := by
  obtain ⟨entry, hMem, rfl⟩ := hIn
  obtain ⟨_, hId, hEnvironment⟩ := h.entries entry hMem
  intro other hOther hSameEnvironment hSameId
  have hSame : other = entry := by
    apply List.inj_on_of_nodup_map h.keys hOther hMem
    exact Prod.ext (hSameEnvironment.trans hEnvironment.symm) (hSameId.trans hId.symm)
  rw [hSame]

/-- The evictions of a broadcast, one after another. -/
theorem Consistent.evict (h : Consistent counted) (evict : List Nat) (hDistinct : evict.Nodup)
    (hIn : ∀ subscriber ∈ evict, counted.InRegistry subscriber) :
    let after := evict.foldl (fun counted subscriber => counted.remove .slowConsumer subscriber) counted
    Consistent after ∧
      (∀ subscriber, after.InRegistry subscriber ↔ counted.InRegistry subscriber ∧ subscriber ∉ evict) ∧
      ∀ subscriber, after.hub.subscribers subscriber = if subscriber ∈ evict then
        { counted.hub.subscribers subscriber with
          done := some ((counted.hub.subscribers subscriber).done.getD .slowConsumer) }
        else counted.hub.subscribers subscriber := by
  induction evict generalizing counted with
  | nil => simpa using h
  | cons first rest ih =>
    obtain ⟨hFirst, hRest⟩ := List.nodup_cons.mp hDistinct
    have hOwn := h.own_key (hIn first List.mem_cons_self)
    have hStill : ∀ subscriber ∈ rest, (counted.remove .slowConsumer first).InRegistry subscriber := by
      intro subscriber hMem
      rw [h.inRegistry_remove hOwn]
      exact ⟨hIn subscriber (List.mem_cons_of_mem _ hMem), fun hSame => hFirst (hSame ▸ hMem)⟩
    obtain ⟨hConsistent, hRegistered, hSubscribers⟩ := ih (h.remove hOwn) hRest hStill
    rw [List.foldl_cons]
    refine ⟨hConsistent, ?_, ?_⟩
    · intro subscriber
      rw [hRegistered, h.inRegistry_remove hOwn, List.mem_cons, not_or, and_assoc]
    · intro subscriber
      rw [hSubscribers]
      by_cases hSame : subscriber = first
      · subst hSame
        rw [if_neg hFirst, if_pos List.mem_cons_self, subscribers_remove_self]
      · rw [subscribers_remove_of_ne hSame]
        simp only [List.mem_cons, hSame, false_or]

theorem Consistent.nodup_subscribers (h : Consistent counted) : (counted.hub.registry.map Entry.subscriber).Nodup := by
  have hKeys : counted.hub.registry.map (fun entry => (entry.environment, entry.id)) =
      (counted.hub.registry.map Entry.subscriber).map fun subscriber =>
        ((counted.hub.subscribers subscriber).environment, (counted.hub.subscribers subscriber).id) := by
    rw [List.map_map]
    apply List.map_congr_left
    intro entry hMem
    obtain ⟨_, hId, hEnvironment⟩ := h.entries entry hMem
    exact Prod.ext hEnvironment hId
  have hNodup := h.keys
  rw [hKeys] at hNodup
  exact hNodup.of_map

theorem Consistent.mem_registeredIn (h : Consistent counted) {environment : String} {subscriber : Nat} :
    subscriber ∈ counted.registeredIn environment ↔
      counted.InRegistry subscriber ∧ (counted.hub.subscribers subscriber).environment = environment := by
  simp only [registeredIn, List.mem_map, List.mem_filter, decide_eq_true_eq]
  constructor
  · rintro ⟨entry, ⟨hMem, hEnvironment⟩, rfl⟩
    exact ⟨⟨entry, hMem, rfl⟩, (h.entries entry hMem).2.2.symm.trans hEnvironment⟩
  · rintro ⟨⟨entry, hMem, rfl⟩, hEnvironment⟩
    exact ⟨entry, ⟨hMem, (h.entries entry hMem).2.2.trans hEnvironment⟩, rfl⟩

theorem offered_same (s : Subscriber π) (full : Bool) (message : Message π) :
    (s.offered full message).id = s.id ∧ (s.offered full message).environment = s.environment ∧
      (s.offered full message).done = s.done := by
  rw [Subscriber.offered]
  split
  · exact ⟨rfl, rfl, rfl⟩
  · exact ⟨rfl, rfl, rfl⟩

/-- What the loop of a broadcast comes to. -/
def scanned (counted : CountedHub π) (message : Message π) (order : List Nat) : Scan π :=
  order.foldl (Scan.offer message) { hub := counted.hub, delivered := 0, evict := [] }

theorem scanned_same (message : Message π) {order : List Nat} (hDistinct : order.Nodup) :
    SameHandles counted { counted with hub := (counted.scanned message order).hub } := by
  obtain ⟨hRegistry, hAllocated, -, hSubscribers⟩ :=
    scan_foldl message order { hub := counted.hub, delivered := 0, evict := [] } hDistinct
  refine ⟨hRegistry, hAllocated, rfl, ?_, ?_, ?_⟩
  all_goals
    intro subscriber
    simp only [scanned, hSubscribers]
    split
  · exact (offered_same _ _ _).1
  · rfl
  · exact (offered_same _ _ _).2.1
  · rfl
  · exact (offered_same _ _ _).2.2
  · rfl

section

variable {environment : String} {order : List Nat}

theorem Consistent.nodup_order (h : Consistent counted) (hOrder : order.Perm (counted.registeredIn environment)) :
    order.Nodup :=
  hOrder.nodup_iff.mpr (h.nodup_subscribers.sublist (List.filter_sublist.map _))

theorem Consistent.mem_order (h : Consistent counted) (hOrder : order.Perm (counted.registeredIn environment))
    (subscriber : Nat) : subscriber ∈ order ↔ counted.InRegistry subscriber ∧
      (counted.hub.subscribers subscriber).environment = environment := by
  rw [hOrder.mem_iff, h.mem_registeredIn]

theorem Consistent.mem_evict (h : Consistent counted) (hOrder : order.Perm (counted.registeredIn environment))
    (message : Message π) (subscriber : Nat) : subscriber ∈ (counted.scanned message order).evict ↔
      (counted.InRegistry subscriber ∧ (counted.hub.subscribers subscriber).environment = environment) ∧
        counted.hub.isFull subscriber = true := by
  obtain ⟨-, -, hEvict, -⟩ :=
    scan_foldl message order { hub := counted.hub, delivered := 0, evict := [] } (h.nodup_order hOrder)
  rw [scanned, hEvict, List.nil_append, List.mem_filter, h.mem_order hOrder]

theorem Consistent.nodup_evict (h : Consistent counted) (hOrder : order.Perm (counted.registeredIn environment))
    (message : Message π) : (counted.scanned message order).evict.Nodup := by
  obtain ⟨-, -, hEvict, -⟩ :=
    scan_foldl message order { hub := counted.hub, delivered := 0, evict := [] } (h.nodup_order hOrder)
  rw [scanned, hEvict, List.nil_append]
  exact (h.nodup_order hOrder).filter _

/-- Evictions right after the loop. -/
theorem Consistent.evict_scanned (h : Consistent counted) (hOrder : order.Perm (counted.registeredIn environment))
    (message : Message π) :
    Consistent (counted.broadcast message order) ∧
      (∀ subscriber, (counted.broadcast message order).InRegistry subscriber ↔
        counted.InRegistry subscriber ∧ subscriber ∉ (counted.scanned message order).evict) ∧
      ∀ subscriber, (counted.broadcast message order).hub.subscribers subscriber =
        if subscriber ∈ (counted.scanned message order).evict then
          { (counted.scanned message order).hub.subscribers subscriber with
            done := some (((counted.scanned message order).hub.subscribers subscriber).done.getD .slowConsumer) }
        else (counted.scanned message order).hub.subscribers subscriber := by
  have hSame : SameHandles counted { counted with hub := (counted.scanned message order).hub } :=
    scanned_same message (h.nodup_order hOrder)
  obtain ⟨hConsistent, hRegistered, hClosed⟩ := (h.same hSame).evict _ (h.nodup_evict hOrder message)
    fun subscriber hEvicted =>
      (hSame.inRegistry subscriber).mpr ((h.mem_evict hOrder message subscriber).mp hEvicted).1.1
  refine ⟨hConsistent.same ⟨rfl, rfl, rfl, fun _ => rfl, fun _ => rfl, fun _ => rfl⟩, ?_, hClosed⟩
  intro subscriber
  rw [← hSame.inRegistry]
  exact hRegistered subscriber

/-- Who is full is evicted, and everyone else in the environment has the message. -/
theorem Consistent.broadcast (h : Consistent counted) {environment : String} (message : Message π) {order : List Nat}
    (hOrder : order.Perm (counted.registeredIn environment)) :
    Consistent (counted.broadcast message order) ∧
      (∀ subscriber, (counted.broadcast message order).InRegistry subscriber ↔ counted.InRegistry subscriber ∧
        ¬ ((counted.hub.subscribers subscriber).environment = environment ∧ counted.hub.isFull subscriber = true)) ∧
      ∀ subscriber, counted.InRegistry subscriber → (counted.hub.subscribers subscriber).environment = environment →
        counted.Reached subscriber message (counted.broadcast message order) := by
  obtain ⟨hConsistent, hRegistered, hClosed⟩ := h.evict_scanned hOrder message
  refine ⟨hConsistent, ?_, ?_⟩
  · intro subscriber
    rw [hRegistered, h.mem_evict hOrder, and_assoc, not_and]
    constructor
    · rintro ⟨hIn, hKept⟩
      exact ⟨hIn, hKept hIn⟩
    · rintro ⟨hIn, hKept⟩
      exact ⟨hIn, fun _ => hKept⟩
  · intro subscriber hIn hEnvironment
    have hOpen : (counted.hub.subscribers subscriber).done = none := by
      obtain ⟨entry, hEntry, rfl⟩ := hIn
      exact (h.open_iff _ (h.entries entry hEntry).1).mpr ⟨entry, hEntry, rfl⟩
    have hOffered : (counted.scanned message order).hub.subscribers subscriber =
        (counted.hub.subscribers subscriber).offered (counted.hub.isFull subscriber) message := by
      obtain ⟨-, -, -, hSubscribers⟩ :=
        scan_foldl message order { hub := counted.hub, delivered := 0, evict := [] } (h.nodup_order hOrder)
      rw [scanned, hSubscribers, if_pos ((h.mem_order hOrder subscriber).mpr ⟨hIn, hEnvironment⟩)]
    rw [Reached, hClosed, hOffered]
    cases hFull : counted.hub.isFull subscriber with
    | true =>
      rw [if_pos rfl, if_pos ((h.mem_evict hOrder message subscriber).mpr ⟨⟨hIn, hEnvironment⟩, hFull⟩)]
      simp [Subscriber.offered, hOpen]
    | false =>
      have hKept : subscriber ∉ (counted.scanned message order).evict := by
        rw [h.mem_evict hOrder, hFull]
        exact fun hEvicted => Bool.false_ne_true hEvicted.2
      rw [if_neg Bool.false_ne_true, if_neg hKept]
      exact ⟨hOpen, _, rfl⟩

end

/-! ## Runs -/

theorem receive_same (counted : CountedHub π) (subscriber : Nat) :
    SameHandles counted (counted.effect (.receive subscriber)) := by
  have hAt (other : Nat) : (counted.effect (.receive subscriber)).hub.subscribers other =
      if other = subscriber then
        { counted.hub.subscribers subscriber with received := (counted.hub.subscribers subscriber).received + 1 }
      else counted.hub.subscribers other := Function.update_apply _ _ _ _
  refine ⟨rfl, rfl, rfl, ?_, ?_, ?_⟩
  all_goals
    intro other
    rw [hAt]
    split
  · rename_i hSame
    rw [hSame]
  · rfl
  · rename_i hSame
    rw [hSame]
  · rfl
  · rename_i hSame
    rw [hSame]
  · rfl

theorem Consistent.step {a : Action π} (h : Consistent counted) (hEnabled : counted.enabled a = true)
    (hOwn : ownKeys counted a) : Consistent (counted.effect a) := by
  cases a with
  | subscribe id environment => exact h.subscribe hOwn
  | unsubscribe subscriber => exact h.remove hOwn
  | broadcast environment message order => exact (h.broadcast message (of_decide_eq_true hEnabled)).1
  | closeAll => exact h.closeAll
  | receive subscriber => exact h.same (receive_same counted subscriber)

/-- Who is registered and not to be removed by a call is registered after it. -/
theorem Consistent.keepsOthers {a : Action π} (h : Consistent counted) (hEnabled : counted.enabled a = true)
    (hOwn : ownKeys counted a) {subscriber : Nat} (hIn : counted.InRegistry subscriber)
    (hKept : ¬ counted.Removes subscriber a) : (counted.effect a).InRegistry subscriber := by
  cases a with
  | subscribe id environment => exact (inRegistry_subscribe hOwn).mpr (Or.inl hIn)
  | unsubscribe removed => exact (h.inRegistry_remove hOwn).mpr ⟨hIn, hKept⟩
  | broadcast environment message order =>
    exact ((h.broadcast message (of_decide_eq_true hEnabled)).2.1 subscriber).mpr ⟨hIn, hKept⟩
  | closeAll => exact absurd trivial hKept
  | receive received => exact ((receive_same counted received).inRegistry subscriber).mpr hIn

/-- The condition leaves out nothing that is harmless: a call that breaks it takes an open
subscriber out of the registry. -/
theorem Consistent.step_iff {a : Action π} (h : Consistent counted) (hEnabled : counted.enabled a = true) :
    Consistent (counted.effect a) ↔ ownKeys counted a := by
  refine ⟨fun hAfter => ?_, h.step hEnabled⟩
  have hSameKey : ∀ entry ∈ counted.hub.registry, ∀ other ∈ counted.hub.registry,
      other.subscriber = entry.subscriber → other.environment = entry.environment ∧ other.id = entry.id := by
    intro entry hMem other hOther hSubscriber
    obtain ⟨_, hId, hEnvironment⟩ := h.entries entry hMem
    obtain ⟨_, hOtherId, hOtherEnvironment⟩ := h.entries other hOther
    rw [hSubscriber] at hOtherId hOtherEnvironment
    exact ⟨hOtherEnvironment.trans hEnvironment.symm, hOtherId.trans hId.symm⟩
  cases a with
  | subscribe id environment =>
    rintro entry hMem ⟨hEnvironment, hId⟩
    have hOld := (h.entries entry hMem).1
    have hOpen := (h.open_iff _ hOld).mpr ⟨entry, hMem, rfl⟩
    rw [← subscribers_subscribe_of_lt hOld] at hOpen
    obtain ⟨other, hOther, hSubscriber⟩ := (hAfter.open_iff _ (Nat.lt_succ_of_lt hOld)).mp hOpen
    obtain hKept | hNew := List.mem_append.mp hOther
    · obtain ⟨hOtherOld, hKey⟩ := List.mem_filter.mp hKept
      obtain ⟨hSameEnvironment, hSameId⟩ := hSameKey entry hMem other hOtherOld hSubscriber
      exact of_decide_eq_true hKey ⟨hSameEnvironment.trans hEnvironment, hSameId.trans hId⟩
    · obtain rfl := List.mem_singleton.mp hNew
      exact absurd hSubscriber (Nat.ne_of_gt hOld)
  | unsubscribe removed =>
    intro entry hMem hEnvironment hId
    by_contra hOther
    have hOld := (h.entries entry hMem).1
    have hOpen := (h.open_iff _ hOld).mpr ⟨entry, hMem, rfl⟩
    rw [← subscribers_remove_of_ne hOther] at hOpen
    obtain ⟨other, hStays, hSubscriber⟩ := (hAfter.open_iff _ (by rw [effect, remove_hub]; exact hOld)).mp hOpen
    obtain ⟨hOtherOld, hKey⟩ := mem_registry_remove.mp hStays
    obtain ⟨hSameEnvironment, hSameId⟩ := hSameKey entry hMem other hOtherOld hSubscriber
    exact hKey ⟨hSameEnvironment.trans hEnvironment, hSameId.trans hId⟩
  | broadcast environment message order => trivial
  | closeAll => trivial
  | receive subscriber => trivial

theorem Consistent.connected_eq (h : Consistent counted) : counted.stats.connected = counted.openHandles.length := by
  have hPerm : (counted.hub.registry.map Entry.subscriber).Perm counted.openHandles := by
    have hDistinct : counted.openHandles.Nodup := List.nodup_range.filter _
    rw [List.perm_ext_iff_of_nodup h.nodup_subscribers hDistinct]
    intro subscriber
    rw [openHandles, List.mem_filter, List.mem_range, decide_eq_true_iff, List.mem_map]
    constructor
    · rintro ⟨entry, hMem, rfl⟩
      have hAllocated := (h.entries entry hMem).1
      exact ⟨hAllocated, (h.open_iff _ hAllocated).mpr ⟨entry, hMem, rfl⟩⟩
    · rintro ⟨hAllocated, hOpen⟩
      exact (h.open_iff subscriber hAllocated).mp hOpen
  rw [stats, h.counted, ← hPerm.length_eq, List.length_map]

variable [Inhabited π] {options : Options}

theorem consistent_new : Consistent (new options : CountedHub π) where
  entries := fun _ hMem => absurd hMem List.not_mem_nil
  keys := List.nodup_nil
  open_iff := fun subscriber hAllocated => absurd hAllocated (Nat.not_lt_zero subscriber)
  counted := rfl

theorem consistent_of_reachable (hReach : machine.Reachable ownKeys (new options) counted) : Consistent counted := by
  refine hReach.invariant Consistent consistent_new ?_
  intro counted a _ h hEnabled hOwn
  exact h.step hEnabled hOwn

/-- What a call of `Broadcast` gives to the open subscribers of its environment, what every call
leaves registered, and what is counted. -/
structure Intact (within : CountedHub π → Action π → Prop) (counted : CountedHub π) : Prop where
  keeps : ∀ a, counted.enabled a = true → within counted a → ∀ subscriber, counted.InRegistry subscriber →
    ¬ counted.Removes subscriber a → (counted.effect a).InRegistry subscriber
  reaches : ∀ subscriber ∈ counted.openHandles, ∀ environment message order,
    counted.enabled (.broadcast environment message order) = true →
    (counted.hub.subscribers subscriber).environment = environment →
    counted.Reached subscriber message (counted.effect (.broadcast environment message order))
  connected : counted.stats.connected = counted.openHandles.length

theorem registry_intact (hReach : machine.Reachable ownKeys (new options) counted) : Intact ownKeys counted := by
  have h := consistent_of_reachable hReach
  constructor
  case keeps =>
    intro a hEnabled hOwn subscriber hIn hKept
    exact h.keepsOthers hEnabled hOwn hIn hKept
  case reaches =>
    intro subscriber hOpen environment message order hEnabled hEnvironment
    rw [openHandles, List.mem_filter, List.mem_range, decide_eq_true_iff] at hOpen
    have hIn := (h.open_iff subscriber hOpen.1).mp hOpen.2
    exact (h.broadcast message (of_decide_eq_true hEnabled)).2.2 subscriber hIn hEnvironment
  case connected => exact h.connected_eq

instance (counted : CountedHub π) (a : Action π) : Decidable (ownKeys counted a) :=
  match a with
  | .subscribe id environment => inferInstanceAs
      (Decidable (∀ entry ∈ counted.hub.registry, ¬ (entry.environment = environment ∧ entry.id = id)))
  | .unsubscribe subscriber => inferInstanceAs (Decidable (∀ entry ∈ counted.hub.registry,
      entry.environment = (counted.hub.subscribers subscriber).environment →
      entry.id = (counted.hub.subscribers subscriber).id → entry.subscriber = subscriber))
  | .broadcast _ _ _ | .closeAll | .receive _ => isTrue trivial

def small : Options where
  shards := 4
  bufferSize := 1

/-- A slow subscriber is evicted by the second broadcast, and its id is taken up again. -/
def reused : List (Action String) :=
  [.subscribe "a" "production", .subscribe "b" "production",
    .broadcast "production" { version := 1, payload := "{}" } [1, 0], .receive 1,
    .broadcast "production" { version := 2, payload := "{}" } [0, 1], .unsubscribe 0,
    .subscribe "a" "production", .unsubscribe 1]

theorem registry_intact_reused : ∃ counted, machine.runWithin (fun counted a => decide (ownKeys counted a)) (new small)
    reused = some counted ∧ Intact ownKeys counted := by
  have hRuns : (machine.runWithin (fun counted a => decide (ownKeys counted a)) (new small) reused).isSome = true := by
    decide +kernel
  obtain ⟨counted, hRun⟩ := Option.isSome_iff_exists.mp hRuns
  have hReach : machine.Reachable ownKeys (new small) counted :=
    Machine.Reachable.start.runWithin (fun _ _ _ hOwn => of_decide_eq_true hOwn) hRun
  exact ⟨counted, hRun, registry_intact hReach⟩

/-- Two subscribers of one id: the entry is deleted with the first, and the second is not counted
when it goes. -/
def sharedId : List (Action String) :=
  [.subscribe "a" "production", .subscribe "a" "production", .unsubscribe 0, .unsubscribe 1]

theorem shared_id_miscounted : ¬ ∀ options (counted : CountedHub String),
    machine.Reachable Machine.anyStep (new options) counted → Intact Machine.anyStep counted := by
  intro hIntact
  have hCounts : (machine.run (new small) sharedId).map (fun counted =>
      (counted.stats.connected, counted.openHandles.length)) = some (1, 0) := by decide +kernel
  obtain ⟨counted, hRun, hCounts⟩ := Option.map_eq_some_iff.mp hCounts
  obtain ⟨hConnected, hOpen⟩ := Prod.mk.inj hCounts
  have hSame := (hIntact small counted (Machine.reachable_of_run hRun)).connected
  rw [hConnected, hOpen] at hSame
  cases hSame

end CountedHub

end Flagship.DataPlane
