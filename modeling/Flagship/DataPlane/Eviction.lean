import Flagship.DataPlane.HubSteps

/-! # Eviction and gaps

A subscriber that a broadcast has skipped is on that broadcast's list until its entry is
deleted, and is sent nothing once it is. In between, another broadcast can still reach it; a
gap opens when its channel has room again by then.
-/

namespace Flagship.DataPlane.Hub

open Lib

variable {π : Type} {hub : Hub π}

/-- Some broadcast has put the subscriber on its list and has not removed it yet. -/
def EvictionPending (hub : Hub π) (h : Nat) : Prop := ∃ b < hub.started, h ∈ (hub.broadcasts b).evict

theorem EvictionPending.step {h : Nat} (hPending : hub.EvictionPending h) {a : Action π}
    (hEnabled : hub.enabled a = true) : (hub.effect a).EvictionPending h ∨ ∃ b, a = .remove b h := by
  obtain ⟨b, hStarted, hMem⟩ := hPending
  have hStep := broadcast_step a hStarted
  have hStill : b < (hub.effect a).started := Nat.lt_of_lt_of_le hStarted (started_le a)
  have hStays : h ∈ ((hub.effect a).broadcasts b).evict → (hub.effect a).EvictionPending h :=
    fun hAfter => ⟨b, hStill, hAfter⟩
  generalize (hub.effect a).broadcasts b = after at hStep hStays
  cases hStep with
  | same => exact Or.inl (hStays hMem)
  | lock => exact Or.inl (hStays hMem)
  | send h' =>
    apply Or.inl
    apply hStays
    simp only
    split
    · exact List.mem_append_left _ hMem
    · exact hMem
  | unlock => exact Or.inl (hStays hMem)
  | remove h' =>
    simp only [enabled, Bool.and_eq_true, decide_eq_true_eq] at hEnabled
    obtain ⟨rest, hRest⟩ := List.head?_eq_some_iff.mp hEnabled.1.2
    rw [hRest] at hMem hStays
    rcases List.mem_cons.mp hMem with rfl | hMem
    · exact Or.inr ⟨b, rfl⟩
    · exact Or.inl (hStays hMem)
  | closeEvicted h' => exact Or.inl (hStays hMem)

theorem evictionPending_of_full {b h : Nat} (hEnabled : hub.enabled (.send b h) = true)
    (hFull : hub.isFull h = true) : (hub.effect (.send b h)).EvictionPending h := by
  simp only [enabled, Bool.and_eq_true, decide_eq_true_eq] at hEnabled
  refine ⟨b, hEnabled.1, ?_⟩
  simp [effect, offer, setBroadcast, hFull]

def Unregistered (hub : Hub π) (h : Nat) : Prop := ∀ entry ∈ hub.registry, entry.subscriber ≠ h

theorem Unregistered.step {h : Nat} (hAllocated : h < hub.allocated) (hGone : hub.Unregistered h) (a : Action π) :
    (hub.effect a).Unregistered h := by
  intro entry hMem
  rcases mem_registry_effect hMem with hOld | ⟨id, environment, rfl, rfl⟩
  · exact hGone entry hOld
  · exact (Nat.ne_of_lt hAllocated).symm

theorem unregistered_of_remove (hEntries : hub.Entries) (b h : Nat) :
    (hub.effect (.remove b h)).Unregistered h := by
  rintro entry hMem rfl
  obtain ⟨hOld, hOther⟩ := List.mem_filter.mp hMem
  obtain ⟨_, hId, hEnvironment⟩ := hEntries entry hOld
  exact of_decide_eq_true hOther ⟨hEnvironment, hId⟩

theorem skipped_of_new {a : Action π} {h : Nat} (hAllocated : h < (hub.effect a).allocated)
    (hNew : ¬ h < hub.allocated) : ∃ id environment, a = .subscribe id environment ∧ h = hub.allocated ∧
      (hub.effect a).subscribers h = Subscriber.open id environment := by
  cases a with
  | subscribe id environment =>
    have hSame : h = hub.allocated := by
      change h < hub.allocated + 1 at hAllocated
      omega
    subst hSame
    exact ⟨id, environment, rfl, rfl, Function.update_self ..⟩
  | _ => exact absurd hAllocated hNew

/-- A skipped subscriber awaits its removal or is out of the registry. -/
def Skips (hub : Hub π) : Prop := ∀ h < hub.allocated, (hub.subscribers h).skipped = true →
  hub.EvictionPending h ∨ hub.Unregistered h

theorem Skips.step (hEntries : hub.Entries) (hSkips : hub.Skips) {a : Action π} (hEnabled : hub.enabled a = true) :
    (hub.effect a).Skips := by
  intro h hAllocated hSkipped
  by_cases hOld : h < hub.allocated
  · have hBefore : (hub.subscribers h).skipped = true →
        (hub.effect a).EvictionPending h ∨ (hub.effect a).Unregistered h := by
      intro hAlready
      rcases hSkips h hOld hAlready with hPending | hGone
      · rcases hPending.step hEnabled with hStill | ⟨b, rfl⟩
        · exact Or.inl hStill
        · exact Or.inr (unregistered_of_remove hEntries b h)
      · exact Or.inr (hGone.step hOld a)
    have hStep := subscriber_step a hOld
    generalize (hub.effect a).subscribers h = after at hStep hSkipped
    cases hStep with
    | same => exact hBefore hSkipped
    | send b =>
      cases hFull : hub.isFull h with
      | true => exact Or.inl (evictionPending_of_full hEnabled hFull)
      | false =>
        simp only [Subscriber.offered, hFull, Bool.false_eq_true, if_false] at hSkipped
        exact hBefore hSkipped
    | receive => exact hBefore hSkipped
    | closeEvicted b => exact hBefore hSkipped
    | closeUnsubscribed => exact hBefore hSkipped
  · obtain ⟨id, environment, rfl, _, hNew⟩ := skipped_of_new hAllocated hOld
    rw [hNew] at hSkipped
    cases hSkipped

def InTime (hub : Hub π) : Prop := ∀ h < hub.allocated, ∀ offer ∈ (hub.subscribers h).offers, offer.late = false

/-- A send that reaches a subscriber whose eviction is pending finds its channel still full. -/
def StaysFull (hub : Hub π) : Action π → Prop
  | .send _ h => hub.EvictionPending h → hub.isFull h = true
  | _ => True

theorem InTime.step (hScans : hub.Scans) (hSkips : hub.Skips) (hInTime : hub.InTime) {a : Action π}
    (hEnabled : hub.enabled a = true) (hFull : hub.StaysFull a) : (hub.effect a).InTime := by
  intro h hAllocated
  by_cases hOld : h < hub.allocated
  · have hStep := subscriber_step a hOld
    generalize (hub.effect a).subscribers h = after at hStep ⊢
    cases hStep with
    | same => exact hInTime h hOld
    | send b =>
      simp only [enabled, Bool.and_eq_true, decide_eq_true_eq] at hEnabled
      obtain ⟨entry, hEntry, hName, _⟩ := hScans b hEnabled.1 h hEnabled.2
      have hClean : hub.isFull h = false → (hub.subscribers h).skipped = false := by
        intro hRoom
        by_contra hSkipped
        rw [Bool.not_eq_false] at hSkipped
        -- the send has reached it, so it is registered and its removal is still to come
        rcases hSkips h hOld hSkipped with hPending | hGone
        · rw [hFull hPending] at hRoom
          cases hRoom
        · exact hGone entry hEntry hName
      intro offer hMem
      rw [Subscriber.offered] at hMem
      split at hMem
      · exact hInTime h hOld offer hMem
      · rename_i hRoom
        rcases List.mem_append.mp hMem with hMem | hLast
        · exact hInTime h hOld offer hMem
        · rw [List.mem_singleton.mp hLast]
          exact hClean (Bool.eq_false_iff.mpr hRoom)
    | receive => exact hInTime h hOld
    | closeEvicted b => exact hInTime h hOld
    | closeUnsubscribed => exact hInTime h hOld
  · obtain ⟨id, environment, rfl, _, hNew⟩ := skipped_of_new hAllocated hOld
    rw [hNew]
    intro offer hMem
    cases hMem

/-- In every run whose sends find the channels of subscribers awaiting their eviction full, a
subscriber that missed a message is delivered nothing that was sent later. -/
theorem delivered_in_time [Inhabited π] (options : Options) {hub : Hub π}
    (hReach : Hub.machine.Reachable StaysFull (Hub.new options) hub) :
    ∀ h < hub.allocated, ∀ offer ∈ (hub.subscribers h).delivered, offer.late = false := by
  have hInvariant : hub.Entries ∧ hub.Scans ∧ hub.Skips ∧ hub.InTime := by
    refine hReach.invariant (fun hub => hub.Entries ∧ hub.Scans ∧ hub.Skips ∧ hub.InTime) ?_ ?_
    · refine ⟨?_, ?_, ?_, ?_⟩
      · intro entry hMem
        cases hMem
      · intro b hStarted
        exact absurd hStarted (Nat.not_lt_zero b)
      · intro h hAllocated
        exact absurd hAllocated (Nat.not_lt_zero h)
      · intro h hAllocated
        exact absurd hAllocated (Nat.not_lt_zero h)
    · rintro hub a _ ⟨hEntries, hScans, hSkips, hInTime⟩ hEnabled hFull
      exact ⟨hEntries.step a, hScans.step hEnabled, hSkips.step hEntries hEnabled,
        hInTime.step hScans hSkips hEnabled hFull⟩
  intro h hAllocated offer hMem
  exact hInvariant.2.2.2 h hAllocated offer (List.mem_of_mem_take hMem)

/-! ## The window between a skip and the removal -/

def small : Options := { shards := 1, bufferSize := 1 }

def text (version : Int) : Message String := { version, payload := "" }

def visit (b : Nat) (version : Int) : List (Action String) :=
  [.broadcast "production" (text version), .lock b, .send b 0, .unlock b]

def removedInTime : List (Action String) :=
  .subscribe "sub-1" "production" :: visit 0 1 ++ visit 1 2 ++
    [.remove 1 0, .closeEvicted 1 0, .receive 0, .broadcast "production" (text 3), .lock 2, .unlock 2]

/-- The subscriber takes a message out while its removal is pending, and the third one finds room. -/
def removedLate : List (Action String) :=
  .subscribe "sub-1" "production" :: visit 0 1 ++ visit 1 2 ++ [.receive 0] ++ visit 2 3 ++ [.receive 0]

def staysFull (hub : Hub String) : Action String → Bool
  | .send _ h => decide (∀ b < hub.started, h ∉ (hub.broadcasts b).evict) || hub.isFull h
  | _ => true

theorem staysFull_sound (hub : Hub String) (a : Action String) (h : hub.staysFull a = true) : hub.StaysFull a := by
  cases a with
  | send b subscriber =>
    rintro ⟨b', hStarted, hMem⟩
    rw [staysFull, Bool.or_eq_true, decide_eq_true_eq] at h
    rcases h with hNone | hFull
    · exact absurd hMem (hNone b' hStarted)
    · exact hFull
  | _ => trivial

theorem removedInTime_delivered : ∃ hub, Hub.machine.runWithin staysFull (Hub.new small) removedInTime = some hub ∧
    ∀ h < hub.allocated, ∀ offer ∈ (hub.subscribers h).delivered, offer.late = false := by
  have hSome : (Hub.machine.runWithin staysFull (Hub.new small) removedInTime).isSome = true := by decide +kernel
  obtain ⟨hub, hRun⟩ := Option.isSome_iff_exists.mp hSome
  exact ⟨hub, hRun,
    delivered_in_time small (Machine.Reachable.start.runWithin (fun s a _ => staysFull_sound s a) hRun)⟩

theorem removedLate_delivered : ¬ ∀ (options : Options) (hub : Hub String),
    Hub.machine.Reachable Machine.anyStep (Hub.new options) hub →
      ∀ h < hub.allocated, ∀ offer ∈ (hub.subscribers h).delivered, offer.late = false := by
  intro hAll
  have hLate : (Hub.machine.run (Hub.new small) removedLate).map (fun hub =>
      (hub.allocated, (hub.subscribers 0).delivered.map Offer.late)) = some (1, [false, true]) := by
    decide +kernel
  obtain ⟨hub, hRun, hState⟩ := Option.map_eq_some_iff.mp hLate
  obtain ⟨hAllocated, hDelivered⟩ := Prod.mk.inj hState
  have hInTime := hAll small hub (Machine.reachable_of_run hRun) 0 (by rw [hAllocated]; exact Nat.zero_lt_one)
  have hMem : true ∈ (hub.subscribers 0).delivered.map Offer.late := by
    rw [hDelivered]
    decide
  obtain ⟨offer, hOffer, hTrue⟩ := List.mem_map.mp hMem
  rw [hInTime offer hOffer] at hTrue
  cases hTrue

end Flagship.DataPlane.Hub
