import Flagship.Lib.Transition
import Flagship.Lib.Utf16
import Mathlib.Logic.Function.Basic

/-! # The fan-out registry for streaming subscribers

The hub of `apps/data-plane/internal/hub/hub.go` as a transition system. A broadcast holds the
read lock of one shard at a time while it offers its message to the subscribers registered
there, and removes the ones it skipped after the last lock is released; a removal takes the
write lock, deletes the entry, and closes the subscriber once the lock is free again. Actions
of all goroutines interleave.
-/

namespace Flagship.DataPlane

open Lib

variable {π : Type}

/-- The id is the version in decimal and the event is always `ruleset`. -/
structure Message (π : Type) where
  version : Int
  payload : π

inductive DropReason where
  | closed
  | slowConsumer
deriving DecidableEq

/-- A message that entered a channel; `late` when a broadcast had skipped the subscriber before. -/
structure Offer (π : Type) where
  message : Message π
  late : Bool

/-- `offers` is all that ever entered the channel; the first `received` of it have been taken out. -/
structure Subscriber (π : Type) where
  id : String
  environment : String
  offers : List (Offer π)
  received : Nat
  skipped : Bool
  done : Option DropReason

def Subscriber.open (id environment : String) : Subscriber π :=
  { id, environment, offers := [], received := 0, skipped := false, done := none }

def Subscriber.messages (s : Subscriber π) : List (Offer π) := s.offers.drop s.received

def Subscriber.delivered (s : Subscriber π) : List (Offer π) := s.offers.take s.received

def Subscriber.offered (s : Subscriber π) (full : Bool) (message : Message π) : Subscriber π :=
  if full then { s with skipped := true } else { s with offers := s.offers ++ [{ message, late := s.skipped }] }

structure Entry where
  environment : String
  id : String
  subscriber : Nat

/-- A call of `Broadcast`: the shard its loop is at, what is left of the map it ranges over
while it holds the lock, the evictions it has collected, and the one it has yet to close. -/
structure Broadcast (π : Type) where
  environment : String
  message : Message π
  shard : Nat
  scanning : Option (List Nat)
  evict : List Nat
  closing : Option Nat

structure Hub (π : Type) where
  shardCount : Nat
  bufferSize : Nat
  registry : List Entry
  subscribers : Nat → Subscriber π
  allocated : Nat
  broadcasts : Nat → Broadcast π
  started : Nat
  unsubscribing : List Nat

structure Options where
  shards : Int
  bufferSize : Int

def Broadcast.start (environment : String) (message : Message π) : Broadcast π :=
  { environment, message, shard := 0, scanning := none, evict := [], closing := none }

def Hub.new [Inhabited π] (options : Options) : Hub π where
  shardCount := if options.shards ≤ 0 then 32 else options.shards.toNat
  bufferSize := if options.bufferSize ≤ 0 then 16 else options.bufferSize.toNat
  registry := []
  subscribers := fun _ => Subscriber.open "" ""
  allocated := 0
  broadcasts := fun _ => Broadcast.start "" { version := 0, payload := default }
  started := 0
  unsubscribing := []

def fnv32a (bytes : List UInt8) : UInt32 :=
  bytes.foldl (fun hash byte => (hash ^^^ byte.toUInt32) * 16777619) 2166136261

namespace Hub

variable (hub : Hub π)

def shardFor (id : String) : Nat := (fnv32a (CodeUnits.encode (CodeUnits.ofString id))).toNat % hub.shardCount

def shardOf (subscriber : Nat) : Nat := hub.shardFor (hub.subscribers subscriber).id

def isFree (shard : Nat) : Bool :=
  decide (∀ b < hub.started, (hub.broadcasts b).scanning = none ∨ (hub.broadcasts b).shard ≠ shard)

def registered (environment : String) (shard : Nat) : List Nat :=
  (hub.registry.filter fun entry => entry.environment = environment ∧ hub.shardFor entry.id = shard).map
    Entry.subscriber

def isFull (subscriber : Nat) : Bool := decide (hub.bufferSize ≤ (hub.subscribers subscriber).messages.length)

def setBroadcast (b : Nat) (broadcast : Broadcast π) : Hub π :=
  { hub with broadcasts := Function.update hub.broadcasts b broadcast }

def setSubscriber (subscriber : Nat) (value : Subscriber π) : Hub π :=
  { hub with subscribers := Function.update hub.subscribers subscriber value }

/-- `delete(byID, subscriber.id)`, which goes by the id alone. -/
def deleteEntry (subscriber : Nat) : Hub π :=
  { hub with registry := hub.registry.filter fun entry =>
      ¬ (entry.environment = (hub.subscribers subscriber).environment ∧
        entry.id = (hub.subscribers subscriber).id) }

/-- `close` keeps the reason of the first call. -/
def close (subscriber : Nat) (reason : DropReason) : Hub π :=
  let s := hub.subscribers subscriber
  hub.setSubscriber subscriber { s with done := some (s.done.getD reason) }

/-- The non-blocking send of one broadcast to one subscriber: a full channel is an eviction. -/
def offer (b subscriber : Nat) : Hub π :=
  let broadcast := hub.broadcasts b
  let full := hub.isFull subscriber
  (hub.setSubscriber subscriber ((hub.subscribers subscriber).offered full broadcast.message)).setBroadcast b
    { broadcast with
      scanning := some ((broadcast.scanning.getD []).erase subscriber)
      evict := if full then broadcast.evict ++ [subscriber] else broadcast.evict }

/-- `Subscribe` puts the new subscriber in the place of one with its id and environment. -/
def register (id environment : String) : Hub π :=
  { hub with
    registry := hub.registry.filter (fun entry => ¬ (entry.environment = environment ∧ entry.id = id)) ++
      [{ environment, id, subscriber := hub.allocated }]
    subscribers := Function.update hub.subscribers hub.allocated (Subscriber.open id environment)
    allocated := hub.allocated + 1 }

inductive Action (π : Type) where
  | broadcast (environment : String) (message : Message π)
  | lock (b : Nat)
  | send (b subscriber : Nat)
  | unlock (b : Nat)
  | remove (b subscriber : Nat)
  | closeEvicted (b subscriber : Nat)
  | subscribe (id environment : String)
  | receive (subscriber : Nat)
  | unsubscribe (subscriber : Nat)
  | closeUnsubscribed (subscriber : Nat)

def enabled : Action π → Bool
  | .broadcast _ _ => true
  | .lock b => decide (b < hub.started) && decide ((hub.broadcasts b).shard < hub.shardCount) &&
      decide ((hub.broadcasts b).scanning = none)
  | .send b subscriber => decide (b < hub.started) && decide (subscriber ∈ (hub.broadcasts b).scanning.getD [])
  | .unlock b => decide (b < hub.started) && decide ((hub.broadcasts b).scanning = some [])
  | .remove b subscriber => decide (b < hub.started) && decide ((hub.broadcasts b).shard = hub.shardCount) &&
      decide ((hub.broadcasts b).closing = none) && decide ((hub.broadcasts b).evict.head? = some subscriber) &&
      hub.isFree (hub.shardOf subscriber)
  | .closeEvicted b subscriber => decide (b < hub.started) && decide ((hub.broadcasts b).closing = some subscriber)
  | .subscribe id _ => hub.isFree (hub.shardFor id)
  | .receive subscriber => decide (subscriber < hub.allocated) &&
      decide ((hub.subscribers subscriber).received < (hub.subscribers subscriber).offers.length)
  | .unsubscribe subscriber => decide (subscriber < hub.allocated) && hub.isFree (hub.shardOf subscriber)
  | .closeUnsubscribed subscriber => decide (subscriber ∈ hub.unsubscribing)

def effect : Action π → Hub π
  | .broadcast environment message =>
    { hub.setBroadcast hub.started (Broadcast.start environment message) with started := hub.started + 1 }
  | .lock b =>
    let broadcast := hub.broadcasts b
    hub.setBroadcast b { broadcast with scanning := some (hub.registered broadcast.environment broadcast.shard) }
  | .send b subscriber => hub.offer b subscriber
  | .unlock b =>
    let broadcast := hub.broadcasts b
    hub.setBroadcast b { broadcast with scanning := none, shard := broadcast.shard + 1 }
  -- the write lock is taken and given back within the step, `close` comes after
  | .remove b subscriber =>
    let broadcast := hub.broadcasts b
    (hub.deleteEntry subscriber).setBroadcast b
      { broadcast with evict := broadcast.evict.tail, closing := some subscriber }
  | .closeEvicted b subscriber =>
    let broadcast := hub.broadcasts b
    (hub.close subscriber .slowConsumer).setBroadcast b { broadcast with closing := none }
  | .subscribe id environment => hub.register id environment
  | .receive subscriber =>
    let s := hub.subscribers subscriber
    hub.setSubscriber subscriber { s with received := s.received + 1 }
  | .unsubscribe subscriber =>
    { hub.deleteEntry subscriber with unsubscribing := subscriber :: hub.unsubscribing }
  | .closeUnsubscribed subscriber =>
    { hub.close subscriber .closed with unsubscribing := hub.unsubscribing.erase subscriber }

end Hub

def Hub.machine : Machine (Hub π) (Hub.Action π) := { enabled := Hub.enabled, effect := Hub.effect }

end Flagship.DataPlane
