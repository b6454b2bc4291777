import Flagship.DataPlane.Owed
import Flagship.DataPlane.Store

/-! # The data plane's HTTP interface

`apps/data-plane/internal/api/api.go` over the store and the hub, as a transition system. A
publish updates the store under its lock and then broadcasts; a stream subscribes, reads the
store, writes what it read, and then writes what its channel holds until it is evicted or its
client leaves. A connection goes by the number of its subscriber.
-/

namespace Flagship.DataPlane

open Lib

variable {π : Type}

/-- `strconv.ParseInt` with base 10 and 64 bits. -/
def parseInt (s : String) : Option Int :=
  let (negative, digits) := match s.toList with
    | '+' :: rest => (false, rest)
    | '-' :: rest => (true, rest)
    | chars => (false, chars)
  if digits.isEmpty || digits.any fun c => !c.isDigit then none
  else
    let magnitude := digits.foldl (fun n c => 10 * n + (c.toNat - '0'.toNat)) 0
    let value := if negative then -(magnitude : Int) else magnitude
    if value < -9223372036854775808 ∨ 9223372036854775807 < value then none else some value

/-- The version a client says it has; a malformed id is a cold start. -/
def presentedVersion (header query : String) : Int :=
  let lastEventId := if header = "" then query else header
  if lastEventId = "" then 0 else (parseInt lastEventId).getD 0

inductive Frame (π : Type) where
  | ruleset (version : Int) (payload : π)
  | resync

def Frame.version? : Frame π → Option Int
  | ruleset version _ => some version
  | resync => none

/-- `reading` and `resyncing` come before a read of the store, `replaying` writes what it gave,
`streaming` is the loop, and `returning` comes before the deferred `Unsubscribe`. -/
inductive Phase (π : Type) where
  | reading
  | resyncing
  | replaying (pending : List (Snapshot π))
  | streaming
  | returning
  | closed

structure Connection (π : Type) where
  afterVersion : Int
  phase : Phase π
  frames : List (Frame π)

namespace Connection

def accept (header query : String) : Connection π :=
  { afterVersion := presentedVersion header query, phase := .reading, frames := [] }

def isReading (connection : Connection π) : Bool :=
  match connection.phase with
  | .reading | .resyncing => true
  | _ => false

def isReplaying (connection : Connection π) : Bool :=
  match connection.phase with
  | .replaying _ => true
  | _ => false

def isStreaming (connection : Connection π) : Bool :=
  match connection.phase with
  | .streaming => true
  | _ => false

def isReturning (connection : Connection π) : Bool :=
  match connection.phase with
  | .returning => true
  | _ => false

def readCurrent (connection : Connection π) (store : Store π) (environment : String) : Connection π :=
  match store.current environment with
  | none => { connection with phase := .streaming }
  | some snapshot => { connection with phase := .replaying [snapshot] }

/-- The reads of `replayOrResync`; a full resync reads the store a second time. -/
def read (connection : Connection π) (store : Store π) (environment : String) : Connection π :=
  match connection.phase with
  | .reading =>
    if connection.afterVersion ≤ 0 then connection.readCurrent store environment
    else
      match store.resume environment connection.afterVersion with
      | none => { connection with phase := .streaming }
      | some .fullResync => { connection with phase := .resyncing }
      | some (.missed missed) => { connection with phase := .replaying missed }
  | .resyncing => connection.readCurrent store environment
  | _ => connection

def writeEvent (connection : Connection π) (frame : Frame π) : Connection π :=
  { connection with frames := connection.frames ++ [frame] }

def replay (connection : Connection π) : Connection π :=
  match connection.phase with
  | .replaying (snapshot :: rest) =>
    { connection.writeEvent (.ruleset snapshot.version snapshot.payload) with phase := .replaying rest }
  | .replaying [] => { connection with phase := .streaming }
  | _ => connection

def forward (connection : Connection π) (offer : Option (Offer π)) : Connection π :=
  match offer with
  | none => connection
  | some offer => connection.writeEvent (.ruleset offer.message.version offer.message.payload)

def observeDone (connection : Connection π) (reason : Option DropReason) : Connection π :=
  if reason = some .slowConsumer then { connection.writeEvent .resync with phase := .returning }
  else { connection with phase := .returning }

end Connection

inductive SnapshotResponse (π : Type) where
  | badRequest
  | notFound
  | notModified (etag : String) (version : Int)
  | ok (snapshot : Snapshot π)

def handleSnapshot (store : Store π) (environment ifNoneMatch : String) : SnapshotResponse π :=
  if environment = "" then .badRequest
  else
    match store.current environment with
    | none => .notFound
    | some snapshot =>
      if ifNoneMatch ≠ "" ∧ ifNoneMatch = snapshot.etag then .notModified snapshot.etag snapshot.version
      else .ok snapshot

/-- `responses` are the answers of `GET /v1/snapshot`, each with the environment asked for. -/
structure Server (π : Type) where
  store : Store π
  hub : Hub π
  connections : Nat → Connection π
  responses : List (String × SnapshotResponse π)

namespace Server

def new [Inhabited π] (options : Options) (historySize : Int) : Server π where
  store := .new historySize
  hub := .new options
  connections := fun _ => .accept "" ""
  responses := []

inductive Action (π : Type) where
  | publish (environment : String) (version : Int) (payload : π)
  | hub (a : Hub.Action π)
  | connect (id environment header query : String)
  | read (c : Nat)
  | replay (c : Nat)
  | forward (c : Nat)
  | observeDone (c : Nat)
  | disconnect (c : Nat)
  | unsubscribe (c : Nat)
  | getSnapshot (environment ifNoneMatch : String)

/-- The steps the hub takes inside `Broadcast` and `remove`; the others come with a request. -/
def isInside : Hub.Action π → Bool
  | .lock _ | .send _ _ | .unlock _ | .remove _ _ | .closeEvicted _ _ | .closeUnsubscribed _ => true
  | .broadcast _ _ | .subscribe _ _ | .receive _ | .unsubscribe _ => false

variable (s : Server π)

def environmentOf (c : Nat) : String := (s.hub.subscribers c).environment

def setConnection (c : Nat) (connection : Connection π) : Server π :=
  { s with connections := Function.update s.connections c connection }

def enabled : Action π → Bool
  | .publish _ _ _ => true
  | .hub a => isInside a && s.hub.enabled a
  | .connect id environment _ _ => decide (environment ≠ "") && s.hub.enabled (.subscribe id environment)
  | .read c => decide (c < s.hub.allocated) && (s.connections c).isReading
  | .replay c => decide (c < s.hub.allocated) && (s.connections c).isReplaying
  | .forward c => (s.connections c).isStreaming && s.hub.enabled (.receive c)
  | .observeDone c => decide (c < s.hub.allocated) && (s.connections c).isStreaming &&
      (s.hub.subscribers c).done.isSome
  | .disconnect c => decide (c < s.hub.allocated) && (s.connections c).isStreaming
  | .unsubscribe c => (s.connections c).isReturning && s.hub.enabled (.unsubscribe c)
  | .getSnapshot _ _ => true

/-- A publish and the start of its broadcast are one step: nothing shows until the first lock. -/
def effect (computeETag : π → String) : Action π → Server π
  | .publish environment version payload =>
    match s.store.publish computeETag environment version payload with
    | (store, .ok _) => { s with store, hub := s.hub.effect (.broadcast environment { version, payload }) }
    | (store, .error _) => { s with store }
  | .hub a => { s with hub := s.hub.effect a }
  | .connect id environment header query =>
    { s.setConnection s.hub.allocated (.accept header query) with hub := s.hub.effect (.subscribe id environment) }
  | .read c => s.setConnection c ((s.connections c).read s.store (s.environmentOf c))
  | .replay c => s.setConnection c (s.connections c).replay
  | .forward c =>
    { s.setConnection c ((s.connections c).forward (s.hub.subscribers c).messages.head?) with
      hub := s.hub.effect (.receive c) }
  | .observeDone c => s.setConnection c ((s.connections c).observeDone (s.hub.subscribers c).done)
  | .disconnect c => s.setConnection c { s.connections c with phase := .returning }
  | .unsubscribe c =>
    { s.setConnection c { s.connections c with phase := .closed } with hub := s.hub.effect (.unsubscribe c) }
  | .getSnapshot environment ifNoneMatch =>
    { s with responses := s.responses ++ [(environment, handleSnapshot s.store environment ifNoneMatch)] }

/-- Requests without an environment or a positive version are answered before the store sees them. -/
def handlePublish (computeETag : π → String) (environment : String) (version : Int) (payload : π) : Server π :=
  if environment = "" then s
  else if version ≤ 0 then s
  else s.effect computeETag (.publish environment version payload)

def machine (computeETag : π → String) : Machine (Server π) (Action π) where
  enabled := enabled
  effect := fun s => s.effect computeETag

end Server

end Flagship.DataPlane
