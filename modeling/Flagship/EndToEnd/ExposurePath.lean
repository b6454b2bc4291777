import Flagship.ControlPlane.Backpressure
import Flagship.EndToEnd.RecordedAccepted
import Flagship.Sdk.ExposureAccounts

/-! # The path of an exposure

Any number of processes record exposures, their batches go out as requests, the route of the
control plane judges them and hands the rows to its writer, and the inserts of the writer end in
the table. A request arrives once at most, at any time, also after its sender has given it up; an
insert puts its rows into the table once at most, also where it is then reported to have failed.
-/

namespace Flagship.EndToEnd

open Lib Flagship.Sdk Flagship.ControlPlane

/-! ## Requests -/

/-- A batch that has been handed to the transport, with the request it went out with. -/
structure Post where
  batch : List ExposureEvent
  /-- What the route has answered, once the request has arrived. -/
  reply : Option Reply
  /-- The rows of the batch that the writer took. -/
  rows : List ExposureRow
  /-- Whether the send was a success, once it has ended for its sender. -/
  ended : Option Bool

namespace Post

def sent (batch : List ExposureEvent) : Post where
  batch := batch
  reply := none
  rows := []
  ended := none

def waits (post : Post) : Bool := post.ended.isNone

/-- The events of the batch that its sender counts as sent. -/
def acknowledged (post : Post) : ℕ := if post.ended = some true then post.batch.length else 0

end Post

/-- `response.ok` -/
def isOk (reply : Reply) : Bool := decide (200 ≤ reply.code ∧ reply.code ≤ 299)

def rejectedIn (reply : Reply) : ℕ :=
  match reply.body.field? "rejected" with
  | some (.num (.finite count)) => count.num.toNat
  | _ => 0

/-- The framework's answer where a handler throws; nobody reads its body. -/
def internalError : Reply where
  code := 500
  body := .null

/-! ## Processes -/

structure Host where
  sdkKey : String
  run : ExposureRun
  posts : List Post

namespace Host

variable (host : Host)

/-- A step of the process: batches that it hands over go out. -/
def act (a : ExposureRun.Action) : Host :=
  let run := host.run.effect a
  { host with run, posts := host.posts ++ (run.handed.drop host.posts.length).map Post.sent }

/-- The place of a request among the sends of the process that have not ended. -/
def place (p : ℕ) : ℕ := (host.posts.take p).countP Post.waits

def arrive (p : ℕ) (post : Post) (reply : Reply) (rows : List ExposureRow) : Host :=
  { host with posts := host.posts.set p { post with reply := some reply, rows } }

def finish (p : ℕ) (post : Post) (success : Bool) : Host :=
  { host with
    run := host.run.effect (if success then .sendSucceeded (host.place p) else .sendFailed (host.place p))
    posts := host.posts.set p { post with ended := some success } }

end Host

/-- The steps of a process that do not wait for the network. -/
def isLocal : ExposureRun.Action → Bool
  | .sendSucceeded _ | .sendFailed _ => false
  | _ => true

/-! ## The route -/

section

variable (parseDate : String → Option ℤ) (now : ℤ) (authenticateKey : String → Option AuthenticatedKey)

/-- The route, over the writer with its inserts. -/
def answer (writer : WriterRun) (sdkKey : String) (batch : List ExposureEvent) : WriterRun × Reply :=
  match postExposures parseDate now authenticateKey (some (HttpExposureTransport.authorization sdkKey))
    (some writer.writer) (some (HttpExposureTransport.body batch)) with
  | .ok (some after, reply) =>
    let made := after.inFlight.drop writer.writer.inFlight.length
    ({ writer with writer := after, writes := writer.writes ++ made.map fun rows => { rows, stage := .inserting } },
      reply)
  | _ => (writer, internalError)

end

/-! ## The whole path -/

structure ExposurePath where
  hosts : List Host
  writer : WriterRun
  /-- The inserts whose rows are in the table, in the order they got there. -/
  inserted : List ℕ

namespace ExposurePath

def new (processes : List (String × ExposureBufferOptions)) (maxInFlightRows : Option Number) : ExposurePath where
  hosts := processes.map fun process => { sdkKey := process.1, run := .new process.2, posts := [] }
  writer := .new maxInFlightRows
  inserted := []

inductive Action where
  | act (i : ℕ) (a : ExposureRun.Action)
  /-- A request arrives; `known` is whether its key is found. -/
  | arrive (i p : ℕ) (now : ℤ) (known : Bool)
  | finish (i p : ℕ) (success : Bool)
  | write (a : WriterRun.Action)
  | insert (w : ℕ)

variable (parseDate : String → Option ℤ) (authenticateKey : String → Option AuthenticatedKey) (s : ExposurePath)

def post? (i p : ℕ) : Option (Host × Post) := do
  let host ← s.hosts[i]?
  let post ← host.posts[p]?
  some (host, post)

/-- A send succeeds when a reply is there that the transport takes for one; it can fail at any
time. An insert that is reported to have succeeded has put its rows into the table. -/
def enabled : Action → Bool
  | .act i a => isLocal a && s.hosts[i]?.any fun host => host.run.enabled a
  | .arrive i p _ _ => (s.post? i p).any fun (_, post) => post.reply.isNone
  | .finish i p success => (s.post? i p).any fun (_, post) => post.waits && (!success || post.reply.any isOk)
  | .write (.enqueue _) => false
  | .write (.insertFulfilled w) => s.writer.enabled (.insertFulfilled w) && decide (w ∈ s.inserted)
  | .write a => s.writer.enabled a
  | .insert w => decide (w < s.writer.writes.length ∧ w ∉ s.inserted)

def effect : Action → ExposurePath
  | .act i a =>
    match s.hosts[i]? with
    | none => s
    | some host => { s with hosts := s.hosts.set i (host.act a) }
  | .arrive i p now known =>
    match s.post? i p with
    | none => s
    | some (host, post) =>
      let (writer, reply) :=
        answer parseDate now (fun key => if known then authenticateKey key else none) s.writer host.sdkKey post.batch
      let rows := (writer.writes.drop s.writer.writes.length).flatMap Write.rows
      { s with writer, hosts := s.hosts.set i (host.arrive p post reply rows) }
  | .finish i p success =>
    match s.post? i p with
    | none => s
    | some (host, post) => { s with hosts := s.hosts.set i (host.finish p post success) }
  | .write a => { s with writer := s.writer.effect a }
  | .insert w => { s with inserted := s.inserted ++ [w] }

def machine : Machine ExposurePath Action where
  enabled := enabled
  effect := effect parseDate authenticateKey

/-! ## What there is to count -/

def stored : List ExposureRow := s.inserted.flatMap s.writer.rowsOf

def recorded : ℕ := tally (fun host => host.run.buffer.stats.recorded) s.hosts

def underway : ℕ :=
  tally (fun host => host.run.buffer.stats.queued + (host.run.inFlight.map List.length).sum) s.hosts +
    tally Write.uncounted s.writer.writes

def rejected : ℕ := tally (fun host => tally (fun post => (post.reply.map rejectedIn).getD 0) host.posts) s.hosts

/-- The losses that a counter or a reply shows: batches a process gave up, events the route
rejected, rows of failed inserts. -/
def lost : ℕ := tally (fun host => host.run.buffer.stats.failed) s.hosts + s.rejected + s.writer.stats.failed

end ExposurePath

/-! ## The row of an event -/

/-- The row an event becomes, if it is accepted: it does not depend on when that is. -/
def rowOf (parseDate : String → Option ℤ) (scope : AuthenticatedKey) (event : ExposureEvent) : Option ExposureRow :=
  (parseDate event.timestamp).map fun instant =>
    { tenantId := scope.tenantId
      environmentKey := scope.environmentKey
      flagKey := event.flagKey
      variationKey := event.variationKey
      contextKey := event.contextKey
      rulesetVersion := event.rulesetVersion
      timestamp := toClickHouseDateTime instant
      dedupeKey := event.dedupeKey }

def rowsOf (parseDate : String → Option ℤ) (authenticateKey : String → Option AuthenticatedKey) (sdkKey : String)
    (events : List ExposureEvent) : List ExposureRow :=
  match authenticateKey sdkKey with
  | none => []
  | some scope => events.filterMap (rowOf parseDate scope)

def ExposurePath.recordedRows (parseDate : String → Option ℤ) (authenticateKey : String → Option AuthenticatedKey)
    (s : ExposurePath) : List ExposureRow :=
  s.hosts.flatMap fun host => rowsOf parseDate authenticateKey host.sdkKey host.run.history

variable {parseDate : String → Option ℤ} {now : ℤ} {scope : AuthenticatedKey}

theorem field_rulesetVersion {event : ExposureEvent} {version : Number}
    (h : event.toJson.field? "rulesetVersion" = some (.num version)) : version = event.rulesetVersion := by
  have hWritten : event.toJson.field? "rulesetVersion" =
      some (if event.rulesetVersion.isFinite then .num event.rulesetVersion else .null) := rfl
  rw [hWritten] at h
  split at h
  · exact (Json.num.inj (Option.some.inj h)).symm
  · cases h

theorem rowOf_eq_some {event : ExposureEvent} {row : ExposureRow}
    (h : validateEvent parseDate now scope event.toJson = .ok (.ok row)) : rowOf parseDate scope event = some row := by
  obtain ⟨flagKey, variationKey, contextKey, dedupeKey, version, text, instant, hFields, hText, hInstant, rfl⟩ :=
    validateEvent_eq_row.mp h
  obtain ⟨hFlag, hVariation, hContext, hDedupe, hVersion⟩ := usableFields_eq_ok.mp hFields
  obtain rfl : text = event.timestamp := (Except.ok.inj hText).symm
  rw [rowOf, (usableInstant_eq_ok.mp hInstant).1, ((usableField_eq_ok rfl).mp hFlag).2,
    ((usableField_eq_ok rfl).mp hVariation).2, ((usableField_eq_ok rfl).mp hContext).2,
    ((usableField_eq_ok rfl).mp hDedupe).2, field_rulesetVersion (usableVersion_eq_ok.mp hVersion).1]
  rfl

/-- A batch comes apart into rows, in their order, and rejected events. -/
theorem validateFrom_batch {index : ℕ} {outcome outcome' : ValidationOutcome} {batch : List ExposureEvent}
    (h : validateFrom parseDate now scope index outcome (batch.map ExposureEvent.toJson) = .ok outcome') :
    (∃ added, outcome'.rows = outcome.rows ++ added ∧ added.Sublist (batch.filterMap (rowOf parseDate scope))) ∧
      outcome'.rows.length + outcome'.rejected.length =
        outcome.rows.length + outcome.rejected.length + batch.length := by
  induction batch generalizing index outcome with
  | nil =>
    obtain rfl := Except.ok.inj h
    exact ⟨⟨[], (List.append_nil _).symm, List.Sublist.slnil⟩, rfl⟩
  | cons event rest ih =>
    obtain ⟨verdict, hVerdict, hRest⟩ := bind_eq_ok.mp h
    obtain ⟨⟨added, hRows, hAdded⟩, hLength⟩ := ih hRest
    cases verdict with
    | ok row =>
      refine ⟨⟨row :: added, ?_, ?_⟩, ?_⟩
      · rw [hRows]
        exact List.append_assoc _ [row] added
      · rw [List.filterMap_cons_some (rowOf_eq_some hVerdict)]
        exact hAdded.cons_cons row
      · rw [hLength]
        simp only [ValidationOutcome.add, List.length_append, List.length_cons, List.length_nil]
        omega
    | error reason =>
      refine ⟨⟨added, hRows, ?_⟩, ?_⟩
      · rw [List.filterMap_cons]
        split
        · exact hAdded
        · exact hAdded.cons _
      · rw [hLength]
        simp only [ValidationOutcome.add, List.length_append, List.length_cons, List.length_nil]
        omega

end Flagship.EndToEnd
