import Flagship.Lib.Json
import Flagship.Lib.Transition

/-! # The exposure pipeline

The buffer of `packages/sdk-js/src/exposure.ts`, and the world around it: calls of `record` at any
time, a timer, and sends that take as long as they like and end either way. What a batch send
awaits is a step of its own, and so is the `finally` after the error handler, which may call back.
-/

namespace Flagship.Sdk

open Lib

structure ExposureEvent where
  flagKey : String
  variationKey : String
  contextKey : String
  rulesetVersion : Number
  timestamp : String
  dedupeKey : String

/-- `JSON.stringify` writes `null` for a number that is not finite. -/
def ExposureEvent.toJson (event : ExposureEvent) : Json :=
  .obj [("flagKey", .str event.flagKey), ("variationKey", .str event.variationKey),
    ("contextKey", .str event.contextKey),
    ("rulesetVersion", if event.rulesetVersion.isFinite then .num event.rulesetVersion else .null),
    ("timestamp", .str event.timestamp), ("dedupeKey", .str event.dedupeKey)]

namespace HttpExposureTransport

/-- The request of `send`: its header, and its body as the server reads it. -/
def authorization (sdkKey : String) : String := s!"Bearer {sdkKey}"

def body (events : List ExposureEvent) : Json := .obj [("events", .arr (events.map ExposureEvent.toJson))]

end HttpExposureTransport

/-- What a caller gives `record`. -/
structure ExposureInput where
  flagKey : String
  variationKey : String
  contextKey : String
  rulesetVersion : Number
  timestamp : Option String
  dedupeKey : Option String

structure ExposureBufferOptions where
  batchSize : Option Number
  maxQueueSize : Option Number
  samplingThreshold : Option Number

structure ExposureStats where
  recorded : ℕ
  dropped : ℕ
  sampled : ℕ
  sent : ℕ
  failed : ℕ
  queued : ℕ
  samplingRate : Number

structure ExposureBuffer where
  batchSize : Number
  maxQueueSize : Number
  samplingThreshold : Number
  queue : List ExposureEvent
  timer : Bool
  closed : Bool
  flushInFlight : Bool
  sequence : ℕ
  recorded : ℕ
  dropped : ℕ
  sampled : ℕ
  sent : ℕ
  failed : ℕ

inductive RecordReply where
  | returned (recorded : Bool)
  | thrown
deriving DecidableEq

/-- A call of `record`: its reply, the event it queued, and the batch it handed to the transport. -/
structure RecordCall where
  reply : RecordReply
  buffer : ExposureBuffer
  event : Option ExposureEvent
  batch : Option (List ExposureEvent)

namespace ExposureBuffer

def new (options : ExposureBufferOptions) : ExposureBuffer where
  batchSize := options.batchSize.getD (.ofNat 100)
  maxQueueSize := options.maxQueueSize.getD (.ofNat 10000)
  samplingThreshold := options.samplingThreshold.getD (.finite (1 / 2))
  queue := []
  timer := false
  closed := false
  flushInFlight := false
  sequence := 0
  recorded := 0
  dropped := 0
  sampled := 0
  sent := 0
  failed := 0

variable (buffer : ExposureBuffer)

def start : ExposureBuffer :=
  if buffer.timer || buffer.closed then buffer else { buffer with timer := true }

def samplingRate : Number :=
  let occupancy := (Number.ofNat buffer.queue.length).div buffer.maxQueueSize
  if occupancy.le buffer.samplingThreshold then .ofNat 1
  else
    let overage := (occupancy.sub buffer.samplingThreshold).div ((Number.ofNat 1).sub buffer.samplingThreshold)
    (Number.ofNat 0).max ((Number.ofNat 1).sub overage)

/-- `flush` up to its `await`, with the batch it hands over. -/
def flush : ExposureBuffer × Option (List ExposureEvent) :=
  if buffer.flushInFlight || buffer.queue.isEmpty then (buffer, none)
  else ({ buffer with flushInFlight := true, queue := [] }, some buffer.queue)

def eventOf (event : ExposureInput) (timestamp : String) : ExposureEvent where
  flagKey := event.flagKey
  variationKey := event.variationKey
  contextKey := event.contextKey
  rulesetVersion := event.rulesetVersion
  timestamp := timestamp
  dedupeKey := event.dedupeKey.getD
    s!"{event.contextKey}:{event.flagKey}:{event.rulesetVersion.toText}:{buffer.sequence}"

def push (event : ExposureEvent) : ExposureBuffer :=
  { buffer with queue := buffer.queue ++ [event], recorded := buffer.recorded + 1 }

/-- `random` is what `Math.random()` gives, and `clock` the text of the time, `none` where making
it throws. -/
def record (event : ExposureInput) (random : Number) (clock : Option String) : RecordCall :=
  if buffer.closed then { reply := .returned false, buffer, event := none, batch := none }
  else if buffer.maxQueueSize.le (.ofNat buffer.queue.length) then
    { reply := .returned false, buffer := { buffer with dropped := buffer.dropped + 1 }, event := none, batch := none }
  else if buffer.samplingRate.lt (.ofNat 1) && buffer.samplingRate.le random then
    { reply := .returned false, buffer := { buffer with sampled := buffer.sampled + 1 }, event := none, batch := none }
  else
    let buffer := { buffer with sequence := buffer.sequence + 1 }
    match event.timestamp.or clock with
    | none => { reply := .thrown, buffer, event := none, batch := none }
    | some timestamp =>
      let event := buffer.eventOf event timestamp
      let buffer := buffer.push event
      if buffer.batchSize.le (.ofNat buffer.queue.length) then
        { reply := .returned true, buffer := buffer.flush.1, event := some event, batch := buffer.flush.2 }
      else { reply := .returned true, buffer, event := some event, batch := none }

/-- `close` up to its `flush`. -/
def close : ExposureBuffer := { buffer with closed := true, timer := false }

def sendSucceeded (batch : List ExposureEvent) : ExposureBuffer :=
  { buffer with sent := buffer.sent + batch.length, flushInFlight := false }

def sendFailed (batch : List ExposureEvent) : ExposureBuffer :=
  { buffer with failed := buffer.failed + batch.length }

/-- The `finally` of a failed send. -/
def settle : ExposureBuffer := { buffer with flushInFlight := false }

def stats : ExposureStats where
  recorded := buffer.recorded
  dropped := buffer.dropped
  sampled := buffer.sampled
  sent := buffer.sent
  failed := buffer.failed
  queued := buffer.queue.length
  samplingRate := buffer.samplingRate

end ExposureBuffer

/-! ## Runs -/

structure ExposureRun where
  buffer : ExposureBuffer
  /-- Batches whose send has not ended, and how many error handlers are at work. -/
  inFlight : List (List ExposureEvent)
  reporting : ℕ
  /-- Every batch handed to the transport, and every event recorded, in order. -/
  handed : List (List ExposureEvent)
  history : List ExposureEvent
  /-- The calls of `record` before `close`, and those of them that returned. -/
  calls : ℕ
  returned : ℕ

namespace ExposureRun

def new (options : ExposureBufferOptions) : ExposureRun where
  buffer := .new options
  inFlight := []
  reporting := 0
  handed := []
  history := []
  calls := 0
  returned := 0

inductive Action where
  | start
  | tick
  | flush
  | close
  | record (event : ExposureInput) (random : Number) (clock : Option String)
  | sendSucceeded (i : ℕ)
  | sendFailed (i : ℕ)
  | settle

variable (run : ExposureRun)

def hand (batch : Option (List ExposureEvent)) : ExposureRun :=
  { run with inFlight := run.inFlight ++ batch.toList, handed := run.handed ++ batch.toList }

def flush : ExposureRun := { run with buffer := run.buffer.flush.1 }.hand run.buffer.flush.2

def record (event : ExposureInput) (random : Number) (clock : Option String) : ExposureRun :=
  let call := run.buffer.record event random clock
  { run with
    buffer := call.buffer
    history := run.history ++ call.event.toList
    calls := if run.buffer.closed then run.calls else run.calls + 1
    returned :=
      if run.buffer.closed = true ∨ call.reply = RecordReply.thrown then run.returned
      else run.returned + 1 }.hand call.batch

def enabled : Action → Bool
  | .start | .flush | .close => true
  | .tick => run.buffer.timer
  | .record _ random _ => (Number.ofNat 0).le random && random.lt (.ofNat 1)
  | .sendSucceeded i | .sendFailed i => decide (i < run.inFlight.length)
  | .settle => decide (0 < run.reporting)

def effect : Action → ExposureRun
  | .start => { run with buffer := run.buffer.start }
  | .tick | .flush => run.flush
  | .close => { run with buffer := run.buffer.close }.flush
  | .record event random clock => run.record event random clock
  | .sendSucceeded i =>
    { run with buffer := run.buffer.sendSucceeded (run.inFlight.getD i []), inFlight := run.inFlight.eraseIdx i }
  | .sendFailed i =>
    { run with
      buffer := run.buffer.sendFailed (run.inFlight.getD i [])
      inFlight := run.inFlight.eraseIdx i
      reporting := run.reporting + 1 }
  | .settle => { run with buffer := run.buffer.settle, reporting := run.reporting - 1 }

def machine : Machine ExposureRun Action where
  enabled := enabled
  effect := effect

end ExposureRun

end Flagship.Sdk
