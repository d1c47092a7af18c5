import Mitiflow.StoreQuery

namespace Mitiflow

open Library

/-!
# The event replayer

A replayer reads the event log in clock order, by batches above a cursor.  A
poll moves the cursor to the last event of the batch; `recv_raw` hands the
batch out one event at a time from a buffer.  Committing persists the cursor
under a group's name, and a new replayer can start there.

Events come from a local backend.  A replayer that goes live after the stored
events ends its stored phase where `recv_raw` reports so.
-/

/-- What to replay. -/
inductive ReplayScope where
  | all
  | partition (partition : U32)
  | key (key : String)
  | keyPrefix (leading : String)
  | publisher (publisher : PublisherId)
  deriving Repr, DecidableEq

/-- Where to start. -/
inductive ReplayPosition where
  | earliest
  | afterHlc (hlc : HlcTimestamp)
  | afterTime (time : DateTime)
  | committedOffset (groupId : String)
  deriving Repr, DecidableEq

/-- When to stop, or whether to keep going. -/
inductive ReplayEnd where
  | bounded (limit : Nat)
  | atHlc (hlc : HlcTimestamp)
  | atTime (time : DateTime)
  | tailing (pollInterval : Nat)
  | thenLive
  deriving Repr, DecidableEq

/-- Nanoseconds since the epoch as an unsigned value, zero out of range. -/
def unixNanos (time : DateTime) : U64 :=
  if -2 ^ 63 ≤ time ∧ time < 2 ^ 63 then
    Fin.ofNat (2 ^ 64) (time % 2 ^ 64).toNat
  else
    0

/-- The replay offsets persisted by group. -/
abbrev ReplayOffsets := String → Option HlcTimestamp

/-- The settings of a replayer under construction. -/
structure EventReplayerBuilder where
  scope : ReplayScope := .all
  position : ReplayPosition := .earliest
  replayEnd : ReplayEnd := .bounded u64Max
  batchSize : Nat := 500
  batchPositive : 1 ≤ batchSize := by decide

/-- A replayer of stored events. -/
structure EventReplayer where
  scope : ReplayScope
  replayEnd : ReplayEnd
  cursor : HlcTimestamp
  batchSize : Nat
  batchPositive : 1 ≤ batchSize
  buffer : List StoredEvent
  delivered : Nat
  exhausted : Bool

namespace EventReplayerBuilder

/-- The cursor a replayer starts with. -/
def startCursor
    (builder : EventReplayerBuilder)
    (offsets : ReplayOffsets) : Except Error HlcTimestamp :=
  match builder.position with
  | .earliest => .ok ⟨0, 0⟩
  | .afterHlc hlc => .ok hlc
  | .afterTime time => .ok ⟨unixNanos time, 0⟩
  | .committedOffset groupId =>
    match offsets groupId with
    | some hlc => .ok hlc
    | none => .error (.offsetNotFound groupId)

def build
    (builder : EventReplayerBuilder)
    (offsets : ReplayOffsets) : Except Error EventReplayer :=
  (builder.startCursor offsets).map fun cursor =>
    { scope := builder.scope
      replayEnd := builder.replayEnd
      cursor := cursor
      batchSize := builder.batchSize
      batchPositive := builder.batchPositive
      buffer := []
      delivered := 0
      exhausted := false }

end EventReplayerBuilder

/-- The event handed to the application for a stored one. -/
def storedToRaw (stored : StoredEvent) : RawEvent where
  id := stored.metadata.eventId
  seq := stored.metadata.seq
  publisherId := stored.metadata.publisherId
  keyExpr := stored.metadata.keyExpr
  payload := stored.payload
  timestamp := stored.metadata.timestamp

/-- What a call of `recv_raw` comes to. -/
inductive Recv where
  | event (raw : RawEvent)
  | failed (error : Error)
  /-- Tailing: nothing yet, the call keeps polling. -/
  | waiting
  /-- The stored events are over and the live subscription takes over. -/
  | live
  deriving Repr, DecidableEq

/-- The event a call returned, if it did. -/
def Recv.event? : Recv → Option RawEvent
  | .event raw => some raw
  | _ => none

/-- The exclusive upper clock bound of a replay. -/
def ReplayEnd.beforeHlc : ReplayEnd → Option HlcTimestamp
  | .atHlc hlc => some hlc
  | .atTime time => some ⟨unixNanos time, Fin.last _⟩
  | .bounded _ | .tailing _ | .thenLive => none

/-- Filters for a scope; a local backend holds one partition. -/
def ReplayScope.restrict (filters : ReplayFilters) :
    ReplayScope → ReplayFilters
  | .key exactKey => { filters with key := some exactKey }
  | .keyPrefix leading => { filters with keyPrefix := some leading }
  | .publisher wanted => { filters with publisherId := some wanted }
  | .all | .partition _ => filters

namespace EventReplayer

/-- Query the next events from a local backend. -/
def pollLocal
    (replayer : EventReplayer)
    (backend : FjallBackend)
    (limit : Nat)
    (beforeHlc : Option HlcTimestamp) : List StoredEvent :=
  backend.queryReplay
    (replayer.scope.restrict
      { afterHlc := some replayer.cursor
        beforeHlc := beforeHlc
        limit := some limit })

/-- How many events the next poll may return; `none` ends the replay. -/
def pollLimit (replayer : EventReplayer) : Option Nat :=
  match replayer.replayEnd with
  | .bounded limit =>
    let remaining := limit - replayer.delivered
    if remaining = 0 then none else some (min remaining replayer.batchSize)
  | _ => some replayer.batchSize

/-- The cursor after a batch: the clock value of its last event. -/
def cursorAfter
    (replayer : EventReplayer)
    (events : List StoredEvent) : HlcTimestamp :=
  (events.getLast?.bind (·.metadata.hlcTimestamp)).getD replayer.cursor

/-- Whether a batch ends the replay. -/
def exhaustedAfter
    (replayer : EventReplayer)
    (events : List StoredEvent) : Bool :=
  match replayer.replayEnd with
  | .bounded limit =>
    events = [] || limit ≤ replayer.delivered + events.length
  | .atHlc _ | .atTime _ => events = []
  | .tailing _ | .thenLive => false

def poll
    (replayer : EventReplayer)
    (backend : FjallBackend) :
    EventReplayer × Except Error (List StoredEvent) :=
  if replayer.exhausted then
    (replayer, .error .endOfReplay)
  else
    match replayer.pollLimit with
    | none => ({ replayer with exhausted := true }, .error .endOfReplay)
    | some limit =>
      let events :=
        replayer.pollLocal backend limit replayer.replayEnd.beforeHlc
      ({ replayer with
          cursor := replayer.cursorAfter events
          delivered := replayer.delivered + events.length
          exhausted := replayer.exhaustedAfter events },
        .ok events)

/-- Fetch the next batch from wherever the events are kept. -/
def pollVia
    (replayer : EventReplayer)
    (fetch :
      Nat → Option HlcTimestamp → Except Error (List StoredEvent)) :
    EventReplayer × Except Error (List StoredEvent) :=
  if replayer.exhausted then
    (replayer, .error .endOfReplay)
  else
    match replayer.pollLimit with
    | none => ({ replayer with exhausted := true }, .error .endOfReplay)
    | some limit =>
      match fetch limit replayer.replayEnd.beforeHlc with
      | .error failure => (replayer, .error failure)
      | .ok events =>
        ({ replayer with
            cursor := replayer.cursorAfter events
            delivered := replayer.delivered + events.length
            exhausted := replayer.exhaustedAfter events },
          .ok events)

/-- Hand out the next event, polling when the buffer is empty. -/
def recvRaw
    (replayer : EventReplayer)
    (backend : FjallBackend) : EventReplayer × Recv :=
  match replayer.buffer with
  | stored :: rest =>
    ({ replayer with buffer := rest }, .event (storedToRaw stored))
  | [] =>
    if replayer.exhausted && replayer.replayEnd ≠ .thenLive then
      (replayer, .failed .endOfReplay)
    else
      match replayer.poll backend with
      | (polled, .error failure) =>
        (polled,
          if failure = .endOfReplay ∧ replayer.replayEnd = .thenLive then
            .live
          else
            .failed failure)
      | (polled, .ok []) =>
        (polled,
          match replayer.replayEnd with
          | .tailing _ => .waiting
          | .thenLive => .live
          | _ =>
            if polled.exhausted then
              .failed .endOfReplay
            else
              .waiting)
      | (polled, .ok (stored :: rest)) =>
        ({ polled with buffer := rest }, .event (storedToRaw stored))

def seek (replayer : EventReplayer) (hlc : HlcTimestamp) : EventReplayer :=
  { replayer with cursor := hlc, buffer := [], exhausted := false }

/-- Persist the cursor for a group. -/
def commit
    (replayer : EventReplayer)
    (offsets : ReplayOffsets)
    (groupId : String) : ReplayOffsets :=
  Function.update offsets groupId (some replayer.cursor)

/-- Jump to the group's committed position, if it has one. -/
def seekToCommitted
    (replayer : EventReplayer)
    (offsets : ReplayOffsets)
    (groupId : String) : EventReplayer × Bool :=
  match offsets groupId with
  | some hlc => (replayer.seek hlc, true)
  | none => (replayer, false)

end EventReplayer

end Mitiflow
