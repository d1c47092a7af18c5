import Mitiflow.CatchUpReader

namespace Mitiflow

open Library

/-!
# The offload cycle

A slow subscriber pauses its forwarders, drains the sample channel into the
gap detector, and reads from the stores until nothing new is returned and the
event channel has emptied enough; then the live stream resumes.  The cycle
waits on its environment at every turn of the catch-up loop, so a run is given
by a list of rounds, each saying what the session, the clock and the event
channel did in it.
-/

/-- A decoded sample: metadata, key expression and payload. -/
structure DecodedSample where
  metadata : EventMeta
  key : String
  payload : Bytes
  deriving Repr, DecidableEq

namespace DecodedSample

def cursorKey (sample : DecodedSample) : CursorKey :=
  (sample.metadata.pubId, extractPartition sample.key)

def position (sample : DecodedSample) : Nat :=
  sample.metadata.seq.val

/-- The event delivered for a sample. -/
def event (sample : DecodedSample) : RawEvent :=
  rawEvent sample.metadata sample.key sample.payload

end DecodedSample

/-- Consumer state in the offload state machine. -/
inductive ConsumerState where
  | live
  | draining
  | catchingUp
  deriving Repr, DecidableEq

/-- Observable events of one cycle. -/
inductive OffloadEvent where
  | draining (buffered : Nat)
  | catchingUp (behindBy : Nat)
  | caughtUp (eventsReplayed : Nat)
  | resumed
  deriving Repr, DecidableEq

/-- The lag detector's measurements; `reset` forgets what it has observed. -/
structure LagDetector where
  channelCapacity : Nat
  heartbeatLag : Cursors CursorKey := fun _ => none
  sustainedSince : Option Nat := none

def LagDetector.reset (detector : LagDetector) : LagDetector :=
  { detector with
    heartbeatLag := fun _ => none
    sustainedSince := none }

/-- The manager of the offload cycle. -/
structure OffloadManager where
  config : OffloadConfig
  storeKeyPrefix : String
  state : ConsumerState
  lagDetector : LagDetector
  partitions : List U32
  forwardersPaused : Bool

/-- What happens around one turn of the catch-up loop. -/
structure CatchUpRound where
  /-- The cursor map in iteration order. -/
  snapshot : List (CursorKey × Nat)
  get : Get
  batchDuration : Nat
  channelLen : Nat
  /-- How many sends succeed before the receiver is dropped, if it is. -/
  room : Option Nat

/-- How the delivery of a batch ended. -/
inductive BatchEnd where
  | delivered
  | closed
  | panicked
  deriving Repr, DecidableEq

/-- How far a cycle got. -/
inductive CycleStatus where
  | catchingUp
  | caughtUp
  | closed
  | panicked
  deriving Repr, DecidableEq

/-- The state of the catch-up loop. -/
structure CatchUpState where
  reader : CatchUpReader
  detector : GapDetector
  sent : List RawEvent
  eventsReplayed : Nat

/-- The result of a cycle. -/
structure CycleOutcome where
  manager : OffloadManager
  detector : GapDetector
  sent : List RawEvent
  emitted : List OffloadEvent
  status : CycleStatus

/--
Present every buffered sample to the detector and drop it; `none` is the
detector's overflow.
-/
def drainSampleCursors (detector : GapDetector)
    (samples : List DecodedSample) : Option GapDetector :=
  samples.foldlM
    (fun detector sample =>
      (detector.onSample sample.metadata.pubId
        (extractPartition sample.key) sample.metadata.seq).map Prod.fst)
    detector

/--
Send a batch.  The detector is moved before each send and its verdict is
ignored.
-/
def deliverBatch :
    Option Nat → GapDetector → List RawEvent →
      GapDetector × List RawEvent × BatchEnd
  | _, detector, [] => (detector, [], .delivered)
  | room, detector, raw :: rest =>
    match detector.onSample raw.publisherId
        (extractPartition raw.keyExpr) raw.seq with
    | none => (detector, [], .panicked)
    | some (moved, _) =>
      if room = some 0 then
        (moved, [], .closed)
      else
        let (final, sent, ended) :=
          deliverBatch (room.map (· - 1)) moved rest
        (final, raw :: sent, ended)

/-- One turn of the catch-up loop, with the status it ends the loop with. -/
def catchUpTurn
    (display : PublisherId → String)
    (resumeAt : Nat)
    (state : CatchUpState)
    (round : CatchUpRound) : CatchUpState × Option CycleStatus :=
  let (advanced, batch) :=
    state.reader.nextBatch display round.get round.snapshot
  let reader := advanced.adjustBatchSize round.batchDuration
  if batch = [] then
    ({ state with reader := reader },
      if round.channelLen ≤ resumeAt then some .caughtUp else none)
  else
    let (detector, sent, ended) :=
      deliverBatch round.room state.detector batch
    ({ reader := reader
       detector := detector
       sent := state.sent ++ sent
       eventsReplayed := state.eventsReplayed + batch.length },
      match ended with
      | .delivered => none
      | .closed => some .closed
      | .panicked => some .panicked)

/-- The catch-up loop along the rounds its environment provides. -/
def catchUpLoop (display : PublisherId → String) (resumeAt : Nat) :
    List CatchUpRound → CatchUpState → CatchUpState × CycleStatus
  | [], state => (state, .catchingUp)
  | round :: rest, state =>
    match catchUpTurn display resumeAt state round with
    | (next, none) => catchUpLoop display resumeAt rest next
    | (next, some status) => (next, status)

namespace OffloadManager

/-- The loop's state at the switchover: the reader gets the cursors. -/
def startCatchUp (manager : OffloadManager) (drained : GapDetector) :
    CatchUpState where
  reader :=
    { storeKeyPrefix := manager.storeKeyPrefix
      cursors := drained.snapshotCursors
      batchSize := manager.config.catchUpBatchSize
      config := manager.config
      partitions := manager.partitions }
  detector := drained
  sent := []
  eventsReplayed := 0

/--
One cycle.  `values` lists the values of the drained cursors, whose sum is
reported and may overflow.
-/
def runOffloadCycleInner
    (display : PublisherId → String)
    (manager : OffloadManager)
    (detector : GapDetector)
    (samples : List DecodedSample)
    (values : List Nat)
    (rounds : List CatchUpRound) : CycleOutcome :=
  let paused := { manager with forwardersPaused := true }
  let draining := OffloadEvent.draining samples.length
  match drainSampleCursors detector samples with
  | none => ⟨paused, detector, [], [draining], .panicked⟩
  | some drained =>
    let catchingUp := { paused with state := .catchingUp }
    if values.sum > u64Max then
      ⟨catchingUp, drained, [], [draining], .panicked⟩
    else
      let behind := [draining, .catchingUp values.sum]
      let (final, status) :=
        catchUpLoop display (manager.lagDetector.channelCapacity / 4)
          rounds (manager.startCatchUp drained)
      match status with
      | .caughtUp =>
        ⟨{ catchingUp with
            forwardersPaused := false
            state := .live
            lagDetector := manager.lagDetector.reset },
          final.detector, final.sent,
          behind ++ [.caughtUp final.eventsReplayed, .resumed],
          .caughtUp⟩
      | _ => ⟨catchingUp, final.detector, final.sent, behind, status⟩

/-- One cycle; the forwarders are resumed on every return. -/
def runOffloadCycle
    (display : PublisherId → String)
    (manager : OffloadManager)
    (detector : GapDetector)
    (samples : List DecodedSample)
    (values : List Nat)
    (rounds : List CatchUpRound) : CycleOutcome :=
  let outcome :=
    manager.runOffloadCycleInner display detector samples values rounds
  match outcome.status with
  | .caughtUp | .closed =>
    { outcome with
      manager := { outcome.manager with forwardersPaused := false } }
  | .catchingUp | .panicked => outcome

end OffloadManager

/-! ## The live stream -/

/-- A live sample, and whether the event channel has room for it. -/
structure LiveSample where
  sample : DecodedSample
  accepted : Bool
  deriving Repr, DecidableEq

/-- The event to deliver and the gap to recover for a detector's verdict. -/
def handleSampleResult (result : SampleResult) (sample : DecodedSample) :
    Option RawEvent × Option MissInfo :=
  match result with
  | .deliver => (some sample.event, none)
  | .duplicate => (none, none)
  | .gap miss => (some sample.event, some miss)

/-- The events the live phase sends, without recovery of gaps. -/
def liveSends : GapDetector → List LiveSample → List RawEvent
  | _, [] => []
  | detector, live :: rest =>
    match detector.onSample live.sample.metadata.pubId
        (extractPartition live.sample.key) live.sample.metadata.seq with
    | none => []
    | some (next, result) =>
      ((handleSampleResult result live.sample).1.filter
        fun _ => live.accepted).toList ++ liveSends next rest

/-- Everything sent by a cycle and, once it returned, by the live phase. -/
def CycleOutcome.sentThrough
    (outcome : CycleOutcome)
    (live : List LiveSample) : List RawEvent :=
  match outcome.status with
  | .caughtUp | .closed => outcome.sent ++ liveSends outcome.detector live
  | .catchingUp | .panicked => outcome.sent

end Mitiflow
