import Mitiflow.ReplayLog

namespace Mitiflow

open Library List

/-!
# Resuming a replay

A replayer is a buffered page reader of its log: the events its scope and end
select, in clock order.  What a resumed replayer delivers is what lies above
the committed cursor, so whatever the buffer held at the commit is lost.
-/

/-! ## A replayer as a page reader -/

/-- The ends that neither limit the number of events nor go live. -/
def ReplayEnd.staysStored : ReplayEnd → Bool
  | .atHlc _ | .atTime _ | .tailing _ => true
  | .bounded _ | .thenLive => false

namespace EventReplayer

def reader (replayer : EventReplayer) :
    PageReader StoredEvent HlcTimestamp where
  cursor := replayer.cursor
  buffer := replayer.buffer

def log (replayer : EventReplayer) (backend : FjallBackend) :
    List StoredEvent :=
  replayLog backend.db replayer.scope replayer.replayEnd.beforeHlc

variable {backend : FjallBackend} {replayer : EventReplayer}

def page (replayer : EventReplayer) (backend : FjallBackend) :
    List StoredEvent :=
  (above hlcOf replayer.cursor (replayer.log backend)).take replayer.batchSize

/-- A poll whose limit leaves the page whole returns it. -/
theorem poll_of_pollLimit
    (content : IndexedContent backend.db)
    (goesOn : replayer.exhausted = false)
    {limit : Nat}
    (isLimit : replayer.pollLimit = some limit)
    (positive : 1 ≤ limit)
    (whole :
      (above hlcOf replayer.cursor (replayer.log backend)).take limit =
        replayer.page backend) :
    replayer.poll backend =
      ({ replayer with
          cursor := replayer.cursorAfter (replayer.page backend)
          delivered :=
            replayer.delivered + (replayer.page backend).length
          exhausted := replayer.exhaustedAfter (replayer.page backend) },
        .ok (replayer.page backend)) := by
  have polled :
      replayer.pollLocal backend limit replayer.replayEnd.beforeHlc =
        replayer.page backend :=
    (queryReplay_filters content replayer.cursor replayer.replayEnd.beforeHlc
      positive).trans whole
  simp only [poll, goesOn, Bool.false_eq_true, ↓reduceIte, isLimit, polled]

/-- A poll returns the page above the cursor. -/
theorem poll_eq
    (content : ReplayContent backend.db)
    (stays : replayer.replayEnd.staysStored = true)
    (goesOn : replayer.exhausted = false) :
    replayer.poll backend =
      ({ replayer with
          cursor := replayer.cursorAfter (replayer.page backend)
          delivered :=
            replayer.delivered + (replayer.page backend).length
          exhausted := replayer.exhaustedAfter (replayer.page backend) },
        .ok (replayer.page backend)) := by
  have limit : replayer.pollLimit = some replayer.batchSize := by
    unfold pollLimit
    cases isEnd : replayer.replayEnd with
    | bounded limit =>
      rw [isEnd] at stays
      cases stays
    | atHlc hlc =>
      rfl
    | atTime time =>
      rfl
    | tailing pollInterval =>
      rfl
    | thenLive =>
      rfl
  exact poll_of_pollLimit content.indexedContent goesOn limit
    replayer.batchPositive rfl

/-- What every call of a replayer leaves alone. -/
structure SameSettings (first second : EventReplayer) : Prop where
  scope : first.scope = second.scope
  replayEnd : first.replayEnd = second.replayEnd
  batchSize : first.batchSize = second.batchSize

theorem SameSettings.log
    {first second : EventReplayer}
    (same : SameSettings first second)
    (backend : FjallBackend) :
    first.log backend = second.log backend := by
  rw [EventReplayer.log, EventReplayer.log, same.scope, same.replayEnd]

theorem SameSettings.trans
    {first second third : EventReplayer}
    (earlier : SameSettings first second)
    (later : SameSettings second third) :
    SameSettings first third :=
  ⟨earlier.scope.trans later.scope, earlier.replayEnd.trans later.replayEnd,
    earlier.batchSize.trans later.batchSize⟩

end EventReplayer

/-! ## Calls and commits -/

/-- A call on a replayer. -/
inductive ReplayCall where
  | recv
  | commit (groupId : String)
  deriving Repr, DecidableEq

/-- A replayer in use: what it returned and the offsets it persisted. -/
structure ReplaySession where
  replayer : EventReplayer
  returned : List RawEvent
  offsets : ReplayOffsets

namespace ReplaySession

def perform
    (backend : FjallBackend)
    (session : ReplaySession) : ReplayCall → ReplaySession
  | .recv =>
    let (replayer, received) := session.replayer.recvRaw backend
    { session with
      replayer := replayer
      returned := session.returned ++ received.event?.toList }
  | .commit groupId =>
    { session with
      offsets := session.replayer.commit session.offsets groupId }

def run
    (backend : FjallBackend)
    (session : ReplaySession)
    (calls : List ReplayCall) : ReplaySession :=
  calls.foldl (perform backend) session

end ReplaySession

/-- A fresh session of a replayer. -/
def EventReplayer.session
    (replayer : EventReplayer)
    (offsets : ReplayOffsets) : ReplaySession where
  replayer := replayer
  returned := []
  offsets := offsets

variable {groupId : String}

namespace ReplaySession

variable {backend : FjallBackend} {replayer : EventReplayer}

end ReplaySession

/-! ## What a resumed replayer delivers -/

/-- The publisher and sequence of an event. -/
def RawEvent.eventKey (raw : RawEvent) : EventKey where
  publisherId := raw.publisherId
  seq := raw.seq

/-- Some number of `recv_raw` calls returns the event of a key. -/
def EventReplayer.Delivers
    (replayer : EventReplayer)
    (backend : FjallBackend)
    (key : EventKey) : Prop :=
  ∃ count,
    key ∈
      ((replayer.session fun _ => none).run backend
        (List.replicate count .recv)).returned.map RawEvent.eventKey

namespace EventReplayerBuilder

end EventReplayerBuilder

/-- A replayer of the same scope and end at a group's committed position. -/
inductive ResumedAt
    (builder : EventReplayerBuilder)
    (offsets : ReplayOffsets)
    (groupId : String)
    (resumed : EventReplayer) : Prop where
  | built
      (other : EventReplayerBuilder)
      (scope : other.scope = builder.scope)
      (replayEnd : other.replayEnd = builder.replayEnd)
      (position : other.position = .committedOffset groupId)
      (isBuilt : other.build offsets = .ok resumed)
  | sought
      (replayer : EventReplayer)
      (scope : replayer.scope = builder.scope)
      (replayEnd : replayer.replayEnd = builder.replayEnd)
      (isSought :
        replayer.seekToCommitted offsets groupId = (resumed, true))

section Resume

variable {backend : FjallBackend} {builder : EventReplayerBuilder}
  {offsets : ReplayOffsets}

variable {replayer : EventReplayer}

theorem EventReplayerBuilder.build_spec
    (isBuilt : builder.build offsets = .ok replayer) :
    builder.startCursor offsets = .ok replayer.cursor ∧
      replayer.scope = builder.scope ∧
      replayer.replayEnd = builder.replayEnd ∧
      replayer.batchSize = builder.batchSize ∧
      replayer.buffer = [] ∧
      replayer.exhausted = false := by
  unfold build at isBuilt
  cases start : builder.startCursor offsets with
  | error failure =>
    rw [start] at isBuilt
    cases isBuilt
  | ok cursor =>
    rw [start] at isBuilt
    cases isBuilt
    exact ⟨rfl, rfl, rfl, rfl, rfl, rfl⟩

variable {cursor : HlcTimestamp}

/-- A resumed replayer stands at the committed cursor. -/
theorem ResumedAt.spec
    {resumed : EventReplayer}
    (isResumed : ResumedAt builder offsets groupId resumed)
    (committed : offsets groupId = some cursor) :
    resumed.cursor = cursor ∧
      resumed.scope = builder.scope ∧
      resumed.replayEnd = builder.replayEnd ∧
      resumed.buffer = [] ∧
      resumed.exhausted = false := by
  cases isResumed with
  | built other scope replayEnd position isBuilt =>
    obtain ⟨start, sameScope, sameEnd, _, noBuffer, goesOn⟩ :=
      EventReplayerBuilder.build_spec isBuilt
    simp only [EventReplayerBuilder.startCursor, position, committed,
      Except.ok.injEq] at start
    exact ⟨start.symm, sameScope.trans scope, sameEnd.trans replayEnd,
      noBuffer, goesOn⟩
  | sought replayer scope replayEnd isSought =>
    simp only [EventReplayer.seekToCommitted, committed,
      Prod.mk.injEq] at isSought
    rw [← isSought.1]
    exact ⟨rfl, scope, replayEnd, rfl, rfl⟩

section

variable
  (content : ReplayContent backend.db)
  (stays : replayer.replayEnd.staysStored = true)
  (noBuffer : replayer.buffer = [])
  (goesOn : replayer.exhausted = false)

include content stays noBuffer goesOn

end

namespace EventReplayerBuilder

variable {first : EventReplayer}

end EventReplayerBuilder

end Resume

end Mitiflow
