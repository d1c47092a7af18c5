import Mitiflow.Library.LogHandover
import Mitiflow.WildcardPolls

namespace Mitiflow

open Library List

/-!
# Replaying, then live

A replayer that is to go live after the stored events starts a live
subscription with its first batch, or when a poll comes back empty.  The
subscription is declared by a task of its own, which forwards samples to a
channel.  On an empty poll the replayer drops from the channel what it has
returned before, forgets what that was, and from then on returns whatever the
channel holds.

The system is modelled step by step: events become visible in the stores and
are offered to subscribers, the live task declares its subscription and
forwards, and `recv_raw` polls and returns.  A poll takes time: its answer is
that of the stores when they are queried.
-/

/-! ## The replayer -/

/-- A replayer with its live side. -/
structure LiveReplayer where
  replayer : EventReplayer
  liveRx : Option (List RawEvent) := none
  overlapBuffer : List RawEvent := []
  seenSeqs : Finset (PublisherId × U64) := ∅
  liveActive : Bool := false
  /-- The call that went live still waits for its event. -/
  awaiting : Bool := false

/-- What a call of `recv_raw` comes to without waiting. -/
inductive LiveRecv where
  | event (raw : RawEvent)
  | polls
  | waits
  | failed (error : Error)
  deriving Repr, DecidableEq

/-- How the replayer recognises an event; the partition is left out. -/
def RawEvent.seenKey (raw : RawEvent) : PublisherId × U64 :=
  (raw.publisherId, raw.seq)

namespace LiveReplayer

def recvLive (node : LiveReplayer) : LiveReplayer × LiveRecv :=
  match node.liveRx with
  | some (raw :: rest) =>
    ({ node with liveRx := some rest, awaiting := false }, .event raw)
  | some [] => (node, .waits)
  | none => (node, .failed .channelClosed)

/-- `recv_raw` of a replayer that is to go live, up to its next wait. -/
def recvRaw (node : LiveReplayer) : LiveReplayer × LiveRecv :=
  if node.awaiting then
    node.recvLive
  else
    match node.replayer.buffer, node.overlapBuffer with
    | stored :: rest, _ =>
      let raw := storedToRaw stored
      ({ node with
          replayer := { node.replayer with buffer := rest }
          seenSeqs := insert raw.seenKey node.seenSeqs },
        .event raw)
    | [], raw :: rest => ({ node with overlapBuffer := rest }, .event raw)
    | [], [] => if node.liveActive then node.recvLive else (node, .polls)

/-- Create the live channel, unless there is one. -/
def startLiveSubscriber (node : LiveReplayer) : LiveReplayer :=
  { node with liveRx := some (node.liveRx.getD []) }

/-- Empty the channel, keeping what was not seen. -/
def flushOverlapBuffer (node : LiveReplayer) : LiveReplayer :=
  { node with
    liveRx := node.liveRx.map fun _ => []
    overlapBuffer :=
      node.overlapBuffer ++
        (node.liveRx.getD []).filter fun raw =>
          !decide (raw.seenKey ∈ node.seenSeqs) }

/-- The stored events are over. -/
def goLive (node : LiveReplayer) : LiveReplayer :=
  { node.startLiveSubscriber.flushOverlapBuffer with
    liveActive := true
    seenSeqs := ∅
    awaiting := true }

/-- Go on with what a poll came to; an error ends the call. -/
def handlePoll
    (node : LiveReplayer)
    (fetched : Except Error (List StoredEvent)) :
    LiveReplayer × Option Error :=
  match node.replayer.pollVia fun _ _ => fetched with
  | (polled, .ok []) => ({ node with replayer := polled }.goLive, none)
  | (polled, .ok events) =>
    ({ node with
        replayer := { polled with buffer := polled.buffer ++ events }
      }.startLiveSubscriber,
      none)
  | (polled, .error failure) =>
    if failure = .endOfReplay then
      ({ node with replayer := polled }.goLive, none)
    else
      ({ node with replayer := polled }, some failure)

end LiveReplayer

/-- The key expression that the live task of a replay subscribes to. -/
def ReplayScope.liveKeyExpr (keyPrefix : String) : ReplayScope → String
  | .all | .publisher _ => keyPrefix ++ "/**"
  | .partition wanted => partitionKeyExpr keyPrefix wanted
  | .key exactKey => keyPrefix ++ "/p/*/k/" ++ exactKey ++ "/*"
  | .keyPrefix leading => keyPrefix ++ "/p/*/k/" ++ leading ++ "/**"

/-- Whether the live task of a replay forwards a sample. -/
def ReplayScope.forwards (raw : RawEvent) (scope : ReplayScope) : Bool :=
  !Text.contains raw.keyExpr.toList "/_".toList &&
    match scope with
    | .publisher wanted => raw.publisherId = wanted
    | .all | .partition _ | .key _ | .keyPrefix _ => true

/-- Whether a replay is about an event. -/
def ReplayScope.covers (metadata : EventMetadata) (scope : ReplayScope) :
    Bool :=
  scope.selects metadata &&
    match scope with
    | .partition wanted => extractPartition metadata.keyExpr = wanted
    | .all | .key _ | .keyPrefix _ | .publisher _ => true

/-! ## The system -/

/-- What the live side reads of the configuration, and the transport. -/
structure LiveConfig where
  keyPrefix : String
  eventChannelCapacity : Nat
  /-- Whether a subscription to a key expression receives a key. -/
  receives : String → String → Bool

/--
The replayer among the stores and the live stream.  Events are visible in the
stores, have been offered to subscribers, or have been polled; `inbox` is the
queue of the declared subscription.
-/
structure LiveSystem where
  position : HlcTimestamp
  node : LiveReplayer
  inFlight : Option (Except String (List StoredEvent)) := none
  visible : List StoredEvent := []
  offered : List RawEvent := []
  polled : List RawEvent := []
  declared : Bool := false
  inbox : List RawEvent := []
  returned : List RawEvent := []

/-- What happens next. -/
inductive LiveStep where
  | store (event : StoredEvent)
  | offer (raw : RawEvent)
  | declare
  | forward
  | query (answer : Except String (List StoredEvent))
  | answer
  | recv
  deriving Repr, DecidableEq

/-- What the stores may answer to a poll above a cursor. -/
def Answers
    (visible : List StoredEvent)
    (cursor : HlcTimestamp) : Except String (List StoredEvent) → Prop
  | .error _ => True
  | .ok batch =>
    (∀ event ∈ batch,
      event ∈ visible ∧
        event.metadata.hlcTimestamp = some (hlcOf event) ∧
          cursor < hlcOf event) ∧
    batch.Pairwise fun first second =>
      hlcOf first ≤ hlcOf second ∧ first ≠ second

instance Answers.decidable
    (visible : List StoredEvent)
    (cursor : HlcTimestamp) :
    (answer : Except String (List StoredEvent)) →
      Decidable (Answers visible cursor answer)
  | .error _ => inferInstanceAs (Decidable True)
  | .ok batch =>
    inferInstanceAs (Decidable
      ((∀ event ∈ batch,
        event ∈ visible ∧
          event.metadata.hlcTimestamp = some (hlcOf event) ∧
            cursor < hlcOf event) ∧
      batch.Pairwise fun first second =>
        hlcOf first ≤ hlcOf second ∧ first ≠ second))

theorem Answers.mono
    {visible more : List StoredEvent}
    {cursor : HlcTimestamp}
    {answer : Except String (List StoredEvent)}
    (answers : Answers visible cursor answer)
    (subset : visible ⊆ more) :
    Answers more cursor answer := by
  cases answer with
  | error message =>
    trivial
  | ok batch =>
    grind [Answers]

namespace LiveSystem

/-- The events the system is about, as they are returned. -/
def published (system : LiveSystem) : List RawEvent :=
  system.visible.map storedToRaw

def channel (system : LiveSystem) : List RawEvent :=
  system.node.liveRx.getD []

/-- A new event of the scope, after the start position. -/
def New (system : LiveSystem) (event : StoredEvent) : Prop :=
  system.node.replayer.scope.covers event.metadata = true ∧
    (∀ clock ∈ event.metadata.hlcTimestamp, system.position < clock) ∧
    ∀ other ∈ system.visible,
      other.metadata.eventId ≠ event.metadata.eventId

instance New.decidable (system : LiveSystem) (event : StoredEvent) :
    Decidable (system.New event) :=
  inferInstanceAs (Decidable (_ ∧ _ ∧ _))

variable (config : LiveConfig)

/-- Whether the declared subscription receives an event. -/
def hears (system : LiveSystem) (raw : RawEvent) : Bool :=
  system.declared &&
    config.receives
      (system.node.replayer.scope.liveKeyExpr config.keyPrefix) raw.keyExpr

/--
One step; one that cannot be taken changes nothing.  The sample that the live
task waits to send to a full channel counts as in the channel, since the next
receive takes it in.
-/
def step (system : LiveSystem) : LiveStep → LiveSystem
  | .store event =>
    if system.New event then
      { system with visible := system.visible ++ [event] }
    else
      system
  | .offer raw =>
    if raw ∈ system.published ∧ raw ∉ system.offered then
      { system with
        offered := system.offered ++ [raw]
        inbox :=
          if system.hears config raw then system.inbox ++ [raw]
          else system.inbox }
    else
      system
  | .declare =>
    if system.node.liveRx.isSome then
      { system with declared := true }
    else
      system
  | .forward =>
    match system.node.liveRx, system.inbox with
    | some queued, raw :: rest =>
      if system.node.replayer.scope.forwards raw then
        if queued.length ≤ config.eventChannelCapacity then
          { system with
            node := { system.node with liveRx := some (queued ++ [raw]) }
            inbox := rest }
        else
          system
      else
        { system with inbox := rest }
    | _, _ => system
  | .query answer =>
    if system.inFlight = none ∧ system.node.recvRaw.2 = .polls ∧
        Answers system.visible system.node.replayer.cursor answer then
      { system with inFlight := some answer }
    else
      system
  | .answer =>
    match system.inFlight with
    | some (.ok batch) =>
      { system with
        node := (system.node.handlePoll (.ok batch)).1
        inFlight := none
        polled := system.polled ++ batch.map storedToRaw }
    | some (.error message) =>
      { system with
        node := (system.node.handlePoll (.error (.zenoh message))).1
        inFlight := none }
    | none => system
  | .recv =>
    if system.inFlight = none then
      match system.node.recvRaw with
      | (node, .event raw) =>
        { system with node := node, returned := system.returned ++ [raw] }
      | _ => system
    else
      system

/-! ## The system as a handover -/

/-- The handover from the stores to the live stream. -/
def view (system : LiveSystem) : Handover RawEvent where
  published := system.published
  offered := system.offered
  fetched := system.polled
  buffer := system.node.replayer.buffer.map storedToRaw
  overlap := system.node.overlapBuffer
  channel := system.channel
  inbox := system.inbox
  live := system.node.liveActive
  taken := system.returned

/-- The move of the handover that a step makes. -/
def moveOf (system : LiveSystem) : LiveStep → Handover.Move RawEvent
  | .store event =>
    if system.New event then .publish (storedToRaw event) else .idle
  | .offer raw =>
    if raw ∈ system.published ∧ raw ∉ system.offered then
      .offer raw (system.hears config raw)
    else
      .idle
  | .forward =>
    match system.node.liveRx, system.inbox with
    | some queued, raw :: _ =>
      if system.node.replayer.scope.forwards raw then
        if queued.length ≤ config.eventChannelCapacity then .forward
        else .idle
      else
        .discard
    | _, _ => .idle
  | .declare | .query _ => .idle
  | .answer =>
    match system.inFlight with
    | some (.ok []) => .goLive (·.seenKey ∈ system.node.seenSeqs)
    | some (.ok batch) => .fetch (batch.map storedToRaw)
    | _ => .idle
  | .recv =>
    if system.inFlight = none then
      if system.node.awaiting then
        if system.channel = [] then .idle else .takeLive
      else if system.node.replayer.buffer ≠ [] then
        .takeBuffered
      else if system.node.overlapBuffer ≠ [] then
        .takeOverlap
      else if system.node.liveActive ∧ system.channel ≠ [] then
        .takeLive
      else
        .idle
    else
      .idle

/-- What all steps keep. -/
structure Coherent (system : LiveSystem) : Prop where
  goesLive : system.node.replayer.replayEnd = .thenLive
  goesOn : system.node.replayer.exhausted = false
  distinct :
    system.visible.Pairwise fun first second =>
      first.metadata.eventId ≠ second.metadata.eventId
  passed :
    ∀ raw ∈ system.polled,
      ∃ event ∈ system.visible,
        storedToRaw event = raw ∧
          hlcOf event ≤ system.node.replayer.cursor
  polling :
    ∀ answer ∈ system.inFlight,
      system.node.recvRaw.2 = .polls ∧
        Answers system.visible system.node.replayer.cursor answer
  seen :
    system.node.liveActive = false →
      ∀ raw ∈ system.returned, raw.seenKey ∈ system.node.seenSeqs
  overlapLive :
    system.node.overlapBuffer ≠ [] → system.node.liveActive = true
  awaitsLive : system.node.awaiting = true → system.node.liveActive = true
  liveOpen :
    system.node.liveActive = true → system.node.liveRx.isSome = true

end LiveSystem

namespace LiveReplayer

variable {node : LiveReplayer}

theorem recvRaw_polls_iff :
    node.recvRaw.2 = .polls ↔
      node.awaiting = false ∧ node.replayer.buffer = [] ∧
        node.overlapBuffer = [] ∧ node.liveActive = false := by
  have live : node.recvLive.2 ≠ .polls := by
    unfold recvLive
    split <;> simp
  unfold recvRaw
  split
  · rename_i awaits
    simp [awaits, live]
  · rename_i idle
    split
    · rename_i isBuffer
      simp [isBuffer]
    · rename_i isBuffer isOverlap
      simp [isOverlap]
    · rename_i isBuffer isOverlap
      split
      · rename_i isLive
        simp [isLive, live]
      · rename_i notLive
        simp [isBuffer, isOverlap, idle, notLive]

theorem recvRaw_waits_iff :
    node.recvRaw.2 = .waits ↔
      node.liveRx = some [] ∧
        (node.awaiting = true ∨
          node.replayer.buffer = [] ∧ node.overlapBuffer = [] ∧
            node.liveActive = true) := by
  have live : node.recvLive.2 = .waits ↔ node.liveRx = some [] := by
    unfold recvLive
    split
    · rename_i isRx
      simp [isRx]
    · rename_i isRx
      simp [isRx]
    · rename_i isRx
      simp [isRx]
  unfold recvRaw
  split
  · rename_i awaits
    simp [awaits, live]
  · rename_i idle
    split
    · rename_i isBuffer
      simp [isBuffer, idle]
    · rename_i isBuffer isOverlap
      simp [isOverlap, idle]
    · rename_i isBuffer isOverlap
      split
      · rename_i isLive
        simp [isBuffer, isOverlap, isLive, live]
      · rename_i notLive
        simp [idle, notLive]

section Poll

variable
    (goesLive : node.replayer.replayEnd = .thenLive)
    (goesOn : node.replayer.exhausted = false)

include goesLive goesOn

theorem pollVia_ok (batch : List StoredEvent) :
    node.replayer.pollVia (fun _ _ => .ok batch) =
      ({ node.replayer with
          cursor := node.replayer.cursorAfter batch
          delivered := node.replayer.delivered + batch.length
          exhausted := false },
        .ok batch) := by
  simp [EventReplayer.pollVia, goesOn, EventReplayer.pollLimit, goesLive,
    EventReplayer.exhaustedAfter]

theorem pollVia_error (failure : Error) :
    node.replayer.pollVia (fun _ _ => .error failure) =
      (node.replayer, .error failure) := by
  simp [EventReplayer.pollVia, goesOn, EventReplayer.pollLimit, goesLive]

end Poll

end LiveReplayer

namespace LiveSystem

variable {config : LiveConfig} {system : LiveSystem}

theorem view_forward :
    (system.step config .forward).view =
      system.view.step (system.moveOf config .forward) := by
  cases isRx : system.node.liveRx with
  | none =>
    simp [step, moveOf, isRx, Handover.step]
  | some queued =>
    cases isInbox : system.inbox with
    | nil =>
      simp [step, moveOf, isRx, isInbox, Handover.step]
    | cons raw rest =>
      by_cases forwarded : system.node.replayer.scope.forwards raw = true
      · by_cases room : queued.length ≤ config.eventChannelCapacity
        · simp [step, moveOf, isRx, isInbox, forwarded, room,
            Handover.step, view, published, channel]
        · simp [step, moveOf, isRx, isInbox, forwarded, room, Handover.step]
      · simp [step, moveOf, isRx, isInbox, forwarded, Handover.step,
          view, published, channel]

theorem view_answer (coherent : system.Coherent) :
    (system.step config .answer).view =
      system.view.step (system.moveOf config .answer) := by
  have ok := LiveReplayer.pollVia_ok coherent.goesLive coherent.goesOn
  cases isFlight : system.inFlight with
  | none =>
    simp [step, moveOf, isFlight, Handover.step]
  | some answer =>
    cases answer with
    | error message =>
      have failed :=
        LiveReplayer.pollVia_error coherent.goesLive coherent.goesOn
          (.zenoh message)
      simp [step, moveOf, isFlight, Handover.step,
        LiveReplayer.handlePoll, failed, view, published, channel]
    | ok batch =>
      cases batch with
      | nil =>
        grind [step, moveOf, Handover.step, LiveReplayer.handlePoll, view,
          published, channel, LiveReplayer.goLive,
          LiveReplayer.startLiveSubscriber, LiveReplayer.flushOverlapBuffer]
      | cons first rest =>
        simp [step, moveOf, isFlight, Handover.step,
          LiveReplayer.handlePoll, ok, view, published, channel,
          LiveReplayer.startLiveSubscriber]

/-- The system after a call that came to something. -/
def received (system : LiveSystem) :
    LiveReplayer × LiveRecv → LiveSystem
  | (node, .event raw) =>
    { system with node := node, returned := system.returned ++ [raw] }
  | _ => system

theorem step_recv (notPolling : system.inFlight = none) :
    system.step config .recv = system.received system.node.recvRaw := by
  rw [step, if_pos notPolling]
  rfl

theorem view_recvLive :
    (system.received system.node.recvLive).view =
      system.view.step
        (if system.channel = [] then .idle else .takeLive) := by
  cases isRx : system.node.liveRx with
  | none =>
    simp [received, LiveReplayer.recvLive, isRx, channel, Handover.step]
  | some queued =>
    cases queued with
    | nil =>
      simp [received, LiveReplayer.recvLive, isRx, channel, Handover.step]
    | cons raw rest =>
      simp [received, LiveReplayer.recvLive, isRx, channel,
        Handover.step, view, published]

theorem view_recv :
    (system.step config .recv).view =
      system.view.step (system.moveOf config .recv) := by
  by_cases idle : system.inFlight = none
  · rw [moveOf, if_pos idle, step_recv idle, LiveReplayer.recvRaw]
    by_cases awaits : system.node.awaiting = true
    · rw [if_pos awaits, if_pos awaits]
      exact view_recvLive
    · rw [if_neg awaits, if_neg awaits]
      cases isBuffer : system.node.replayer.buffer with
      | cons stored rest =>
        simp [received, isBuffer, Handover.step, view, published, channel]
      | nil =>
        cases isOverlap : system.node.overlapBuffer with
        | cons raw rest =>
          simp [received, isBuffer, isOverlap, Handover.step, view,
            published, channel]
        | nil =>
          by_cases isLive : system.node.liveActive = true
          · simp only [isLive, ↓reduceIte, ne_eq, not_true_eq_false,
              true_and, ite_not]
            exact view_recvLive
          · simp [received, isLive, Handover.step]
  · rw [step, moveOf, if_neg idle, if_neg idle]
    rfl

theorem view_step
    (coherent : system.Coherent)
    (action : LiveStep) :
    (system.step config action).view =
      system.view.step (system.moveOf config action) := by
  cases action with
  | store event =>
    grind [step, moveOf, view, published, channel, Handover.step]
  | offer raw =>
    by_cases isNext : raw ∈ system.published ∧ raw ∉ system.offered
    · rw [step, moveOf, if_pos isNext, if_pos isNext]
      rfl
    · rw [step, moveOf, if_neg isNext, if_neg isNext]
      rfl
  | declare =>
    rw [step, moveOf]
    split <;> rfl
  | forward =>
    exact view_forward
  | query answer =>
    rw [step, moveOf]
    split <;> rfl
  | answer =>
    exact view_answer coherent
  | recv =>
    exact view_recv

namespace Coherent

section

variable (coherent : system.Coherent)

include coherent

theorem notLive
    (isClosed : system.node.liveRx = none) :
    system.node.liveActive = false := by
  by_contra isLive
  simpa [isClosed] using coherent.liveOpen (by simpa using isLive)

theorem raw_injective
    {first second : StoredEvent}
    (isFirst : first ∈ system.visible)
    (isSecond : second ∈ system.visible)
    (same : storedToRaw first = storedToRaw second) :
    first = second := by
  have distinct :
      (system.visible.map fun event => event.metadata.eventId).Nodup :=
    pairwise_map.mpr coherent.distinct
  exact inj_on_of_nodup_map distinct isFirst isSecond
    (congrArg RawEvent.id same)

theorem addVisible
    {event : StoredEvent}
    (isNew :
      ∀ other ∈ system.visible,
        other.metadata.eventId ≠ event.metadata.eventId) :
    ({ system with visible := system.visible ++ [event] } :
      LiveSystem).Coherent := by
  refine
    { coherent with
      distinct := ?_
      passed := ?_
      polling := ?_ }
  · grind [coherent.distinct]
  · grind [coherent.passed]
  · intro answer inFlight
    obtain ⟨polls, answers⟩ := coherent.polling answer inFlight
    exact ⟨polls, answers.mono (subset_append_left _ _)⟩

theorem store
    (event : StoredEvent) :
    (system.step config (.store event)).Coherent := by
  rw [step]
  split
  · rename_i isNew
    exact coherent.addVisible isNew.2.2
  · exact coherent

end

theorem forward (coherent : system.Coherent) :
    (system.step config .forward).Coherent := by
  rw [step]
  split
  · split
    · split
      · refine
          { coherent with
            polling := fun answer inFlight => ?_
            liveOpen := fun _ => rfl }
        obtain ⟨polls, answers⟩ := coherent.polling answer inFlight
        refine ⟨?_, answers⟩
        rw [LiveReplayer.recvRaw_polls_iff] at polls ⊢
        exact polls
      · exact coherent
    · exact { coherent with }
  · exact coherent

variable {batch : List StoredEvent}

/-- The cursor passes all events of a batch. -/
theorem le_cursorAfter
    {replayer : EventReplayer}
    {visible : List StoredEvent}
    (answers : Answers visible replayer.cursor (.ok batch)) :
    replayer.cursor ≤ replayer.cursorAfter batch ∧
      ∀ event ∈ batch, hlcOf event ≤ replayer.cursorAfter batch := by
  rw [EventReplayer.cursorAfter, getLast?_bind_hlcTimestamp
    fun event inBatch => (answers.1 event inBatch).2.1]
  rcases eq_nil_or_concat batch with isEmpty | ⟨earlier, last, isBatch⟩
  · rw [isEmpty]
    exact ⟨le_rfl, fun event inBatch => by cases inBatch⟩
  · rw [concat_eq_append] at isBatch
    rw [isBatch] at answers ⊢
    obtain ⟨fromAbove, ordered⟩ := answers
    rw [List.getLast?_concat, Option.map_some, Option.getD_some]
    refine ⟨?_, ?_⟩
    · exact (fromAbove last (by simp)).2.2.le
    · intro event inBatch
      rcases mem_append.mp inBatch with before | isLast
      · exact ((pairwise_append.mp ordered).2.2 event before last
          mem_cons_self).1
      · rw [mem_singleton.mp isLast]

/-- What is polled lies behind the cursor, also after a batch. -/
theorem passed_append
    (coherent : system.Coherent)
    (answers :
      Answers system.visible system.node.replayer.cursor (.ok batch)) :
    ∀ raw ∈ system.polled ++ batch.map storedToRaw,
      ∃ event ∈ system.visible,
        storedToRaw event = raw ∧
          hlcOf event ≤ system.node.replayer.cursorAfter batch := by
  obtain ⟨later, behind⟩ := le_cursorAfter answers
  intro raw isPolled
  rcases mem_append.mp isPolled with before | now
  · obtain ⟨event, isVisible, isRaw, isBehind⟩ := coherent.passed raw before
    exact ⟨event, isVisible, isRaw, isBehind.trans later⟩
  · obtain ⟨event, inBatch, isRaw⟩ := mem_map.mp now
    exact ⟨event, (answers.1 event inBatch).1, isRaw, behind event inBatch⟩

theorem answer (coherent : system.Coherent) :
    (system.step config .answer).Coherent := by
  have ok := LiveReplayer.pollVia_ok coherent.goesLive coherent.goesOn
  cases isFlight : system.inFlight with
  | none =>
    simpa only [step, isFlight] using coherent
  | some answer =>
    obtain ⟨polls, answers⟩ := coherent.polling answer isFlight
    obtain ⟨idle, _, noOverlap, _⟩ := LiveReplayer.recvRaw_polls_iff.mp polls
    cases answer with
    | error message =>
      have failed :=
        LiveReplayer.pollVia_error coherent.goesLive coherent.goesOn
          (.zenoh message)
      simp only [step, isFlight, LiveReplayer.handlePoll, failed,
        reduceCtorEq, ↓reduceIte]
      exact { coherent with polling := fun _ inFlight => by cases inFlight }
    | ok batch =>
      have passed := coherent.passed_append answers
      cases batch with
      | nil =>
        simp only [step, isFlight, LiveReplayer.handlePoll, ok]
        exact
          { coherent with
            goesOn := rfl
            passed := passed
            polling := fun _ inFlight => by cases inFlight
            seen := fun notLive => by cases notLive
            overlapLive := fun _ => rfl
            awaitsLive := fun _ => rfl
            liveOpen := fun _ => rfl }
      | cons first rest =>
        simp only [step, isFlight, LiveReplayer.handlePoll, ok]
        exact
          { coherent with
            goesOn := rfl
            passed := passed
            polling := fun _ inFlight => by cases inFlight
            liveOpen := fun _ => rfl }

theorem recvLive
    (coherent : system.Coherent)
    (notPolling : system.inFlight = none)
    (isLive : system.node.liveActive = true) :
    (system.received system.node.recvLive).Coherent := by
  cases isRx : system.node.liveRx with
  | none =>
    simpa only [received, LiveReplayer.recvLive, isRx] using coherent
  | some queued =>
    cases queued with
    | nil =>
      simpa only [received, LiveReplayer.recvLive, isRx] using coherent
    | cons raw rest =>
      simp only [received, LiveReplayer.recvLive, isRx]
      exact
        { coherent with
          polling := fun answer inFlight => by
            rw [notPolling] at inFlight
            cases inFlight
          seen := fun notLive => by cases isLive.symm.trans notLive
          awaitsLive := fun awaits => by cases awaits
          liveOpen := fun _ => rfl }

theorem recv (coherent : system.Coherent) :
    (system.step config .recv).Coherent := by
  by_cases notPolling : system.inFlight = none
  · rw [step_recv notPolling, LiveReplayer.recvRaw]
    have polling (node : LiveReplayer) :
        ∀ answer ∈ system.inFlight,
          node.recvRaw.2 = .polls ∧
            Answers system.visible node.replayer.cursor answer := by
      rw [notPolling]
      intro answer inFlight
      cases inFlight
    by_cases awaits : system.node.awaiting = true
    · rw [if_pos awaits]
      exact coherent.recvLive notPolling (coherent.awaitsLive awaits)
    · rw [if_neg awaits]
      cases isBuffer : system.node.replayer.buffer with
      | cons stored rest =>
        refine
          { coherent with
            polling := polling _
            seen := fun notLive raw isReturned => ?_ }
        rcases mem_append.mp isReturned with before | now
        · exact Finset.mem_insert_of_mem (coherent.seen notLive raw before)
        · rw [mem_singleton.mp now]
          exact Finset.mem_insert_self _ _
      | nil =>
        cases isOverlap : system.node.overlapBuffer with
        | cons raw rest =>
          have isLive : system.node.liveActive = true := by
            refine coherent.overlapLive ?_
            rw [isOverlap]
            exact cons_ne_nil _ _
          exact
            { coherent with
              polling := polling _
              seen := fun notLive => by cases isLive.symm.trans notLive
              overlapLive := fun _ => isLive }
        | nil =>
          grind [coherent.recvLive, received]
  · rw [step, if_neg notPolling]
    exact coherent

protected theorem step
    (coherent : system.Coherent)
    (action : LiveStep) :
    (system.step config action).Coherent := by
  cases action with
  | store event =>
    exact coherent.store event
  | offer raw =>
    rw [LiveSystem.step]
    split
    · exact { coherent with }
    · exact coherent
  | declare =>
    rw [LiveSystem.step]
    split
    · exact { coherent with }
    · exact coherent
  | forward =>
    exact coherent.forward
  | query answer =>
    rw [LiveSystem.step]
    split
    · rename_i sent
      refine { coherent with polling := fun other inFlight => ?_ }
      cases inFlight
      exact sent.2
    · exact coherent
  | answer =>
    exact coherent.answer
  | recv =>
    exact coherent.recv

/-! ## Possible moves -/

section

variable
  (coherent : system.Coherent)
  (answers :
    Answers system.visible system.node.replayer.cursor (.ok batch))

include coherent answers

/-- A batch of the stores is new to the replayer. -/
theorem not_polled
    {event : StoredEvent}
    (inBatch : event ∈ batch) :
    storedToRaw event ∉ system.polled := by
  intro isPolled
  obtain ⟨isVisible, _, isAbove⟩ := answers.1 event inBatch
  obtain ⟨other, isOther, same, isBehind⟩ := coherent.passed _ isPolled
  rw [coherent.raw_injective isOther isVisible same] at isBehind
  exact absurd isAbove isBehind.not_gt

theorem nodup_batch :
    (batch.map storedToRaw).Nodup := by
  have once : batch.Nodup := answers.2.imp fun ordered => ordered.2
  refine once.map_on fun first isFirst second isSecond same => ?_
  exact coherent.raw_injective (answers.1 first isFirst).1
    (answers.1 second isSecond).1 same

end

theorem possible_answer (coherent : system.Coherent) :
    system.view.Possible (system.moveOf config .answer) := by
  cases isFlight : system.inFlight with
  | none =>
    simp only [moveOf, isFlight, Handover.Possible]
  | some answer =>
    obtain ⟨polls, answers⟩ := coherent.polling answer isFlight
    obtain ⟨_, noBuffer, _, notLive⟩ := LiveReplayer.recvRaw_polls_iff.mp polls
    cases answer with
    | error message =>
      simp only [moveOf, isFlight, Handover.Possible]
    | ok batch =>
      cases batch with
      | nil =>
        grind [moveOf, view, coherent.seen, Handover.Possible]
      | cons first rest =>
        simp only [moveOf, isFlight]
        refine ⟨notLive, coherent.nodup_batch answers, ?_, ?_⟩
        · intro raw inBatch
          obtain ⟨event, isEvent, isRaw⟩ := mem_map.mp inBatch
          exact mem_map.mpr ⟨event, (answers.1 event isEvent).1, isRaw⟩
        · grind [coherent.not_polled, view]

theorem possible_recv (coherent : system.Coherent) :
    system.view.Possible (system.moveOf config .recv) := by
  rw [moveOf]
  split
  · split
    · rename_i awaits
      split
      · trivial
      · rename_i some
        exact ⟨coherent.awaitsLive awaits, some⟩
    · split
      · rename_i some
        exact fun none => some (map_eq_nil_iff.mp none)
      · split
        · assumption
        · split
          · assumption
          · trivial
  · trivial

/-- Every step makes a possible move. -/
theorem possible
    (coherent : system.Coherent)
    (action : LiveStep) :
    system.view.Possible (system.moveOf config action) := by
  cases action with
  | store event =>
    rw [moveOf]
    split
    · rename_i isNew
      intro isPublished
      obtain ⟨other, isOther, same⟩ := mem_map.mp isPublished
      exact isNew.2.2 other isOther (congrArg RawEvent.id same)
    · trivial
  | offer raw =>
    rw [moveOf]
    split
    · assumption
    · trivial
  | declare =>
    trivial
  | forward =>
    rw [moveOf]
    split
    · rename_i isInbox
      have some : system.view.inbox ≠ [] := by
        rw [view, isInbox]
        exact cons_ne_nil _ _
      split
      · split
        · exact some
        · trivial
      · exact some
    · trivial
  | query answer =>
    trivial
  | answer =>
    exact coherent.possible_answer
  | recv =>
    exact coherent.possible_recv

end Coherent

theorem simulates (config : LiveConfig) :
    Simulates (step config) Handover.step view (moveOf config)
      Coherent where
  kept _ action coherent := coherent.step action
  follows _ action coherent := view_step coherent action

/-! ## Exactly once -/

/--
The steps that lose no event and return none twice.  Once live, an event that
the subscription does not receive, or not yet, was polled, and the live task
forwards an event that was not polled and skips one that was.  When an empty
poll is handled every offered event was polled, is still on its way to the
channel, or is in the channel and not taken for one that was returned.
-/
def Seamless (config : LiveConfig) (system : LiveSystem) : LiveStep → Prop
  | .offer raw =>
    system.node.liveActive = true → system.hears config raw = false →
      raw ∈ system.published → raw ∉ system.offered → raw ∈ system.polled
  | .forward =>
    system.node.liveActive = true →
      ∀ raw ∈ system.inbox.head?,
        if system.node.replayer.scope.forwards raw then
          system.channel.length ≤ config.eventChannelCapacity →
            raw ∉ system.polled
        else
          raw ∈ system.polled
  | .answer =>
    system.inFlight = some (.ok []) →
      ∀ raw ∈ system.offered,
        raw ∈ system.polled ∨ raw ∈ system.inbox ∨
          raw ∈ system.channel ∧ raw.seenKey ∉ system.node.seenSeqs
  | .store _ | .declare | .query _ | .recv => True

instance Seamless.decidable (config : LiveConfig) (system : LiveSystem) :
    (action : LiveStep) → Decidable (system.Seamless config action)
  | .offer _ => inferInstanceAs (Decidable (_ → _ → _ → _ → _))
  | .forward => inferInstanceAs (Decidable (_ → ∀ raw ∈ _, _))
  | .answer => inferInstanceAs (Decidable (_ → ∀ raw ∈ _, _))
  | .store _ | .declare | .query _ | .recv => inferInstanceAs (Decidable True)

theorem smooth_forward_iff (coherent : system.Coherent) :
    system.view.Smooth (system.moveOf config .forward) ↔
      system.Seamless config .forward := by
  cases isRx : system.node.liveRx with
  | none =>
    simp [moveOf, Seamless, isRx, coherent.notLive isRx, Handover.Smooth]
  | some queued =>
    cases isInbox : system.inbox with
    | nil =>
      simp [moveOf, Seamless, isRx, isInbox, Handover.Smooth]
    | cons raw rest =>
      grind [moveOf, Seamless, channel, Handover.Smooth, view]

theorem smooth_answer_iff :
    system.view.Smooth (system.moveOf config .answer) ↔
      system.Seamless config .answer := by
  cases isFlight : system.inFlight with
  | none =>
    simp [moveOf, Seamless, isFlight, Handover.Smooth]
  | some answer =>
    cases answer with
    | error message =>
      simp [moveOf, Seamless, isFlight, Handover.Smooth]
    | ok batch =>
      cases batch with
      | nil =>
        simp [moveOf, Seamless, isFlight, Handover.Smooth, view]
      | cons first rest =>
        simp [moveOf, Seamless, isFlight, Handover.Smooth]

theorem smooth_recv :
    system.view.Smooth (system.moveOf config .recv) := by
  rw [moveOf]
  repeat' split
  all_goals trivial

/-- The smooth moves are those of seamless steps. -/
theorem smooth_iff
    (coherent : system.Coherent)
    (action : LiveStep) :
    system.view.Smooth (system.moveOf config action) ↔
      system.Seamless config action := by
  cases action with
  | store event =>
    rw [moveOf]
    split
    · exact Iff.rfl
    · exact Iff.rfl
  | offer raw =>
    grind [moveOf, Handover.Smooth, view, Seamless]
  | declare =>
    exact Iff.rfl
  | forward =>
    exact smooth_forward_iff coherent
  | query answer =>
    exact Iff.rfl
  | answer =>
    exact smooth_answer_iff
  | recv =>
    exact iff_of_true smooth_recv trivial

def start (replayer : EventReplayer) : LiveSystem where
  position := replayer.cursor
  node := { replayer := replayer }

/-- The replayer is live and waits, with all events offered and passed on. -/
structure AtRest (system : LiveSystem) : Prop where
  live : system.node.liveActive = true
  allOffered : system.published ⊆ system.offered
  noInbox : system.inbox = []
  waits : system.node.recvRaw.2 = .waits

theorem AtRest.view (atRest : system.AtRest) : system.view.AtRest where
  live := atRest.live
  allOffered := atRest.allOffered
  noInbox := atRest.noInbox
  noChannel := by
    change system.channel = []
    rw [channel, (LiveReplayer.recvRaw_waits_iff.mp atRest.waits).1,
      Option.getD_some]

section Runs

variable {builder : EventReplayerBuilder} {offsets : ReplayOffsets}
  {replayer : EventReplayer}

theorem coherent_start
    (thenLive : builder.replayEnd = .thenLive)
    (built : builder.build offsets = .ok replayer) :
    (start replayer).Coherent ∧ (start replayer).view = {} := by
  obtain ⟨_, _, sameEnd, _, noBuffer, goesOn⟩ :=
    EventReplayerBuilder.build_spec built
  refine ⟨?_, ?_⟩
  · exact
    { goesLive := sameEnd.trans thenLive
      goesOn := goesOn
      distinct := List.Pairwise.nil
      passed := fun _ isPolled => by cases isPolled
      polling := fun _ inFlight => by cases inFlight
      seen := fun _ _ isReturned => by cases isReturned
      overlapLive := fun some => absurd rfl some
      awaitsLive := fun awaits => by cases awaits
      liveOpen := fun live => by cases live }
  · simp [view, start, published, channel, noBuffer]

/--
Along seamless steps no event is returned twice.  Once the replayer is live
and waits, every event of the scope has been returned exactly once if and only
if every step was seamless and the call that waits has not left events of the
overlap behind.
-/
theorem thenLive_exactlyOnce_iff
    (thenLive : builder.replayEnd = .thenLive)
    (built : builder.build offsets = .ok replayer)
    (config : LiveConfig)
    (steps : List LiveStep) :
    let final := steps.foldl (step config) (start replayer)
    let seamless :=
      GuardedRun (step config) (Seamless config) (start replayer) steps
    (seamless → final.returned.Nodup) ∧
      (final.AtRest →
        ((∀ event ∈ final.visible,
            final.returned.count (storedToRaw event) = 1) ↔
          seamless ∧ final.node.overlapBuffer = [])) := by
  intro final seamless
  obtain ⟨coherent, isView⟩ := coherent_start thenLive built
  have isFinal := ((simulates config).run coherent steps).2
  have possible :=
    (simulates config).guardedRun
      (fun _ action holds => holds.possible action) coherent steps
  have smooth :=
    (simulates config).guardedRun_iff
      (fun _ action holds => smooth_iff holds action) coherent steps
  rw [isView] at isFinal possible smooth
  refine ⟨fun isSeamless => ?_, fun atRest => ?_⟩
  · have clean :=
      Handover.clean_run possible (smooth.mpr isSeamless)
        Handover.sound_initial Handover.clean_initial
    rw [← isFinal] at clean
    exact clean.takenOnce
  · have once := Handover.exactlyOnce_run_iff possible (isFinal ▸ atRest.view)
    rw [← isFinal, smooth] at once
    exact forall_mem_map.symm.trans once

end Runs

/-- An event of one publisher in some partition. -/
def partitionEvent
    (eventId : EventId)
    (keyExpr : String)
    (seq : U64)
    (physicalNs : U64) : StoredEvent where
  key := keyExpr
  payload := []
  metadata :=
    { seq := seq
      publisherId := 7
      eventId := eventId
      timestamp := 0
      keyExpr := keyExpr
      key := none
      hlcTimestamp := some ⟨physicalNs, 0⟩ }

/-- A replayer of all events that goes live. -/
def fromEarliest : EventReplayer :=
  { EventReplayer.oneByOne with replayEnd := .thenLive }

/-- A channel with room for ten events of the topic `events`. -/
def roomForTen : LiveConfig where
  keyPrefix := "events"
  eventChannelCapacity := 10
  receives := keyExprMatches

/-- A stored event and a live one, each returned once. -/
theorem thenLive_exactlyOnce_storedThenLive :
    let stored := partitionEvent 0 "events/p/0" 0 1
    let live := partitionEvent 1 "events/p/0" 1 2
    let steps : List LiveStep :=
      [.store stored, .query (.ok [stored]), .answer, .declare, .recv,
        .offer (storedToRaw stored), .forward, .query (.ok []), .answer,
        .store live, .offer (storedToRaw live), .forward, .recv]
    let final := steps.foldl (step roomForTen) (start fromEarliest)
    final.visible = [stored, live] ∧
      ∀ event ∈ final.visible,
        final.returned.count (storedToRaw event) = 1 := by
  intro stored live steps final
  have atRest : final.AtRest :=
    ⟨by decide +kernel, by decide +kernel, by decide +kernel, by decide +kernel⟩
  refine ⟨by decide +kernel, ?_⟩
  exact ((@thenLive_exactlyOnce_iff
    { replayEnd := .thenLive, batchSize := 1 } (fun _ => none) fromEarliest
    rfl rfl roomForTen steps).2 atRest).mpr
    ⟨by decide +kernel, by decide +kernel⟩

/--
Four runs that end at rest.  An event offered after the empty poll and before
the declaration is lost; an event that is still on its way when the channel is
emptied is returned a second time; an event of another partition is dropped
for having the publisher and number of a returned one; and an event kept from
the channel is not returned while the call waits for the next one.
-/
theorem thenLive_loses_and_repeats :
    let stored := partitionEvent 0 "events/p/0" 0 1
    let sameNumber := partitionEvent 1 "events/p/1" 0 2
    let next := partitionEvent 2 "events/p/0" 1 2
    let run (steps : List LiveStep) :=
      steps.foldl (step roomForTen) (start fromEarliest)
    let undeclared :=
      run [.query (.ok []), .answer, .store stored,
        .offer (storedToRaw stored), .declare]
    let onItsWay :=
      run [.store stored, .query (.ok [stored]), .answer, .declare, .recv,
        .offer (storedToRaw stored), .query (.ok []), .answer, .forward,
        .recv]
    let whilePolling (event : StoredEvent) :=
      run [.store stored, .query (.ok [stored]), .answer, .declare, .recv,
        .offer (storedToRaw stored), .forward, .query (.ok []),
        .store event, .offer (storedToRaw event), .forward, .answer]
    (undeclared.AtRest ∧ undeclared.visible = [stored] ∧
        undeclared.returned = []) ∧
      (onItsWay.AtRest ∧ onItsWay.visible = [stored] ∧
        onItsWay.returned = [storedToRaw stored, storedToRaw stored]) ∧
      ((whilePolling sameNumber).AtRest ∧
        (whilePolling sameNumber).visible = [stored, sameNumber] ∧
        (whilePolling sameNumber).returned = [storedToRaw stored]) ∧
      (whilePolling next).AtRest ∧
        (whilePolling next).visible = [stored, next] ∧
        (whilePolling next).returned = [storedToRaw stored] := by
  intro stored sameNumber next run undeclared onItsWay whilePolling
  refine ⟨⟨⟨?_, ?_, ?_, ?_⟩, ?_⟩, ⟨⟨?_, ?_, ?_, ?_⟩, ?_⟩,
    ⟨⟨?_, ?_, ?_, ?_⟩, ?_⟩, ⟨?_, ?_, ?_, ?_⟩, ?_⟩
  all_goals decide +kernel

end LiveSystem

end Mitiflow
