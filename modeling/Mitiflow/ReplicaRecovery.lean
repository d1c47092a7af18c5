import Mitiflow.RemotePolls
import Mitiflow.ReplayIndex

namespace Mitiflow

open Library List

/-!
# Recovery from a replica

A node that gains a partition asks the replicas of the partition for their
events and stores the replies beside the events it receives itself.  A reply
carries the clock value of its event, but the event is stored without one.
This module compares a replica that stored every event as it was published
with one that recovered some of them, and says exactly when both replay the
same events.
-/

/-- The event that is stored for a reply, if its attachment can be read. -/
def Reply.ingested? : Reply → Option StoredEvent
  | .sample (some metadata) keyExpr payload =>
    some
      { key := keyExpr
        payload := payload
        metadata :=
          { seq := metadata.seq
            publisherId := metadata.pubId
            eventId := metadata.eventId
            timestamp := metadata.timestamp
            keyExpr := keyExpr
            key := extractKey keyExpr
            hlcTimestamp := none } }
  | .sample none _ _ => none
  | .failure _ => none

/-- Recovers the events of a partition when a node gains it. -/
structure RecoveryManager where
  keyPrefix : String
  deriving Repr, DecidableEq

namespace RecoveryManager

/-- Store the event of a reply; `outcome` is the storage engine's answer. -/
def ingestSample
    (reply : Reply)
    (backend : FjallBackend)
    (outcome : Except String Unit) : FjallBackend × Option Nat :=
  match reply.ingested? with
  | none => (backend, none)
  | some event =>
    match backend.store event outcome with
    | (stored, .ok ()) => (stored, some 1)
    | (stored, .error _) => (stored, none)

/-- The query that a peer's store answers. -/
def storeSelector (manager : RecoveryManager) (partition : U32) :
    QuerySelector where
  base := manager.keyPrefix ++ "/_store/" ++ toString partition.val
  parameters := ""

/-- Ingest the replies to one query, every commit succeeding. -/
def ingestReplies
    (progress : FjallBackend × Nat)
    (replies : List Reply) : FjallBackend × Nat :=
  replies.foldl
    (fun progress reply =>
      let (stored, count) := ingestSample reply progress.1 (.ok ())
      (stored, progress.2 + count.getD 0))
    progress

/--
Ask each peer for its events and store the replies.  For every peer `peers`
has what the session's `get` yields when it is asked.
-/
def recover
    (manager : RecoveryManager)
    (partition : U32)
    (backend : FjallBackend)
    (peers : List QueryGet) : FjallBackend × Nat :=
  peers.foldl
    (fun progress get =>
      match get (manager.storeSelector partition) with
      | .ok replies => ingestReplies progress replies
      | .error _ => progress)
    (backend, 0)

/-- The events that the replies of one peer store. -/
def recoveredFrom
    (manager : RecoveryManager)
    (partition : U32)
    (get : QueryGet) : List StoredEvent :=
  match get (manager.storeSelector partition) with
  | .ok replies => replies.filterMap Reply.ingested?
  | .error _ => []

theorem ingestReplies_backend
    (progress : FjallBackend × Nat)
    (replies : List Reply) :
    (ingestReplies progress replies).1 =
      progress.1.enlarged (replies.filterMap Reply.ingested?) := by
  rw [← FjallBackend.foldl_store]
  unfold ingestReplies
  induction replies generalizing progress with
  | nil =>
    rfl
  | cons reply rest inductionHypothesis =>
    grind [ingestSample]

end RecoveryManager

/-! ## The second replica -/

/-- What adds events to a replica: the subscription, or a recovery. -/
inductive ReplicaStep where
  | live (call : StoreCall)
  | recover (peers : List QueryGet)

/-- A stored copy of an event, with the way it came. -/
inductive StoredCopy where
  | live (event : StoredEvent)
  | recovered (event : StoredEvent)

def StoredCopy.event : StoredCopy → StoredEvent
  | .live event => event
  | .recovered event => event

namespace FjallBackend

theorem runCalls_enlarged
    (backend : FjallBackend)
    (calls : List StoreCall) :
    backend.runCalls calls =
      backend.enlarged (calls.flatMap StoreCall.events) := by
  induction calls generalizing backend with
  | nil =>
    exact foldl_store backend []
  | cons call rest inductionHypothesis =>
    rw [flatMap_cons, enlarged_append, ← runCall_enlarged]
    exact inductionHypothesis (backend.runCall call)

end FjallBackend

section Replica

variable (manager : RecoveryManager) (partition : U32)

/-- One step of a replica. -/
def ReplicaStep.run (backend : FjallBackend) : ReplicaStep → FjallBackend
  | .live call => backend.runCall call
  | .recover peers => (manager.recover partition backend peers).1

/-- The copies that a step stores, in order. -/
def ReplicaStep.copies : ReplicaStep → List StoredCopy
  | .live call => call.events.map .live
  | .recover peers =>
    (peers.flatMap (manager.recoveredFrom partition)).map .recovered

def replicaAfter (steps : List ReplicaStep) : FjallBackend :=
  steps.foldl (ReplicaStep.run manager partition) (.fresh partition)

def storedCopies (steps : List ReplicaStep) : List StoredCopy :=
  steps.flatMap (ReplicaStep.copies manager partition)

theorem recover_backend (backend : FjallBackend) (peers : List QueryGet) :
    (manager.recover partition backend peers).1 =
      backend.enlarged
        (peers.flatMap (manager.recoveredFrom partition)) := by
  unfold RecoveryManager.recover
  generalize 0 = count
  induction peers generalizing backend count with
  | nil =>
    exact FjallBackend.foldl_store backend []
  | cons get rest inductionHypothesis =>
    grind [FjallBackend.enlarged_append, RecoveryManager.recoveredFrom,
      RecoveryManager.ingestReplies_backend]

theorem run_eq_enlarged (backend : FjallBackend) (step : ReplicaStep) :
    step.run manager partition backend =
      backend.enlarged
        ((step.copies manager partition).map StoredCopy.event) := by
  cases step with
  | live call =>
    simpa [ReplicaStep.run, ReplicaStep.copies, Function.comp_def,
      StoredCopy.event] using backend.runCall_enlarged call
  | recover peers =>
    simpa [ReplicaStep.run, ReplicaStep.copies, Function.comp_def,
      StoredCopy.event] using recover_backend manager partition backend peers

/-- A replica holds what storing its copies one by one leaves. -/
theorem replicaAfter_enlarged (steps : List ReplicaStep) :
    replicaAfter manager partition steps =
      (FjallBackend.fresh partition).enlarged
        ((storedCopies manager partition steps).map StoredCopy.event) := by
  unfold replicaAfter storedCopies
  generalize FjallBackend.fresh partition = backend
  induction steps generalizing backend with
  | nil =>
    exact FjallBackend.foldl_store backend []
  | cons step rest inductionHypothesis =>
    rw [foldl_cons, inductionHypothesis, flatMap_cons,
      map_append, FjallBackend.enlarged_append, run_eq_enlarged]

end Replica

/-! ## What two replicas replay -/

namespace FjallBackend

theorem wellFormed_enlarged_fresh
    (partition : U32)
    (events : List StoredEvent) :
    ((fresh partition).enlarged events).db.WellFormed := by
  have stored := wellFormed_afterActions partition [.store (.storeBatch events)]
  change ((fresh partition).runCall (.storeBatch events)).db.WellFormed
    at stored
  rwa [runCall_enlarged] at stored

theorem get?_enlarged_fresh
    (partition : U32)
    (events : List StoredEvent)
    (key : EventKey) :
    ((fresh partition).enlarged events).db.events.get? key =
      (lastCopy events key).map fun event =>
        (event.metadata, event.payload) := by
  refine (Database.get?_commit_stores {} events key).trans ?_
  exact Option.or_none

theorem mem_replay_enlarged_fresh
    {partition : U32}
    {events : List StoredEvent}
    {hlc : HlcTimestamp}
    {key : EventKey} :
    replayEntry hlc key ∈
        ((fresh partition).enlarged events).db.replay.entries ↔
      ∃ event ∈ events,
        event.metadata.eventKey = key ∧
          event.metadata.hlcTimestamp = some hlc := by
  refine (@Database.mem_replay_commit_stores events {} hlc key).trans ?_
  exact or_iff_right (fun held => by cases held)

/-- Replicas with the same events and index answer alike. -/
theorem queryReplay_congr
    {first second : FjallBackend}
    (firstFormed : first.db.WellFormed)
    (secondFormed : second.db.WellFormed)
    (sameEvents :
      ∀ key, first.db.events.get? key = second.db.events.get? key)
    (sameIndex :
      ∀ hlc key,
        replayEntry hlc key ∈ first.db.replay.entries ↔
          replayEntry hlc key ∈ second.db.replay.entries)
    (filters : ReplayFilters) :
    first.queryReplay filters = second.queryReplay filters := by
  have sameEntries :
      first.db.replay.entries = second.db.replay.entries := by
    have : Std.Irrefl fun left right : ReplayKey × EventKey =>
        left.1 < right.1 := ⟨fun entry => lt_irrefl entry.1⟩
    refine first.db.replay.sorted.eq_of_mem_iff second.db.replay.sorted ?_
    intro index
    constructor
    · intro member
      have shape := firstFormed.eq_replayEntry member
      rw [shape] at member ⊢
      exact (sameIndex _ _).mp member
    · intro member
      have shape := secondFormed.eq_replayEntry member
      rw [shape] at member ⊢
      exact (sameIndex _ _).mpr member
  have sameVisit : filters.visit first.db = filters.visit second.db := by
    funext entry
    simp only [ReplayFilters.visit, sameEvents]
  rw [queryReplay, queryReplay, sameEntries, sameVisit]

theorem mem_queryReplay_unfiltered
    {backend : FjallBackend}
    {event : StoredEvent} :
    event ∈ backend.queryReplay {} ↔
      ∃ index ∈ backend.db.replay.entries, ∃ value,
        backend.db.events.get? index.2 = some value ∧
          returnedEvent value.1 value.2 = event := by
  have visited :
      ∀ index,
        (ReplayFilters.visit {} backend.db index).value? =
          (backend.db.events.get? index.2).map
            fun value => returnedEvent value.1 value.2 := by
    intro index
    cases found : backend.db.events.get? index.2 <;>
      simp [ReplayFilters.visit, atOrBelow, atOrAbove,
        ReplayFilters.matchesPublisher, ReplayFilters.hasKeyFilter, found,
        Visit.value?]
  have neverStops :
      ∀ index ∈ backend.db.replay.entries,
        ReplayFilters.visit {} backend.db index ≠ .stop := by
    intro index _
    cases found : backend.db.events.get? index.2 <;>
      simp [ReplayFilters.visit, atOrBelow, atOrAbove,
        ReplayFilters.matchesPublisher, ReplayFilters.hasKeyFilter, found]
  change event ∈ scan none _ _ [] ↔ _
  rw [scan_none, nil_append, collected_eq_filterMap neverStops]
  simp only [mem_filterMap, visited, Option.map_eq_some_iff]

/-- A query without parameters is answered with all held events. -/
theorem mem_answer_noParameters
    {parsers : SelectorParsers}
    {backend : FjallBackend}
    {event : StoredEvent}
    (answered : event ∈ backend.answer parsers "") :
    ∃ entry ∈ backend.db.events.entries,
      returnedEvent entry.2.1 entry.2.2 = event := by
  have isQuery :
      backend.answer parsers "" = (backend.query {}).getD [] := by
    have noReplay : routesToReplay "" = false := by decide
    have noneRecognised : recognised "" = [] := by decide
    have noFilters : QueryFilters.fromSelector parsers "" = .ok {} := by
      rw [QueryFilters.fromSelector, noneRecognised]
      rfl
    simp [answer, noReplay, noFilters]
  rw [isQuery, query_eq backend rfl] at answered
  obtain ⟨entry, held, taken⟩ := mem_scan answered
  exact ⟨entry, held, ((QueryFilters.visit_eq_take_iff rfl).mp taken).2.symm⟩

end FjallBackend

/-! ## Convergence -/

/-- What a reader of a replay compares. -/
def StoredEvent.observed (event : StoredEvent) :
    EventKey × EventId × Bytes × Option HlcTimestamp :=
  (event.metadata.eventKey, event.metadata.eventId, event.payload,
    event.metadata.hlcTimestamp)

/-- The copy of an event that was stored last. -/
def lastStored (copies : List StoredCopy) (key : EventKey) :
    Option StoredCopy :=
  (copies.filter (·.event.metadata.eventKey = key)).getLast?

theorem lastCopy_event (copies : List StoredCopy) (key : EventKey) :
    lastCopy (copies.map StoredCopy.event) key =
      (lastStored copies key).map StoredCopy.event := by
  rw [lastCopy, lastStored, filter_map, List.getLast?_map]
  rfl

/-- The last copy of the event came through the subscription. -/
def EndsLive (copies : List StoredCopy) (key : EventKey) : Prop :=
  ∃ event, lastStored copies key = some (.live event)

/-- The events that a replica stored as they were published. -/
def liveEvents (lives : List StoreCall) : List StoredEvent :=
  lives.flatMap StoreCall.events

/-- Events with clock values, one for every publisher and sequence. -/
structure StampedSet (events : List StoredEvent) : Prop where
  stamped : ∀ event ∈ events, event.metadata.hlcTimestamp.isSome = true
  single :
    ∀ first ∈ events, ∀ second ∈ events,
      first.metadata.eventKey = second.metadata.eventKey → first = second

/--
A replica that gets every event of another: through its subscription, or in
the replies the other sends at some time to a recovery.
-/
structure ReplicaOf
    (parsers : SelectorParsers)
    (manager : RecoveryManager)
    (partition : U32)
    (lives : List StoreCall)
    (steps : List ReplicaStep) : Prop where
  live :
    ∀ call, .live call ∈ steps → call.events ⊆ liveEvents lives
  recovered :
    ∀ peers, .recover peers ∈ steps →
      ∀ get ∈ peers, ∀ replies,
        get (manager.storeSelector partition) = .ok replies →
          ∃ earlier, earlier <+: lives ∧
            replies ⊆
              (((FjallBackend.fresh partition).runCalls earlier).answer
                parsers "").map StoredEvent.reply
  complete :
    ∀ event ∈ liveEvents lives,
      ∃ copy ∈ storedCopies manager partition steps,
        copy.event.metadata.eventKey = event.metadata.eventKey

section Convergence

variable
    {parsers : SelectorParsers}
    {manager : RecoveryManager}
    {partition : U32}
    {lives : List StoreCall}
    {steps : List ReplicaStep}

theorem ingested?_of_answer
    {earlier : List StoreCall}
    (isEarlier : earlier <+: lives)
    {event copy : StoredEvent}
    (answered :
      event ∈
        ((FjallBackend.fresh partition).runCalls earlier).answer parsers "")
    (ingested : event.reply.ingested? = some copy) :
    copy.metadata.hlcTimestamp = none ∧
      ∃ published ∈ liveEvents lives,
        copy.metadata.eventKey = published.metadata.eventKey := by
  obtain ⟨entry, held, shape⟩ := FjallBackend.mem_answer_noParameters answered
  rw [FjallBackend.runCalls_enlarged] at held
  have found := OrderedMap.get?_eq_some.mpr held
  rw [FjallBackend.get?_enlarged_fresh] at found
  obtain ⟨published, isLast, value⟩ := Option.map_eq_some_iff.mp found
  obtain ⟨_, later⟩ := isEarlier
  have isPublished : published ∈ liveEvents lives := by
    rw [← later, liveEvents, flatMap_append]
    exact mem_append_left _ (mem_of_lastCopy isLast).1
  rw [← Option.some.inj ingested]
  refine ⟨rfl, published, isPublished, ?_⟩
  rw [← shape, ← value]
  rfl

variable {copy : StoredCopy}

/-- Every copy is an event as published, or has no clock value. -/
theorem ReplicaOf.of_mem_storedCopies
    (replica : ReplicaOf parsers manager partition lives steps)
    (stored : copy ∈ storedCopies manager partition steps) :
    (∃ event ∈ liveEvents lives, copy = .live event) ∨
      ∃ event,
        copy = .recovered event ∧
          event.metadata.hlcTimestamp = none ∧
            ∃ published ∈ liveEvents lives,
              event.metadata.eventKey = published.metadata.eventKey := by
  obtain ⟨step, isStep, fromStep⟩ := mem_flatMap.mp stored
  cases step with
  | live call =>
    obtain ⟨event, isEvent, isCopy⟩ := mem_map.mp fromStep
    exact Or.inl ⟨event, replica.live call isStep isEvent, isCopy.symm⟩
  | recover peers =>
    obtain ⟨event, isEvent, isCopy⟩ := mem_map.mp fromStep
    obtain ⟨get, isPeer, fromPeer⟩ := mem_flatMap.mp isEvent
    unfold RecoveryManager.recoveredFrom at fromPeer
    cases yields : get (manager.storeSelector partition) with
    | error reason =>
      rw [yields] at fromPeer
      cases fromPeer
    | ok replies =>
      rw [yields] at fromPeer
      obtain ⟨reply, isReply, ingested⟩ := mem_filterMap.mp fromPeer
      obtain ⟨earlier, isEarlier, sent⟩ :=
        replica.recovered peers isStep get isPeer replies yields
      obtain ⟨sentEvent, answered, isSent⟩ := mem_map.mp (sent isReply)
      rw [← isSent] at ingested
      exact Or.inr ⟨event, isCopy.symm,
        ingested?_of_answer isEarlier answered ingested⟩

theorem mem_of_lastStored
    {copies : List StoredCopy}
    {key : EventKey}
    (isLast : lastStored copies key = some copy) :
    copy ∈ copies ∧ copy.event.metadata.eventKey = key := by
  simpa using mem_of_getLast? isLast

/-- The last copy that the first replica stored of a published event. -/
theorem lastCopy_liveEvents
    (set : StampedSet (liveEvents lives))
    {event : StoredEvent}
    (published : event ∈ liveEvents lives) :
    lastCopy (liveEvents lives) event.metadata.eventKey = some event := by
  cases isLast : lastCopy (liveEvents lives) event.metadata.eventKey with
  | none =>
    exact absurd rfl (lastCopy_eq_none_iff.mp isLast event published)
  | some final =>
    obtain ⟨isPublished, sameKey⟩ := mem_of_lastCopy isLast
    rw [set.single final isPublished event published sameKey]

section

variable
  (replica : ReplicaOf parsers manager partition lives steps)
  (stored : copy ∈ storedCopies manager partition steps)

include replica stored

/-- Every copy is one of a published event. -/
theorem ReplicaOf.exists_published :
    ∃ published ∈ liveEvents lives,
      copy.event.metadata.eventKey = published.metadata.eventKey := by
  rcases replica.of_mem_storedCopies stored with
    ⟨event, published, isLive⟩ | ⟨event, isRecovered, _, isCopyOf⟩
  · rw [isLive]
    exact ⟨event, published, rfl⟩
  · rw [isRecovered]
    exact isCopyOf

/-- A copy with a clock value is the published event. -/
theorem ReplicaOf.published_of_stamped
    {hlc : HlcTimestamp}
    (stamped : copy.event.metadata.hlcTimestamp = some hlc) :
    copy.event ∈ liveEvents lives := by
  rcases replica.of_mem_storedCopies stored with
    ⟨event, published, isLive⟩ | ⟨event, isRecovered, clockless, _⟩
  · rw [isLive]
    exact published
  · rw [isRecovered] at stamped
    cases clockless.symm.trans stamped

end

/-- An event whose last copy is live is held as it was published. -/
theorem ReplicaOf.lastStored_eq
    (set : StampedSet (liveEvents lives))
    (replica : ReplicaOf parsers manager partition lives steps)
    {event : StoredEvent}
    (published : event ∈ liveEvents lives)
    (endsLive :
      EndsLive (storedCopies manager partition steps)
        event.metadata.eventKey) :
    lastStored (storedCopies manager partition steps)
        event.metadata.eventKey =
      some (.live event) := by
  obtain ⟨final, isLast⟩ := endsLive
  obtain ⟨stored, sameKey⟩ := mem_of_lastStored isLast
  rcases replica.of_mem_storedCopies stored with
    ⟨other, otherPublished, isLive⟩ | ⟨other, isRecovered, _⟩
  · cases isLive
    rw [isLast, set.single final otherPublished event published sameKey]
  · cases isRecovered

section

variable
  (set : StampedSet (liveEvents lives))
  (replica : ReplicaOf parsers manager partition lives steps)
  (endLive :
    ∀ event ∈ liveEvents lives,
      EndsLive (storedCopies manager partition steps)
        event.metadata.eventKey)

include set replica endLive

/-- The replica holds the same copies, if its last ones are live. -/
theorem ReplicaOf.lastCopy_eq
    (key : EventKey) :
    lastCopy (liveEvents lives) key =
      lastCopy
        ((storedCopies manager partition steps).map StoredCopy.event)
        key := by
  by_cases isPublished :
      ∃ event ∈ liveEvents lives, event.metadata.eventKey = key
  · obtain ⟨event, published, isKey⟩ := isPublished
    rw [← isKey, lastCopy_event, lastCopy_liveEvents set published,
      replica.lastStored_eq set published (endLive event published)]
    rfl
  · grind [lastCopy_eq_none_iff, replica.exists_published]

/-- The replica has the same index, if its last copies are live. -/
theorem ReplicaOf.index_iff
    (hlc : HlcTimestamp)
    (key : EventKey) :
    (∃ event ∈ liveEvents lives,
        event.metadata.eventKey = key ∧
          event.metadata.hlcTimestamp = some hlc) ↔
      ∃ event ∈ (storedCopies manager partition steps).map StoredCopy.event,
        event.metadata.eventKey = key ∧
          event.metadata.hlcTimestamp = some hlc := by
  constructor
  · rintro ⟨event, published, isKey, stamped⟩
    have isLast := replica.lastStored_eq set published (endLive event published)
    exact ⟨event,
      mem_map.mpr ⟨_, (mem_of_lastStored isLast).1, rfl⟩,
      isKey, stamped⟩
  · grind [replica.published_of_stamped]

end

/-- The first replica lists every event with its clock value. -/
theorem mem_queryReplay_liveEvents
    (set : StampedSet (liveEvents lives))
    {event : StoredEvent}
    (published : event ∈ liveEvents lives) :
    returnedEvent event.metadata event.payload ∈
      ((FjallBackend.fresh partition).runCalls lives).queryReplay {} := by
  obtain ⟨hlc, stamped⟩ :=
    Option.isSome_iff_exists.mp (set.stamped event published)
  rw [FjallBackend.runCalls_enlarged]
  refine FjallBackend.mem_queryReplay_unfiltered.mpr
    ⟨replayEntry hlc event.metadata.eventKey,
      FjallBackend.mem_replay_enlarged_fresh.mpr
        ⟨event, published, rfl, stamped⟩,
      (event.metadata, event.payload), ?_, rfl⟩
  rw [FjallBackend.get?_enlarged_fresh]
  exact congrArg (Option.map _) (lastCopy_liveEvents set published)

/-- What the replica lists of an event is its last copy. -/
theorem lastStored_of_mem_queryReplay
    {event : StoredEvent}
    (listed :
      event ∈ (replicaAfter manager partition steps).queryReplay {}) :
    ∃ copy,
      lastStored (storedCopies manager partition steps)
          event.metadata.eventKey =
        some copy ∧
      copy.event.metadata.hlcTimestamp = event.metadata.hlcTimestamp := by
  rw [replicaAfter_enlarged] at listed
  obtain ⟨index, _, value, found, shape⟩ :=
    FjallBackend.mem_queryReplay_unfiltered.mp listed
  rw [FjallBackend.get?_enlarged_fresh, lastCopy_event, Option.map_map] at found
  obtain ⟨copy, isLast, isValue⟩ := Option.map_eq_some_iff.mp found
  have isMetadata : event.metadata = copy.event.metadata := by
    rw [← shape, ← isValue]
    rfl
  rw [isMetadata, (mem_of_lastStored isLast).2]
  exact ⟨copy, isLast, rfl⟩

/--
Two replicas replay the same events under every filter exactly when the last
copy that the second one stored of every event came through its subscription.
-/
theorem replicas_converge_iff
    (set : StampedSet (liveEvents lives))
    (replica : ReplicaOf parsers manager partition lives steps) :
    (∀ filters,
      (((FjallBackend.fresh partition).runCalls lives).queryReplay
          filters).map StoredEvent.observed =
        ((replicaAfter manager partition steps).queryReplay
          filters).map StoredEvent.observed) ↔
      ∀ event ∈ liveEvents lives,
        EndsLive (storedCopies manager partition steps)
          event.metadata.eventKey := by
  constructor
  · intro same event published
    have observed :=
      mem_map_of_mem (f := StoredEvent.observed)
        (@mem_queryReplay_liveEvents partition _ set _ published)
    rw [same {}] at observed
    obtain ⟨listed, isListed, sameView⟩ := mem_map.mp observed
    simp only [StoredEvent.observed, Prod.mk.injEq] at sameView
    obtain ⟨sameKey, _, _, sameClock⟩ := sameView
    obtain ⟨copy, isLast, clock⟩ := lastStored_of_mem_queryReplay isListed
    rw [sameKey] at isLast
    rw [sameClock] at clock
    rcases replica.of_mem_storedCopies (mem_of_lastStored isLast).1 with
      ⟨live, _, isLive⟩ | ⟨recovered, isRecovered, clockless, _⟩
    · exact ⟨live, isLive ▸ isLast⟩
    · have stamped := set.stamped event published
      rw [isRecovered] at clock
      rw [show event.metadata.hlcTimestamp = none from
        clock.symm.trans clockless] at stamped
      cases stamped
  · intro endLive filters
    rw [FjallBackend.runCalls_enlarged, replicaAfter_enlarged]
    refine congrArg _ (FjallBackend.queryReplay_congr
      (FjallBackend.wellFormed_enlarged_fresh _ _)
      (FjallBackend.wellFormed_enlarged_fresh _ _) ?_ ?_ filters)
    · intro key
      rw [FjallBackend.get?_enlarged_fresh, FjallBackend.get?_enlarged_fresh]
      exact congrArg _ (replica.lastCopy_eq set endLive key)
    · intro hlc key
      rw [FjallBackend.mem_replay_enlarged_fresh,
        FjallBackend.mem_replay_enlarged_fresh]
      exact replica.index_iff set endLive hlc key

end Convergence

/-- A peer that answers with what it has stored. -/
def peerOf
    (parsers : SelectorParsers)
    (partition : U32)
    (calls : List StoreCall) : QueryGet :=
  fun selector =>
    .ok ((((FjallBackend.fresh partition).runCalls calls).answer parsers
      selector.parameters).map StoredEvent.reply)

/-- One event with a clock value. -/
def stampedOnce : List StoreCall :=
  [.store (stampedEvent 0 0 0 none (some ⟨1, 0⟩))]

theorem stampedSet_stampedOnce : StampedSet (liveEvents stampedOnce) := by
  refine ⟨by decide, ?_⟩
  intro first isFirst second isSecond _
  rw [mem_singleton.mp isFirst, mem_singleton.mp isSecond]

/-- A replica that recovers the event, before or after it gets it. -/
theorem replicaOf_stampedOnce
    {steps : List ReplicaStep}
    (uses :
      ∀ step ∈ steps,
        step = .recover [peerOf decimalParsers 0 stampedOnce] ∨
          step = .live (.store (stampedEvent 0 0 0 none (some ⟨1, 0⟩))))
    (complete :
      ∃ copy ∈ storedCopies ⟨"app"⟩ 0 steps,
        copy.event.metadata.eventKey = ⟨0, 0⟩) :
    ReplicaOf decimalParsers ⟨"app"⟩ 0 stampedOnce steps where
  live := by
    intro call isStep
    rcases uses _ isStep with isRecover | isLive
    · cases isRecover
    · cases isLive
      exact List.Subset.refl _
  recovered := by
    intro peers isStep get isPeer replies yields
    rcases uses _ isStep with isRecover | isLive
    · cases isRecover
      rw [mem_singleton.mp isPeer] at yields
      refine ⟨stampedOnce, prefix_rfl, ?_⟩
      rw [← Except.ok.inj yields]
      exact List.Subset.refl _
    · cases isLive
  complete := by
    intro event published
    rw [mem_singleton.mp published]
    exact complete

/-- An event recovered first and then received. -/
theorem replicas_converge_receivedLast :
    let steps : List ReplicaStep :=
      [.recover [peerOf decimalParsers 0 stampedOnce],
        .live (.store (stampedEvent 0 0 0 none (some ⟨1, 0⟩)))]
    ∀ filters,
      (((FjallBackend.fresh 0).runCalls stampedOnce).queryReplay
          filters).map StoredEvent.observed =
        ((replicaAfter ⟨"app"⟩ 0 steps).queryReplay
          filters).map StoredEvent.observed := by
  intro steps
  refine (replicas_converge_iff stampedSet_stampedOnce
    (replicaOf_stampedOnce (by simp [steps]) ?_)).mpr ?_
  · exact ⟨.live (stampedEvent 0 0 0 none (some ⟨1, 0⟩)),
      mem_flatMap.mpr
        ⟨_, mem_cons_of_mem _ mem_cons_self, mem_cons_self⟩, rfl⟩
  · intro event published
    rw [mem_singleton.mp published]
    exact ⟨stampedEvent 0 0 0 none (some ⟨1, 0⟩), rfl⟩

/--
A recovered event is not replayed, and recovering an event that is held takes
its clock value away.
-/
theorem recovered_event_not_replayed :
    let event := stampedEvent 0 0 0 none (some ⟨1, 0⟩)
    let peer := peerOf decimalParsers 0 stampedOnce
    ((FjallBackend.fresh 0).runCalls stampedOnce).queryReplay {} =
        [event] ∧
      (replicaAfter ⟨"app"⟩ 0 [.recover [peer]]).queryReplay {} = [] ∧
      (replicaAfter ⟨"app"⟩ 0
          [.live (.store event), .recover [peer]]).queryReplay {} =
        [stampedEvent 0 0 0 none none] := by
  decide +kernel

end Mitiflow
