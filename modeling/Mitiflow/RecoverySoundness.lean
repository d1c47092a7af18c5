import Mitiflow.CatchUpProgress
import Mitiflow.GapRecovery
import Mitiflow.Library.FirstOfKey
import Mitiflow.PublisherSequencing
import Mitiflow.ReplayLog

namespace Mitiflow

open Library List

/-!
# What a gap recovery delivers

A recovery counts a sequence as recovered with the first readable reply that
names it.  The store replies with events of the missed publisher and
partition, but a publisher's cache holds the samples of all its partitions,
and the event channel drops what it has no room for.  This module says exactly
when everything a recovery pushes belongs to the gap and a successful one has
pushed all of it.
-/

/-! ## The recovery of one gap -/

/-- The replies to a query, each with the events then in the channel. -/
abbrev RecoveryReplies := Except String (List (Reply × Nat))

section Recovery

variable (capacity : Nat)

/-- Hand an event to the channel, which drops it when full. -/
def deliverEvent
    (occupied : Nat)
    (pushed : List RawEvent)
    (raw : RawEvent) : List RawEvent :=
  if occupied < capacity then pushed ++ [raw] else pushed

def handleReply
    (progress : RecoveryTask × List RawEvent)
    (arrival : Reply × Nat) : RecoveryTask × List RawEvent :=
  match progress.1.onReply arrival.1 with
  | (task, none) => (task, progress.2)
  | (task, some raw) =>
    (task, deliverEvent capacity arrival.2 progress.2 raw)

def queryAndDeliver (progress : RecoveryTask × List RawEvent) :
    RecoveryReplies → RecoveryTask × List RawEvent
  | .error _ => progress
  | .ok replies => replies.foldl (handleReply capacity) progress

variable (yields : Nat → String → RecoveryReplies)

/-- Query after query, until the gap is closed or none remains. -/
def recoverVia :
    List RecoveryQuery → Nat → RecoveryTask × List RawEvent →
      List RawEvent × Except Error Unit
  | [], _, progress =>
    (progress.2,
      .error (.gapRecoveryFailed progress.1.miss.source
        progress.1.miss.missed))
  | query :: rest, index, progress =>
    let after :=
      queryAndDeliver capacity progress (yields index query.selector)
    if after.1.tracker.isComplete then
      (after.2, .ok ())
    else
      recoverVia rest (index + 1) (after.1.endQuery, after.2)

/--
Recover the events of a miss: what is pushed to the channel, and the result.
The query with number `index` meets `yields index`.
-/
def recoverGap
    (display : PublisherId → String)
    (config : RecoveryConfig)
    (miss : MissInfo) : List RawEvent × Except Error Unit :=
  recoverVia capacity yields (recoveryQueries display config miss) 0
    (RecoveryTask.spawn display config miss, [])

end Recovery

/-! ## The sources -/

/-- The reply for a cached sample. -/
def CachedSample.reply (sample : CachedSample) : Reply :=
  .sample (some sample.attachment) sample.keyExpr sample.payload

/--
The replies of a publisher's cache; `lookup` finds the parameters of the
query.
-/
def cacheAnswer
    (lookup : String → Option String)
    (cache : List CachedSample) : List Reply :=
  let bound (name : String) (missing : Nat) : Nat :=
    ((lookup name).bind fun text =>
      (Text.parseUnsigned u64Max text.toList).toOption).getD missing
  (cache.filter fun sample =>
    bound "after_seq" 0 ≤ sample.seq.val &&
      sample.seq.val < bound "before_seq" u64Max).map CachedSample.reply

/-- Samples of one publisher, of whatever partition. -/
def CacheOf (publisher : PublisherId) (cache : List CachedSample) : Prop :=
  ∀ sample ∈ cache, sample.attachment.pubId = publisher

namespace EventPublisher

theorem cacheOf_cacheSample
    {publisher : EventPublisher}
    {owner : PublisherId}
    (owned : CacheOf owner publisher.cache)
    {sample : CachedSample}
    (isOwn : sample.attachment.pubId = owner) :
    CacheOf owner (publisher.cacheSample sample).cache := by
  unfold cacheSample
  split
  · intro kept isKept
    rcases mem_append.mp isKept with old | new
    · split at old
      · exact owned kept (mem_of_mem_drop old)
      · exact owned kept old
    · rw [mem_singleton.mp new]
      exact isOwn
  · exact owned

/-- A call caches samples under the publisher's own identity. -/
theorem cacheOf_perform
    {hash : String → U64}
    {publisher : EventPublisher}
    {call : PublishCall}
    {step : PublishStep}
    (performed : publisher.perform hash call = some step)
    (owned : CacheOf publisher.publisherId publisher.cache) :
    CacheOf publisher.publisherId step.publisher.cache ∧
      step.publisher.publisherId = publisher.publisherId := by
  rcases perform_cases performed with
    ⟨_, _, isSame, _⟩ | ⟨partition, keyExpr, delivered, _, allocated, isStep⟩
  · rw [isSame]
    exact ⟨owned, rfl⟩
  · have spec :=
      (deliver_spec delivered partition (publisher.upcomingSeq partition)
        keyExpr call).1
    rw [isStep, spec.publisherId, allocated.publisherId]
    refine ⟨?_, rfl⟩
    rw [← allocated.cache, ← allocated.publisherId] at owned
    rw [← allocated.publisherId]
    unfold deliver
    split
    · exact owned
    · dsimp only
      split
      · exact cacheOf_cacheSample owned rfl
      · exact cacheOf_cacheSample owned rfl

end EventPublisher

theorem cacheOf_run
    {hash : String → U64}
    {calls : List PublishCall}
    {start final : PublisherRun}
    (owned : CacheOf start.publisher.publisherId start.publisher.cache)
    (completed : PublisherRun.run? hash calls start = some final) :
    CacheOf start.publisher.publisherId final.publisher.cache := by
  induction calls generalizing start with
  | nil =>
    cases completed
    exact owned
  | cons call rest inductionHypothesis =>
    obtain ⟨next, isNext, later⟩ := Option.bind_eq_some_iff.mp completed
    obtain ⟨step, performed, shape⟩ := Option.map_eq_some_iff.mp isNext
    obtain ⟨stillOwned, sameId⟩ :=
      EventPublisher.cacheOf_perform performed owned
    have sameOwner :
        next.publisher.publisherId = start.publisher.publisherId := by
      rw [← shape]
      exact sameId
    rw [← sameOwner]
    refine inductionHypothesis ?_ later
    rw [sameOwner, ← shape]
    exact stillOwned

/-! ## What is heard -/

/-- An event of the gap carried by a reply to a query. -/
structure HeardEvent where
  selector : String
  raw : RawEvent
  occupied : Nat
  deriving Repr, DecidableEq

def HeardEvent.seq (event : HeardEvent) : Nat :=
  event.raw.seq.val

section Heard

variable (miss : MissInfo)

def MissInfo.Missed (seq : Nat) : Prop :=
  miss.missed.1 ≤ seq ∧ seq < miss.missed.2

instance MissInfo.decidableMissed (seq : Nat) : Decidable (miss.Missed seq) :=
  inferInstanceAs (Decidable (_ ∧ _))

/-- The event of the gap that a reply carries. -/
def heardOf (selector : String) (arrival : Reply × Nat) :
    Option HeardEvent :=
  match arrival.1.event? with
  | none => none
  | some raw =>
    if miss.Missed raw.seq.val then
      some ⟨selector, raw, arrival.2⟩
    else
      none

/-- The events of the gap in the replies to one query. -/
def heardIn (selector : String) : RecoveryReplies → List HeardEvent
  | .error _ => []
  | .ok replies => replies.filterMap (heardOf miss selector)

/-- The events of the gap in the replies to all queries. -/
def heardBy (yields : Nat → String → RecoveryReplies) :
    List RecoveryQuery → Nat → List HeardEvent
  | [], _ => []
  | query :: rest, index =>
    heardIn miss query.selector (yields index query.selector) ++
      heardBy yields rest (index + 1)

/-- Every missed sequence is heard of. -/
def AllHeard (heard : List HeardEvent) : Prop :=
  ∀ seq, miss.Missed seq → ∃ event ∈ heard, event.seq = seq

end Heard

/-- A recovery that has handled some replies. -/
structure Handled
    (miss : MissInfo)
    (capacity : Nat)
    (heard : List HeardEvent)
    (progress : RecoveryTask × List RawEvent) : Prop where
  expected : progress.1.tracker.expected = miss.missed
  missed : ∀ event ∈ heard, miss.Missed event.seq
  recovered :
    ∀ seq,
      seq ∈ progress.1.tracker.recovered ↔ ∃ event ∈ heard, event.seq = seq
  pushed :
    ∀ raw,
      raw ∈ progress.2 ↔
        ∃ event,
          FirstOf HeardEvent.seq heard event ∧
            event.occupied < capacity ∧ event.raw = raw

variable {event : HeardEvent}

namespace Handled

variable {miss : MissInfo} {capacity : Nat} {heard : List HeardEvent}
  {progress : RecoveryTask × List RawEvent}

section

variable (handled : Handled miss capacity heard progress)

include handled

theorem expects_iff
    (seq : Nat) :
    progress.1.tracker.expects seq = true ↔ miss.Missed seq := by
  simp [RecoveryTracker.expects, handled.expected, MissInfo.Missed]

/-- A reply for a sequence that was heard of changes nothing. -/
theorem heardAgain
    (known : ∃ other ∈ heard, other.seq = event.seq) :
    Handled miss capacity (heard ++ [event]) progress := by
  have repeats :
      ∀ item ∈ [event], ∃ other ∈ heard, other.seq = item.seq := by
    intro item isItem
    rw [mem_singleton.mp isItem]
    exact known
  obtain ⟨other, isOther, sameSeq⟩ := known
  refine ⟨handled.expected, ?_, ?_, ?_⟩
  · intro item member
    rcases mem_append.mp member with old | new
    · exact handled.missed item old
    · rw [mem_singleton.mp new, ← sameSeq]
      exact handled.missed other isOther
  · intro seq
    rw [handled.recovered]
    constructor
    · rintro ⟨item, old, isSeq⟩
      exact ⟨item, mem_append_left _ old, isSeq⟩
    · rintro ⟨item, member, isSeq⟩
      rcases mem_append.mp member with old | new
      · exact ⟨item, old, isSeq⟩
      · rw [mem_singleton.mp new, ← sameSeq] at isSeq
        exact ⟨other, isOther, isSeq⟩
  · intro raw
    simp only [firstOf_append repeats]
    exact handled.pushed raw

/-- The first reply for a sequence is counted, and pushed if there is room. -/
theorem heardFirst
    (isMissed : miss.Missed event.seq)
    (new : ∀ other ∈ heard, other.seq ≠ event.seq) :
    Handled miss capacity (heard ++ [event])
      ({ progress.1 with tracker := progress.1.tracker.record event.seq },
        deliverEvent capacity event.occupied progress.2 event.raw) := by
  have isExpected := (handled.expects_iff event.seq).mpr isMissed
  refine ⟨?_, ?_, ?_, ?_⟩
  · rw [RecoveryTracker.record, if_pos isExpected]
    exact handled.expected
  · intro item member
    rcases mem_append.mp member with old | isNew
    · exact handled.missed item old
    · rw [mem_singleton.mp isNew]
      exact isMissed
  · intro seq
    rw [RecoveryTracker.record, if_pos isExpected, Finset.mem_insert,
      handled.recovered]
    simp only [mem_append, mem_singleton, or_and_right, exists_or,
      exists_eq_left]
    rw [or_comm, eq_comm]
  · intro raw
    have ofEarlier := handled.pushed raw
    simp only [firstOf_snoc, or_and_right, exists_or]
    by_cases room : event.occupied < capacity
    · rw [deliverEvent, if_pos room, mem_append, mem_singleton,
        ofEarlier]
      refine or_congr Iff.rfl ?_
      constructor
      · intro isRaw
        exact ⟨event, ⟨rfl, new⟩, room, isRaw.symm⟩
      · rintro ⟨item, ⟨isEvent, _⟩, _, isRaw⟩
        rw [← isRaw, isEvent]
    · rw [deliverEvent, if_neg room, ofEarlier]
      refine (or_iff_left ?_).symm
      rintro ⟨item, ⟨isEvent, _⟩, hasRoom, _⟩
      rw [isEvent] at hasRoom
      exact room hasRoom

theorem handleReply
    (selector : String)
    (arrival : Reply × Nat) :
    Handled miss capacity (heard ++ (heardOf miss selector arrival).toList)
      (handleReply capacity progress arrival) := by
  unfold Mitiflow.handleReply RecoveryTask.onReply heardOf
  cases arrival.1.event? with
  | none =>
    simpa using handled
  | some raw =>
    by_cases isMissed : miss.Missed raw.seq.val
    · have isExpected := (handled.expects_iff raw.seq.val).mpr isMissed
      simp only [isExpected, isMissed, ↓reduceIte, Option.toList_some]
      by_cases known : raw.seq.val ∈ progress.1.tracker.recovered
      · simp only [known, ↓reduceIte]
        exact handled.heardAgain ((handled.recovered _).mp known)
      · simp only [known, ↓reduceIte]
        refine handled.heardFirst isMissed fun other isOther sameSeq => ?_
        exact known ((handled.recovered _).mpr ⟨other, isOther, sameSeq⟩)
    · grind [handled.expects_iff]

theorem queryAndDeliver
    (selector : String)
    (replies : RecoveryReplies) :
    Handled miss capacity (heard ++ heardIn miss selector replies)
      (queryAndDeliver capacity progress replies) := by
  cases replies with
  | error reason =>
    rw [heardIn, append_nil]
    exact handled
  | ok arrivals =>
    rw [heardIn, Mitiflow.queryAndDeliver]
    induction arrivals generalizing heard progress with
    | nil =>
      simpa using handled
    | cons arrival rest inductionHypothesis =>
      have next := inductionHypothesis (handled.handleReply selector arrival)
      cases isHeard : heardOf miss selector arrival with
      | none =>
        rw [isHeard, Option.toList_none, append_nil] at next
        rw [filterMap_cons_none isHeard]
        exact next
      | some event =>
        rw [isHeard, Option.toList_some, append_assoc] at next
        rw [filterMap_cons_some isHeard]
        exact next

end

theorem isComplete_iff (handled : Handled miss capacity heard progress) :
    progress.1.tracker.isComplete = true ↔ AllHeard miss heard := by
  have within :
      progress.1.tracker.recovered ⊆
        Finset.Ico miss.missed.1 miss.missed.2 := by
    intro seq isRecovered
    obtain ⟨event, isHeard, isSeq⟩ := (handled.recovered seq).mp isRecovered
    rw [← isSeq, Finset.mem_Ico]
    exact handled.missed event isHeard
  rw [RecoveryTracker.isComplete, handled.expected, decide_eq_true_eq]
  constructor
  · intro full seq isMissed
    rw [← handled.recovered, Finset.eq_of_subset_of_card_le within
      (by rw [Nat.card_Ico, full]), Finset.mem_Ico]
    exact isMissed
  · intro all
    have equal :
        progress.1.tracker.recovered =
          Finset.Ico miss.missed.1 miss.missed.2 := by
      refine Finset.Subset.antisymm within ?_
      intro seq inRange
      exact (handled.recovered seq).mpr (all seq (Finset.mem_Ico.mp inRange))
    rw [equal, Nat.card_Ico]

end Handled

/-! ## The whole recovery -/

/-- What a recovery pushes, and whether it succeeds, by what is heard. -/
structure Recovers
    (miss : MissInfo)
    (capacity : Nat)
    (heard : List HeardEvent)
    (outcome : List RawEvent × Except Error Unit) : Prop where
  pushed :
    ∀ raw,
      raw ∈ outcome.1 ↔
        ∃ event,
          FirstOf HeardEvent.seq heard event ∧
            event.occupied < capacity ∧ event.raw = raw
  succeeds : outcome.2 = .ok () ↔ AllHeard miss heard

section Run

variable {miss : MissInfo} {capacity : Nat}

theorem missed_of_mem_heardIn
    {selector : String}
    {replies : RecoveryReplies}
    (isHeard : event ∈ heardIn miss selector replies) :
    event.selector = selector ∧
      miss.Missed event.seq ∧
        ∃ arrivals,
          replies = .ok arrivals ∧
            ∃ reply,
              (reply, event.occupied) ∈ arrivals ∧
                reply.event? = some event.raw := by
  cases replies with
  | error reason =>
    cases isHeard
  | ok arrivals =>
    obtain ⟨arrival, isArrival, heard⟩ := mem_filterMap.mp isHeard
    unfold heardOf at heard
    cases carries : arrival.1.event? with
    | none =>
      rw [carries] at heard
      cases heard
    | some raw =>
      grind [HeardEvent.seq]

theorem missed_of_mem_heardBy
    {yields : Nat → String → RecoveryReplies}
    {queries : List RecoveryQuery}
    {index : Nat}
    (isHeard : event ∈ heardBy miss yields queries index) :
    miss.Missed event.seq ∧
      ∃ query ∈ queries, ∃ number,
        event ∈ heardIn miss query.selector (yields number query.selector) := by
  induction queries generalizing index with
  | nil =>
    cases isHeard
  | cons query rest inductionHypothesis =>
    rcases mem_append.mp isHeard with inThis | inRest
    · exact ⟨(missed_of_mem_heardIn inThis).2.1, query,
        mem_cons_self, index, inThis⟩
    · grind

/-- The queries of a recovery, up to the one that closes the gap. -/
theorem recovers_recoverVia
    {yields : Nat → String → RecoveryReplies}
    {queries : List RecoveryQuery}
    {index : Nat}
    {heard : List HeardEvent}
    {progress : RecoveryTask × List RawEvent}
    (handled : Handled miss capacity heard progress)
    (goesOn : queries = [] → ¬AllHeard miss heard) :
    Recovers miss capacity (heard ++ heardBy miss yields queries index)
      (recoverVia capacity yields queries index progress) := by
  induction queries generalizing index heard progress with
  | nil =>
    rw [heardBy, append_nil]
    refine ⟨handled.pushed, ?_⟩
    exact iff_of_false (fun succeeds => by cases succeeds) (goesOn rfl)
  | cons query rest inductionHypothesis =>
    have next :=
      handled.queryAndDeliver query.selector (yields index query.selector)
    rw [heardBy, ← append_assoc]
    unfold recoverVia
    dsimp only
    split
    · rename_i complete
      have all := next.isComplete_iff.mp complete
      -- every later reply names a sequence that was heard of
      have known :
          ∀ event ∈ heardBy miss yields rest (index + 1),
            ∃ other ∈ heard ++ heardIn miss query.selector
                (yields index query.selector),
              other.seq = event.seq :=
        fun event isHeard => all event.seq (missed_of_mem_heardBy isHeard).1
      refine ⟨?_, iff_of_true rfl ?_⟩
      · intro raw
        simp only [firstOf_append known]
        exact next.pushed raw
      · grind [AllHeard]
    · rename_i incomplete
      refine inductionHypothesis ?_ fun _ all =>
        incomplete (next.isComplete_iff.mpr all)
      exact ⟨next.expected, next.missed, next.recovered, next.pushed⟩

/-- Everything that the queries of a recovery hear. -/
def heardInGap
    (display : PublisherId → String)
    (config : RecoveryConfig)
    (miss : MissInfo)
    (yields : Nat → String → RecoveryReplies) : List HeardEvent :=
  heardBy miss yields (recoveryQueries display config miss) 0

theorem handled_spawn
    (display : PublisherId → String)
    (config : RecoveryConfig) :
    Handled miss capacity [] (RecoveryTask.spawn display config miss, []) := by
  refine ⟨rfl, ?_, ?_, ?_⟩
  · intro event isHeard
    cases isHeard
  · intro seq
    refine iff_of_false (Finset.notMem_empty seq) ?_
    rintro ⟨event, isHeard, _⟩
    cases isHeard
  · intro raw
    refine iff_of_false not_mem_nil ?_
    rintro ⟨event, isFirst, _⟩
    cases isFirst.mem

theorem recovers_recoverGap
    (display : PublisherId → String)
    (config : RecoveryConfig)
    (yields : Nat → String → RecoveryReplies) :
    Recovers miss capacity (heardInGap display config miss yields)
      (recoverGap capacity yields display config miss) := by
  refine recovers_recoverVia (handled_spawn display config) ?_
  intro noQueries
  unfold recoveryQueries at noQueries
  split at noQueries
  · cases noQueries
  · cases noQueries

end Run

/-! ## Soundness -/

/-- The parameters of a store query. -/
def storeRecoveryParameters
    (display : PublisherId → String)
    (miss : MissInfo) : String :=
  "publisher_id=" ++ display miss.source ++ "&after_seq=" ++
    toString (miss.missed.1 - 1) ++ "&before_seq=" ++ toString miss.missed.2

/-- They stand after the question mark of its selector. -/
theorem storeRecoverySelector_eq
    (display : PublisherId → String)
    (storePrefix : String)
    (miss : MissInfo) :
    storeRecoverySelector display storePrefix miss =
      storePrefix ++ "/" ++ toString miss.partition.val ++ "?" ++
        storeRecoveryParameters display miss := by
  have cut : "?publisher_id=" = "?" ++ "publisher_id=" := by decide
  unfold storeRecoverySelector storeRecoveryParameters
  rw [cut]
  simp only [String.append_assoc]

/--
One query is answered by the store of the missed partition, or by the cache
of the missed publisher.  Either may send less than it holds.
-/
structure Served
    (uuid : UuidText)
    (dateTime : List Char → Except String DateTime)
    (config : RecoveryConfig)
    (miss : MissInfo)
    (replies : String → RecoveryReplies) : Prop where
  store :
    ∃ stores : PartitionStores,
      ∀ storePrefix ∈ config.storeKeyPrefix, ∀ arrivals,
        replies (storeRecoverySelector uuid.display storePrefix miss) =
            .ok arrivals →
          arrivals.map Prod.fst ⊆
            ((stores.backend miss.partition).answer ⟨uuid.parse, dateTime⟩
              (storeRecoveryParameters uuid.display miss)).map
                StoredEvent.reply
  cache :
    ∃ lookup cache,
      CacheOf miss.source cache ∧
        ∀ arrivals,
          replies (cacheRecoverySelector uuid.display config.keyPrefix miss) =
              .ok arrivals →
            arrivals.map Prod.fst ⊆ cacheAnswer lookup cache

/-- Everything pushed belongs to the gap, and success means all of it. -/
structure RecoverySound
    (miss : MissInfo)
    (outcome : List RawEvent × Except Error Unit) : Prop where
  pushed :
    ∀ raw ∈ outcome.1,
      raw.cursorKey = miss.cursorKey ∧ miss.Missed raw.position
  complete :
    outcome.2 = .ok () →
      ∀ seq, miss.Missed seq →
        ∃ raw ∈ outcome.1,
          raw.cursorKey = miss.cursorKey ∧ raw.position = seq

section Soundness

variable {uuid : UuidText} {dateTime : List Char → Except String DateTime}
  {config : RecoveryConfig} {miss : MissInfo}

/-- The store is asked for the publisher; the bounds are not read. -/
theorem answer_storeRecoveryParameters (backend : FjallBackend) :
    backend.answer ⟨uuid.parse, dateTime⟩
        (storeRecoveryParameters uuid.display miss) =
      backend.queryReplay { publisherId := some miss.source } := by
  have isJoined :
      (storeRecoveryParameters uuid.display miss).toList =
        joined
          [(.publisherId, (uuid.display miss.source).toList),
            (.afterSeq, (Nat.repr (miss.missed.1 - 1)).toList),
            (.beforeSeq, (Nat.repr miss.missed.2).toList)] := by
    unfold storeRecoveryParameters
    simp only [joined, Parameter.assign, Parameter.name,
      String.toList_append, append_assoc, cons_append]
    rfl
  have parts :
      recognised (storeRecoveryParameters uuid.display miss) =
        [(.publisherId, (uuid.display miss.source).toList),
          (.afterSeq, (Nat.repr (miss.missed.1 - 1)).toList),
          (.beforeSeq, (Nat.repr miss.missed.2).toList)] := by
    refine recognised_of_joined isJoined ?_
    simp only [forall_mem_cons, not_mem_nil, false_imp_iff,
      implies_true, and_true]
    exact ⟨uuid.plain miss.source, plainText_repr _, plainText_repr _⟩
  have filters :
      ReplayFilters.fromSelector ⟨uuid.parse, dateTime⟩
          (storeRecoveryParameters uuid.display miss) =
        .ok { publisherId := some miss.source } := by
    rw [ReplayFilters.fromSelector, parts]
    simp only [foldlM_cons, foldlM_nil, ReplayFilters.apply,
      uuid.parse_display, orInvalid, Except.map]
    rfl
  rw [FjallBackend.answer,
    routesToReplay_of_publisherId isJoined mem_cons_self, if_pos rfl,
    filters]

/-- The store replies with events of the missed publisher and partition. -/
theorem cursorKey_of_store
    {stores : PartitionStores}
    {event : StoredEvent}
    (answered :
      event ∈
        (stores.backend miss.partition).answer ⟨uuid.parse, dateTime⟩
          (storeRecoveryParameters uuid.display miss))
    {raw : RawEvent}
    (carries : event.reply.event? = some raw) :
    raw.cursorKey = miss.cursorKey := by
  rw [answer_storeRecoveryParameters] at answered
  obtain ⟨index, isIndexed, taken⟩ := mem_scan answered
  obtain ⟨⟨_, _, ofPublisher⟩, value, found, _, shape⟩ :=
    ReplayFilters.visit_eq_take_iff.mp taken
  have held := OrderedMap.get?_eq_some.mp found
  have isKey := (stores.wellFormed miss.partition).events _ held
  have target := (stores.wellFormed miss.partition).replay _ isIndexed
  have publisher : value.1.publisherId = miss.source := by
    have fromIndex := congrArg EventKey.publisherId (isKey.trans target)
    exact fromIndex.trans (of_decide_eq_true ofPublisher)
  rw [← Option.some.inj carries, shape]
  exact congrArg₂ Prod.mk publisher (stores.routed miss.partition _ held)

theorem publisherId_of_cache
    {lookup : String → Option String}
    {cache : List CachedSample}
    (owned : CacheOf miss.source cache)
    {reply : Reply}
    (answered : reply ∈ cacheAnswer lookup cache)
    {raw : RawEvent}
    (carries : reply.event? = some raw) :
    raw.publisherId = miss.source := by
  obtain ⟨sample, isSample, isReply⟩ := mem_map.mp answered
  rw [← isReply] at carries
  rw [← Option.some.inj carries]
  exact owned sample (mem_filter.mp isSample).1

/-- A recovery asks the cache, and the store if there is one. -/
theorem selector_of_mem_recoveryQueries
    {display : PublisherId → String}
    {query : RecoveryQuery}
    (isQuery : query ∈ recoveryQueries display config miss) :
    query.selector = cacheRecoverySelector display config.keyPrefix miss ∨
      ∃ storePrefix ∈ config.storeKeyPrefix,
        query.selector = storeRecoverySelector display storePrefix miss := by
  unfold recoveryQueries at isQuery
  cases hasStore : config.storeKeyPrefix with
  | none =>
    rw [hasStore] at isQuery
    rw [mem_singleton.mp isQuery]
    exact Or.inl rfl
  | some storePrefix =>
    rw [hasStore] at isQuery
    rcases mem_cons.mp isQuery with isFirst | later
    · rw [isFirst]
      exact Or.inr ⟨storePrefix, rfl, rfl⟩
    · rcases mem_cons.mp later with isCache | isRetry
      · rw [isCache]
        exact Or.inl rfl
      · obtain ⟨attempt, _, shape⟩ := mem_map.mp isRetry
        rw [← shape]
        exact Or.inr ⟨storePrefix, rfl, rfl⟩

/--
What is heard is of the missed publisher, and of the missed partition unless
it comes from the cache.
-/
theorem cursorKey_of_heard
    {yields : Nat → String → RecoveryReplies}
    (served : ∀ index, Served uuid dateTime config miss (yields index))
    (isHeard : event ∈ heardInGap uuid.display config miss yields)
    (ofPartition :
      event.selector =
          cacheRecoverySelector uuid.display config.keyPrefix miss →
        extractPartition event.raw.keyExpr = miss.partition) :
    event.raw.cursorKey = miss.cursorKey := by
  obtain ⟨_, query, isQuery, number, inQuery⟩ := missed_of_mem_heardBy isHeard
  obtain ⟨isSelector, _, arrivals, replied, reply, isArrival, carries⟩ :=
    missed_of_mem_heardIn inQuery
  have isReply : reply ∈ arrivals.map Prod.fst :=
    mem_map.mpr ⟨_, isArrival, rfl⟩
  rcases selector_of_mem_recoveryQueries isQuery with
    isCache | ⟨storePrefix, hasStore, isStore⟩
  · obtain ⟨lookup, cache, owned, sent⟩ := (served number).cache
    rw [isCache] at replied isSelector
    exact congrArg₂ Prod.mk
      (publisherId_of_cache owned (sent arrivals replied isReply) carries)
      (ofPartition isSelector)
  · obtain ⟨stores, sent⟩ := (served number).store
    rw [isStore] at replied
    obtain ⟨stored, answered, shape⟩ :=
      mem_map.mp (sent storePrefix hasStore arrivals replied isReply)
    rw [← shape] at carries
    exact cursorKey_of_store answered carries

/--
A recovery is sound exactly when the first reply that names a missed sequence
is never one of the cache for another partition which finds room, and finds
room whenever all missed sequences are named.
-/
theorem recoverGap_sound_iff
    {capacity : Nat}
    {yields : Nat → String → RecoveryReplies}
    (served : ∀ index, Served uuid dateTime config miss (yields index)) :
    RecoverySound miss (recoverGap capacity yields uuid.display config miss) ↔
      (∀ event,
        FirstOf HeardEvent.seq (heardInGap uuid.display config miss yields)
            event →
          event.selector =
              cacheRecoverySelector uuid.display config.keyPrefix miss →
            event.occupied < capacity →
              extractPartition event.raw.keyExpr = miss.partition) ∧
      (AllHeard miss (heardInGap uuid.display config miss yields) →
        ∀ event,
          FirstOf HeardEvent.seq (heardInGap uuid.display config miss yields)
              event →
            event.occupied < capacity) := by
  have outcome := @recovers_recoverGap miss capacity uuid.display config yields
  constructor
  · intro sound
    refine ⟨?_, ?_⟩
    · intro event isFirst _ room
      have isPushed :=
        (outcome.pushed event.raw).mpr ⟨event, isFirst, room, rfl⟩
      exact congrArg Prod.snd (sound.pushed event.raw isPushed).1
    · intro all event isFirst
      have isMissed := (missed_of_mem_heardBy isFirst.mem).1
      obtain ⟨raw, isPushed, _, isSeq⟩ :=
        sound.complete (outcome.succeeds.mpr all) event.seq isMissed
      obtain ⟨first, isFirstToo, room, isRaw⟩ :=
        (outcome.pushed raw).mp isPushed
      have sameSeq : first.seq = event.seq := by
        rw [← isSeq, ← isRaw]
        rfl
      rw [← isFirstToo.unique isFirst sameSeq]
      exact room
  · rintro ⟨ofPartition, hasRoom⟩
    have belongs :
        ∀ event,
          FirstOf HeardEvent.seq
              (heardInGap uuid.display config miss yields) event →
            event.occupied < capacity → event.raw.cursorKey = miss.cursorKey :=
      fun event isFirst room =>
        cursorKey_of_heard served isFirst.mem fun fromCache =>
          ofPartition event isFirst fromCache room
    refine ⟨?_, ?_⟩
    · intro raw isPushed
      obtain ⟨event, isFirst, room, isRaw⟩ := (outcome.pushed raw).mp isPushed
      rw [← isRaw]
      exact ⟨belongs event isFirst room, (missed_of_mem_heardBy isFirst.mem).1⟩
    · intro succeeds seq isMissed
      have all := outcome.succeeds.mp succeeds
      obtain ⟨event, isFirst, isSeq⟩ := exists_firstOf (all seq isMissed)
      have room := hasRoom all event isFirst
      exact ⟨event.raw, (outcome.pushed _).mpr ⟨event, isFirst, room, rfl⟩,
        belongs event isFirst room, isSeq⟩

end Soundness

/-- The cache of a publisher that sent one event to each expression. -/
def cachedBy (keyExprs : List String) : List CachedSample :=
  match PublisherRun.run? (fun _ => 0)
      (keyExprs.map fun keyExpr =>
        .publishTo keyExpr sampleOutgoing { put := .ok () })
      { publisher :=
          { publisherId := 7
            config := { singlePartition with cacheSize := 8 } } } with
  | some final => final.publisher.cache
  | none => []

theorem cacheOf_cachedBy (keyExprs : List String) :
    CacheOf 7 (cachedBy keyExprs) := by
  unfold cachedBy
  split
  · rename_i final completed
    refine cacheOf_run ?_ completed
    intro sample isSample
    cases isSample
  · intro sample isSample
    cases isSample

/-- Recovery from the cache alone. -/
def cacheOnly : RecoveryConfig where
  keyPrefix := "events"
  storeKeyPrefix := none
  recoveryDelay := 0
  maxRecoveryAttempts := 0

/-- The replies of a cache, with a constant number of queued events. -/
def cacheReplies
    (cache : List CachedSample)
    (occupied : Nat) : Nat → String → RecoveryReplies :=
  fun _ _ =>
    .ok ((cacheAnswer (fun _ => none) cache).map fun reply =>
      (reply, occupied))

theorem served_cacheReplies
    {miss : MissInfo}
    {cache : List CachedSample}
    (owned : CacheOf miss.source cache)
    (occupied index : Nat) :
    Served decimalUuid decimalParsers.dateTime cacheOnly miss
      (cacheReplies cache occupied index) := by
  refine ⟨⟨PartitionStores.single [] (by decide), ?_⟩,
    ⟨fun _ => none, cache, owned, ?_⟩⟩
  · intro storePrefix hasStore
    cases hasStore
  · intro arrivals replied reply isReply
    rw [← Except.ok.inj replied, map_map] at isReply
    simpa [Function.comp_def] using isReply

/-- The second event of the only partition is recovered. -/
theorem recoverGap_sound_singlePartition :
    RecoverySound ⟨7, 0, 1, 2⟩
      (recoverGap 4
        (cacheReplies (cachedBy ["events/p/0/0", "events/p/0/1"]) 0)
        decimalUuid.display cacheOnly ⟨7, 0, 1, 2⟩) := by
  have heard :
      ∀ event ∈
          heardInGap decimalUuid.display cacheOnly ⟨7, 0, 1, 2⟩
            (cacheReplies (cachedBy ["events/p/0/0", "events/p/0/1"]) 0),
        extractPartition event.raw.keyExpr = 0 ∧ event.occupied < 4 := by
    decide +kernel
  refine (recoverGap_sound_iff
    (served_cacheReplies (cacheOf_cachedBy _) 0)).mpr ⟨?_, ?_⟩
  · intro event isFirst _ _
    exact (heard event isFirst.mem).1
  · intro _ event isFirst
    exact (heard event isFirst.mem).2

/--
The cache answers for another partition: its event is pushed and counted, and
the missed one is not pushed.  A full channel drops an event that is counted.
-/
theorem recovery_counts_wrong_or_dropped :
    let cache :=
      cachedBy
        ["events/p/1/0", "events/p/0/0", "events/p/1/1", "events/p/0/1"]
    let miss : MissInfo := ⟨7, 0, 1, 2⟩
    let recovered :=
      recoverGap 4 (cacheReplies cache 0) decimalUuid.display cacheOnly miss
    recovered.2 = .ok () ∧
      recovered.1.map RawEvent.cursorKey = [(7, 1)] ∧
      recoverGap 4 (cacheReplies cache 4) decimalUuid.display cacheOnly
          miss =
        ([], .ok ()) := by
  refine ⟨rfl, by decide +kernel, rfl⟩

end Mitiflow
