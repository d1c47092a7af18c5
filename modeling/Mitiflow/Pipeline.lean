import Mitiflow.GapRecovery
import Mitiflow.Library.GuardedRun
import Mitiflow.Library.OrderedMap
import Mitiflow.Library.Reservations
import Mitiflow.Offload

namespace Mitiflow

open Library List

/-!
# The single-shard pipeline

One worker presents samples and heartbeats to the gap detector, pushes events
to the bounded event channel and spawns recovery tasks, which push to the same
channel on their own.  The detector forgets publishers that were silent for
longer than their time to live.

A run interleaves samples, heartbeats, recovery replies and the clock in any
order; offloading is off.  The worker stops at an arithmetic overflow of the
detector, while its recovery tasks go on.
-/

/-- How publishers send heartbeats. -/
inductive HeartbeatMode where
  | periodic (interval : Nat)
  | sporadic (interval : Nat)
  | disabled
  deriving Repr, DecidableEq

/-- How a subscriber recovers missed events. -/
inductive RecoveryMode where
  | heartbeat
  | periodicQuery (interval : Nat)
  | both
  deriving Repr, DecidableEq

/-- The settings the pipeline reads. -/
structure PipelineConfig where
  heartbeat : HeartbeatMode
  recoveryMode : RecoveryMode
  publisherTtl : Option Nat
  recovery : RecoveryConfig
  deriving Repr, DecidableEq

/-- Whether a heartbeat is received and may reveal misses. -/
def PipelineConfig.recoversOnHeartbeat (config : PipelineConfig) : Bool :=
  config.heartbeat ≠ .disabled &&
    match config.recoveryMode with
    | .heartbeat | .both => true
    | .periodicQuery _ => false

/-- A heartbeat: the highest sequence a publisher assigned per partition. -/
structure HeartbeatBeacon where
  pubId : PublisherId
  partitionSeqs : OrderedMap U32 U64

/-- The keys a heartbeat speaks about. -/
def HeartbeatBeacon.keys (beacon : HeartbeatBeacon) : List CursorKey :=
  beacon.partitionSeqs.entries.map fun announced =>
    (beacon.pubId, announced.1)

/-- The detector with the time of each key's last activity. -/
structure ActivityDetector extends GapDetector where
  lastActivity : CursorKey → Option Nat := fun _ => none

namespace ActivityDetector

def touch
    (detector : ActivityDetector)
    (now : Nat)
    (keys : List CursorKey) : ActivityDetector :=
  { detector with
    lastActivity := fun key =>
      if key ∈ keys then some now else detector.lastActivity key }

/-- Whether the last activity of a key is older than `age`. -/
def isStale
    (detector : ActivityDetector)
    (now age : Nat)
    (key : CursorKey) : Bool :=
  match detector.lastActivity key with
  | some active => now - active > age
  | none => false

/-- Forget the keys whose last activity is older than `age`. -/
def evictOlderThan
    (detector : ActivityDetector)
    (now age : Nat) : ActivityDetector where
  lastSeen := fun key =>
    if detector.isStale now age key then none else detector.lastSeen key
  lastActivity := fun key =>
    if detector.isStale now age key then none else detector.lastActivity key

end ActivityDetector

/-- The worker, its recovery tasks and what reached the event channel. -/
structure Pipeline where
  detector : ActivityDetector := {}
  tasks : List RecoveryTask := []
  /-- Events placed on the event channel, oldest first. -/
  pushed : List RawEvent := []
  sampleCount : Nat := 0
  now : Nat := 0
  running : Bool := true

/-- One step; `accepted` says that the event channel has room. -/
inductive PipelineStep where
  | sample (live : LiveSample)
  | heartbeat (beacon : HeartbeatBeacon)
  | reply (task : Nat) (reply : Reply) (accepted : Bool)
  | endQuery (task : Nat)
  | elapse (duration : Nat)

namespace Pipeline

/-- Try to place an event on the event channel. -/
def deliver
    (pipeline : Pipeline)
    (event : Option RawEvent)
    (accepted : Bool) : Pipeline :=
  { pipeline with
    pushed := pipeline.pushed ++ if accepted then event.toList else [] }

/-- Evict silent publishers after every ten thousandth sample. -/
def maybeEvict (config : PipelineConfig) (pipeline : Pipeline) : Pipeline :=
  match config.publisherTtl with
  | none => pipeline
  | some ttl =>
    if pipeline.sampleCount % 10000 = 0 then
      { pipeline with
        detector := pipeline.detector.evictOlderThan pipeline.now ttl }
    else
      pipeline

section Run

variable (display : PublisherId → String) (config : PipelineConfig)

/-- Spawn a recovery task for each miss. -/
def spawnRecovery (pipeline : Pipeline) (misses : List MissInfo) : Pipeline :=
  { pipeline with
    tasks :=
      pipeline.tasks ++
        misses.map (RecoveryTask.spawn display config.recovery) }

/-- Present a sample to the detector and act on its verdict. -/
def onSample (pipeline : Pipeline) (live : LiveSample) : Pipeline :=
  let key := live.sample.cursorKey
  match pipeline.detector.onSample key.1 key.2 live.sample.metadata.seq with
  | none => { pipeline with running := false }
  | some (seen, result) =>
    let (event, miss) := handleSampleResult result live.sample
    let detector : ActivityDetector :=
      { pipeline.detector.touch pipeline.now [key] with
        toGapDetector := seen }
    maybeEvict config
      { ({ pipeline with detector := detector }.deliver event
          live.accepted).spawnRecovery display config miss.toList with
        sampleCount := pipeline.sampleCount + 1 }

/-- Recover what a heartbeat reveals. -/
def onHeartbeat (pipeline : Pipeline) (beacon : HeartbeatBeacon) : Pipeline :=
  if config.recoversOnHeartbeat then
    match pipeline.detector.onHeartbeat beacon.pubId
        beacon.partitionSeqs.entries with
    | none => { pipeline with running := false }
    | some misses =>
      { pipeline with
        detector :=
          pipeline.detector.touch pipeline.now beacon.keys }.spawnRecovery
        display config misses
  else
    pipeline

/-- A reply reaches a running recovery task. -/
def onReply
    (pipeline : Pipeline)
    (index : Nat)
    (reply : Reply)
    (accepted : Bool) : Pipeline :=
  match pipeline.tasks[index]? with
  | none => pipeline
  | some task =>
    if task.ended then
      pipeline
    else
      let (next, event) := task.onReply reply
      { pipeline with tasks := pipeline.tasks.set index next }.deliver event
        accepted

/-- The query in progress of a recovery task ends. -/
def onEndQuery (pipeline : Pipeline) (index : Nat) : Pipeline :=
  match pipeline.tasks[index]? with
  | none => pipeline
  | some task =>
    { pipeline with tasks := pipeline.tasks.set index task.endQuery }

def step (pipeline : Pipeline) : PipelineStep → Pipeline
  | .sample live =>
    if pipeline.running then
      pipeline.onSample display config live
    else
      pipeline
  | .heartbeat beacon =>
    if pipeline.running then
      pipeline.onHeartbeat display config beacon
    else
      pipeline
  | .reply index reply accepted => pipeline.onReply index reply accepted
  | .endQuery index => pipeline.onEndQuery index
  | .elapse duration => { pipeline with now := pipeline.now + duration }

def run (steps : List PipelineStep) : Pipeline :=
  steps.foldl (step display config) {}

end Run

/-! ## When nothing is pushed twice -/

/-- What an event is identified by: publisher, partition and sequence. -/
def identity (raw : RawEvent) : CursorKey × Nat :=
  (raw.cursorKey, raw.position)

/--
The detector's position covers everything of a key that was pushed or that a
recovery task may still push.
-/
def Covered (pipeline : Pipeline) (key : CursorKey) : Prop :=
  ∀ expected ∈ pipeline.detector.expected key,
    (∀ raw ∈ pipeline.pushed,
      raw.cursorKey = key → raw.position < expected) ∧
    ∀ task ∈ pipeline.tasks,
      task.ended = false →
      task.miss.cursorKey = key →
      ∀ seq ∈ task.tracker.remaining, seq < expected

instance (pipeline : Pipeline) (key : CursorKey) :
    Decidable (pipeline.Covered key) :=
  inferInstanceAs (Decidable (∀ expected ∈ pipeline.detector.expected key, _))

/--
A sample above its position, or a heartbeat that announces more than a
position, concerns a covered key; a reply for a missing sequence is an event
of the publisher and partition that miss it.
-/
def Orderly (config : PipelineConfig) (pipeline : Pipeline) :
    PipelineStep → Prop
  | .sample live =>
    pipeline.detector.lastSeen.passed live.sample.cursorKey
        live.sample.position = false →
      pipeline.Covered live.sample.cursorKey
  | .heartbeat beacon =>
    config.recoversOnHeartbeat = true →
      ∀ announced ∈ beacon.partitionSeqs.entries,
        pipeline.detector.lastSeen.passed (beacon.pubId, announced.1)
            announced.2.val = false →
          pipeline.Covered (beacon.pubId, announced.1)
  | .reply index reply _ =>
    ∀ task ∈ pipeline.tasks[index]?, ∀ raw ∈ reply.event?,
      raw.position ∈ task.tracker.remaining →
        raw.cursorKey = task.miss.cursorKey
  | .endQuery _ => True
  | .elapse _ => True

instance (config : PipelineConfig) (pipeline : Pipeline) :
    (step : PipelineStep) → Decidable (Orderly config pipeline step)
  | .sample _ => inferInstanceAs (Decidable (_ → _))
  -- Announcements range over a finite type, which must not be enumerated.
  | .heartbeat beacon =>
    @instDecidableForall _ _ inferInstance
      (List.decidableBAll _ beacon.partitionSeqs.entries)
  | .reply index reply _ =>
    inferInstanceAs
      (Decidable
        (∀ task ∈ pipeline.tasks[index]?, ∀ raw ∈ reply.event?, _ → _))
  | .endQuery _ => inferInstanceAs (Decidable True)
  | .elapse _ => inferInstanceAs (Decidable True)

/-- What a recovery task may still push. -/
def openItems (task : RecoveryTask) : Set (CursorKey × Nat) :=
  { item |
    task.ended = false ∧ item.1 = task.miss.cursorKey ∧
      item.2 ∈ task.tracker.remaining }

/-- The pushed events and what the recovery tasks hold in reserve. -/
def ledger (pipeline : Pipeline) : Ledger (CursorKey × Nat) Nat where
  issued := pipeline.pushed.map identity
  reserved := fun index => (pipeline.tasks[index]?).elim ∅ openItems

variable {pipeline : Pipeline} {display : PublisherId → String}
  {config : PipelineConfig} {index : Nat}

/-- Nothing at or above the position of a covered key is in use. -/
theorem Covered.fresh
    {key : CursorKey}
    (covered : pipeline.Covered key)
    {expected : Nat}
    (isExpected : pipeline.detector.expected key = some expected)
    {seq : Nat}
    (above : expected ≤ seq) :
    pipeline.ledger.Fresh (key, seq) := by
  obtain ⟨pushedBelow, openBelow⟩ := covered expected isExpected
  constructor
  · intro isPushed
    obtain ⟨raw, member, isItem⟩ := mem_map.mp isPushed
    obtain ⟨sameKey, sameSeq⟩ := Prod.mk.inj isItem
    have below := pushedBelow raw member sameKey
    omega
  · intro index isReserved
    simp only [ledger] at isReserved
    cases found : pipeline.tasks[index]? with
    | none =>
      rw [found] at isReserved
      exact isReserved
    | some task =>
      rw [found] at isReserved
      obtain ⟨runs, sameKey, isRemaining⟩ := isReserved
      have below :=
        openBelow task (mem_of_getElem? found) runs sameKey.symm seq
          isRemaining
      omega

theorem sound_deliver
    (sound : pipeline.ledger.Sound)
    {event : Option RawEvent}
    (fresh : ∀ raw ∈ event, pipeline.ledger.Fresh (identity raw))
    (accepted : Bool) :
    (pipeline.deliver event accepted).ledger.Sound := by
  cases event with
  | none =>
    simpa [deliver, ledger] using sound
  | some raw =>
    grind [deliver, ledger, sound.issue]

theorem fresh_deliver
    {item : CursorKey × Nat}
    (fresh : pipeline.ledger.Fresh item)
    {event : Option RawEvent}
    (other : ∀ raw ∈ event, item ≠ identity raw)
    (accepted : Bool) :
    (pipeline.deliver event accepted).ledger.Fresh item := by
  refine ⟨fun isPushed => ?_, fresh.2⟩
  simp only [ledger, deliver, map_append, mem_append] at isPushed
  rcases isPushed with earlier | isLast
  · exact fresh.1 earlier
  · grind

theorem mem_openItems_spawn
    {config : RecoveryConfig}
    {miss : MissInfo}
    {item : CursorKey × Nat}
    (isOpen : item ∈ openItems (RecoveryTask.spawn display config miss)) :
    item.1 = miss.cursorKey ∧ miss.missed.1 ≤ item.2 ∧
      item.2 < miss.missed.2 :=
  ⟨isOpen.2.1, RecoveryTracker.mem_remaining_new.mp isOpen.2.2⟩

/-- A spawned task reserves its range under a new index. -/
theorem reserved_spawnRecovery
    (display : PublisherId → String)
    (config : PipelineConfig)
    (pipeline : Pipeline)
    (miss : MissInfo)
    (index : Nat) :
    (pipeline.spawnRecovery display config [miss]).ledger.reserved index =
      if index = pipeline.tasks.length then
        openItems (RecoveryTask.spawn display config.recovery miss)
      else
        pipeline.ledger.reserved index := by
  simp only [ledger, spawnRecovery, map_cons, map_nil,
    List.getElem?_append]
  rcases lt_trichotomy index pipeline.tasks.length with below | same | above
  · rw [if_pos below, if_neg below.ne]
  · simp [same]
  · rw [if_neg above.not_gt, if_neg above.ne',
      List.getElem?_eq_none (show pipeline.tasks.length ≤ index from above.le),
      List.getElem?_eq_none (by simp; omega)]

/-- The tasks of several misses reserve their ranges. -/
theorem sound_spawnRecovery
    (sound : pipeline.ledger.Sound)
    {misses : List MissInfo}
    (distinct : (misses.map MissInfo.cursorKey).Nodup)
    (fresh :
      ∀ miss ∈ misses, ∀ seq, miss.missed.1 ≤ seq → seq < miss.missed.2 →
        pipeline.ledger.Fresh (miss.cursorKey, seq)) :
    (pipeline.spawnRecovery display config misses).ledger.Sound := by
  induction misses generalizing pipeline with
  | nil =>
    simpa [spawnRecovery] using sound
  | cons miss rest inductionHypothesis =>
    rw [map_cons, nodup_cons] at distinct
    obtain ⟨freshMiss, freshRest⟩ := forall_mem_cons.mp fresh
    have reserved := reserved_spawnRecovery display config pipeline miss
    have spawned :
        (pipeline.spawnRecovery display config [miss]).ledger.Sound := by
      refine sound.reserve pipeline.tasks.length ?_ ?_
      · intro index isOther
        exact (reserved index).trans (if_neg isOther)
      · intro item isReserved
        have isOpen :
            item ∈ openItems
              (RecoveryTask.spawn display config.recovery miss) := by
          have shape := reserved pipeline.tasks.length
          rw [if_pos rfl] at shape
          rw [← shape]
          exact isReserved
        obtain ⟨sameKey, lower, upper⟩ := mem_openItems_spawn isOpen
        have isFresh := freshMiss item.2 lower upper
        rw [← sameKey] at isFresh
        exact isFresh
    have regrouped :
        pipeline.spawnRecovery display config (miss :: rest) =
          (pipeline.spawnRecovery display config [miss]).spawnRecovery
            display config rest := by
      simp [spawnRecovery]
    rw [regrouped]
    apply inductionHypothesis spawned distinct.2
    intro other member seq lower upper
    obtain ⟨notPushed, notReserved⟩ := freshRest other member seq lower upper
    refine ⟨notPushed, fun index isReserved => ?_⟩
    rw [reserved] at isReserved
    split at isReserved
    · have sameKey := (mem_openItems_spawn isReserved).1
      exact distinct.1 (mem_map.mpr ⟨other, member, sameKey⟩)
    · exact notReserved index isReserved

/-- Evictions leave events and tasks alone. -/
theorem ledger_maybeEvict (config : PipelineConfig) (pipeline : Pipeline) :
    (maybeEvict config pipeline).ledger = pipeline.ledger := by
  simp only [maybeEvict]
  split
  · rfl
  · split
    · rfl
    · rfl

/-- A sample of a covered key pushes and reserves fresh sequences only. -/
theorem sound_onSample
    (sound : pipeline.ledger.Sound)
    {live : LiveSample}
    (orderly : Orderly config pipeline (.sample live)) :
    (pipeline.onSample display config live).ledger.Sound := by
  simp only [onSample]
  split
  · exact sound
  · rename_i seen result recorded
    rw [ledger_maybeEvict]
    -- Whatever is not a duplicate lies at or above the covered position.
    have freshAbove
        (isNew : result ≠ .duplicate)
        (seq expected : Nat)
        (isExpected :
          pipeline.detector.expected live.sample.cursorKey = some expected)
        (above : expected ≤ seq) :
        pipeline.ledger.Fresh (live.sample.cursorKey, seq) :=
      (orderly (GapDetector.expected_le_of_onSample recorded isNew).1).fresh
        isExpected above
    have freshSample (isNew : result ≠ .duplicate) :
        ∀ raw ∈ some live.sample.event,
          pipeline.ledger.Fresh (identity raw) := by
      intro raw isSample
      cases isSample
      obtain ⟨_, expected, isExpected, above⟩ :=
        GapDetector.expected_le_of_onSample recorded isNew
      exact freshAbove isNew live.sample.position expected isExpected above
    cases result with
    | duplicate =>
      simpa [handleSampleResult, spawnRecovery, deliver, ledger] using sound
    | deliver =>
      grind [handleSampleResult, spawnRecovery, ledger, sound_deliver]
    | gap miss =>
      have delivered :=
        sound_deliver sound (freshSample (by simp)) live.accepted
      obtain ⟨expected, isExpected, isMiss⟩ := GapDetector.onSample_gap recorded
      have freshGap :
          ∀ other ∈ [miss], ∀ seq,
            other.missed.1 ≤ seq → seq < other.missed.2 →
              (pipeline.deliver (some live.sample.event)
                live.accepted).ledger.Fresh (other.cursorKey, seq) := by
        intro other member seq lower upper
        rw [mem_singleton.mp member] at lower upper ⊢
        subst isMiss
        refine fresh_deliver
          (freshAbove (by simp) seq expected isExpected lower) ?_
          live.accepted
        intro raw isSample same
        cases isSample
        exact absurd (Prod.mk.inj same).2 (ne_of_lt upper)
      exact sound_spawnRecovery delivered (nodup_singleton _) freshGap

/-- A heartbeat about covered keys reserves fresh sequences only. -/
theorem sound_onHeartbeat
    (sound : pipeline.ledger.Sound)
    {beacon : HeartbeatBeacon}
    (orderly : Orderly config pipeline (.heartbeat beacon)) :
    (pipeline.onHeartbeat display config beacon).ledger.Sound := by
  simp only [onHeartbeat]
  split
  · rename_i recovers
    split
    · exact sound
    · rename_i misses revealed
      obtain ⟨sublist, reveals⟩ := GapDetector.onHeartbeat_spec revealed
      refine sound_spawnRecovery sound ?_ ?_
      · have distinct : beacon.keys.Nodup := by
          have keyed :=
            beacon.partitionSeqs.keys_nodup.map
              (Prod.mk_right_injective beacon.pubId)
          rwa [map_map] at keyed
        exact distinct.sublist sublist
      · intro miss member seq lower upper
        obtain ⟨announced, isAnnounced, isRevealed⟩ := reveals miss member
        obtain ⟨expected, isExpected, beyond, isMiss⟩ :=
          GapDetector.heartbeatMiss_eq_some isRevealed
        subst isMiss
        have notPassed :
            pipeline.detector.lastSeen.passed (beacon.pubId, announced.1)
                announced.2.val = false := by
          rw [← Bool.not_eq_true, GapDetector.passed_iff_lt_expected isExpected]
          exact not_lt.mpr beyond
        exact (orderly recovers announced isAnnounced notPassed).fresh
          isExpected lower
  · exact sound

theorem reserved_set
    {task next : RecoveryTask}
    (found : pipeline.tasks[index]? = some task)
    (other : Nat) :
    ((pipeline.tasks.set index next)[other]?).elim ∅ openItems =
      if other = index then openItems next
      else pipeline.ledger.reserved other := by
  by_cases isIndex : other = index
  · subst isIndex
    have within : other < pipeline.tasks.length :=
      (List.getElem?_eq_some_iff.mp found).1
    rw [if_pos rfl, List.getElem?_set_self within]
    rfl
  · rw [if_neg isIndex, List.getElem?_set_ne (Ne.symm isIndex)]
    rfl

theorem reserved_set_subset
    {task next : RecoveryTask}
    (found : pipeline.tasks[index]? = some task)
    (smaller : openItems next ⊆ openItems task)
    (other : Nat) :
    ((pipeline.tasks.set index next)[other]?).elim ∅ openItems ⊆
      pipeline.ledger.reserved other := by
  rw [reserved_set found]
  split
  · rename_i isIndex
    simp only [isIndex, ledger, found]
    exact smaller
  · exact subset_rfl

/-- A reply of the right key redeems one reserved sequence. -/
theorem sound_onReply
    (sound : pipeline.ledger.Sound)
    {reply : Reply}
    {accepted : Bool}
    (orderly : Orderly config pipeline (.reply index reply accepted)) :
    (pipeline.onReply index reply accepted).ledger.Sound := by
  simp only [onReply]
  split
  · exact sound
  · rename_i task found
    split
    · exact sound
    · rename_i runs
      rw [Bool.not_eq_true] at runs
      rcases task.onReply_cases reply with
        unchanged | ⟨raw, carries, isRemaining, handsOver⟩
      · rw [unchanged]
        have kept := sound.shrink (reserved_set_subset found subset_rfl)
        simpa [deliver, ledger] using kept
      · rw [handsOver]
        have isKey := orderly task found raw carries isRemaining
        have recordedLess :
            openItems
                { task with
                  tracker := task.tracker.record raw.seq.val } ⊆
              openItems task := by
          rintro item ⟨stillRuns, sameKey, stillRemaining⟩
          exact ⟨stillRuns, sameKey,
            (RecoveryTracker.mem_remaining_record.mp stillRemaining).1⟩
        have smaller := reserved_set_subset found recordedLess
        cases accepted with
        | false =>
          have dropped := sound.shrink smaller
          simpa [deliver, ledger] using dropped
        | true =>
          have isReserved :
              identity raw ∈ pipeline.ledger.reserved index := by
            simp only [ledger, found]
            exact ⟨runs, isKey, isRemaining⟩
          have redeemed := sound.redeem isReserved smaller (by
            rw [reserved_set found, if_pos rfl]
            rintro ⟨_, _, stillRemaining⟩
            exact (RecoveryTracker.mem_remaining_record.mp
              stillRemaining).2 rfl)
          simpa [deliver, ledger] using redeemed

theorem sound_onEndQuery
    (sound : pipeline.ledger.Sound)
    (index : Nat) :
    (pipeline.onEndQuery index).ledger.Sound := by
  simp only [onEndQuery]
  split
  · exact sound
  · rename_i task found
    refine sound.shrink (reserved_set_subset found ?_)
    rintro item ⟨stillRuns, sameKey, isRemaining⟩
    refine ⟨?_, sameKey, isRemaining⟩
    by_contra hasEnded
    rw [Bool.not_eq_false] at hasEnded
    rw [RecoveryTask.ended_endQuery hasEnded] at stillRuns
    cases stillRuns

/-- An orderly step pushes nothing twice and reserves nothing in use. -/
theorem sound_step
    (sound : pipeline.ledger.Sound)
    {step : PipelineStep}
    (orderly : Orderly config pipeline step) :
    (pipeline.step display config step).ledger.Sound := by
  cases step with
  | sample live =>
    simp only [Pipeline.step]
    split
    · exact sound_onSample sound orderly
    · exact sound
  | heartbeat beacon =>
    simp only [Pipeline.step]
    split
    · exact sound_onHeartbeat sound orderly
    · exact sound
  | reply index reply accepted =>
    exact sound_onReply sound orderly
  | endQuery index =>
    exact sound_onEndQuery sound index
  | elapse duration =>
    exact sound

/-- Every step of a run is orderly in the state it is taken in. -/
def OrderlyRun (display : PublisherId → String) (config : PipelineConfig) :
    Pipeline → List PipelineStep → Prop :=
  GuardedRun (step display config) (Orderly config)

instance decidableOrderlyRun
    (display : PublisherId → String)
    (config : PipelineConfig)
    (pipeline : Pipeline)
    (steps : List PipelineStep) :
    Decidable (OrderlyRun display config pipeline steps) :=
  GuardedRun.decidable _ _ pipeline steps

/--
In every run whose steps are orderly, each publisher, partition and sequence
is pushed to the event channel at most once.
-/
theorem pushed_atMostOnce
    (display : PublisherId → String)
    (config : PipelineConfig)
    (steps : List PipelineStep)
    (orderly : OrderlyRun display config {} steps) :
    ((run display config steps).pushed.map identity).Nodup := by
  have sound : (run display config steps).ledger.Sound :=
    GuardedRun.invariant (fun pipeline => pipeline.ledger.Sound)
      (fun _ _ sound => sound_step sound) Ledger.sound_empty orderly
  exact sound.nodup

end Pipeline

/-- A sample of publisher 7 on partition 0. -/
def sampleOfSeven (seq : U64) : DecodedSample where
  metadata := ⟨seq, 7, 0, 0, noUrgency, none, none⟩
  key := eventKeyExpr "events" 0 seq
  payload := []

/-- A recovery reply that carries a sample. -/
def DecodedSample.reply (sample : DecodedSample) : Reply :=
  .sample (some sample.metadata) sample.key sample.payload

/-- Recovery on gaps and heartbeats, from a store and the cache. -/
def pipelineDefaults : PipelineConfig where
  heartbeat := .sporadic 1000
  recoveryMode := .both
  publisherTtl := none
  recovery := ⟨"events", some "events/_store", 50, 3⟩

/--
A gap is recovered twice over, the samples arrive twice and a heartbeat
announces what was seen: three sequences, three events.
-/
theorem pushed_atMostOnce_gap :
    let steps : List PipelineStep :=
      [.sample ⟨sampleOfSeven 0, true⟩, .sample ⟨sampleOfSeven 2, true⟩,
        .heartbeat ⟨7, OrderedMap.empty.insert 0 2⟩,
        .reply 0 (sampleOfSeven 1).reply true,
        .reply 0 (sampleOfSeven 1).reply true, .endQuery 0,
        .sample ⟨sampleOfSeven 1, true⟩, .sample ⟨sampleOfSeven 2, true⟩]
    let final := Pipeline.run (fun _ => "7") pipelineDefaults steps
    (final.pushed.map Pipeline.identity).Nodup ∧
      final.pushed.map RawEvent.position = [0, 2, 1] := by
  exact ⟨Pipeline.pushed_atMostOnce _ _ _ (by decide), by decide⟩

/--
A heartbeat announces the first event before its sample is processed: recovery
pushes the event, and so does the sample.
-/
theorem heartbeat_recovery_pushes_twice :
    let steps : List PipelineStep :=
      [.heartbeat ⟨7, OrderedMap.empty.insert 0 0⟩,
        .reply 0 (sampleOfSeven 0).reply true,
        .sample ⟨sampleOfSeven 0, true⟩]
    ((Pipeline.run (fun _ => "7") pipelineDefaults steps).pushed.map
        Pipeline.identity) =
      [((7, 0), 0), ((7, 0), 0)] := by
  decide

end Mitiflow
