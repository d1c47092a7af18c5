import Mitiflow.EventIdDedup
import Mitiflow.Library.BigEndian
import Mitiflow.Library.LaneQueues
import Mitiflow.Pipeline

namespace Mitiflow

open Library Function

/-!
# Sharded processing

With several shards one dispatcher screens the samples, by the gap detector
or, for key-filtered subscriptions, by event id, and routes what is to be
delivered to the queue of its publisher's shard.  Shard workers only deliver.
With one shard a single worker does both.

Every sample comes with the time at which it is screened, which the eviction
of silent publishers reads.  Recovery tasks are spawned and get no replies.
-/

/-- What the two modes read from the configuration. -/
structure ShardConfig extends PipelineConfig where
  keyFiltered : Bool
  deriving Repr, DecidableEq

/-- A sample and the time at which it is processed. -/
structure TimedSample where
  now : Nat
  sample : DecodedSample
  deriving Repr, DecidableEq

/-! ## One shard -/

/-- The single worker. -/
structure SingleShard where
  pipeline : Pipeline := {}
  dedup : EventIdDedup

namespace SingleShard

variable (display : PublisherId → String) (config : ShardConfig)

/-- One turn of the single worker's loop; the channel has room. -/
def onSample (single : SingleShard) (timed : TimedSample) : SingleShard :=
  if single.pipeline.running then
    if config.keyFiltered then
      let (dedup, isNew) :=
        single.dedup.isNew timed.sample.metadata.eventId
      { pipeline :=
          if isNew then
            single.pipeline.deliver (some timed.sample.event) true
          else
            single.pipeline
        dedup := dedup }
    else
      { single with
        pipeline :=
          { single.pipeline with now := timed.now }.onSample display
            config.toPipelineConfig ⟨timed.sample, true⟩ }
  else
    single

def run (dedup : EventIdDedup) (input : List TimedSample) : SingleShard :=
  input.foldl (onSample display config) { dedup := dedup }

end SingleShard

/-! ## Several shards -/

/-- A message to a shard worker. -/
inductive ShardMsg where
  | deliver (metadata : EventMeta) (key : String) (payload : Bytes)
  deriving Repr, DecidableEq

/-- The event a shard worker delivers for a message. -/
def ShardMsg.event : ShardMsg → RawEvent
  | .deliver metadata key payload => rawEvent metadata key payload

/-- The shard of a publisher: its bytes as a little-endian number. -/
def shardFor (publisher : PublisherId) (numShards : Nat) : Nat :=
  fromBigEndian (bigEndian 16 publisher.val).reverse % numShards

/-- Where a screened sample goes and the gap to recover. -/
def dispatchSampleResult
    (result : SampleResult)
    (sample : DecodedSample)
    (numShards : Nat) : Option (Nat × ShardMsg) × Option MissInfo :=
  let message :=
    (shardFor sample.metadata.pubId numShards,
      ShardMsg.deliver sample.metadata sample.key sample.payload)
  match result with
  | .deliver => (some message, none)
  | .duplicate => (none, none)
  | .gap miss => (some message, some miss)

/-- The dispatcher. -/
structure Dispatcher where
  detector : ActivityDetector := {}
  dedup : EventIdDedup
  tasks : List RecoveryTask := []
  sampleCount : Nat := 0
  running : Bool := true

namespace Dispatcher

/-- Evict silent publishers after every ten thousandth sample. -/
def maybeEvict
    (publisherTtl : Option Nat)
    (now : Nat)
    (dispatcher : Dispatcher) : Dispatcher :=
  match publisherTtl with
  | none => dispatcher
  | some ttl =>
    if dispatcher.sampleCount % 10000 = 0 then
      { dispatcher with
        detector := dispatcher.detector.evictOlderThan now ttl }
    else
      dispatcher

variable
  (display : PublisherId → String)
  (config : ShardConfig)
  (numShards : Nat)

/-- One turn of the dispatcher's loop, with the message it sends. -/
def onSample
    (dispatcher : Dispatcher)
    (timed : TimedSample) : Dispatcher × Option (Nat × ShardMsg) :=
  if dispatcher.running then
    let sample := timed.sample
    if config.keyFiltered then
      let (dedup, isNew) := dispatcher.dedup.isNew sample.metadata.eventId
      ({ dispatcher with dedup := dedup },
        if isNew then
          some (shardFor sample.metadata.pubId numShards,
            .deliver sample.metadata sample.key sample.payload)
        else
          none)
    else
      match dispatcher.detector.onSample sample.metadata.pubId
          (extractPartition sample.key) sample.metadata.seq with
      | none => ({ dispatcher with running := false }, none)
      | some (seen, result) =>
        let (message, miss) :=
          dispatchSampleResult result sample numShards
        (maybeEvict config.publisherTtl timed.now
          { dispatcher with
            detector :=
              { dispatcher.detector.touch timed.now [sample.cursorKey] with
                toGapDetector := seen }
            tasks :=
              dispatcher.tasks ++
                miss.toList.map
                  (RecoveryTask.spawn display config.recovery)
            sampleCount := dispatcher.sampleCount + 1 }, message)
  else
    (dispatcher, none)

end Dispatcher

/-- Dispatcher, samples not yet taken, shard queues and event channel. -/
structure MultiShard where
  dispatcher : Dispatcher
  pending : List TimedSample
  queues : Nat → List ShardMsg := fun _ => []
  delivered : List RawEvent := []

/-- Who takes the next turn. -/
inductive ShardTurn where
  | dispatcher
  | worker (shard : Nat)
  deriving Repr, DecidableEq

namespace MultiShard

variable
  (display : PublisherId → String)
  (config : ShardConfig)
  (numShards : Nat)

/-- One turn of the dispatcher or of a shard worker. -/
def step (shards : MultiShard) : ShardTurn → MultiShard
  | .dispatcher =>
    match shards.pending with
    | [] => shards
    | timed :: rest =>
      let (next, message) :=
        shards.dispatcher.onSample display config numShards timed
      { shards with
        dispatcher := next
        pending := rest
        queues :=
          match message with
          | none => shards.queues
          | some (shard, sent) =>
            update shards.queues shard
              (shards.queues shard ++ [sent]) }
  | .worker shard =>
    match shards.queues shard with
    | [] => shards
    | message :: rest =>
      { shards with
        queues := update shards.queues shard rest
        delivered := shards.delivered ++ [message.event] }

def run
    (dedup : EventIdDedup)
    (input : List TimedSample)
    (schedule : List ShardTurn) : MultiShard :=
  schedule.foldl (step display config numShards)
    { dispatcher := { dedup := dedup }, pending := input }

/-- Every sample was taken and every queue is empty. -/
def Drained (shards : MultiShard) : Prop :=
  shards.pending = [] ∧ ∀ shard < numShards, shards.queues shard = []

end MultiShard

/-! ## The dispatcher screens as the single worker does -/

/-- The dispatcher in the state of a single worker. -/
def SingleShard.dispatcher (single : SingleShard) : Dispatcher where
  detector := single.pipeline.detector
  dedup := single.dedup
  tasks := single.pipeline.tasks
  sampleCount := single.pipeline.sampleCount
  running := single.pipeline.running

/-- The event routed for a verdict is the one the single worker delivers. -/
theorem dispatch_eq_handle
    (result : SampleResult)
    (sample : DecodedSample)
    (numShards : Nat) :
    (dispatchSampleResult result sample numShards).1.map (·.2.event) =
        (handleSampleResult result sample).1 ∧
      (dispatchSampleResult result sample numShards).2 =
        (handleSampleResult result sample).2 := by
  cases result with
  | deliver =>
    exact ⟨rfl, rfl⟩
  | duplicate =>
    exact ⟨rfl, rfl⟩
  | gap miss =>
    exact ⟨rfl, rfl⟩

namespace SingleShard

variable
  {display : PublisherId → String}
  {config : ShardConfig}
  {single : SingleShard}

/-- Both evict the same publishers, and eviction pushes nothing. -/
theorem dispatcher_maybeEvict
    (config : ShardConfig)
    (pipeline : Pipeline)
    (dedup : EventIdDedup) :
    SingleShard.dispatcher
          ⟨pipeline.maybeEvict config.toPipelineConfig, dedup⟩ =
        Dispatcher.maybeEvict config.publisherTtl pipeline.now
          (SingleShard.dispatcher ⟨pipeline, dedup⟩) ∧
      (pipeline.maybeEvict config.toPipelineConfig).pushed =
        pipeline.pushed := by
  unfold Dispatcher.maybeEvict Pipeline.maybeEvict
  cases config.publisherTtl with
  | none =>
    exact ⟨rfl, rfl⟩
  | some ttl =>
    by_cases evicts : pipeline.sampleCount % 10000 = 0
    · simp [SingleShard.dispatcher, evicts]
    · simp [SingleShard.dispatcher, evicts]

/-- A turn of the dispatcher and a turn of the single worker. -/
theorem dispatcher_onSample
    (single : SingleShard)
    (numShards : Nat)
    (timed : TimedSample) :
    (single.dispatcher.onSample display config numShards timed).1 =
        (single.onSample display config timed).dispatcher ∧
      (single.onSample display config timed).pipeline.pushed =
        single.pipeline.pushed ++
          ((single.dispatcher.onSample display config numShards timed).2.map
            (·.2.event)).toList := by
  unfold Dispatcher.onSample SingleShard.onSample
  by_cases isRunning : single.pipeline.running = true
  · have dispatcherRuns : single.dispatcher.running = true := isRunning
    rw [if_pos isRunning, if_pos dispatcherRuns]
    by_cases filtered : config.keyFiltered = true
    · grind [dispatcher, Pipeline.deliver, DecodedSample.event, ShardMsg.event]
    · simp only [if_neg filtered]
      cases recorded :
          single.pipeline.detector.onSample timed.sample.cursorKey.1
            timed.sample.cursorKey.2 timed.sample.metadata.seq with
      | none =>
        grind [Pipeline.onSample, dispatcher, DecodedSample.cursorKey]
      | some outcome =>
        obtain ⟨seen, result⟩ := outcome
        have sameRecord :
            single.dispatcher.detector.onSample
                timed.sample.metadata.pubId
                (extractPartition timed.sample.key)
                timed.sample.metadata.seq = some (seen, result) :=
          recorded
        obtain ⟨sameEvent, sameMiss⟩ :=
          dispatch_eq_handle result timed.sample numShards
        simp only [sameRecord, Pipeline.onSample, recorded, sameEvent, sameMiss]
        constructor
        · rw [(dispatcher_maybeEvict config _ single.dedup).1]
          rfl
        · rw [(dispatcher_maybeEvict config _ single.dedup).2]
          simp [Pipeline.spawnRecovery, Pipeline.deliver]
  · grind [dispatcher]

end SingleShard

/-! ## Transparency -/

def RawEvent.shard (numShards : Nat) (raw : RawEvent) : Nat :=
  shardFor raw.publisherId numShards

/-- A message goes to the shard of its event. -/
theorem Dispatcher.shard_of_sent
    {display : PublisherId → String}
    {config : ShardConfig}
    {numShards : Nat}
    {dispatcher : Dispatcher}
    {timed : TimedSample}
    {shard : Nat}
    {message : ShardMsg}
    (sent :
      (dispatcher.onSample display config numShards timed).2 =
        some (shard, message)) :
    shard = message.event.shard numShards := by
  unfold Dispatcher.onSample at sent
  split at sent
  · simp only at sent
    split at sent
    · simp only at sent
      split at sent
      · cases sent
        rfl
      · cases sent
    · split at sent
      · cases sent
      · rename_i seen result recorded
        cases result with
        | deliver =>
          cases sent
          rfl
        | duplicate =>
          cases sent
        | gap miss =>
          cases sent
          rfl
  · cases sent

namespace MultiShard

variable
  {display : PublisherId → String}
  {config : ShardConfig}
  {numShards : Nat}

/-- The queues and the event channel, as queues of events. -/
def lanes (shards : MultiShard) : Lanes Nat RawEvent where
  queues := fun shard => (shards.queues shard).map ShardMsg.event
  output := shards.delivered

/--
The shards have taken part of the input; dispatcher and lanes are where a
single worker that took the same part leaves them.
-/
def Screened
    (display : PublisherId → String)
    (config : ShardConfig)
    (numShards : Nat)
    (dedup : EventIdDedup)
    (input : List TimedSample)
    (shards : MultiShard) : Prop :=
  ∃ taken,
    input = taken ++ shards.pending ∧
      shards.dispatcher =
        (SingleShard.run display config dedup taken).dispatcher ∧
      shards.lanes.Carries (RawEvent.shard numShards)
        (SingleShard.run display config dedup taken).pipeline.pushed

variable {dedup : EventIdDedup} {input : List TimedSample}
  {shards : MultiShard}

theorem lanes_worker (shards : MultiShard) (shard : Nat) :
    (shards.step display config numShards (.worker shard)).lanes =
      shards.lanes.take shard := by
  simp only [step, Lanes.take, lanes]
  cases isQueue : shards.queues shard with
  | nil =>
    simp
  | cons message rest =>
    grind [Lanes.mk.injEq]

theorem lanes_send
    (shards : MultiShard)
    (shard : Nat)
    (message : ShardMsg) :
    lanes
        { shards with
          queues :=
            update shards.queues shard
              (shards.queues shard ++ [message]) } =
      shards.lanes.send shard message.event := by
  simp only [lanes, Lanes.send, Lanes.mk.injEq, and_true]
  funext other
  by_cases same : other = shard
  · subst same
    simp
  · simp [update_of_ne same]

theorem Screened.worker
    (screened : Screened display config numShards dedup input shards)
    (shard : Nat) :
    Screened display config numShards dedup input
      (shards.step display config numShards (.worker shard)) := by
  obtain ⟨taken, isInput, isDispatcher, carries⟩ := screened
  have unchanged :
      (shards.step display config numShards (.worker shard)).pending =
          shards.pending ∧
        (shards.step display config numShards (.worker shard)).dispatcher =
          shards.dispatcher := by
    simp only [step]
    split
    · exact ⟨rfl, rfl⟩
    · exact ⟨rfl, rfl⟩
  refine ⟨taken, ?_, ?_, ?_⟩
  · rw [unchanged.1]
    exact isInput
  · rw [unchanged.2]
    exact isDispatcher
  · rw [lanes_worker]
    exact carries.take shard

theorem Screened.dispatch
    (screened : Screened display config numShards dedup input shards) :
    Screened display config numShards dedup input
      (shards.step display config numShards .dispatcher) := by
  obtain ⟨taken, isInput, isDispatcher, carries⟩ := screened
  cases isPending : shards.pending with
  | nil =>
    simp only [step, isPending]
    exact ⟨taken, isInput, isDispatcher, carries⟩
  | cons timed rest =>
    obtain ⟨nextDispatcher, nextPushed⟩ :=
      @SingleShard.dispatcher_onSample display config
        (SingleShard.run display config dedup taken) numShards timed
    have oneMore :
        SingleShard.run display config dedup (taken ++ [timed]) =
          (SingleShard.run display config dedup taken).onSample display
            config timed := by
      simp [SingleShard.run]
    rw [← isDispatcher] at nextDispatcher nextPushed
    refine ⟨taken ++ [timed], ?_, ?_, ?_⟩
    · simp [step, isPending, isInput]
    · simp only [step, isPending]
      rw [oneMore]
      exact nextDispatcher
    · rw [oneMore, nextPushed]
      simp only [step, isPending]
      cases sent :
          (shards.dispatcher.onSample display config numShards timed).2 with
      | none =>
        simpa [lanes] using carries
      | some routed =>
        grind [Dispatcher.shard_of_sent, carries.send, lanes_send,
          Lanes.Carries, lanes]

/-- Every schedule keeps the shards in step with a single worker. -/
theorem screened_run
    (display : PublisherId → String)
    (config : ShardConfig)
    (numShards : Nat)
    (dedup : EventIdDedup)
    (input : List TimedSample)
    (schedule : List ShardTurn) :
    Screened display config numShards dedup input
      (run display config numShards dedup input schedule) := by
  refine List.foldlRecOn schedule (step display config numShards)
    ⟨[], rfl, rfl, Lanes.carries_empty _⟩ ?_
  intro shards screened turn _
  cases turn with
  | dispatcher =>
    exact screened.dispatch
  | worker shard =>
    exact screened.worker shard

/-- Drained queues leave no lane waiting. -/
theorem Screened.queues_eq_nil
    (screened : Screened display config numShards dedup input shards)
    (someShard : 0 < numShards)
    (drained : shards.Drained numShards)
    (shard : Nat) :
    shards.lanes.queues shard = [] := by
  obtain ⟨taken, _, _, carries⟩ := screened
  rw [List.eq_nil_iff_forall_not_mem]
  intro raw queued
  have below : shard < numShards := by
    rw [← carries.laneOf_queued queued]
    exact Nat.mod_lt _ someShard
  simp only [lanes, drained.2 shard below, List.map_nil] at queued
  cases queued

/--
Under every schedule of dispatcher and shard workers, once the input is taken
and the queues are drained, each publisher's events were delivered as the
single worker delivers them, and the delivered events are the same altogether.
-/
theorem sharding_transparent
    (display : PublisherId → String)
    (config : ShardConfig)
    (dedup : EventIdDedup)
    (input : List TimedSample)
    (numShards : Nat)
    (severalShards : 2 ≤ numShards)
    (schedule : List ShardTurn)
    (drained :
      (run display config numShards dedup input schedule).Drained
        numShards) :
    let multi := run display config numShards dedup input schedule
    let single := SingleShard.run display config dedup input
    (∀ publisher : PublisherId,
        multi.delivered.filter (·.publisherId = publisher) =
          single.pipeline.pushed.filter (·.publisherId = publisher)) ∧
      multi.delivered.Perm single.pipeline.pushed := by
  have screened := screened_run display config numShards dedup input schedule
  have noneWaits := screened.queues_eq_nil (by omega) drained
  obtain ⟨taken, isInput, _, carries⟩ := screened
  rw [drained.1, List.append_nil] at isInput
  subst isInput
  constructor
  · exact carries.filter_class (fun publisher => shardFor publisher numShards)
      (fun _ => rfl) noneWaits
  · exact carries.perm noneWaits

/-- A sample of a publisher on partition 0. -/
def sampleFrom (publisher : PublisherId) (seq : U64) : TimedSample where
  now := seq.val
  sample :=
    { metadata := ⟨seq, publisher, seq.castLE (by decide), 0, noUrgency, none,
        none⟩
      key := eventKeyExpr "events" 0 seq
      payload := [] }

/-- Two publishers on different shards, the second one served first. -/
theorem sharding_transparent_twoShards :
    let input :=
      [sampleFrom 7 0, sampleFrom (2 ^ 120) 0, sampleFrom 7 2, sampleFrom 7 2]
    let schedule : List ShardTurn :=
      [.dispatcher, .dispatcher, .worker 1, .dispatcher, .worker 0,
        .dispatcher, .worker 0]
    let config : ShardConfig := ⟨pipelineDefaults, false⟩
    let dedup : EventIdDedup := { capacity := 8, positive := by decide }
    let multi := run (fun _ => "7") config 2 dedup input schedule
    multi.delivered.map RawEvent.position = [0, 0, 2] ∧
      multi.delivered.Perm
        (SingleShard.run (fun _ => "7") config dedup input).pipeline.pushed :=
  ⟨by decide +kernel,
    (sharding_transparent _ _ _ _ 2 (by decide) _
      ⟨by decide +kernel, by decide +kernel⟩).2⟩

end MultiShard

end Mitiflow
