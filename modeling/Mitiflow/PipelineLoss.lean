import Mitiflow.Pipeline

namespace Mitiflow

open Library

/-!
# Losses on a full event channel

The event channel has a capacity and a consumer that takes events at its own
pace.  The worker moves the detector before it tries to place an event, so an
event that finds the channel full is below the detector's position, and only
an eviction lets the detector report it later.
-/

/-- The pipeline and the number of events waiting on its channel. -/
structure ChannelPipeline where
  pipeline : Pipeline := {}
  queued : Nat := 0

/-- One step; `take` is the consumer's. -/
inductive ChannelStep where
  | sample (decoded : DecodedSample)
  | heartbeat (beacon : HeartbeatBeacon)
  | reply (task : Nat) (reply : Reply)
  | endQuery (task : Nat)
  | elapse (duration : Nat)
  | take

/-- The step of the pipeline, `room` saying whether the channel has room. -/
def ChannelStep.onPipeline? (room : Bool) : ChannelStep → Option PipelineStep
  | .sample decoded => some (.sample ⟨decoded, room⟩)
  | .heartbeat beacon => some (.heartbeat beacon)
  | .reply task answer => some (.reply task answer room)
  | .endQuery task => some (.endQuery task)
  | .elapse duration => some (.elapse duration)
  | .take => none

namespace Pipeline

/-- The pipeline's detector lets a sample through. -/
def classifiesNew (pipeline : Pipeline) (sample : DecodedSample) : Bool :=
  pipeline.running &&
    match pipeline.detector.onSample sample.cursorKey.1 sample.cursorKey.2
        sample.metadata.seq with
    | none | some (_, .duplicate) => false
    | some (_, .deliver) | some (_, .gap _) => true

/-- The misses the detector reports in a step. -/
def reports (config : PipelineConfig) (pipeline : Pipeline) :
    ChannelStep → List MissInfo
  | .sample sample =>
    if pipeline.running then
      match pipeline.detector.onSample sample.cursorKey.1
          sample.cursorKey.2 sample.metadata.seq with
      | some (_, .gap miss) => [miss]
      | _ => []
    else
      []
  | .heartbeat beacon =>
    if pipeline.running && config.recoversOnHeartbeat then
      (pipeline.detector.onHeartbeat beacon.pubId
        beacon.partitionSeqs.entries).getD []
    else
      []
  | _ => []

end Pipeline

/-- Whether a miss contains a sequence of a key. -/
def MissInfo.contains (miss : MissInfo) (key : CursorKey) (seq : Nat) : Bool :=
  miss.cursorKey = key && miss.missed.1 ≤ seq && seq < miss.missed.2

namespace ChannelPipeline

section Run

variable
  (display : PublisherId → String)
  (config : PipelineConfig)
  (capacity : Nat)

/-- One step; what is placed on the channel waits there. -/
def step (channel : ChannelPipeline) (action : ChannelStep) :
    ChannelPipeline :=
  match action.onPipeline? (channel.queued < capacity) with
  | none => { channel with queued := channel.queued - 1 }
  | some onPipeline =>
    let next := channel.pipeline.step display config onPipeline
    { pipeline := next
      queued :=
        channel.queued +
          (next.pushed.length - channel.pipeline.pushed.length) }

/-- A sequence of a key is reported in some step of a run. -/
def Reported (key : CursorKey) (seq : Nat) :
    ChannelPipeline → List ChannelStep → Prop
  | _, [] => False
  | channel, action :: rest =>
    (∃ miss ∈ channel.pipeline.reports config action,
        miss.contains key seq = true) ∨
      Reported key seq (channel.step display config capacity action) rest

instance decidableReported (key : CursorKey) (seq : Nat) :
    (channel : ChannelPipeline) → (actions : List ChannelStep) →
      Decidable (Reported display config capacity key seq channel actions)
  | _, [] => inferInstanceAs (Decidable False)
  | channel, action :: rest =>
    @instDecidableOr _ _ inferInstance
      (decidableReported key seq
        (channel.step display config capacity action) rest)

/-- A sample let through is placed on the channel or reported later. -/
def KeptOrReported (channel : ChannelPipeline) (rest : List ChannelStep) :
    ChannelStep → Prop
  | .sample sample =>
    channel.pipeline.classifiesNew sample = true →
      let next := channel.step display config capacity (.sample sample)
      next.pipeline.pushed = channel.pipeline.pushed ++ [sample.event] ∨
        Reported display config capacity sample.cursorKey sample.position
          next rest
  | _ => True

instance (channel : ChannelPipeline) (rest : List ChannelStep) :
    (action : ChannelStep) →
      Decidable (KeptOrReported display config capacity channel rest action)
  | .sample _ => inferInstanceAs (Decidable (_ → _))
  | .heartbeat _ | .reply _ _ | .endQuery _ | .elapse _ | .take =>
    inferInstanceAs (Decidable True)

/-- No step of a run loses a sample silently. -/
def NoSilentLoss : ChannelPipeline → List ChannelStep → Prop
  | _, [] => True
  | channel, action :: rest =>
    KeptOrReported display config capacity channel rest action ∧
      NoSilentLoss (channel.step display config capacity action) rest

instance decidableNoSilentLoss :
    (channel : ChannelPipeline) → (actions : List ChannelStep) →
      Decidable (NoSilentLoss display config capacity channel actions)
  | _, [] => inferInstanceAs (Decidable True)
  | channel, action :: rest =>
    @instDecidableAnd _ _ inferInstance
      (decidableNoSilentLoss
        (channel.step display config capacity action) rest)

/-- A sample that is let through finds room on the channel. -/
def Roomy (channel : ChannelPipeline) : ChannelStep → Prop
  | .sample sample =>
    channel.pipeline.classifiesNew sample = true →
      channel.queued < capacity
  | _ => True

instance (channel : ChannelPipeline) :
    (action : ChannelStep) → Decidable (Roomy capacity channel action)
  | .sample _ => inferInstanceAs (Decidable (_ → _))
  | .heartbeat _ | .reply _ _ | .endQuery _ | .elapse _ | .take =>
    inferInstanceAs (Decidable True)

/-- Every step of a run is roomy. -/
def RoomyRun : ChannelPipeline → List ChannelStep → Prop :=
  GuardedRun (step display config capacity) (Roomy capacity)

instance decidableRoomyRun
    (channel : ChannelPipeline)
    (actions : List ChannelStep) :
    Decidable (RoomyRun display config capacity channel actions) :=
  GuardedRun.decidable _ _ channel actions

end Run

end ChannelPipeline

/-! ## What a step does to the position of a key -/

variable {sample : DecodedSample} {key : CursorKey} {seq : Nat}

namespace Pipeline

/-- A sample let through is above its position, which it then is not. -/
theorem classifiesNew_iff
    (pipeline : Pipeline)
    (sample : DecodedSample) :
    pipeline.classifiesNew sample = true ↔
      pipeline.running = true ∧
        ∃ next result,
          pipeline.detector.onSample sample.cursorKey.1 sample.cursorKey.2
              sample.metadata.seq = some (next, result) ∧
            result ≠ .duplicate := by
  rw [classifiesNew, Bool.and_eq_true]
  refine and_congr_right fun _ => ?_
  cases recorded :
      pipeline.detector.onSample sample.cursorKey.1 sample.cursorKey.2
        sample.metadata.seq with
  | none =>
    simp
  | some outcome =>
    obtain ⟨next, result⟩ := outcome
    cases result with
    | deliver =>
      simp
    | duplicate =>
      simp
    | gap miss =>
      simp

theorem pushed_maybeEvict (config : PipelineConfig) (pipeline : Pipeline) :
    (maybeEvict config pipeline).pushed = pipeline.pushed := by
  unfold maybeEvict
  split
  · rfl
  · split
    · rfl
    · rfl

variable {config : PipelineConfig} {pipeline : Pipeline}

theorem pushed_step_new
    {display : PublisherId → String}
    (isNew : pipeline.classifiesNew sample = true)
    (room : Bool) :
    (pipeline.step display config (.sample ⟨sample, room⟩)).pushed =
      pipeline.pushed ++ if room then [sample.event] else [] := by
  obtain ⟨running, seen, result, recorded, notDuplicate⟩ :=
    (pipeline.classifiesNew_iff sample).mp isNew
  have isEvent :
      (handleSampleResult result sample).1 = some sample.event := by
    cases result with
    | deliver =>
      rfl
    | duplicate =>
      exact absurd rfl notDuplicate
    | gap miss =>
      rfl
  simp only [step, running, if_true, onSample, recorded, pushed_maybeEvict,
    spawnRecovery, deliver, isEvent, Option.toList_some]

section WithoutEviction

variable
  {display : PublisherId → String}
  {config : PipelineConfig}
  (unlimited : config.publisherTtl = none)
  {pipeline : Pipeline}

include unlimited

theorem maybeEvict_of_unlimited (pipeline : Pipeline) :
    maybeEvict config pipeline = pipeline := by
  rw [maybeEvict, unlimited]

/-- Without eviction a sample leaves the detector's next state. -/
theorem lastSeen_onSample
    {live : LiveSample}
    {seen : GapDetector}
    {result : SampleResult}
    (recorded :
      pipeline.detector.onSample live.sample.cursorKey.1
          live.sample.cursorKey.2 live.sample.metadata.seq =
        some (seen, result)) :
    (pipeline.onSample display config live).detector.lastSeen =
      seen.lastSeen := by
  simp only [onSample, recorded, maybeEvict_of_unlimited unlimited,
    spawnRecovery, deliver]

theorem passed_step
    (isPassed : pipeline.detector.lastSeen.passed key seq = true)
    (action : PipelineStep) :
    (pipeline.step display config action).detector.lastSeen.passed key seq =
      true := by
  cases action with
  | sample live =>
    simp only [step]
    split
    · cases recorded :
          pipeline.detector.onSample live.sample.cursorKey.1
            live.sample.cursorKey.2 live.sample.metadata.seq with
      | none =>
        simp only [onSample, recorded]
        exact isPassed
      | some outcome =>
        obtain ⟨seen, result⟩ := outcome
        rw [lastSeen_onSample unlimited recorded]
        exact GapDetector.passed_mono_onSample recorded isPassed
    · exact isPassed
  | heartbeat beacon =>
    simp only [step]
    split
    · simp only [onHeartbeat]
      split
      · split
        · exact isPassed
        · exact isPassed
      · exact isPassed
    · exact isPassed
  | reply index reply accepted =>
    simp only [step, onReply]
    split
    · exact isPassed
    · split
      · exact isPassed
      · exact isPassed
  | endQuery index =>
    simp only [step, onEndQuery]
    split
    · exact isPassed
    · exact isPassed
  | elapse duration =>
    exact isPassed

theorem passed_step_new
    (isNew : pipeline.classifiesNew sample = true)
    (room : Bool) :
    (pipeline.step display config
        (.sample ⟨sample, room⟩)).detector.lastSeen.passed sample.cursorKey
      sample.position = true := by
  obtain ⟨running, seen, result, recorded, _⟩ :=
    (pipeline.classifiesNew_iff sample).mp isNew
  simp only [step, running, if_true]
  rw [lastSeen_onSample unlimited recorded]
  exact GapDetector.passed_of_onSample recorded

end WithoutEviction

section

variable
  {action : ChannelStep}
  {miss : MissInfo}
  (reported : miss ∈ pipeline.reports config action)

include reported

/-- A reported miss starts at what was expected. -/
theorem reports_from_expected :
    ∃ expected,
      pipeline.detector.expected miss.cursorKey = some expected ∧
        miss.missed.1 = expected := by
  cases action with
  | sample sample =>
    simp only [reports] at reported
    split at reported
    · split at reported
      · rename_i seen gap recorded
        rw [List.mem_singleton.mp reported]
        obtain ⟨expected, isExpected, isGap⟩ :=
          GapDetector.onSample_gap recorded
        rw [isGap]
        exact ⟨expected, isExpected, rfl⟩
      · cases reported
    · cases reported
  | heartbeat beacon =>
    simp only [reports] at reported
    split at reported
    · cases revealed :
          pipeline.detector.onHeartbeat beacon.pubId
            beacon.partitionSeqs.entries with
      | none =>
        rw [revealed] at reported
        cases reported
      | some misses =>
        rw [revealed] at reported
        obtain ⟨announced, _, reveals⟩ :=
          (GapDetector.onHeartbeat_spec revealed).2 miss reported
        obtain ⟨expected, isExpected, _, isMiss⟩ :=
          GapDetector.heartbeatMiss_eq_some reveals
        rw [isMiss]
        exact ⟨expected, isExpected, rfl⟩
    · cases reported
  | reply task answer =>
    cases reported
  | endQuery task =>
    cases reported
  | elapse duration =>
    cases reported
  | take =>
    cases reported

theorem not_passed_of_reports
    (isMissing : miss.contains key seq = true) :
    pipeline.detector.lastSeen.passed key seq = false := by
  obtain ⟨expected, isExpected, isStart⟩ := reports_from_expected reported
  simp only [MissInfo.contains, Bool.and_eq_true, decide_eq_true_eq]
    at isMissing
  obtain ⟨⟨isKey, fromStart⟩, _⟩ := isMissing
  rw [isKey] at isExpected
  rw [Bool.eq_false_iff]
  intro isPassed
  have below := (GapDetector.passed_iff_lt_expected isExpected seq).mp isPassed
  omega

end

end Pipeline

namespace ChannelPipeline

variable
  {display : PublisherId → String}
  {config : PipelineConfig}
  {capacity : Nat}
  {channel : ChannelPipeline}

theorem placed_iff
    (isNew : channel.pipeline.classifiesNew sample = true) :
    (channel.step display config capacity
        (.sample sample)).pipeline.pushed =
        channel.pipeline.pushed ++ [sample.event] ↔
      channel.queued < capacity := by
  simp only [step, ChannelStep.onPipeline?, Pipeline.pushed_step_new isNew,
    decide_eq_true_eq]
  by_cases room : channel.queued < capacity
  · simp [room]
  · simp [room]

/-- Without eviction a passed sequence is never reported. -/
theorem not_reported_of_passed
    (unlimited : config.publisherTtl = none)
    (isPassed :
      channel.pipeline.detector.lastSeen.passed key seq = true)
    (actions : List ChannelStep) :
    ¬ Reported display config capacity key seq channel actions := by
  induction actions generalizing channel with
  | nil =>
    exact id
  | cons action rest inductionHypothesis =>
    grind [step, Pipeline.not_passed_of_reports, Pipeline.passed_step, Reported]

/-- Without eviction a step keeps its sample exactly when there is room. -/
theorem keptOrReported_iff
    (unlimited : config.publisherTtl = none)
    (rest : List ChannelStep)
    (action : ChannelStep) :
    KeptOrReported display config capacity channel rest action ↔
      Roomy capacity channel action := by
  cases action with
  | sample sample =>
    refine forall_congr' fun isNew => ?_
    dsimp only
    rw [placed_iff isNew, or_iff_left]
    refine not_reported_of_passed unlimited ?_ rest
    exact Pipeline.passed_step_new unlimited isNew _
  | heartbeat beacon =>
    exact Iff.rfl
  | reply task answer =>
    exact Iff.rfl
  | endQuery task =>
    exact Iff.rfl
  | elapse duration =>
    exact Iff.rfl
  | take =>
    exact Iff.rfl

/--
In a run whose samples find room when they are let through, nothing is lost
silently; without eviction no other run has that property.
-/
theorem noSilentLoss_iff
    (display : PublisherId → String)
    (config : PipelineConfig)
    (capacity : Nat)
    (actions : List ChannelStep) :
    (RoomyRun display config capacity {} actions →
        NoSilentLoss display config capacity {} actions) ∧
      (config.publisherTtl = none →
        NoSilentLoss display config capacity {} actions →
          RoomyRun display config capacity {} actions) := by
  generalize ({} : ChannelPipeline) = channel
  constructor
  · intro roomy
    induction actions generalizing channel with
    | nil =>
      trivial
    | cons action rest inductionHypothesis =>
      refine ⟨?_, inductionHypothesis _ roomy.2⟩
      cases action with
      | sample sample =>
        intro isNew
        exact Or.inl ((placed_iff isNew).mpr (roomy.1 isNew))
      | heartbeat beacon =>
        trivial
      | reply task answer =>
        trivial
      | endQuery task =>
        trivial
      | elapse duration =>
        trivial
      | take =>
        trivial
  · intro unlimited lossless
    induction actions generalizing channel with
    | nil =>
      trivial
    | cons action rest inductionHypothesis =>
      exact ⟨(keptOrReported_iff unlimited rest action).mp lossless.1,
        inductionHypothesis _ lossless.2⟩

/--
On a channel of one event the second sample finds no room.  A heartbeat that
announces it and the samples after it reveal nothing, although the consumer
has caught up.
-/
theorem full_channel_loses_silently :
    let actions : List ChannelStep :=
      [.sample (sampleOfSeven 0), .sample (sampleOfSeven 1), .take,
        .heartbeat ⟨7, OrderedMap.empty.insert 0 1⟩,
        .sample (sampleOfSeven 2), .take,
        .heartbeat ⟨7, OrderedMap.empty.insert 0 2⟩]
    ¬ NoSilentLoss (fun _ => "7") pipelineDefaults 1 {} actions ∧
      (actions.foldl (step (fun _ => "7") pipelineDefaults 1)
          {}).pipeline.pushed.map RawEvent.position = [0, 2] := by
  decide

end ChannelPipeline

end Mitiflow
