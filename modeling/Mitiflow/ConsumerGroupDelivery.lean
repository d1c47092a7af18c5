import Mitiflow.ConsumerGroup
import Mitiflow.Pipeline

namespace Mitiflow

open Library List Function

/-!
# Delivery and commits of a consumer group member

The gap detection task of a member pushes events to an unbounded channel and
then notes their sequences as positions; the application takes events from the
channel, and commits send the positions.  Samples, recovery replies, receives,
commits and rebalances interleave freely.

Everything the detector has passed since construction is returned, waits in
the channel, or is still missing in a recovery.  A commit is sound when the
last two do not happen for its partition.
-/

def ConsumerGroupSubscriber.commitPartition
    (subscriber : ConsumerGroupSubscriber)
    (partition : U32) : ConsumerGroupSubscriber :=
  subscriber.perform subscriber.generation .empty (.commit partition)

/-- A member with its tasks, event channel and commit calls. -/
structure GroupRuntime where
  member : ConsumerGroupSubscriber
  /-- The offsets fetched at construction. -/
  checkpoints : U32 → Offsets
  /-- The sample handled last, until its position is written. -/
  tracking : Option DecodedSample := none
  recoveries : List RecoveryTask := []
  /-- The event channel, oldest first. -/
  queue : List RawEvent := []
  /-- Events returned to the application, oldest first. -/
  returned : List RawEvent := []
  /-- What running commit calls have still to commit. -/
  calls : List (List U32) := []
  running : Bool := true

/-- A step of a member or of its surroundings. -/
inductive RuntimeStep where
  | group (step : GroupStep)
  | sample (sample : DecodedSample)
  /-- The gap detection task writes the position of the sample it handled. -/
  | track
  | reply (recovery : Nat) (reply : Reply)
  | endQuery (recovery : Nat)
  /-- `recv` and `recv_raw`; a payload that does not decode is consumed. -/
  | recv (decodes : Bool)
  /-- `commit_sync`, `commit_async`, an automatic or a final commit. -/
  | commitAssigned
  /-- `commit_partition_sync`. -/
  | commitOne (partition : U32)
  /-- A commit call sends its next commit; an error may end the call. -/
  | proceed (call : Nat) (continues : Bool)

namespace GroupRuntime

section Step

variable (hrwScore : HrwScore) (display : PublisherId → String)
  (recovery : RecoveryConfig)

def new
    (config : ConsumerGroupConfig)
    (numPartitions : U32)
    (found : List String)
    (offsets : U32 → Offsets) : GroupRuntime :=
  let member :=
    ConsumerGroupSubscriber.new hrwScore config numPartitions found offsets
  { member := member
    checkpoints := member.positions }

/-- Present a received sample to the detector and act on its verdict. -/
def onSample (runtime : GroupRuntime) (sample : DecodedSample) :
    GroupRuntime :=
  let key := sample.cursorKey
  match runtime.member.detector.onSample key.1 key.2 sample.metadata.seq with
  | none => { runtime with running := false }
  | some (seen, result) =>
    let (event, miss) := handleSampleResult result sample
    { runtime with
      member := { runtime.member with detector := seen }
      tracking := some sample
      queue := runtime.queue ++ event.toList
      recoveries :=
        runtime.recoveries ++
          miss.toList.map (RecoveryTask.spawn display recovery) }

/-- Note the sequence of a sample among the positions. -/
def onTrack (runtime : GroupRuntime) : GroupRuntime :=
  match runtime.tracking with
  | none => runtime
  | some sample =>
    let key := sample.cursorKey
    let offsets := runtime.member.positions key.2
    { runtime with
      tracking := none
      member :=
        { runtime.member with
          positions :=
            update runtime.member.positions key.2
              (offsets.insert key.1
                (max ((offsets.get? key.1).getD 0) sample.position)) } }

/-- A reply reaches a running recovery task. -/
def onReply
    (runtime : GroupRuntime)
    (index : Nat)
    (reply : Reply) : GroupRuntime :=
  match runtime.recoveries[index]? with
  | none => runtime
  | some task =>
    if task.ended then
      runtime
    else
      let (next, event) := task.onReply reply
      { runtime with
        recoveries := runtime.recoveries.set index next
        queue := runtime.queue ++ event.toList }

def onEndQuery (runtime : GroupRuntime) (index : Nat) : GroupRuntime :=
  match runtime.recoveries[index]? with
  | none => runtime
  | some task =>
    { runtime with
      recoveries := runtime.recoveries.set index task.endQuery }

def onRecv (runtime : GroupRuntime) (decodes : Bool) : GroupRuntime :=
  match runtime.queue with
  | [] => runtime
  | raw :: rest =>
    { runtime with
      queue := rest
      returned := runtime.returned ++ if decodes then [raw] else [] }

/-- A commit call sends the commit of its next partition. -/
def onProceed
    (runtime : GroupRuntime)
    (index : Nat)
    (continues : Bool) : GroupRuntime :=
  match runtime.calls[index]? with
  | none => runtime
  | some [] => runtime
  | some (partition :: rest) =>
    { runtime with
      calls := runtime.calls.set index (if continues then rest else [])
      member := runtime.member.commitPartition partition }

def step (runtime : GroupRuntime) : RuntimeStep → GroupRuntime
  | .group groupStep =>
    { runtime with member := runtime.member.step hrwScore groupStep }
  | .sample sample =>
    -- The task handles one sample at a time, its position included.
    if runtime.running && runtime.tracking.isNone &&
        runtime.member.receives sample.key then
      runtime.onSample display recovery sample
    else
      runtime
  | .track => runtime.onTrack
  | .reply index reply => runtime.onReply index reply
  | .endQuery index => runtime.onEndQuery index
  | .recv decodes => runtime.onRecv decodes
  | .commitAssigned =>
    { runtime with
      calls := runtime.calls ++ [runtime.member.assignedPartitions] }
  | .commitOne partition =>
    { runtime with calls := runtime.calls ++ [[partition]] }
  | .proceed index continues => runtime.onProceed index continues

def run (runtime : GroupRuntime) (steps : List RuntimeStep) : GroupRuntime :=
  steps.foldl (step hrwScore display recovery) runtime

end Step

/-! ## Sound commits -/

/--
The offset a member started from: the last one it fetched for a publisher on a
partition.
-/
def startedFrom (runtime : GroupRuntime) (key : CursorKey) : Option Nat :=
  (runtime.member.fetches.filterMap fun fetch =>
      if fetch.1 = key.2 then fetch.2.get? key.1 else none).getLast?.or
    ((runtime.checkpoints key.2).get? key.1)

def commitsBetween (before after : GroupRuntime) : List OffsetCommit :=
  (after.member.commits.drop before.member.commits.length).map Prod.snd

section Soundness

variable (published : CursorKey → Nat → Bool)

/--
Everything published up to a committed offset, and above the offset the member
started from, has been returned to the application.
-/
def Returned (runtime : GroupRuntime) (commit : OffsetCommit) : Prop :=
  ∀ publisher offset,
    commit.offsets.get? publisher = some offset →
    ∀ seq ≤ offset,
      published (publisher, commit.partition) seq = true →
      (∀ start ∈ runtime.startedFrom (publisher, commit.partition),
        start < seq) →
      ((publisher, commit.partition), seq) ∈
        runtime.returned.map Pipeline.identity

/--
No event of a partition waits in the channel, and no recovery for it misses a
published sequence.
-/
def Settled (runtime : GroupRuntime) (partition : U32) : Prop :=
  (∀ raw ∈ runtime.queue, raw.cursorKey.2 ≠ partition) ∧
    ∀ task ∈ runtime.recoveries,
      task.miss.partition = partition →
      ∀ seq ∈ task.tracker.remaining,
        published task.miss.cursorKey seq = false

/-- A fetch returns nothing below the offsets fetched at construction. -/
def FetchesForward
    (runtime : GroupRuntime)
    (partition : U32)
    (fetched : Offsets) : Prop :=
  ∀ entry ∈ fetched.entries,
    ∀ start ∈ (runtime.checkpoints partition).get? entry.1, start ≤ entry.2

/-- A rebalance task commits settled partitions and fetches forward. -/
def CarefulAction
    (runtime : GroupRuntime)
    (fetched : Offsets) : TaskAction → Prop
  | .commit partition => runtime.Settled published partition
  | .load partition => runtime.FetchesForward partition fetched
  | .assign _ _ => True

/-- The partition a commit call commits next is settled. -/
def SettledNext (runtime : GroupRuntime) : List U32 → Prop
  | [] => True
  | partition :: _ => runtime.Settled published partition

/--
Commits happen when their partition is settled, fetches go forward, replies
for a missing sequence are events of the publisher and partition that miss it,
and received payloads decode.
-/
def Careful (runtime : GroupRuntime) : RuntimeStep → Prop
  | .group (.advance index fetched) =>
    ∀ task ∈ runtime.member.tasks[index]?, ∀ action ∈ task.actions.head?,
      runtime.CarefulAction published fetched action
  | .reply index reply =>
    ∀ task ∈ runtime.recoveries[index]?, ∀ raw ∈ reply.event?,
      raw.position ∈ task.tracker.remaining →
        raw.cursorKey = task.miss.cursorKey
  | .recv decodes => decodes = true
  | .proceed index _ =>
    ∀ call ∈ runtime.calls[index]?, runtime.SettledNext published call
  | _ => True

instance (runtime : GroupRuntime) (partition : U32) :
    Decidable (runtime.Settled published partition) :=
  inferInstanceAs (Decidable (_ ∧ _))

instance
    (runtime : GroupRuntime)
    (partition : U32)
    (fetched : Offsets) :
    Decidable (runtime.FetchesForward partition fetched) :=
  inferInstanceAs (Decidable (∀ entry ∈ fetched.entries, _))

instance (runtime : GroupRuntime) (fetched : Offsets) :
    (action : TaskAction) →
      Decidable (runtime.CarefulAction published fetched action)
  | .commit partition =>
    inferInstanceAs (Decidable (runtime.Settled published partition))
  | .load partition =>
    inferInstanceAs (Decidable (runtime.FetchesForward partition fetched))
  | .assign _ _ => inferInstanceAs (Decidable True)

instance (runtime : GroupRuntime) :
    (call : List U32) → Decidable (runtime.SettledNext published call)
  | [] => inferInstanceAs (Decidable True)
  | partition :: _ =>
    inferInstanceAs (Decidable (runtime.Settled published partition))

instance (runtime : GroupRuntime) :
    (step : RuntimeStep) → Decidable (runtime.Careful published step)
  | .group (.advance index _) =>
    inferInstanceAs
      (Decidable
        (∀ task ∈ runtime.member.tasks[index]?,
          ∀ action ∈ task.actions.head?, _))
  | .group (.liveliness _ _) => inferInstanceAs (Decidable True)
  | .reply index reply =>
    inferInstanceAs
      (Decidable
        (∀ task ∈ runtime.recoveries[index]?, ∀ raw ∈ reply.event?, _ → _))
  | .recv decodes => inferInstanceAs (Decidable (decodes = true))
  | .proceed index _ =>
    inferInstanceAs (Decidable (∀ call ∈ runtime.calls[index]?, _))
  | .sample _ => inferInstanceAs (Decidable True)
  | .track => inferInstanceAs (Decidable True)
  | .endQuery _ => inferInstanceAs (Decidable True)
  | .commitAssigned => inferInstanceAs (Decidable True)
  | .commitOne _ => inferInstanceAs (Decidable True)

end Soundness

end GroupRuntime

/-! ## What a member's own steps change -/

namespace ConsumerGroupSubscriber

variable (hrwScore : HrwScore)

/-- What a step of a member does to its positions, fetches and commits. -/
inductive Effect
    (before after : ConsumerGroupSubscriber) : GroupStep → Prop where
  | quiet
      {groupStep : GroupStep}
      (positions : after.positions = before.positions)
      (fetches : after.fetches = before.fetches)
      (commits : after.commits = before.commits) :
      Effect before after groupStep
  | commit
      {index : Nat}
      {fetched : Offsets}
      {task : RebalanceTask}
      {partition : U32}
      {rest : List TaskAction}
      (isTask : before.tasks[index]? = some task)
      (isAction : task.actions = .commit partition :: rest)
      (positions : after.positions = before.positions)
      (fetches : after.fetches = before.fetches)
      (sent : String × OffsetCommit)
      (commits : after.commits = before.commits ++ [sent])
      (samePartition : sent.2.partition = partition)
      (sameOffsets : sent.2.offsets = before.positions partition) :
      Effect before after (.advance index fetched)
  | load
      {index : Nat}
      {fetched : Offsets}
      {task : RebalanceTask}
      {partition : U32}
      {rest : List TaskAction}
      (isTask : before.tasks[index]? = some task)
      (isAction : task.actions = .load partition :: rest)
      (positions :
        after.positions =
          update before.positions partition
            (fetched.entries.foldl
              (fun offsets entry => offsets.insert entry.1 entry.2)
              (before.positions partition)))
      (fetches : after.fetches = before.fetches ++ [(partition, fetched)])
      (commits : after.commits = before.commits) :
      Effect before after (.advance index fetched)

theorem perform_commit
    (subscriber : ConsumerGroupSubscriber)
    (generation : U64)
    (fetched : Offsets)
    (partition : U32) :
    subscriber.perform generation fetched (.commit partition) = subscriber ∨
      ∃ sent : String × OffsetCommit,
        sent.2.partition = partition ∧
          sent.2.offsets = subscriber.positions partition ∧
          subscriber.perform generation fetched (.commit partition) =
            { subscriber with commits := subscriber.commits ++ [sent] } := by
  simp only [perform]
  split
  · exact Or.inl rfl
  · exact Or.inr ⟨_, rfl, rfl, rfl⟩

theorem step_effect
    (subscriber : ConsumerGroupSubscriber)
    (groupStep : GroupStep) :
    Effect subscriber (subscriber.step hrwScore groupStep) groupStep := by
  cases groupStep with
  | liveliness key isPut =>
    simp only [step]
    split
    · exact .quiet rfl rfl rfl
    · exact .quiet rfl rfl rfl
  | advance index fetched =>
    simp only [step]
    split
    · exact .quiet rfl rfl rfl
    · rename_i task isTask
      split
      · exact .quiet rfl rfl rfl
      · rename_i action rest isAction
        cases action with
        | commit partition =>
          rcases perform_commit
              { subscriber with
                tasks :=
                  subscriber.tasks.set index { task with actions := rest } }
              task.generation fetched partition with
            same | ⟨sent, samePartition, sameOffsets, same⟩
          · rw [same]
            exact .quiet rfl rfl rfl
          · rw [same]
            exact .commit isTask isAction rfl rfl sent rfl samePartition
              sameOffsets
        | load partition =>
          exact .load isTask isAction rfl rfl rfl
        | assign gained lost =>
          exact .quiet rfl rfl rfl

theorem detector_step
    (subscriber : ConsumerGroupSubscriber)
    (groupStep : GroupStep) :
    (subscriber.step hrwScore groupStep).detector = subscriber.detector := by
  cases groupStep with
  | liveliness key isPut =>
    exact (step_liveliness hrwScore subscriber key isPut).2.2.2
  | advance index fetched =>
    exact (step_advance hrwScore subscriber index fetched).1.detector

end ConsumerGroupSubscriber

/-! ## Everything passed is accounted for -/

namespace GroupRuntime

/-- A sequence is returned, in the channel, or missing in a recovery. -/
def Held (runtime : GroupRuntime) (key : CursorKey) (seq : Nat) : Prop :=
  (key, seq) ∈ runtime.returned.map Pipeline.identity ∨
    (key, seq) ∈ runtime.queue.map Pipeline.identity ∨
    ∃ task ∈ runtime.recoveries,
      task.miss.cursorKey = key ∧ seq ∈ task.tracker.remaining

/-- What careful steps keep. -/
structure Accounted (runtime : GroupRuntime) : Prop where
  held :
    ∀ key seq,
      runtime.member.detector.lastSeen.passed key seq = true →
      (∀ start ∈ (runtime.checkpoints key.2).get? key.1, start < seq) →
      runtime.Held key seq
  positions :
    ∀ key offset,
      (runtime.member.positions key.2).get? key.1 = some offset →
      runtime.member.detector.lastSeen.passed key offset = true ∨
        ∃ start, runtime.startedFrom key = some start ∧ offset ≤ start
  tracked :
    ∀ sample ∈ runtime.tracking,
      runtime.member.detector.lastSeen.passed sample.cursorKey
        sample.position = true
  started :
    ∀ key, ∀ checkpoint ∈ (runtime.checkpoints key.2).get? key.1,
      ∃ start, runtime.startedFrom key = some start ∧ checkpoint ≤ start

variable {runtime : GroupRuntime}

variable {partition : U32} {next : GroupRuntime} {seq : Nat}

theorem Accounted.returned
    {published : CursorKey → Nat → Bool}
    (accounted : runtime.Accounted)
    (settled : runtime.Settled published partition)
    {commit : OffsetCommit}
    (samePartition : commit.partition = partition)
    (sameOffsets : commit.offsets = runtime.member.positions partition) :
    runtime.Returned published commit := by
  intro publisher offset isOffset seq below isPublished aboveStart
  rw [samePartition] at isPublished aboveStart ⊢
  rw [sameOffsets] at isOffset
  have isPassed :
      runtime.member.detector.lastSeen.passed (publisher, partition) seq =
        true := by
    rcases accounted.positions (publisher, partition) offset isOffset with
      passed | ⟨start, isStart, atStart⟩
    · exact Cursors.passed_of_le passed below
    · have above := aboveStart start isStart
      omega
  have aboveCheckpoint :
      ∀ checkpoint ∈ (runtime.checkpoints partition).get? publisher,
        checkpoint < seq := by
    intro checkpoint isCheckpoint
    obtain ⟨start, isStart, atLeast⟩ :=
      accounted.started (publisher, partition) checkpoint isCheckpoint
    exact atLeast.trans_lt (aboveStart start isStart)
  rcases accounted.held (publisher, partition) seq isPassed aboveCheckpoint with
    isReturned | isQueued | ⟨task, isTask, sameKey, isMissing⟩
  · exact isReturned
  · grind [Pipeline.identity, Settled]
  · have unpublished :=
      settled.2 task isTask (congrArg Prod.snd sameKey) seq isMissing
    rw [sameKey, isPublished] at unpublished
    cases unpublished

/-- A step that moves neither the detector nor a position. -/
theorem Accounted.frame
    (accounted : runtime.Accounted)
    (sameDetector : next.member.detector = runtime.member.detector)
    (samePositions : next.member.positions = runtime.member.positions)
    (sameFetches : next.member.fetches = runtime.member.fetches)
    (sameCheckpoints : next.checkpoints = runtime.checkpoints)
    (sameTracking : next.tracking = runtime.tracking)
    (stillHeld : ∀ key seq, runtime.Held key seq → next.Held key seq) :
    next.Accounted := by
  have sameStart (key : CursorKey) :
      next.startedFrom key = runtime.startedFrom key := by
    rw [startedFrom, startedFrom, sameFetches, sameCheckpoints]
  refine ⟨?_, ?_, ?_, ?_⟩
  · grind [accounted.held]
  · intro key offset isOffset
    rw [samePositions] at isOffset
    rw [sameDetector, sameStart]
    exact accounted.positions key offset isOffset
  · rw [sameTracking, sameDetector]
    exact accounted.tracked
  · intro key checkpoint isCheckpoint
    rw [sameCheckpoints] at isCheckpoint
    rw [sameStart]
    exact accounted.started key checkpoint isCheckpoint

theorem Accounted.of_held
    (accounted : runtime.Accounted)
    (sameMember : next.member = runtime.member)
    (sameCheckpoints : next.checkpoints = runtime.checkpoints)
    (sameTracking : next.tracking = runtime.tracking)
    (stillHeld : ∀ key seq, runtime.Held key seq → next.Held key seq) :
    next.Accounted :=
  accounted.frame (by rw [sameMember]) (by rw [sameMember])
    (by rw [sameMember]) sameCheckpoints sameTracking stillHeld

theorem accounted_new
    (hrwScore : HrwScore)
    (config : ConsumerGroupConfig)
    (numPartitions : U32)
    (found : List String)
    (offsets : U32 → Offsets) :
    (new hrwScore config numPartitions found offsets).Accounted := by
  refine ⟨?_, ?_, ?_, ?_⟩
  · intro key seq passed above
    obtain ⟨last, isLast, below⟩ := Cursors.passed_iff.mp passed
    exact absurd (above last isLast) (not_lt.mpr below)
  · intro key offset isOffset
    exact Or.inr ⟨offset, isOffset, le_rfl⟩
  · intro sample isTracked
    cases isTracked
  · intro key checkpoint isCheckpoint
    exact ⟨checkpoint, isCheckpoint, le_rfl⟩

theorem Held.mono
    {key : CursorKey}
    (held : runtime.Held key seq)
    (returned : runtime.returned ⊆ next.returned)
    (queue : runtime.queue ⊆ next.queue)
    (recoveries : runtime.recoveries ⊆ next.recoveries) :
    next.Held key seq := by
  rcases held with isReturned | isQueued | ⟨task, isTask, isMissing⟩
  · exact Or.inl (map_subset _ returned isReturned)
  · exact Or.inr (Or.inl (map_subset _ queue isQueued))
  · exact Or.inr (Or.inr ⟨task, recoveries isTask, isMissing⟩)

/-- A sample that moves the detector leaves no sequence unaccounted for. -/
theorem held_of_newSample
    (display : PublisherId → String)
    (recovery : RecoveryConfig)
    {sample : DecodedSample}
    {seen : GapDetector}
    {result : SampleResult}
    (recorded :
      runtime.member.detector.onSample sample.cursorKey.1 sample.cursorKey.2
          sample.metadata.seq = some (seen, result))
    (isNew : result ≠ .duplicate)
    (notPassed :
      runtime.member.detector.lastSeen.passed sample.cursorKey seq = false)
    (below : seq ≤ sample.position) :
    (runtime.onSample display recovery sample).Held sample.cursorKey seq := by
  obtain ⟨expected, isExpected, atLeast, verdict⟩ :=
    GapDetector.onSample_new recorded isNew
  have reached : expected ≤ seq := by
    by_contra beneath
    rw [(GapDetector.passed_iff_lt_expected isExpected seq).mpr
      (not_le.mp beneath)] at notPassed
    cases notPassed
  simp only [onSample, recorded, Held]
  rcases verdict with ⟨isDeliver, isNext⟩ | isGap
  · have isSeq : seq = sample.position :=
      le_antisymm below (isNext.le.trans reached)
    subst isDeliver isSeq
    exact Or.inr (Or.inl (mem_map.mpr ⟨sample.event,
      mem_append_right _ mem_cons_self, rfl⟩))
  · subst isGap
    rcases below.eq_or_lt with isSeq | isMissed
    · subst isSeq
      exact Or.inr (Or.inl (mem_map.mpr ⟨sample.event,
        mem_append_right _ mem_cons_self, rfl⟩))
    · refine Or.inr (Or.inr ⟨_,
        mem_append_right _ mem_cons_self, rfl, ?_⟩)
      exact RecoveryTracker.mem_remaining_new.mpr ⟨reached, isMissed⟩

theorem Accounted.onSample
    (accounted : runtime.Accounted)
    (display : PublisherId → String)
    (recovery : RecoveryConfig)
    (sample : DecodedSample) :
    (runtime.onSample display recovery sample).Accounted := by
  cases recorded :
      runtime.member.detector.onSample sample.cursorKey.1 sample.cursorKey.2
        sample.metadata.seq with
  | none =>
    simp only [GroupRuntime.onSample, recorded]
    exact accounted.of_held rfl rfl rfl fun _ _ held => held
  | some verdict =>
    obtain ⟨seen, result⟩ := verdict
    have passedMono {key : CursorKey} {seq : Nat}
        (passed : runtime.member.detector.lastSeen.passed key seq = true) :
        seen.lastSeen.passed key seq = true :=
      GapDetector.passed_mono_onSample recorded passed
    have stillHeld {key : CursorKey} {seq : Nat}
        (held : runtime.Held key seq) :
        (runtime.onSample display recovery sample).Held key seq := by
      simp only [GroupRuntime.onSample, recorded]
      exact held.mono (List.Subset.refl _) (subset_append_left _ _)
        (subset_append_left _ _)
    have heldAfter (key : CursorKey) (seq : Nat)
        (passed : seen.lastSeen.passed key seq = true)
        (above :
          ∀ start ∈ (runtime.checkpoints key.2).get? key.1, start < seq) :
        (runtime.onSample display recovery sample).Held key seq := by
      cases before : runtime.member.detector.lastSeen.passed key seq with
      | true =>
        exact stillHeld (accounted.held key seq before above)
      | false =>
        rcases GapDetector.onSample_cases recorded with
          ⟨_, same, _⟩ | ⟨_, moved, isNew⟩
        · rw [same, before] at passed
          cases passed
        · rw [moved, Cursors.passed_advance, before] at passed
          obtain ⟨isKey, below⟩ := passed.resolve_left Bool.false_ne_true
          subst isKey
          exact held_of_newSample display recovery recorded isNew before below
    simp only [GroupRuntime.onSample, recorded] at heldAfter ⊢
    refine ⟨heldAfter, ?_, ?_, accounted.started⟩
    · grind [accounted.positions, startedFrom]
    · intro tracked isTracked
      cases isTracked
      exact GapDetector.passed_of_onSample recorded

theorem Accounted.onTrack (accounted : runtime.Accounted) :
    runtime.onTrack.Accounted := by
  cases isTracking : runtime.tracking with
  | none =>
    simp only [GroupRuntime.onTrack, isTracking]
    exact accounted
  | some sample =>
    simp only [GroupRuntime.onTrack, isTracking]
    refine ⟨accounted.held, ?_, fun _ none => (by cases none),
      accounted.started⟩
    intro key offset isOffset
    simp only [update_apply] at isOffset
    split at isOffset
    · rename_i samePartition
      rw [OrderedMap.get?_insert] at isOffset
      split at isOffset
      · rename_i samePublisher
        have sameKey : key = sample.cursorKey :=
          Prod.ext samePublisher samePartition
        subst sameKey
        have passed := accounted.tracked sample isTracking
        cases isOld :
            (runtime.member.positions sample.cursorKey.2).get?
              sample.cursorKey.1 with
        | none =>
          rw [isOld] at isOffset
          cases isOffset
          rw [Option.getD_none, Nat.zero_max]
          exact Or.inl passed
        | some old =>
          grind [accounted.positions, startedFrom]
      · rw [← samePartition] at isOffset
        exact accounted.positions key offset isOffset
    · exact accounted.positions key offset isOffset

/-- A recovery goes on; what it misses no more is in the channel. -/
theorem Held.set_recovery
    {key : CursorKey}
    (held : runtime.Held key seq)
    (returned : runtime.returned ⊆ next.returned)
    (queue : runtime.queue ⊆ next.queue)
    {index : Nat}
    {task continued : RecoveryTask}
    (isTask : runtime.recoveries[index]? = some task)
    (recoveries : next.recoveries = runtime.recoveries.set index continued)
    (sameMiss : continued.miss = task.miss)
    (missing :
      ∀ seq ∈ task.tracker.remaining,
        seq ∈ continued.tracker.remaining ∨
          (task.miss.cursorKey, seq) ∈ next.queue.map Pipeline.identity) :
    next.Held key seq := by
  rcases held with isReturned | isQueued | ⟨other, isOther, sameKey, isMissing⟩
  · exact Or.inl (map_subset _ returned isReturned)
  · exact Or.inr (Or.inl (map_subset _ queue isQueued))
  · obtain ⟨position, atPosition⟩ := mem_iff_getElem?.mp isOther
    by_cases isIndex : position = index
    · subst isIndex
      rw [isTask] at atPosition
      cases atPosition
      rcases missing seq isMissing with stillMissing | isQueued
      · refine Or.inr (Or.inr ⟨continued, ?_, ?_, stillMissing⟩)
        · rw [recoveries]
          exact mem_set (List.getElem?_eq_some_iff.mp isTask).1 _
        · rw [sameMiss]
          exact sameKey
      · rw [sameKey] at isQueued
        exact Or.inr (Or.inl isQueued)
    · refine Or.inr (Or.inr ⟨other, ?_, sameKey, isMissing⟩)
      rw [recoveries]
      apply mem_of_getElem?
      rw [List.getElem?_set_ne (Ne.symm isIndex)]
      exact atPosition

/-- A reply of the right key moves a sequence from a recovery to the channel. -/
theorem Accounted.onReply
    (accounted : runtime.Accounted)
    {index : Nat}
    {reply : Reply}
    (ownEvents :
      ∀ task ∈ runtime.recoveries[index]?, ∀ raw ∈ reply.event?,
        raw.position ∈ task.tracker.remaining →
          raw.cursorKey = task.miss.cursorKey) :
    (runtime.onReply index reply).Accounted := by
  simp only [GroupRuntime.onReply]
  split
  · exact accounted
  · rename_i task isTask
    split
    · exact accounted
    · rcases task.onReply_cases reply with
        unchanged | ⟨raw, carries, isRemaining, handsOver⟩
      · rw [unchanged]
        refine accounted.of_held rfl rfl rfl fun _ _ held => ?_
        exact held.set_recovery (List.Subset.refl _)
          (subset_append_left _ _) isTask rfl rfl
          fun _ isMissing => Or.inl isMissing
      · rw [handsOver]
        refine accounted.of_held rfl rfl rfl fun _ _ held => ?_
        refine held.set_recovery (List.Subset.refl _)
          (subset_append_left _ _) isTask rfl rfl fun seq isMissing => ?_
        by_cases isRaw : seq = raw.position
        · grind [Pipeline.identity]
        · exact Or.inl
            (RecoveryTracker.mem_remaining_record.mpr ⟨isMissing, isRaw⟩)

theorem Accounted.onEndQuery
    (accounted : runtime.Accounted)
    (index : Nat) :
    (runtime.onEndQuery index).Accounted := by
  simp only [GroupRuntime.onEndQuery]
  split
  · exact accounted
  · rename_i task isTask
    refine accounted.of_held rfl rfl rfl fun _ _ held => ?_
    exact held.set_recovery (List.Subset.refl _) (List.Subset.refl _) isTask
      rfl rfl fun _ isMissing => Or.inl isMissing

theorem Accounted.onRecv (accounted : runtime.Accounted) :
    (runtime.onRecv true).Accounted := by
  simp only [GroupRuntime.onRecv]
  split
  · exact accounted
  · rename_i raw rest isQueue
    refine accounted.of_held rfl rfl rfl fun key seq held => ?_
    rcases held with isReturned | isQueued | isMissing
    · refine Or.inl ?_
      rw [map_append]
      exact mem_append_left _ isReturned
    · rw [isQueue, map_cons, mem_cons] at isQueued
      rcases isQueued with isRaw | isLater
      · refine Or.inl ?_
        rw [isRaw]
        exact mem_map_of_mem (mem_append_right _ mem_cons_self)
      · exact Or.inr (Or.inl isLater)
    · exact Or.inr (Or.inr isMissing)

theorem startedFrom_fetch
    {fetched : Offsets}
    (fetches :
      next.member.fetches = runtime.member.fetches ++ [(partition, fetched)])
    (sameCheckpoints : next.checkpoints = runtime.checkpoints)
    (key : CursorKey) :
    next.startedFrom key =
      (if partition = key.2 then fetched.get? key.1 else none).or
        (runtime.startedFrom key) := by
  simp only [startedFrom, fetches, sameCheckpoints, filterMap_append,
    List.getLast?_append, Option.or_assoc]
  congr 1
  by_cases samePartition : partition = key.2
  · grind
  · simp [samePartition]

/-- A member that takes over the offsets fetched for a partition. -/
theorem Accounted.onLoad
    (accounted : runtime.Accounted)
    {member : ConsumerGroupSubscriber}
    {fetched : Offsets}
    (forward : runtime.FetchesForward partition fetched)
    (sameDetector : member.detector = runtime.member.detector)
    (positions :
      member.positions =
        update runtime.member.positions partition
          (fetched.entries.foldl
            (fun offsets entry => offsets.insert entry.1 entry.2)
            (runtime.member.positions partition)))
    (fetches :
      member.fetches = runtime.member.fetches ++ [(partition, fetched)]) :
    Accounted { runtime with member := member } := by
  have start (key : CursorKey) :
      startedFrom { runtime with member := member } key =
        (if partition = key.2 then fetched.get? key.1 else none).or
          (runtime.startedFrom key) := by
    refine startedFrom_fetch ?_ ?_ key
    · exact fetches
    · rfl
  refine ⟨?_, ?_, ?_, ?_⟩
  · rw [sameDetector]
    exact accounted.held
  · intro key offset isOffset
    rw [sameDetector, start]
    simp only [positions, update_apply] at isOffset
    split at isOffset
    · rename_i samePartition
      rw [OrderedMap.get?_foldl_insert, ← samePartition] at isOffset
      rw [if_pos samePartition.symm]
      cases isFetched : fetched.get? key.1 with
      | none =>
        rw [isFetched, Option.none_or] at isOffset
        exact accounted.positions key offset isOffset
      | some fresh =>
        rw [isFetched, Option.some_or] at isOffset
        cases isOffset
        exact Or.inr ⟨offset, rfl, le_rfl⟩
    · rename_i otherPartition
      rw [if_neg (Ne.symm otherPartition)]
      exact accounted.positions key offset isOffset
  · rw [sameDetector]
    exact accounted.tracked
  · intro key checkpoint isCheckpoint
    rw [start]
    split
    · rename_i samePartition
      cases isFetched : fetched.get? key.1 with
      | none =>
        exact accounted.started key checkpoint isCheckpoint
      | some fresh =>
        refine ⟨fresh, rfl, ?_⟩
        rw [← samePartition] at isCheckpoint
        exact forward (key.1, fresh)
          (OrderedMap.get?_eq_some.mp isFetched) checkpoint isCheckpoint
    · exact accounted.started key checkpoint isCheckpoint

theorem Accounted.onGroup
    {hrwScore : HrwScore}
    {published : CursorKey → Nat → Bool}
    (accounted : runtime.Accounted)
    {groupStep : GroupStep}
    (careful : runtime.Careful published (.group groupStep)) :
    Accounted
      { runtime with member := runtime.member.step hrwScore groupStep } := by
  have sameDetector := runtime.member.detector_step hrwScore groupStep
  cases runtime.member.step_effect hrwScore groupStep with
  | quiet positions fetches _ =>
    exact accounted.frame sameDetector positions fetches rfl rfl
      fun _ _ held => held
  | commit _ _ positions fetches _ _ _ _ =>
    exact accounted.frame sameDetector positions fetches rfl rfl
      fun _ _ held => held
  | @load index fetched task partition _ isTask isAction positions fetches _ =>
    have forward : runtime.FetchesForward partition fetched := by
      refine careful task isTask (.load partition) ?_
      rw [isAction]
      rfl
    exact accounted.onLoad forward sameDetector positions fetches

theorem Accounted.onProceed
    (accounted : runtime.Accounted)
    (index : Nat)
    (continues : Bool) :
    (runtime.onProceed index continues).Accounted := by
  simp only [GroupRuntime.onProceed]
  split
  · exact accounted
  · exact accounted
  · rename_i partition rest isCall
    rcases runtime.member.perform_commit runtime.member.generation .empty
        partition with
      same | ⟨sent, _, _, same⟩
    · exact accounted.of_held same rfl rfl fun _ _ held => held
    · rw [ConsumerGroupSubscriber.commitPartition, same]
      exact accounted.frame rfl rfl rfl rfl rfl fun _ _ held => held

section Run

variable {hrwScore : HrwScore} {display : PublisherId → String}
  {recovery : RecoveryConfig} {published : CursorKey → Nat → Bool}

variable {runtimeStep : RuntimeStep}

/-- A careful step leaves everything accounted for. -/
theorem Accounted.step
    (accounted : runtime.Accounted)
    (careful : runtime.Careful published runtimeStep) :
    (runtime.step hrwScore display recovery runtimeStep).Accounted := by
  cases runtimeStep with
  | group groupStep =>
    exact accounted.onGroup careful
  | sample sample =>
    simp only [GroupRuntime.step]
    split
    · exact accounted.onSample display recovery sample
    · exact accounted
  | track =>
    exact accounted.onTrack
  | reply index reply =>
    exact accounted.onReply careful
  | endQuery index =>
    exact accounted.onEndQuery index
  | recv decodes =>
    have decoded : decodes = true := careful
    rw [decoded]
    exact accounted.onRecv
  | commitAssigned =>
    exact accounted.of_held rfl rfl rfl fun _ _ held => held
  | commitOne partition =>
    exact accounted.of_held rfl rfl rfl fun _ _ held => held
  | proceed index continues =>
    exact accounted.onProceed index continues

/-- What a step adds to the commits sent. -/
inductive Sends (published : CursorKey → Nat → Bool)
    (before after : GroupRuntime) : Prop where
  | nothing (commits : after.member.commits = before.member.commits)
  | commit
      (partition : U32)
      (settled : before.Settled published partition)
      (sent : String × OffsetCommit)
      (commits : after.member.commits = before.member.commits ++ [sent])
      (samePartition : sent.2.partition = partition)
      (sameOffsets : sent.2.offsets = before.member.positions partition)

/-- Receiving, recovering and calling commit leave the commits sent. -/
theorem commits_step
    (notGroup : ∀ groupStep, runtimeStep ≠ .group groupStep)
    (notProceed : ∀ index continues, runtimeStep ≠ .proceed index continues) :
    (runtime.step hrwScore display recovery runtimeStep).member.commits =
      runtime.member.commits := by
  cases runtimeStep with
  | group groupStep =>
    exact absurd rfl (notGroup groupStep)
  | sample sample =>
    simp only [GroupRuntime.step]
    split
    · simp only [GroupRuntime.onSample]
      split <;> rfl
    · rfl
  | track =>
    simp only [GroupRuntime.step, GroupRuntime.onTrack]
    split <;> rfl
  | reply index reply =>
    simp only [GroupRuntime.step, GroupRuntime.onReply]
    split
    · rfl
    · split <;> rfl
  | endQuery index =>
    simp only [GroupRuntime.step, GroupRuntime.onEndQuery]
    split <;> rfl
  | recv decodes =>
    simp only [GroupRuntime.step, GroupRuntime.onRecv]
    split <;> rfl
  | commitAssigned =>
    rfl
  | commitOne partition =>
    rfl
  | proceed index continues =>
    exact absurd rfl (notProceed index continues)

/-- A careful step commits at most one partition, which is settled. -/
theorem sends_step
    (careful : runtime.Careful published runtimeStep) :
    Sends published runtime
      (runtime.step hrwScore display recovery runtimeStep) := by
  cases runtimeStep with
  | group groupStep =>
    cases runtime.member.step_effect hrwScore groupStep with
    | quiet _ _ commits =>
      exact .nothing commits
    | load _ _ _ _ commits =>
      exact .nothing commits
    | @commit index fetched task partition _ isTask isAction _ _ sent
        commits samePartition sameOffsets =>
      refine .commit partition ?_ sent commits samePartition sameOffsets
      refine careful task isTask (.commit partition) ?_
      rw [isAction]
      rfl
  | proceed index continues =>
    simp only [GroupRuntime.step, GroupRuntime.onProceed]
    split
    · exact .nothing rfl
    · exact .nothing rfl
    · rename_i partition rest isCall
      rcases runtime.member.perform_commit runtime.member.generation .empty
          partition with
        same | ⟨sent, samePartition, sameOffsets, same⟩
      · exact .nothing (congrArg ConsumerGroupSubscriber.commits same)
      · exact .commit partition (careful _ isCall) sent
          (congrArg ConsumerGroupSubscriber.commits same) samePartition
          sameOffsets
  | _ =>
    exact .nothing (commits_step (fun _ => nofun) fun _ _ => nofun)

/-- A careful step sends only sound commits. -/
theorem Accounted.returned_of_mem
    (accounted : runtime.Accounted)
    (careful : runtime.Careful published runtimeStep)
    {commit : OffsetCommit}
    (isSent :
      commit ∈
        commitsBetween runtime
          (runtime.step hrwScore display recovery runtimeStep)) :
    runtime.Returned published commit := by
  rw [commitsBetween] at isSent
  cases sends_step careful with
  | nothing commits =>
    rw [commits, drop_length] at isSent
    cases isSent
  | commit partition settled sent commits samePartition sameOffsets =>
    grind [accounted.returned]

/--
In every run whose steps are careful, each commit a member sends is sound:
what was published up to its offsets, above those the member started from, had
been returned to the application before.
-/
theorem commits_returned
    (config : ConsumerGroupConfig)
    (numPartitions : U32)
    (found : List String)
    (offsets : U32 → Offsets)
    (steps : List RuntimeStep)
    (last : RuntimeStep)
    (careful :
      GuardedRun (GroupRuntime.step hrwScore display recovery)
        (Careful published) (new hrwScore config numPartitions found offsets)
        (steps ++ [last])) :
    let before :=
      (new hrwScore config numPartitions found offsets).run hrwScore display
        recovery steps
    ∀ commit ∈
        commitsBetween before (before.step hrwScore display recovery last),
      before.Returned published commit := by
  obtain ⟨earlier, atLast⟩ := GuardedRun.append_iff.mp careful
  have accounted :
      ((new hrwScore config numPartitions found offsets).run hrwScore display
        recovery steps).Accounted :=
    GuardedRun.invariant Accounted (fun _ _ before => before.step)
      (accounted_new hrwScore config numPartitions found offsets) earlier
  intro before commit isSent
  exact accounted.returned_of_mem atLast.1 isSent

end Run

/-- The only member of a group on a topic with one partition. -/
def loneMember : GroupRuntime :=
  new (fun _ _ => 0) ⟨"events", "g", "a"⟩ 1 [] (fun _ => .empty)

/-- Take steps with recovery from the cache only. -/
def loneRun (steps : List RuntimeStep) : GroupRuntime :=
  loneMember.run (fun _ _ => 0) (fun _ => "7") ⟨"events", none, 50, 3⟩ steps

/--
A gap is recovered and all three events are received before the application
commits.
-/
theorem commits_returned_recoveredGap :
    let steps : List RuntimeStep :=
      [.sample (sampleOfSeven 0), .track, .sample (sampleOfSeven 2), .track,
        .reply 0 (sampleOfSeven 1).reply, .recv true, .recv true, .recv true,
        .commitAssigned]
    let sent :=
      commitsBetween (loneRun steps)
        (loneRun (steps ++ [.proceed 0 true]))
    sent.map (fun commit => commit.offsets.entries) = [[(7, 2)]] ∧
      ∀ commit ∈ sent, (loneRun steps).Returned (fun _ _ => true) commit := by
  refine ⟨by decide, ?_⟩
  exact commits_returned _ _ _ _ _ (.proceed 0 true) (by decide)

/--
The position is written when a sample arrives: a commit before the first
`recv` carries the sequence of an event nobody has received.
-/
theorem commit_before_recv :
    let steps : List RuntimeStep :=
      [.sample (sampleOfSeven 0), .track, .commitAssigned]
    let sent :=
      commitsBetween (loneRun steps)
        (loneRun (steps ++ [.proceed 0 true]))
    sent.map (fun commit => (commit.partition, commit.offsets.entries)) =
        [(0, [(7, 0)])] ∧
      (loneRun steps).startedFrom (7, 0) = none ∧
      (loneRun steps).returned = [] ∧
      ∀ commit ∈ sent,
        ¬ (loneRun steps).Returned (fun _ _ => true) commit := by
  intro steps sent
  have isSent :
      sent.map (fun commit => (commit.partition, commit.offsets.entries)) =
        [(0, [(7, 0)])] := by
    decide
  have fromNothing : (loneRun steps).startedFrom (7, 0) = none := by decide
  have nothingReturned : (loneRun steps).returned = [] := by decide
  refine ⟨isSent, fromNothing, nothingReturned, ?_⟩
  intro commit member isReturned
  have shape :
      (commit.partition, commit.offsets.entries) ∈ [((0 : U32), [(7, 0)])] := by
    rw [← isSent]
    exact mem_map.mpr ⟨commit, member, rfl⟩
  obtain ⟨isPartition, isEntries⟩ := Prod.mk.inj (mem_singleton.mp shape)
  have offset : commit.offsets.get? 7 = some 0 := by
    rw [OrderedMap.get?_eq_some, isEntries]
    exact mem_cons_self
  have received :=
    isReturned 7 0 offset 0 le_rfl rfl (by
      rw [isPartition, fromNothing]
      intro start isStart
      cases isStart)
  rw [nothingReturned] at received
  cases received

end GroupRuntime

end Mitiflow
