import Mitiflow.CatchUpProgress
import Mitiflow.Offload

namespace Mitiflow

open Library List

/-!
# What an offload cycle delivers

The reader's cursors and the detector's positions agree whenever a batch is
requested: the reader starts from the detector's snapshot, and a delivered
batch moves both along the same ascending list.  So nothing is delivered
twice.  The snapshot is taken after the sample channel was drained into the
detector, so nothing that was in the channel is delivered at all.
-/

/-- The cursors moved from `start` to `finish` while `sent` was delivered. -/
abbrev Delivers (start finish : Cursors CursorKey) (sent : List RawEvent) :
    Prop :=
  Leads RawEvent.cursorKey RawEvent.position start finish sent

/-! ## Draining -/

variable {detector : GapDetector}

theorem drainSampleCursors_cons
    {drained : GapDetector}
    {sample : DecodedSample}
    {rest : List DecodedSample}
    (isDrained : drainSampleCursors detector (sample :: rest) = some drained) :
    ∃ next result,
      detector.onSample sample.metadata.pubId (extractPartition sample.key)
          sample.metadata.seq =
        some (next, result) ∧
      drainSampleCursors next rest = some drained := by
  unfold drainSampleCursors at isDrained
  rw [foldlM_cons] at isDrained
  obtain ⟨next, isNext, later⟩ := Option.bind_eq_some_iff.mp isDrained
  obtain ⟨⟨moved, result⟩, recorded, isMoved⟩ :=
    Option.map_eq_some_iff.mp isNext
  subst isMoved
  exact ⟨moved, result, recorded, later⟩

/-- Draining passes every drained sample and forgets nothing. -/
theorem passed_drainSampleCursors
    {drained : GapDetector}
    {samples : List DecodedSample}
    (isDrained : drainSampleCursors detector samples = some drained) :
    (∀ sample ∈ samples,
        drained.lastSeen.passed sample.cursorKey sample.position = true) ∧
      ∀ key position,
        detector.lastSeen.passed key position = true →
        drained.lastSeen.passed key position = true := by
  induction samples generalizing detector with
  | nil =>
    cases isDrained
    exact ⟨by simp, fun _ _ isPassed => isPassed⟩
  | cons sample rest inductionHypothesis =>
    obtain ⟨next, result, recorded, later⟩ := drainSampleCursors_cons isDrained
    obtain ⟨restPassed, kept⟩ := inductionHypothesis later
    constructor
    · grind [GapDetector.passed_of_onSample, DecodedSample.cursorKey,
        DecodedSample.position]
    · intro key position isPassed
      exact kept key position
        (GapDetector.passed_mono_onSample recorded isPassed)

/-! ## Catching up -/

theorem lastSeen_of_onSample
    {next : GapDetector}
    {raw : RawEvent}
    {result : SampleResult}
    (notPassed :
      detector.lastSeen.passed raw.cursorKey raw.position = false)
    (recorded :
      detector.onSample raw.publisherId (extractPartition raw.keyExpr)
          raw.seq =
        some (next, result)) :
    next.lastSeen =
      detector.lastSeen.advance raw.cursorKey raw.position := by
  rcases GapDetector.onSample_cases recorded with
    ⟨isPassed, _, _⟩ | ⟨_, moved, _⟩
  · change detector.lastSeen.passed raw.cursorKey raw.position = true
      at isPassed
    rw [notPassed] at isPassed
    cases isPassed
  · exact moved

/--
A batch that ascends from the detector's positions is delivered along them,
and a batch delivered whole moves the detector past all of it.
-/
theorem deliverBatch_spec
    {batch : List RawEvent}
    (ascends :
      Ascends RawEvent.cursorKey RawEvent.position detector.lastSeen batch)
    (room : Option Nat) :
    Delivers detector.lastSeen (deliverBatch room detector batch).1.lastSeen
        (deliverBatch room detector batch).2.1 ∧
      ((deliverBatch room detector batch).2.2 = .delivered →
        (deliverBatch room detector batch).1.lastSeen =
          advanceAll RawEvent.cursorKey RawEvent.position detector.lastSeen
            batch) := by
  induction batch generalizing detector room with
  | nil =>
    exact ⟨Leads.refl _, fun _ => rfl⟩
  | cons raw rest inductionHypothesis =>
    obtain ⟨notPassed, restAscends⟩ := ascends
    unfold deliverBatch
    cases recorded : detector.onSample raw.publisherId
        (extractPartition raw.keyExpr) raw.seq with
    | none =>
      exact ⟨Leads.refl _, fun ended => by cases ended⟩
    | some verdict =>
      obtain ⟨moved, result⟩ := verdict
      have isMoved := lastSeen_of_onSample notPassed recorded
      rw [← isMoved] at restAscends
      dsimp only
      split
      · refine ⟨?_, fun ended => by cases ended⟩
        rw [isMoved]
        exact Leads.single notPassed (nil_sublist _)
      · obtain ⟨restDelivers, restMoves⟩ :=
          inductionHypothesis restAscends (room.map (· - 1))
        constructor
        · rw [isMoved] at restDelivers
          exact (Leads.single notPassed
            (List.Sublist.refl _)).trans restDelivers
        · intro ended
          refine (restMoves ended).trans ?_
          rw [isMoved]
          rfl

section CatchUp

variable (display : PublisherId → String) (resumeAt : Nat)

/--
Given that the reader starts from the detector's positions, a turn delivers
along them, and the two agree again if the loop goes on.
-/
theorem catchUpTurn_spec
    {state next : CatchUpState}
    (agree : state.reader.cursors = state.detector.lastSeen)
    {round : CatchUpRound}
    {ended : Option CycleStatus}
    (turn : catchUpTurn display resumeAt state round = (next, ended)) :
    (∃ sent,
        next.sent = state.sent ++ sent ∧
          Delivers state.detector.lastSeen next.detector.lastSeen sent) ∧
      (ended = none → next.reader.cursors = next.detector.lastSeen) := by
  obtain ⟨ascends, advanced⟩ :=
    @CatchUpReader.nextBatch_spec display round.get state.reader round.snapshot
  rw [agree] at ascends advanced
  obtain ⟨delivers, moves⟩ := deliverBatch_spec ascends round.room
  unfold catchUpTurn at turn
  dsimp only at turn
  split at turn
  · -- An empty batch leaves the reader's cursors where they were.
    rename_i isEmpty
    rw [isEmpty] at advanced
    cases turn
    refine ⟨⟨[], (append_nil _).symm, Leads.refl _⟩, fun _ => ?_⟩
    rw [CatchUpReader.cursors_adjustBatchSize]
    exact advanced
  · grind [CatchUpReader.cursors_adjustBatchSize]

/-- Whatever the environment does, the loop delivers along the positions. -/
theorem catchUpLoop_delivers
    (rounds : List CatchUpRound)
    {state : CatchUpState}
    (agree : state.reader.cursors = state.detector.lastSeen) :
    ∃ sent,
      (catchUpLoop display resumeAt rounds state).1.sent =
          state.sent ++ sent ∧
        Delivers state.detector.lastSeen
          (catchUpLoop display resumeAt rounds state).1.detector.lastSeen
          sent := by
  induction rounds generalizing state with
  | nil =>
    exact ⟨[], (append_nil _).symm, Leads.refl _⟩
  | cons round rest inductionHypothesis =>
    unfold catchUpLoop
    cases turn : catchUpTurn display resumeAt state round with
    | mk next ended =>
      obtain ⟨⟨sent, isSent, delivers⟩, goesOn⟩ :=
        catchUpTurn_spec display resumeAt agree turn
      cases ended with
      | some status =>
        exact ⟨sent, isSent, delivers⟩
      | none =>
        obtain ⟨laterSent, isLaterSent, laterDelivers⟩ :=
          inductionHypothesis (goesOn rfl)
        refine ⟨sent ++ laterSent, ?_, delivers.trans laterDelivers⟩
        rw [isLaterSent, isSent, append_assoc]

end CatchUp

/--
A cycle either dies while draining, or delivers along the positions that the
drained samples left behind.
-/
theorem OffloadManager.runOffloadCycle_cases
    (display : PublisherId → String)
    (manager : OffloadManager)
    (detector : GapDetector)
    (samples : List DecodedSample)
    (values : List Nat)
    (rounds : List CatchUpRound) :
    let outcome :=
      manager.runOffloadCycle display detector samples values rounds
    (outcome.sent = [] ∧ outcome.status = .panicked) ∨
      ∃ drained,
        drainSampleCursors detector samples = some drained ∧
          Delivers drained.lastSeen outcome.detector.lastSeen
            outcome.sent := by
  intro outcome
  let inner :=
    manager.runOffloadCycleInner display detector samples values rounds
  have kept :
      outcome.sent = inner.sent ∧
        outcome.detector = inner.detector ∧
        outcome.status = inner.status := by
    simp only [outcome, OffloadManager.runOffloadCycle]
    split <;> exact ⟨rfl, rfl, rfl⟩
  obtain ⟨sameSent, sameDetector, sameStatus⟩ := kept
  rw [sameSent, sameDetector, sameStatus]
  simp only [inner, OffloadManager.runOffloadCycleInner]
  cases isDrained : drainSampleCursors detector samples with
  | none =>
    exact Or.inl ⟨rfl, rfl⟩
  | some drained =>
    refine Or.inr ⟨drained, rfl, ?_⟩
    dsimp only
    split
    · exact Leads.refl _
    · have agree :
          (manager.startCatchUp drained).reader.cursors =
            (manager.startCatchUp drained).detector.lastSeen :=
        rfl
      obtain ⟨sent, isSent, delivers⟩ :=
        catchUpLoop_delivers display
          (manager.lagDetector.channelCapacity / 4) rounds agree
      change _ = [] ++ sent at isSent
      rw [nil_append] at isSent
      rw [← isSent] at delivers
      split
      · exact delivers
      · exact delivers

/-- The live phase delivers along the detector's positions. -/
theorem liveSends_delivers
    (detector : GapDetector)
    (live : List LiveSample) :
    ∃ finish, Delivers detector.lastSeen finish (liveSends detector live) := by
  induction live generalizing detector with
  | nil =>
    exact ⟨_, Leads.refl _⟩
  | cons first rest inductionHypothesis =>
    unfold liveSends
    cases recorded : detector.onSample first.sample.metadata.pubId
        (extractPartition first.sample.key) first.sample.metadata.seq with
    | none =>
      exact ⟨_, Leads.refl _⟩
    | some verdict =>
      obtain ⟨next, result⟩ := verdict
      obtain ⟨finish, laterDelivers⟩ := inductionHypothesis next
      refine ⟨finish, Leads.trans ?_ laterDelivers⟩
      rcases GapDetector.onSample_cases recorded with
        ⟨_, unchanged, isDuplicate⟩ | ⟨notPassed, moved, _⟩
      · subst unchanged isDuplicate
        exact Leads.refl _
      · have single :
            ((handleSampleResult result first.sample).1.filter
              fun _ => first.accepted).toList.Sublist [first.sample.event] := by
          cases result with
          | duplicate =>
            exact nil_sublist _
          | deliver | gap miss =>
            grind [handleSampleResult]
        rw [moved]
        exact Leads.single notPassed single

/-- A sample of publisher seven on partition zero. -/
def bufferedSample (seq : U64) : DecodedSample where
  metadata :=
    { seq := seq
      pubId := 7
      eventId := 0
      timestamp := 0
      urgencyMs := noUrgency
      hlcPhysicalNs := none
      hlcLogical := none }
  key := "events/p/0"
  payload := []

/--
A cycle and the live phase after it together send no sequence of a publisher
on a partition twice, and none that the detector had already passed when the
cycle started, whatever the stores reply and whatever arrives live.
-/
theorem offload_never_duplicates
    (display : PublisherId → String)
    (manager : OffloadManager)
    (detector : GapDetector)
    (samples : List DecodedSample)
    (values : List Nat)
    (rounds : List CatchUpRound)
    (live : List LiveSample) :
    let sent :=
      (manager.runOffloadCycle display detector samples values
        rounds).sentThrough live
    (sent.map fun raw => (raw.cursorKey, raw.position)).Nodup ∧
      ∀ raw ∈ sent,
        detector.lastSeen.passed raw.cursorKey raw.position = false := by
  intro sent
  rcases manager.runOffloadCycle_cases display detector samples values
      rounds with ⟨nothingSent, panicked⟩ | ⟨drained, isDrained, delivers⟩
  · have isEmpty : sent = [] := by
      simp only [sent, CycleOutcome.sentThrough, panicked]
      exact nothingSent
    rw [isEmpty]
    exact ⟨nodup_nil, by simp⟩
  · have throughout : ∃ finish, Delivers drained.lastSeen finish sent := by
      obtain ⟨finish, liveDelivers⟩ :=
        liveSends_delivers
          (manager.runOffloadCycle display detector samples values
            rounds).detector live
      simp only [sent, CycleOutcome.sentThrough]
      split
      · exact ⟨finish, delivers.trans liveDelivers⟩
      · exact ⟨finish, delivers.trans liveDelivers⟩
      · exact ⟨_, delivers⟩
      · exact ⟨_, delivers⟩
    obtain ⟨finish, sentDelivers⟩ := throughout
    refine ⟨sentDelivers.nodup, fun raw member => ?_⟩
    rw [Bool.eq_false_iff]
    intro isPassed
    have stillPassed := (passed_drainSampleCursors isDrained).2 _ _ isPassed
    rw [sentDelivers.not_passed member] at stillPassed
    cases stillPassed

-- Sequences 1 and 2 are caught up; live, 2 is a duplicate and 3 is sent.
example :
    let stores := PartitionStores.single (firstEvents 3) (by decide)
    let manager : OffloadManager :=
      { config := {}
        storeKeyPrefix := "events/_store"
        state := .draining
        lagDetector := { channelCapacity := 4 }
        partitions := []
        forwardersPaused := false }
    let round (cursor : Nat) : CatchUpRound :=
      { snapshot := [((7, 0), cursor)]
        get := stores.get ⟨decimalUuid.parse, fun _ => .error "no dates"⟩
        batchDuration := 100
        channelLen := 0
        room := none }
    let outcome :=
      manager.runOffloadCycle decimalUuid.display
        { lastSeen := fun key => if key = (7, 0) then some 0 else none }
        [] [0] [round 0, round 2]
    (outcome.sentThrough
        [⟨bufferedSample 2, true⟩, ⟨bufferedSample 3, true⟩]).map
      RawEvent.position = [1, 2, 3] := by
  decide

/-! ## What was in the sample channel -/

/--
Every buffered sample that was new to the detector is sent, and so is every
held sequence that was skipped between two buffered ones and was new.
-/
structure NoLoss
    (detector : GapDetector)
    (samples : List DecodedSample)
    (held : CursorKey → Finset Nat)
    (sent : List RawEvent) : Prop where
  buffered :
    ∀ sample ∈ samples,
      detector.lastSeen.passed sample.cursorKey sample.position = false →
      ∃ raw ∈ sent,
        raw.cursorKey = sample.cursorKey ∧ raw.position = sample.position
  skipped :
    ∀ first ∈ samples, ∀ second ∈ samples,
      first.cursorKey = second.cursorKey →
      ∀ seq ∈ held first.cursorKey,
        first.position < seq →
        seq < second.position →
        (∀ sample ∈ samples,
          sample.cursorKey = first.cursorKey → sample.position ≠ seq) →
        detector.lastSeen.passed first.cursorKey seq = false →
        ∃ raw ∈ sent,
          raw.cursorKey = first.cursorKey ∧ raw.position = seq

/--
A cycle loses nothing exactly when nothing in the sample channel was new to
the detector, whatever the stores hold and reply.
-/
theorem offload_noLoss_iff
    (display : PublisherId → String)
    (manager : OffloadManager)
    (detector : GapDetector)
    (samples : List DecodedSample)
    (values : List Nat)
    (rounds : List CatchUpRound)
    (held : CursorKey → Finset Nat) :
    NoLoss detector samples held
        (manager.runOffloadCycle display detector samples values rounds).sent ↔
      ∀ sample ∈ samples,
        detector.lastSeen.passed sample.cursorKey sample.position = true := by
  constructor
  · intro noLoss sample member
    by_contra isNew
    obtain ⟨raw, isSent, sameKey, samePosition⟩ :=
      noLoss.buffered sample member (Bool.eq_false_iff.mpr isNew)
    rcases manager.runOffloadCycle_cases display detector samples values
        rounds with ⟨nothingSent, _⟩ | ⟨drained, isDrained, delivers⟩
    · rw [nothingSent] at isSent
      cases isSent
    · have notPassed := delivers.not_passed isSent
      rw [sameKey, samePosition,
        (passed_drainSampleCursors isDrained).1 sample member] at notPassed
      cases notPassed
  · intro allPassed
    constructor
    · intro sample member isNew
      rw [allPassed sample member] at isNew
      cases isNew
    · intro first _ second member sameKey seq _ _ below _ isNew
      rw [sameKey, Cursors.passed_of_le (allPassed second member) below.le]
        at isNew
      cases isNew

/--
Two new samples are buffered and the store holds both.  The cycle runs to its
end with the store answering, and sends neither.
-/
theorem drained_samples_never_sent :
    let stores := PartitionStores.single (firstEvents 2) (by decide)
    let manager : OffloadManager :=
      { config := {}
        storeKeyPrefix := "events/_store"
        state := .draining
        lagDetector := { channelCapacity := 4 }
        partitions := []
        forwardersPaused := false }
    let outcome :=
      manager.runOffloadCycle decimalUuid.display {}
        [bufferedSample 0, bufferedSample 1] [1]
        [{ snapshot := [((7, 0), 1)]
           get := stores.get ⟨decimalUuid.parse, fun _ => .error "no dates"⟩
           batchDuration := 100
           channelLen := 0
           room := none }]
    0 ∈ stores.heldOn (7, 0) ∧
      1 ∈ stores.heldOn (7, 0) ∧
      outcome.status = .caughtUp ∧
      outcome.sent = [] := by
  decide

end Mitiflow
