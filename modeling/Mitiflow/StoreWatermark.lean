import Mitiflow.StoreBackend

namespace Mitiflow

open Library

/-!
# Watermarks over runs of store calls

A backend's tracking states describe, publisher by publisher, the finite set
of sequences handed to `store` and `store_batch`.  One call enlarges the
described sets; a run of calls is described by the union.  Every statement
about a reported watermark is read off that description.
-/

/-- The state kept for one publisher describes its recorded sequences. -/
def StateFor (seen : Finset Nat) : Option PublisherSeqState → Prop
  | none => seen = ∅
  | some state =>
    seen.Nonempty ∧
      PublisherSeqState.Tracks seen state ∧
      PublisherSeqState.Settled state

variable {seen : Finset Nat} {publisher : PublisherId}

theorem tracks_foldl_recordSeq
    {state : PublisherSeqState}
    (tracks : PublisherSeqState.Tracks seen state)
    (seqs : List Nat) :
    PublisherSeqState.Tracks (seen ∪ seqs.toFinset)
      (seqs.foldl PublisherSeqState.recordSeq state) := by
  induction seqs generalizing seen state with
  | nil =>
    simpa using tracks
  | cons seq rest inductionHypothesis =>
    have later := inductionHypothesis (tracks.recordSeq seq)
    rw [Finset.insert_union, ← Finset.union_insert,
      ← List.toFinset_cons] at later
    exact later

/-- Tracking some sequences of a publisher enlarges its described set. -/
theorem stateFor_trackSeqs
    {states : PublisherStates}
    (described : StateFor seen (states publisher))
    {seqs : List Nat}
    (some_seq : seqs ≠ []) :
    StateFor (seen ∪ seqs.toFinset)
      (some (trackSeqs states publisher seqs)) := by
  have tracks :
      PublisherSeqState.Tracks seen ((states publisher).getD {}) := by
    cases known : states publisher with
    | none =>
      rw [known] at described
      have isEmpty : seen = ∅ := described
      rw [isEmpty]
      exact PublisherSeqState.tracks_empty
    | some state =>
      rw [known] at described
      exact described.2.1
  refine ⟨?_, (tracks_foldl_recordSeq tracks seqs).advanceCommitted,
    PublisherSeqState.settled_advanceCommitted _⟩
  exact ((List.toFinset_nonempty_iff seqs).mpr some_seq).inr

/-- The tracking half of a store enlarges a publisher's described set. -/
theorem stateFor_beginStoreBatch
    {backend : FjallBackend}
    (described : StateFor seen (backend.publisherStates publisher))
    (events : List StoredEvent) :
    StateFor (seen ∪ (seqsOf publisher events).toFinset)
      ((backend.beginStoreBatch events).1.publisherStates publisher) := by
  rw [FjallBackend.publisherStates_beginStoreBatch]
  by_cases silent : seqsOf publisher events = []
  · simpa [silent] using described
  · rw [if_neg silent]
    exact stateFor_trackSeqs described silent

namespace StateFor

variable {seen : Finset Nat} {backend : FjallBackend}
  {publisher : PublisherId}

section

variable (described : StateFor seen (backend.publisherStates publisher))

include described

theorem watermark
    (nonempty : seen.Nonempty) :
    ∃ state,
      backend.publisherWatermarks publisher = some state.watermark ∧
        PublisherSeqState.Tracks seen state ∧
        PublisherSeqState.Settled state := by
  unfold FjallBackend.publisherWatermarks
  cases known : backend.publisherStates publisher with
  | none =>
    rw [known] at described
    have isEmpty : seen = ∅ := described
    simp [isEmpty] at nonempty
  | some state =>
    rw [known] at described
    exact ⟨state, rfl, described.2⟩

theorem watermark_eq_none
    (isEmpty : seen = ∅) :
    backend.publisherWatermarks publisher = none := by
  unfold FjallBackend.publisherWatermarks
  cases known : backend.publisherStates publisher with
  | none =>
    rfl
  | some state =>
    rw [known, isEmpty] at described
    exact absurd described.1 Finset.not_nonempty_empty

/-- A larger described set reports at least the same committed sequence. -/
theorem committedSeq_mono
    {larger : Finset Nat}
    {later : FjallBackend}
    (laterDescribed : StateFor larger (later.publisherStates publisher))
    (grows : seen ⊆ larger)
    {before : PublisherWatermark}
    (reported : backend.publisherWatermarks publisher = some before) :
    ∃ after,
      later.publisherWatermarks publisher = some after ∧
        before.committedSeq ≤ after.committedSeq := by
  by_cases isEmpty : seen = ∅
  · rw [described.watermark_eq_none isEmpty] at reported
    cases reported
  · have nonempty := Finset.nonempty_iff_ne_empty.mpr isEmpty
    have laterNonempty := nonempty.mono grows
    obtain ⟨state, reportedState, tracks, _⟩ := described.watermark nonempty
    obtain ⟨laterState, laterReported, laterTracks, laterSettled⟩ :=
      laterDescribed.watermark laterNonempty
    rw [reportedState, Option.some.injEq] at reported
    subst reported
    refine ⟨_, laterReported, ?_⟩
    have greatest := larger.isGreatest_max' laterNonempty
    have contiguous := tracks.contiguous.mono_set grows
    exact (laterTracks.isGreatest_committedSeq laterSettled greatest).2
      ⟨contiguous.le_top greatest.2, contiguous⟩

/-- Durability in a described publisher's broadcast watermark. -/
theorem commitWatermark_isDurable
    (seq : Nat) :
    backend.commitWatermark.isDurable publisher seq = true ↔
      seq ∈ seen ∧ Contiguous seen seq := by
  by_cases isEmpty : seen = ∅
  · have unknown := described.watermark_eq_none isEmpty
    simp [CommitWatermark.isDurable, FjallBackend.commitWatermark, unknown,
      isEmpty]
  · have nonempty := Finset.nonempty_iff_ne_empty.mpr isEmpty
    obtain ⟨state, reported, tracks, settled⟩ := described.watermark nonempty
    rw [← tracks.isDurable_iff settled nonempty seq]
    simp [CommitWatermark.isDurable, FjallBackend.commitWatermark, reported]

end

end StateFor

/-! ## Runs of successful calls -/

/-- A call of one of the two storing operations. -/
inductive StoreCall where
  | store (event : StoredEvent)
  | storeBatch (events : List StoredEvent)
  deriving Repr, DecidableEq

def StoreCall.events : StoreCall → List StoredEvent
  | .store event => [event]
  | .storeBatch events => events

def storedSeqs (publisher : PublisherId) (calls : List StoreCall) :
    Finset Nat :=
  (seqsOf publisher (calls.flatMap StoreCall.events)).toFinset

namespace FjallBackend

/-- A freshly created backend: `open` on an empty database. -/
def fresh (partition : U32) : FjallBackend :=
  rebuild {} partition

/-- Make one call whose commit succeeds. -/
def runCall (backend : FjallBackend) : StoreCall → FjallBackend
  | .store event => (backend.store event (.ok ())).1
  | .storeBatch events => (backend.storeBatch events (.ok ())).1

/-- Make calls in order, every commit succeeding. -/
def runCalls (backend : FjallBackend) (calls : List StoreCall) :
    FjallBackend :=
  calls.foldl runCall backend

/-- A successful call tracks its events and then commits their batch. -/
theorem runCall_eq (backend : FjallBackend) (call : StoreCall) :
    backend.runCall call =
      { (backend.beginStoreBatch call.events).1 with
        db := backend.db.commit (backend.beginStoreBatch call.events).2 } := by
  cases call with
  | store event =>
    rw [StoreCall.events, beginStoreBatch_singleton]
    rfl
  | storeBatch events =>
    cases events with
    | nil =>
      rfl
    | cons event rest =>
      simp [runCall, storeBatch, commitBatch, StoreCall.events]

@[simp]
theorem partition_runCall (backend : FjallBackend) (call : StoreCall) :
    (backend.runCall call).partition = backend.partition := by
  simp [runCall_eq]

theorem stateFor_runCall
    {seen : Finset Nat}
    {backend : FjallBackend}
    {publisher : PublisherId}
    (described : StateFor seen (backend.publisherStates publisher))
    (call : StoreCall) :
    StateFor (seen ∪ storedSeqs publisher [call])
      ((backend.runCall call).publisherStates publisher) := by
  have enlarged := stateFor_beginStoreBatch described call.events
  rw [runCall_eq]
  simpa [storedSeqs] using enlarged

end FjallBackend

theorem storedSeqs_nil (publisher : PublisherId) :
    storedSeqs publisher [] = ∅ :=
  rfl

theorem storedSeqs_append
    (publisher : PublisherId)
    (first second : List StoreCall) :
    storedSeqs publisher (first ++ second) =
      storedSeqs publisher first ∪ storedSeqs publisher second := by
  simp [storedSeqs, seqsOf]

theorem mem_storedSeqs
    {calls : List StoreCall}
    {seq : Nat} :
    seq ∈ storedSeqs publisher calls ↔
      ∃ call ∈ calls, ∃ event ∈ call.events,
        event.metadata.publisherId = publisher ∧
          event.metadata.seq.val = seq := by
  rw [storedSeqs, List.mem_toFinset, mem_seqsOf]
  simp only [List.mem_flatMap]
  constructor
  · rintro ⟨event, ⟨call, made, stored⟩, matching⟩
    exact ⟨call, made, event, stored, matching⟩
  · rintro ⟨call, made, event, stored, matching⟩
    exact ⟨event, ⟨call, made, stored⟩, matching⟩

namespace FjallBackend

theorem stateFor_runCalls
    {seen : Finset Nat}
    {backend : FjallBackend}
    {publisher : PublisherId}
    (described : StateFor seen (backend.publisherStates publisher))
    (calls : List StoreCall) :
    StateFor (seen ∪ storedSeqs publisher calls)
      ((backend.runCalls calls).publisherStates publisher) := by
  induction calls generalizing seen backend with
  | nil =>
    simpa [storedSeqs_nil, runCalls] using described
  | cons call rest inductionHypothesis =>
    have later := inductionHypothesis (stateFor_runCall described call)
    rw [Finset.union_assoc, ← storedSeqs_append] at later
    exact later

theorem stateFor_fresh (partition : U32) (publisher : PublisherId) :
    StateFor ∅ ((fresh partition).publisherStates publisher) :=
  rfl

theorem stateFor_fresh_runCalls
    (partition : U32)
    (calls : List StoreCall)
    (publisher : PublisherId) :
    StateFor (storedSeqs publisher calls)
      (((fresh partition).runCalls calls).publisherStates publisher) := by
  simpa using stateFor_runCalls (stateFor_fresh partition publisher) calls

/--
The watermark of a publisher after any run of successful calls is a function
of the set of sequences stored for it: its gaps list the missing sequences
below the maximum in ascending order, its committed sequence is the greatest
contiguous one, and a sequence is durable exactly when it and all sequences
from one up to it are stored.
-/
theorem publisherWatermarks_runCalls
    (partition : U32)
    (calls : List StoreCall)
    (publisher : PublisherId)
    (nonempty : (storedSeqs publisher calls).Nonempty) :
    let stored := storedSeqs publisher calls
    ∃ watermark,
      ((fresh partition).runCalls calls).publisherWatermarks publisher =
          some watermark ∧
        watermark.gaps.Pairwise (· < ·) ∧
        (∀ seq,
          seq ∈ watermark.gaps ↔ seq < stored.max' nonempty ∧ seq ∉ stored) ∧
        IsGreatest
          {committed |
            committed ≤ stored.max' nonempty ∧
              ∀ seq, 1 ≤ seq → seq ≤ committed → seq ∈ stored}
          watermark.committedSeq ∧
        (∀ seq,
          watermark.isDurable seq = true ↔
            seq ∈ stored ∧
              ∀ earlier, 1 ≤ earlier → earlier ≤ seq → earlier ∈ stored) ∧
        ∀ (otherPartition : U32) (otherCalls : List StoreCall),
          storedSeqs publisher otherCalls = stored →
          ((fresh otherPartition).runCalls otherCalls).publisherWatermarks
              publisher =
            some watermark := by
  intro stored
  have greatest := stored.isGreatest_max' nonempty
  obtain ⟨state, reported, tracks, settled⟩ :=
    (stateFor_fresh_runCalls partition calls publisher).watermark nonempty
  refine ⟨state.watermark, reported, state.watermark_gaps_sorted, ?_,
    tracks.isGreatest_committedSeq settled greatest,
    tracks.isDurable_iff settled nonempty, ?_⟩
  · intro seq
    rw [PublisherSeqState.mem_watermark_gaps, tracks.gaps,
      missing_iff_of_isGreatest greatest]
    exact and_comm
  · intro otherPartition otherCalls sameStored
    have otherNonempty : (storedSeqs publisher otherCalls).Nonempty := by
      rw [sameStored]
      exact nonempty
    obtain ⟨other, otherReported, otherTracks, otherSettled⟩ :=
      (stateFor_fresh_runCalls otherPartition otherCalls publisher).watermark
        otherNonempty
    rw [sameStored] at otherTracks
    rw [otherReported,
      tracks.watermark_unique settled otherTracks otherSettled nonempty]

end FjallBackend

/-- An unkeyed event without payload or clock value. -/
def plainEvent (publisher : PublisherId) (seq : U64) : StoredEvent where
  key := "events/p/0"
  payload := []
  metadata :=
    { seq := seq
      publisherId := publisher
      eventId := 0
      timestamp := 0
      keyExpr := "events/p/0"
      key := none
      hlcTimestamp := none }

/-- Out-of-order arrival with a redelivery and a second publisher. -/
theorem publisherWatermarks_runCalls_outOfOrder :
    ∃ watermark,
      ((FjallBackend.fresh 0).runCalls
          [.store (plainEvent 7 2),
            .storeBatch [plainEvent 7 0, plainEvent 9 5, plainEvent 7 2],
            .store (plainEvent 7 1)]).publisherWatermarks 7 =
          some watermark ∧
        watermark.isDurable 2 = true ∧
        watermark.isDurable 5 = false := by
  obtain ⟨watermark, reported, _, _, _, durable, _⟩ :=
    FjallBackend.publisherWatermarks_runCalls 0
      [.store (plainEvent 7 2),
        .storeBatch [plainEvent 7 0, plainEvent 9 5, plainEvent 7 2],
        .store (plainEvent 7 1)]
      7 (by decide)
  refine ⟨watermark, reported, (durable 2).mpr ⟨by decide, ?_⟩, ?_⟩
  · intro earlier positive atMost
    interval_cases earlier <;> decide
  · rw [← Bool.not_eq_true, durable 5]
    rintro ⟨stored, _⟩
    exact absurd stored (by decide)

end Mitiflow
