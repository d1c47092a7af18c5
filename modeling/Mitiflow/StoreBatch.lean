import Mitiflow.StoreWatermark

namespace Mitiflow

open Library List Function

/-!
# Batches and single stores

`store_batch` groups its events by publisher, visits the publishers in the
order of a hash map and advances each committed sequence once.  Storing the
events one by one advances it after every event and rewrites it each time.
Both leave the same backend, whatever the order of the visits.
-/

/-! ## Fusing the catch-up loop -/

/-- The positions from which the loop goes on to the same end. -/
structure PassedFrom
    (gaps : Finset Nat)
    (highest start position : Nat) : Prop where
  forward : start ≤ position
  within : position = start ∨ position ≤ highest
  filled : ∀ seq, start < seq → seq ≤ position → seq ∉ gaps

/-- The loop may be interrupted at any position it passes. -/
theorem PassedFrom.restart
    {gaps : Finset Nat}
    {highest start position : Nat}
    (passed : PassedFrom gaps highest start position) :
    advancePast gaps highest (highest - start) start =
      advancePast gaps highest (highest - position) position := by
  obtain ⟨distance, reached⟩ := Nat.exists_eq_add_of_le passed.forward
  induction distance generalizing start with
  | zero =>
    rw [reached, Nat.add_zero]
  | succ distance inductionHypothesis =>
    have within := passed.within
    have belowTop : start < highest := by omega
    have noGap : start + 1 ∉ gaps :=
      passed.filled (start + 1) (by omega) (by omega)
    have fuel : highest - start = highest - (start + 1) + 1 := by omega
    rw [fuel, advancePast, if_pos ⟨belowTop, noGap⟩]
    exact inductionHypothesis
      ⟨by omega, by omega, fun seq later => passed.filled seq (by omega)⟩
      (by omega)

theorem passedFrom_advancePast
    (gaps : Finset Nat)
    (highest fuel start : Nat) :
    PassedFrom gaps highest start (advancePast gaps highest fuel start) := by
  refine @advancePast_invariant gaps highest (PassedFrom gaps highest start)
    ?_ fuel start ⟨le_rfl, Or.inl rfl, fun seq later upTo => by omega⟩
  intro reached passed belowTop noGap
  have forward := passed.forward
  refine ⟨by omega, Or.inr belowTop, ?_⟩
  intro seq later upTo
  rcases Nat.le_succ_iff.mp upTo with earlier | isNext
  · exact passed.filled seq later earlier
  · rw [isNext]
    exact noGap

namespace PublisherSeqState

/-- Recording never lowers the top, and new gaps lie above the old one. -/
theorem recordSeq_extends
    {state : PublisherSeqState}
    {top : Nat}
    (isTop : state.highestSeen = some top)
    (seq : Nat) :
    ∃ newTop,
      (state.recordSeq seq).highestSeen = some newTop ∧
        top ≤ newTop ∧
        ∀ gap ∈ (state.recordSeq seq).gaps, gap ∈ state.gaps ∨ top < gap := by
  by_cases exceeds : seq > top
  · refine ⟨seq, by simp [recordSeq, isTop, exceeds], exceeds.le, ?_⟩
    intro gap member
    simp only [recordSeq, isTop, exceeds, if_true, mem_insertGaps,
      Finset.mem_erase] at member
    rcases member with ⟨_, old⟩ | ⟨above, _⟩
    · exact Or.inl old
    · exact Or.inr above
  · refine ⟨top, by simp [recordSeq, isTop, exceeds], le_rfl, ?_⟩
    intro gap member
    simp only [recordSeq, isTop, exceeds, if_false, Finset.mem_erase] at member
    exact Or.inl member.2

theorem recordSeq_committedSeq
    (state : PublisherSeqState)
    (committed seq : Nat) :
    { state with committedSeq := committed }.recordSeq seq =
      { state.recordSeq seq with committedSeq := committed } := by
  cases isTop : state.highestSeen with
  | none =>
    simp [recordSeq, isTop]
  | some top =>
    by_cases exceeds : seq > top
    · simp [recordSeq, isTop, exceeds]
    · simp [recordSeq, isTop, exceeds]

/-- Advancing between two records is undone by advancing at the end. -/
theorem advanceCommitted_recordSeq
    (state : PublisherSeqState)
    (seq : Nat) :
    (state.advanceCommitted.recordSeq seq).advanceCommitted =
      (state.recordSeq seq).advanceCommitted := by
  cases isTop : state.highestSeen with
  | none =>
    simp [advanceCommitted, isTop]
  | some top =>
    obtain ⟨newTop, isNewTop, raised, gapsAbove⟩ := recordSeq_extends isTop seq
    have passed :=
      passedFrom_advancePast state.gaps top (top - state.committedSeq)
        state.committedSeq
    have stillPassed :
        PassedFrom (state.recordSeq seq).gaps newTop state.committedSeq
          (advancePast state.gaps top (top - state.committedSeq)
            state.committedSeq) := by
      refine ⟨passed.forward,
        passed.within.imp_right fun within => within.trans raised, ?_⟩
      intro between later upTo isGap
      rcases gapsAbove between isGap with old | aboveTop
      · exact passed.filled between later upTo old
      · have within := passed.within
        omega
    have sameCommitted :
        (state.recordSeq seq).committedSeq = state.committedSeq := by
      have unread :=
        congrArg (·.committedSeq)
          (recordSeq_committedSeq state state.committedSeq seq)
      exact unread
    have advanced :
        state.advanceCommitted =
          { state with
            committedSeq :=
              advancePast state.gaps top (top - state.committedSeq)
                state.committedSeq } := by
      simp [advanceCommitted, isTop]
    rw [advanced, recordSeq_committedSeq]
    simp only [advanceCommitted, isNewTop, sameCommitted, stillPassed.restart]

end PublisherSeqState

/-! ## One backend after both -/

theorem seqsOf_snoc
    (publisher : PublisherId)
    (events : List StoredEvent)
    (event : StoredEvent) :
    seqsOf publisher (events ++ [event]) =
      if event.metadata.publisherId = publisher then
        seqsOf publisher events ++ [event.metadata.seq.val]
      else
        seqsOf publisher events := by
  by_cases own : event.metadata.publisherId = publisher
  · simp [seqsOf, own]
  · simp [seqsOf, own]

theorem trackSeqs_snoc
    {states between : PublisherStates}
    {publisher : PublisherId}
    {seqs : List Nat}
    (tracked : between publisher = some (trackSeqs states publisher seqs))
    (seq : Nat) :
    trackSeqs between publisher [seq] =
      trackSeqs states publisher (seqs ++ [seq]) := by
  rw [trackSeqs, tracked, Option.getD_some, trackSeqs, foldl_cons,
    foldl_nil, PublisherSeqState.advanceCommitted_recordSeq, trackSeqs,
    foldl_append, foldl_cons, foldl_nil]

namespace FjallBackend

/-- The tracking states once some events are recorded. -/
def statesAfter
    (backend : FjallBackend)
    (events : List StoredEvent) : PublisherStates :=
  fun publisher =>
    if seqsOf publisher events = [] then
      backend.publisherStates publisher
    else
      some (trackSeqs backend.publisherStates publisher
        (seqsOf publisher events))

/-- The metadata keyspace once some events are stored. -/
def committedAfter
    (backend : FjallBackend)
    (events : List StoredEvent) : PublisherId → Option Nat :=
  fun publisher =>
    if seqsOf publisher events = [] then
      backend.db.metadata publisher
    else
      some (trackSeqs backend.publisherStates publisher
        (seqsOf publisher events)).committedSeq

/-- The backend that holds some more events. -/
def enlarged
    (backend : FjallBackend)
    (events : List StoredEvent) : FjallBackend where
  db :=
    { backend.db.commit (events.flatMap eventWrites) with
      metadata := backend.committedAfter events }
  partition := backend.partition
  publisherStates := backend.statesAfter events

end FjallBackend

theorem Database.commit_eventWrites_metadata
    (db : Database)
    (metadata : PublisherId → Option Nat)
    (event : StoredEvent) :
    { db with metadata := metadata }.commit (eventWrites event) =
      { db.commit (eventWrites event) with metadata := metadata } := by
  unfold eventWrites
  cases event.metadata.hlcTimestamp with
  | none =>
    rfl
  | some hlc =>
    rfl

theorem Database.metadata_commit_eventWrites
    (db : Database)
    (events : List StoredEvent) :
    (db.commit (events.flatMap eventWrites)).metadata = db.metadata := by
  induction events generalizing db with
  | nil =>
    rfl
  | cons event rest inductionHypothesis =>
    rw [flatMap_cons, commit_append, inductionHypothesis]
    have unchanged :=
      congrArg (·.metadata) (db.commit_eventWrites_metadata db.metadata event)
    exact unchanged

theorem Database.commit_committed
    (db : Database)
    (committed : PublisherId → Nat)
    (publishers : List PublisherId) :
    db.commit
        (publishers.map fun publisher =>
          .insertCommitted publisher (committed publisher)) =
      { db with
        metadata := fun publisher =>
          if publisher ∈ publishers then
            some (committed publisher)
          else
            db.metadata publisher } := by
  induction publishers generalizing db with
  | nil =>
    simp
  | cons first rest inductionHypothesis =>
    rw [map_cons, Database.commit, foldl_cons, ← Database.commit,
      inductionHypothesis]
    simp only [Database.apply, Database.mk.injEq, true_and, and_true]
    funext publisher
    by_cases isFirst : publisher = first
    · subst isFirst
      simp
    · simp [isFirst]

namespace FjallBackend

section

variable
  (backend : FjallBackend)
  (events : List StoredEvent)

/-- Tracking one more event, after the others or together with them. -/
theorem trackSeqs_statesAfter
    (event : StoredEvent) :
    trackSeqs (backend.statesAfter events) event.metadata.publisherId
        [event.metadata.seq.val] =
      trackSeqs backend.publisherStates event.metadata.publisherId
        (seqsOf event.metadata.publisherId (events ++ [event])) := by
  rw [seqsOf_snoc, if_pos rfl]
  by_cases silent : seqsOf event.metadata.publisherId events = []
  · rw [silent, nil_append, trackSeqs, trackSeqs, statesAfter,
      if_pos silent]
  · exact trackSeqs_snoc (by rw [statesAfter, if_neg silent]) _

theorem statesAfter_snoc
    (event : StoredEvent) :
    backend.statesAfter (events ++ [event]) =
      update (backend.statesAfter events) event.metadata.publisherId
        (some (trackSeqs (backend.statesAfter events)
          event.metadata.publisherId [event.metadata.seq.val])) := by
  rw [trackSeqs_statesAfter]
  funext publisher
  by_cases own : publisher = event.metadata.publisherId
  · subst own
    rw [update_self, statesAfter, if_neg]
    simp [seqsOf_snoc]
  · rw [update_of_ne own, statesAfter, statesAfter, seqsOf_snoc,
      if_neg (Ne.symm own)]

theorem committedAfter_snoc
    (event : StoredEvent) :
    backend.committedAfter (events ++ [event]) =
      update (backend.committedAfter events)
        event.metadata.publisherId
        (some (trackSeqs (backend.statesAfter events)
          event.metadata.publisherId
          [event.metadata.seq.val]).committedSeq) := by
  rw [trackSeqs_statesAfter]
  funext publisher
  by_cases own : publisher = event.metadata.publisherId
  · subst own
    rw [update_self, committedAfter, if_neg]
    simp [seqsOf_snoc]
  · rw [update_of_ne own, committedAfter, committedAfter,
      seqsOf_snoc, if_neg (Ne.symm own)]

theorem store_enlarged
    (event : StoredEvent) :
    (backend.enlarged events).store event (.ok ()) =
      (backend.enlarged (events ++ [event]), .ok ()) := by
  simp only [store, beginStore, commitBatch, enlarged, Prod.mk.injEq,
    FjallBackend.mk.injEq, true_and, and_true]
  refine ⟨?_, (backend.statesAfter_snoc events event).symm⟩
  rw [Database.commit_append, Database.commit_eventWrites_metadata,
    committedAfter_snoc, flatMap_append, Database.commit_append,
    flatMap_singleton]
  rfl

end

theorem foldl_store
    (backend : FjallBackend)
    (events : List StoredEvent) :
    events.foldl (fun stored event => (stored.store event (.ok ())).1)
        backend =
      backend.enlarged events := by
  induction events using List.reverseRecOn with
  | nil =>
    rfl
  | append_singleton earlier event inductionHypothesis =>
    rw [foldl_append, inductionHypothesis, foldl_cons,
      foldl_nil, store_enlarged]

theorem enlarged_append
    (backend : FjallBackend)
    (first second : List StoredEvent) :
    backend.enlarged (first ++ second) =
      (backend.enlarged first).enlarged second := by
  rw [← foldl_store, foldl_append, foldl_store, foldl_store]

/-- The part of `store_batch` before its commit, in an order of visits. -/
def beginStoreBatchIn
    (backend : FjallBackend)
    (events : List StoredEvent)
    (visits : List PublisherId) : FjallBackend × List WriteOp :=
  visits.foldl (trackPublisher events) (backend, events.flatMap eventWrites)

/-- `store_batch`, its hash map listing the publishers in the given order. -/
def storeBatchIn
    (backend : FjallBackend)
    (events : List StoredEvent)
    (visits : List PublisherId)
    (outcome : Except String Unit) : FjallBackend × Except Error Unit :=
  match events with
  | [] => (backend, .ok ())
  | _ =>
    let (tracked, batch) := backend.beginStoreBatchIn events visits
    tracked.commitBatch batch outcome "batch commit failed: "

/-- What the visits of distinct publishers come to. -/
theorem foldl_trackPublisher_eq
    (events : List StoredEvent)
    {visits : List PublisherId}
    (distinct : visits.Nodup)
    (backend : FjallBackend)
    (writes : List WriteOp) :
    visits.foldl (trackPublisher events) (backend, writes) =
      ({ backend with
          publisherStates := fun publisher =>
            if publisher ∈ visits then
              some (trackSeqs backend.publisherStates publisher
                (seqsOf publisher events))
            else
              backend.publisherStates publisher },
        writes ++ visits.map fun publisher =>
          .insertCommitted publisher
            (trackSeqs backend.publisherStates publisher
              (seqsOf publisher events)).committedSeq) := by
  induction visits generalizing backend writes with
  | nil =>
    simp
  | cons first rest inductionHypothesis =>
    obtain ⟨firstFresh, restDistinct⟩ := nodup_cons.mp distinct
    have untouched :
        ∀ publisher ∈ rest, ∀ state,
          trackSeqs
              (update backend.publisherStates first (some state))
              publisher (seqsOf publisher events) =
            trackSeqs backend.publisherStates publisher
              (seqsOf publisher events) := by
      intro publisher later state
      have other : publisher ≠ first := by
        rintro rfl
        exact firstFresh later
      rw [trackSeqs, update_of_ne other, ← trackSeqs]
    rw [foldl_cons, trackPublisher, inductionHypothesis restDistinct]
    simp only [Prod.mk.injEq, FjallBackend.mk.injEq, true_and]
    refine ⟨?_, ?_⟩
    · funext publisher
      by_cases later : publisher ∈ rest
      · rw [if_pos later, if_pos (mem_cons_of_mem _ later),
          untouched publisher later]
      · by_cases isFirst : publisher = first
        · subst isFirst
          simp [later]
        · simp [later, isFirst]
    · rw [map_cons, append_assoc, singleton_append]
      congr 2
      apply map_congr_left
      intro publisher later
      rw [untouched publisher later]

/-- A batch adds its events, in whatever order publishers are visited. -/
theorem storeBatchIn_enlarged
    (backend : FjallBackend)
    (events : List StoredEvent)
    {visits : List PublisherId}
    (visited : visits.Perm (publishersOf events)) :
    backend.storeBatchIn events visits (.ok ()) =
      (backend.enlarged events, .ok ()) := by
  have distinct : visits.Nodup := visited.nodup_iff.mpr (nodup_dedup _)
  have visits_iff (publisher : PublisherId) :
      publisher ∈ visits ↔ seqsOf publisher events ≠ [] := by
    rw [visited.mem_iff, mem_publishersOf]
  cases isEvents : events with
  | nil =>
    rfl
  | cons first rest =>
    have shape :
        backend.storeBatchIn events visits (.ok ()) =
          (backend.beginStoreBatchIn events visits).1.commitBatch
            (backend.beginStoreBatchIn events visits).2 (.ok ())
            "batch commit failed: " := by
      rw [isEvents]
      rfl
    rw [← isEvents, shape, beginStoreBatchIn,
      foldl_trackPublisher_eq events distinct]
    simp only [commitBatch, enlarged, Database.commit_append,
      Database.commit_committed, Database.metadata_commit_eventWrites,
      visits_iff, ite_not, Prod.mk.injEq, FjallBackend.mk.injEq, true_and,
      and_true]
    exact ⟨rfl, rfl⟩

/-- A successful call adds its events. -/
theorem runCall_enlarged (backend : FjallBackend) (call : StoreCall) :
    backend.runCall call = backend.enlarged call.events := by
  cases call with
  | store event =>
    exact foldl_store backend [event]
  | storeBatch events =>
    exact congrArg Prod.fst
      (backend.storeBatchIn_enlarged events (List.Perm.refl _))

/--
A batch leaves the keyspaces and the tracking states that its events stored
one by one leave, in whatever order its publishers are visited.
-/
theorem storeBatch_eq_stores
    (backend : FjallBackend)
    (events : List StoredEvent)
    (visits : List PublisherId)
    (visited : visits.Perm (publishersOf events)) :
    backend.storeBatchIn events visits (.ok ()) =
      (events.foldl (fun stored event => (stored.store event (.ok ())).1)
        backend, .ok ()) := by
  rw [foldl_store]
  exact backend.storeBatchIn_enlarged events visited

/-- Two publishers, out of order, with a redelivery. -/
theorem storeBatch_eq_stores_twoPublishers :
    (fresh 0).storeBatchIn
        [plainEvent 7 1, plainEvent 9 0, plainEvent 7 0, plainEvent 7 1]
        [9, 7] (.ok ()) =
      ([plainEvent 7 1, plainEvent 9 0, plainEvent 7 0, plainEvent 7 1].foldl
        (fun stored event => (stored.store event (.ok ())).1) (fresh 0),
        .ok ()) :=
  storeBatch_eq_stores (fresh 0) _ [9, 7] (by decide)

end FjallBackend

end Mitiflow
