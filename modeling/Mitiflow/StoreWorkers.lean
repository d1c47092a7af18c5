import Mitiflow.StoreWatermark

namespace Mitiflow

open Library Function

/-!
# Workers sharing one backend

Several workers store batches through one backend.  A store takes two steps:
it updates the tracking states and prepares a write batch, and later commits
that batch, which may fail; a failed commit is only logged.  Watermarks may be
read between any two steps.

The abstract `Ledger` follows a run by bookkeeping alone: which events have
been handed to the backend and which of them have been persisted.  The shared
backend refines it, and soundness of a read is decided on the ledger.
-/

/-- One step of the workers or of a watermark reader. -/
inductive WorkerAction (workers : Nat) where
  | update (worker : Fin workers) (call : StoreCall)
  | commit (worker : Fin workers) (outcome : Except String Unit)
  | read
  deriving DecidableEq

/-- The shared backend and the prepared batch of each busy worker. -/
structure WorkerPool (workers : Nat) where
  backend : FjallBackend
  pending : Fin workers → Option (List WriteOp)

namespace WorkerPool

variable {workers : Nat}

def initial (partition : U32) : WorkerPool workers where
  backend := .fresh partition
  pending := fun _ => none

/-- The part of a call before its commit. -/
def beginCall (backend : FjallBackend) : StoreCall →
    FjallBackend × List WriteOp
  | .store event => backend.beginStore event
  | .storeBatch events => backend.beginStoreBatch events

/--
Take one step.  A worker starts a call only when idle and commits only what
it has prepared; an empty batch is never flushed.
-/
def step? (pool : WorkerPool workers) :
    WorkerAction workers → Option (WorkerPool workers)
  | .update worker call =>
    match pool.pending worker with
    | some _ => none
    | none =>
      if call.events = [] then
        none
      else
        let (backend, batch) := beginCall pool.backend call
        some
          { backend := backend
            pending := update pool.pending worker (some batch) }
  | .commit worker outcome =>
    match pool.pending worker with
    | none => none
    | some batch =>
      some
        { backend :=
            (pool.backend.commitBatch batch outcome
              "batch commit failed: ").1
          pending := update pool.pending worker none }
  | .read => some pool

def run? : List (WorkerAction workers) → WorkerPool workers →
    Option (WorkerPool workers)
  | [], pool => some pool
  | action :: rest, pool => (pool.step? action).bind (run? rest)

end WorkerPool

/-- Bookkeeping of a run, without any tracking state or keyspace. -/
structure Ledger (workers : Nat) where
  /-- Events handed to the backend, whether or not their commit succeeded. -/
  handed : List EventKey := []
  /-- Events whose batch has been committed successfully. -/
  persisted : List EventKey := []
  /-- Events each worker has handed over and not yet tried to commit. -/
  inFlight : Fin workers → List EventKey := fun _ => []

/-- The keys of the events a call stores. -/
def StoreCall.keys (call : StoreCall) : List EventKey :=
  call.events.map (·.metadata.eventKey)

namespace Ledger

variable {workers : Nat}

/-- Enter one step into the books. -/
def enter (ledger : Ledger workers) : WorkerAction workers → Ledger workers
  | .update worker call =>
    { ledger with
      handed := ledger.handed ++ call.keys
      inFlight := update ledger.inFlight worker call.keys }
  | .commit worker (.ok ()) =>
    { ledger with
      persisted := ledger.persisted ++ ledger.inFlight worker
      inFlight := update ledger.inFlight worker [] }
  | .commit worker (.error _) =>
    { ledger with
      inFlight := update ledger.inFlight worker [] }
  | .read => ledger

/-- The books after a run from idle workers. -/
def ofRun (actions : List (WorkerAction workers)) : Ledger workers :=
  actions.foldl enter {}

/-- Sequences of one publisher that have been handed over. -/
def handedSeqs (ledger : Ledger workers) (publisher : PublisherId) :
    Finset Nat :=
  ((ledger.handed.filter (·.publisherId = publisher)).map
    (·.seq.val)).toFinset

/--
Every event handed over together with all sequences from one up to its own
has been persisted.
-/
def PrefixesPersisted (ledger : Ledger workers) : Prop :=
  ∀ key ∈ ledger.handed,
    Contiguous (ledger.handedSeqs key.publisherId) key.seq.val →
    key ∈ ledger.persisted

end Ledger

/-! ## The backend refines the ledger -/

section Refinement

variable {workers : Nat}

variable {ledger : Ledger workers} {pool next : WorkerPool workers}

theorem Ledger.mem_handedSeqs
    {key : EventKey} :
    key.seq.val ∈ ledger.handedSeqs key.publisherId ↔
      key ∈ ledger.handed := by
  simp only [handedSeqs, List.mem_toFinset, List.mem_map, List.mem_filter,
    decide_eq_true_eq]
  constructor
  · rintro ⟨other, ⟨handed, samePublisher⟩, sameSeq⟩
    have same : other = key := EventKey.ext samePublisher (Fin.ext sameSeq)
    exact same ▸ handed
  · intro handed
    exact ⟨key, ⟨handed, rfl⟩, rfl⟩

theorem Ledger.handedSeqs_update
    (ledger : Ledger workers)
    (worker : Fin workers)
    (call : StoreCall)
    (publisher : PublisherId) :
    (ledger.enter (.update worker call)).handedSeqs publisher =
      ledger.handedSeqs publisher ∪
        (seqsOf publisher call.events).toFinset := by
  simp [handedSeqs, enter, StoreCall.keys, seqsOf, List.filter_map,
    comp_def, EventMetadata.eventKey]

/-- The concrete pool agrees with the books. -/
structure Refines
    (pool : WorkerPool workers)
    (ledger : Ledger workers) : Prop where
  described :
    ∀ publisher,
      StateFor (ledger.handedSeqs publisher)
        (pool.backend.publisherStates publisher)
  persisted :
    ∀ key, pool.backend.db.holds key = true ↔ key ∈ ledger.persisted
  prepared :
    ∀ worker batch,
      pool.pending worker = some batch →
      ∀ (db : Database) key,
        (db.commit batch).holds key = true ↔
          key ∈ ledger.inFlight worker ∨ db.holds key = true

theorem refines_initial (partition : U32) :
    Refines (WorkerPool.initial partition : WorkerPool workers) {} where
  described := fun _ => rfl
  persisted := by
    intro key
    simp [WorkerPool.initial, FjallBackend.fresh, FjallBackend.rebuild,
      Database.holds]
  prepared := by
    intro worker batch busy
    cases busy

variable {worker : Fin workers}

namespace WorkerPool

theorem beginCall_eq (backend : FjallBackend) (call : StoreCall) :
    beginCall backend call = backend.beginStoreBatch call.events := by
  cases call with
  | store event =>
    exact (backend.beginStoreBatch_singleton event).symm
  | storeBatch events =>
    rfl

theorem step?_update
    {pool next : WorkerPool workers}
    {call : StoreCall}
    (taken : pool.step? (.update worker call) = some next) :
    next.backend = (pool.backend.beginStoreBatch call.events).1 ∧
      next.pending =
        update pool.pending worker
          (some (pool.backend.beginStoreBatch call.events).2) := by
  simp only [step?] at taken
  split at taken
  · cases taken
  · split at taken
    · cases taken
    · rw [beginCall_eq, Option.some.injEq] at taken
      subst taken
      exact ⟨rfl, rfl⟩

theorem step?_commit
    {pool next : WorkerPool workers}
    {outcome : Except String Unit}
    (taken : pool.step? (.commit worker outcome) = some next) :
    ∃ batch,
      pool.pending worker = some batch ∧
        next.backend =
          (pool.backend.commitBatch batch outcome "batch commit failed: ").1 ∧
        next.pending = update pool.pending worker none := by
  simp only [step?] at taken
  split at taken
  · cases taken
  · rename_i batch busy
    rw [Option.some.injEq] at taken
    subst taken
    exact ⟨batch, busy, rfl, rfl⟩

end WorkerPool

section

variable (refines : Refines pool ledger)

include refines

/-- Starting a call keeps the refinement. -/
theorem Refines.update
    {call : StoreCall}
    (taken : pool.step? (.update worker call) = some next) :
    Refines next (ledger.enter (.update worker call)) := by
  obtain ⟨backendShape, pendingShape⟩ := WorkerPool.step?_update taken
  refine ⟨?_, ?_, ?_⟩
  · intro publisher
    rw [ledger.handedSeqs_update, backendShape]
    exact stateFor_beginStoreBatch (refines.described publisher) call.events
  · intro key
    rw [backendShape, FjallBackend.db_beginStoreBatch]
    exact refines.persisted key
  · intro other batch busy db key
    rw [pendingShape] at busy
    by_cases isWorker : other = worker
    · subst isWorker
      rw [update_self, Option.some.injEq] at busy
      subst busy
      rw [FjallBackend.holds_commit_beginStoreBatch]
      simp [Ledger.enter, StoreCall.keys]
    · rw [update_of_ne isWorker] at busy
      simpa [Ledger.enter, update_of_ne isWorker] using
        refines.prepared other batch busy db key

/-- Committing, successfully or not, keeps the refinement. -/
theorem Refines.commit
    {outcome : Except String Unit}
    (taken : pool.step? (.commit worker outcome) = some next) :
    Refines next (ledger.enter (.commit worker outcome)) := by
  obtain ⟨batch, busy, backendShape, pendingShape⟩ :=
    WorkerPool.step?_commit taken
  have prepared :
      ∀ other later,
        next.pending other = some later →
        ∀ (db : Database) key,
          (db.commit later).holds key = true ↔
            key ∈ Function.update ledger.inFlight worker [] other ∨
              db.holds key = true := by
    intro other later otherBusy
    rw [pendingShape] at otherBusy
    by_cases isWorker : other = worker
    · subst isWorker
      rw [update_self] at otherBusy
      cases otherBusy
    · rw [update_of_ne isWorker] at otherBusy ⊢
      exact refines.prepared other later otherBusy
  cases outcome with
  | error reason =>
    refine ⟨?_, ?_, prepared⟩
    · rw [backendShape]
      exact refines.described
    · rw [backendShape]
      exact refines.persisted
  | ok done =>
    refine ⟨?_, ?_, prepared⟩
    · rw [backendShape]
      exact refines.described
    · intro key
      rw [backendShape]
      change (pool.backend.db.commit batch).holds key = true ↔
        key ∈ ledger.persisted ++ ledger.inFlight worker
      rw [refines.prepared worker batch busy, refines.persisted,
        List.mem_append]
      exact or_comm

theorem Refines.step
    {action : WorkerAction workers}
    (taken : pool.step? action = some next) :
    Refines next (ledger.enter action) := by
  cases action with
  | update worker call =>
    exact refines.update taken
  | commit worker outcome =>
    exact refines.commit taken
  | read =>
    cases taken
    exact refines

/-- Every accepted interleaving keeps the backend and the books in step. -/
theorem Refines.run
    {final : WorkerPool workers}
    {actions : List (WorkerAction workers)}
    (accepted : WorkerPool.run? actions pool = some final) :
    Refines final (actions.foldl Ledger.enter ledger) := by
  induction actions generalizing pool ledger with
  | nil =>
    cases accepted
    exact refines
  | cons action rest inductionHypothesis =>
    obtain ⟨next, taken, remaining⟩ := Option.bind_eq_some_iff.mp accepted
    exact inductionHypothesis (refines.step taken) remaining

end

/-- A read is sound: whatever it reports durable is in the keyspace. -/
def WorkerPool.ReadSound (pool : WorkerPool workers) : Prop :=
  ∀ publisher (seq : U64),
    pool.backend.commitWatermark.isDurable publisher seq.val = true →
    pool.backend.db.holds ⟨publisher, seq⟩ = true

/-- On the books, a read is sound when contiguous prefixes are persisted. -/
theorem Refines.readSound_iff
    (refines : Refines pool ledger) :
    pool.ReadSound ↔ ledger.PrefixesPersisted := by
  constructor
  · intro sound key handed contiguous
    apply (refines.persisted key).mp
    apply sound key.publisherId key.seq
    exact ((refines.described key.publisherId).commitWatermark_isDurable
      key.seq.val).mpr ⟨Ledger.mem_handedSeqs.mpr handed, contiguous⟩
  · intro prefixes publisher seq durable
    obtain ⟨handed, contiguous⟩ :=
      ((refines.described publisher).commitWatermark_isDurable
        seq.val).mp durable
    let key : EventKey := ⟨publisher, seq⟩
    have keyHanded : key ∈ ledger.handed := Ledger.mem_handedSeqs.mp handed
    exact (refines.persisted key).mpr (prefixes key keyHanded contiguous)

theorem WorkerPool.run?_append
    (earlier later : List (WorkerAction workers))
    (pool : WorkerPool workers) :
    run? (earlier ++ later) pool = (run? earlier pool).bind (run? later) := by
  induction earlier generalizing pool with
  | nil =>
    rfl
  | cons action rest inductionHypothesis =>
    rw [List.cons_append, run?, run?, Option.bind_assoc]
    exact congrArg _ (funext inductionHypothesis)

/--
A watermark read anywhere in any accepted interleaving reports only events
that are in the keyspace exactly when every event handed over so far together
with all its predecessors from one on has been committed successfully.
-/
theorem read_sound_iff
    (partition : U32)
    (earlier later : List (WorkerAction workers))
    (final : WorkerPool workers)
    (accepted :
      WorkerPool.run? (earlier ++ .read :: later)
          (WorkerPool.initial partition) =
        some final) :
    ∃ pool,
      WorkerPool.run? earlier (WorkerPool.initial partition) = some pool ∧
        (pool.ReadSound ↔ (Ledger.ofRun earlier).PrefixesPersisted) := by
  rw [WorkerPool.run?_append] at accepted
  obtain ⟨pool, reached, _⟩ := Option.bind_eq_some_iff.mp accepted
  exact ⟨pool, reached, ((refines_initial partition).run reached).readSound_iff⟩

end Refinement

/-- One worker, one event, one successful commit: the read is sound. -/
theorem read_sound_afterCommit :
    ∃ pool,
      WorkerPool.run?
          [.update (0 : Fin 1) (.store (plainEvent 7 0)), .commit 0 (.ok ())]
          (WorkerPool.initial 0) =
        some pool ∧
      pool.ReadSound := by
  obtain ⟨pool, reached, sound⟩ :=
    read_sound_iff 0
      [.update (0 : Fin 1) (.store (plainEvent 7 0)), .commit 0 (.ok ())] []
      _ rfl
  refine ⟨pool, reached, sound.mpr ?_⟩
  intro key handed _
  exact handed

/--
A failed commit is only logged: afterwards the event is reported durable and
is not in the keyspace.  The same holds before a commit is even tried.
-/
theorem failed_commit_reported_durable :
    (∃ pool,
      WorkerPool.run?
          [.update (0 : Fin 1) (.store (plainEvent 7 0)),
            .commit 0 (.error "disk full")]
          (WorkerPool.initial 0) =
        some pool ∧
      pool.backend.commitWatermark.isDurable 7 0 = true ∧
      pool.backend.db.holds ⟨7, 0⟩ = false) ∧
    ∃ pool,
      WorkerPool.run? [.update (0 : Fin 1) (.store (plainEvent 7 0))]
          (WorkerPool.initial 0) =
        some pool ∧
      pool.backend.commitWatermark.isDurable 7 0 = true ∧
      pool.backend.db.holds ⟨7, 0⟩ = false := by
  have reported (pool : WorkerPool 1)
      (unfilled : (pool.backend.publisherStates 7).map (·.gaps) = some ∅) :
      pool.backend.commitWatermark.isDurable 7 0 = true := by
    obtain ⟨state, known, noGaps⟩ := Option.map_eq_some_iff.mp unfilled
    have durable := (state.watermark_isDurable 0).mpr (by simp [noGaps])
    simp [CommitWatermark.isDurable, FjallBackend.commitWatermark,
      FjallBackend.publisherWatermarks, known, durable]
  exact ⟨⟨_, rfl, reported _ (by decide), by decide⟩,
    ⟨_, rfl, reported _ (by decide), by decide⟩⟩

end Mitiflow
