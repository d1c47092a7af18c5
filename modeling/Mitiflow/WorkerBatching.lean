import Mitiflow.PartitionStore
import Mitiflow.StoreShutdown

namespace Mitiflow

open List

open Library BackendWorkers

/-!
# A worker that batches

A backend worker takes messages from a channel.  When it meets a batch of
events it goes on taking messages, merges further batches into the first, and
writes the merged batch before it answers a request.  How many messages it
merges depends on what the channel holds at each attempt to receive.  Whatever
it holds, the worker ends with the replies and the store that handling the
messages one after the other gives.

The storage engine performs every operation here.  A query whose lower bound
overflows ends the worker, and nothing is handled after it.
-/

/-! ## Requests -/

/-- A request to the backend, without its reply channel. -/
inductive BackendRequest where
  | query (filters : QueryFilters)
  | queryReplay (filters : ReplayFilters)
  | publisherWatermarks
  | gc (olderThan : DateTime)
  | compact
  | commitOffsets (commit : GroupCommit)
  | fetchOffsets (groupId : String)
  | commitKeyedOffset (commit : KeyedOffsetCommit)
  | fetchKeyedOffset (groupId : String) (keyFilterHash : U64)

/-- The reply to a request. -/
inductive BackendReply where
  | query (events : List StoredEvent)
  | queryReplay (events : List StoredEvent)
  | publisherWatermarks
      (watermarks : PublisherId → Option PublisherWatermark)
  | gc (result : Except Error Nat)
  | compact (result : Except Error CompactionStats)
  | commitOffsets (result : Except Error Unit)
  | fetchOffsets (result : Except Error (OrderedMap PublisherId U64))
  | commitKeyedOffset (result : Except Error Unit)
  | fetchKeyedOffset (result : Except Error (Option HlcTimestamp))

/-- Perform a request; none if it panics. -/
def PartitionStore.answer?
    (store : PartitionStore) :
    BackendRequest → Option (PartitionStore × BackendReply)
  | .query filters =>
    (store.backend.query filters).map fun events => (store, .query events)
  | .queryReplay filters =>
    some (store, .queryReplay (store.backend.queryReplay filters))
  | .publisherWatermarks =>
    some (store, .publisherWatermarks store.backend.publisherWatermarks)
  | .gc olderThan =>
    let (backend, result) := store.backend.gc olderThan (.ok ())
    some ({ store with backend := backend }, .gc result)
  | .compact =>
    let (backend, result) := store.backend.compact (.ok ())
    some ({ store with backend := backend }, .compact result)
  | .commitOffsets commit =>
    let (offsets, result) := Mitiflow.commitOffsets store.offsets commit {}
    some ({ store with offsets := offsets }, .commitOffsets result)
  | .fetchOffsets groupId =>
    some (store,
      .fetchOffsets (Mitiflow.fetchOffsets store.offsets groupId (.ok ())))
  | .commitKeyedOffset commit =>
    let (offsets, result) :=
      Mitiflow.commitKeyedOffset store.offsets commit {}
    some ({ store with offsets := offsets }, .commitKeyedOffset result)
  | .fetchKeyedOffset groupId keyFilterHash =>
    some (store,
      .fetchKeyedOffset
        (Mitiflow.fetchKeyedOffset store.offsets groupId keyFilterHash
          (.ok ())))

/-- A message to the worker. -/
abbrev WorkerMsg := BackendWorkers.BackendMsg StoredEvent BackendRequest

/-- What a worker has done: its store, its replies, and whether it died. -/
structure Service where
  store : PartitionStore
  replies : List BackendReply := []
  panicked : Bool := false

namespace Service

/-- Persist a batch unless it is empty. -/
def flushBatch (service : Service) (batch : List StoredEvent) : Service :=
  if service.panicked || batch.isEmpty then
    service
  else
    { service with
      store :=
        { service.store with
          backend := (service.store.backend.storeBatch batch (.ok ())).1 } }

def dispatchRequest (service : Service) (request : BackendRequest) :
    Service :=
  if service.panicked then
    service
  else
    match service.store.answer? request with
    | some (store, reply) =>
      { service with store := store, replies := service.replies ++ [reply] }
    | none => { service with panicked := true }

def handle (service : Service) : WorkerMsg → Service
  | .storeBatch requests => service.flushBatch requests
  | .request request => service.dispatchRequest request
  | .shutdown => service

def handleAll (service : Service) (messages : List WorkerMsg) : Service :=
  messages.foldl handle service

end Service

/-! ## The worker -/

/-- A worker, its channel, and the messages still to be sent to it. -/
structure BatchingWorker where
  service : Service
  phase : WorkerPhase StoredEvent BackendRequest := .receiving
  channel : List WorkerMsg := []
  unsent : List WorkerMsg

/-- A message is sent, the worker goes on, or its `try_recv` sees nothing. -/
inductive BatchingAction where
  | send
  | work
  | miss
  deriving Repr, DecidableEq

namespace BatchingWorker

/-- The worker goes on to a phase, unless it died. -/
def resume
    (worker : BatchingWorker)
    (service : Service)
    (phase : WorkerPhase StoredEvent BackendRequest) : BatchingWorker :=
  { worker with
    service := service
    phase := if service.panicked then .stopped else phase }

/-- One step of the worker itself. -/
def work? (worker : BatchingWorker) : Option BatchingWorker :=
  match worker.phase with
  | .receiving =>
    match worker.channel with
    | [] => none
    | message :: rest =>
      some { worker with channel := rest, phase := .afterRecv message }
  | .dispatching request =>
    some (worker.resume (worker.service.dispatchRequest request) .receiving)
  | .draining batch =>
    match worker.channel with
    | [] => some { worker with phase := .flushing batch }
    | message :: rest =>
      some { worker with
        channel := rest
        phase := .afterTryRecv batch message }
  | .interrupting batch request =>
    some (worker.resume
      ((worker.service.flushBatch batch).dispatchRequest request)
      (.draining []))
  | .flushing batch =>
    some { worker with
      service := worker.service.flushBatch batch
      phase := .receiving }
  | .stopped => none

/-- One step; a `try_recv` may come before a message it could have seen. -/
def step? (worker : BatchingWorker) : BatchingAction → Option BatchingWorker
  | .send =>
    match worker.unsent with
    | [] => none
    | message :: rest =>
      some { worker with
        channel := worker.channel ++ [message]
        unsent := rest }
  | .work => worker.work?
  | .miss =>
    match worker.phase with
    | .draining batch => some { worker with phase := .flushing batch }
    | _ => none

end BatchingWorker

/-! ## Batches can be merged -/

variable {service : Service}

namespace Service

theorem flushBatch_eq
    (alive : service.panicked = false)
    (batch : List StoredEvent) :
    service.flushBatch batch =
      { service with
        store :=
          { service.store with
            backend := service.store.backend.enlarged batch } } := by
  cases batch with
  | nil =>
    simp only [flushBatch, isEmpty_nil, Bool.or_true, if_true]
    rfl
  | cons event rest =>
    have stored :
        (service.store.backend.storeBatch (event :: rest) (.ok ())).1 =
          service.store.backend.enlarged (event :: rest) :=
      service.store.backend.runCall_enlarged (.storeBatch (event :: rest))
    rw [flushBatch, if_neg (by simp [alive]), stored]

/-- Two batches written one after the other are one batch. -/
theorem flushBatch_append
    (service : Service)
    (first second : List StoredEvent) :
    (service.flushBatch first).flushBatch second =
      service.flushBatch (first ++ second) := by
  cases alive : service.panicked with
  | true =>
    simp [flushBatch, alive]
  | false =>
    have stillAlive : (service.flushBatch first).panicked = false := by
      rw [flushBatch_eq alive]
      exact alive
    rw [flushBatch_eq stillAlive, flushBatch_eq alive, flushBatch_eq alive,
      FjallBackend.enlarged_append]

@[simp]
theorem flushBatch_nil (service : Service) :
    service.flushBatch [] = service := by
  simp [flushBatch]

@[simp]
theorem handleAll_cons
    (service : Service)
    (message : WorkerMsg)
    (rest : List WorkerMsg) :
    service.handleAll (message :: rest) =
      (service.handle message).handleAll rest :=
  rfl

theorem handleAll_panicked
    (died : service.panicked = true)
    (messages : List WorkerMsg) :
    service.handleAll messages = service := by
  induction messages with
  | nil =>
    rfl
  | cons message rest inductionHypothesis =>
    have unchanged : service.handle message = service := by
      cases message with
      | storeBatch requests =>
        simp [handle, flushBatch, died]
      | request request =>
        simp [handle, dispatchRequest, died]
      | shutdown =>
        rfl
    rw [handleAll_cons, unchanged, inductionHypothesis]

end Service

/-! ## Every schedule -/

/-- The messages a worker has taken and not yet handled. -/
def BackendWorkers.WorkerPhase.taken :
    WorkerPhase StoredEvent BackendRequest → List WorkerMsg
  | .receiving | .stopped => []
  | .dispatching request => [.request request]
  | .draining batch | .flushing batch => [.storeBatch batch]
  | .interrupting batch request => [.storeBatch batch, .request request]

namespace BatchingWorker

/-- The messages still to be handled. -/
def pending (worker : BatchingWorker) : List WorkerMsg :=
  worker.phase.taken ++ (worker.channel ++ worker.unsent)

/-- The worker will have done what is left to be done. -/
structure OnCourse (total : Service) (worker : BatchingWorker) : Prop where
  noShutdown :
    ∀ message ∈ worker.channel ++ worker.unsent,
      message.isShutdown = false
  died : worker.phase = .stopped → worker.service.panicked = true
  remaining : worker.service.handleAll worker.pending = total

variable {total : Service} {worker : BatchingWorker}

/-- A worker that resumes has handled what it had taken. -/
theorem OnCourse.resume
    (onCourse : OnCourse total worker)
    {phase : WorkerPhase StoredEvent BackendRequest}
    (running : phase ≠ .stopped)
    (handled :
      worker.service.handleAll worker.pending =
        service.handleAll
          (phase.taken ++ (worker.channel ++ worker.unsent))) :
    OnCourse total (worker.resume service phase) := by
  have unhandled := handled.symm.trans onCourse.remaining
  cases died : service.panicked with
  | true =>
    have stops :
        worker.resume service phase =
          { worker with service := service, phase := .stopped } := by
      simp [BatchingWorker.resume, died]
    rw [stops]
    refine ⟨onCourse.noShutdown, fun _ => died, ?_⟩
    rw [← unhandled, Service.handleAll_panicked died,
      Service.handleAll_panicked died]
  | false =>
    have goesOn :
        worker.resume service phase =
          { worker with service := service, phase := phase } := by
      simp [BatchingWorker.resume, died]
    rw [goesOn]
    exact ⟨onCourse.noShutdown, fun stopped => absurd stopped running,
      unhandled⟩

/-- A message that leaves the channel is taken, or merged into the batch. -/
theorem OnCourse.take
    (onCourse : OnCourse total worker)
    {message : WorkerMsg}
    {rest : List WorkerMsg}
    (channel : worker.channel = message :: rest)
    {phase : WorkerPhase StoredEvent BackendRequest}
    (running : message.isShutdown = false → phase ≠ .stopped)
    (taken :
      message.isShutdown = false →
      ∀ service : Service, ∀ later,
        service.handleAll (phase.taken ++ later) =
          service.handleAll (worker.phase.taken ++ (message :: later))) :
    OnCourse total { worker with channel := rest, phase := phase } := by
  have notShutdown : message.isShutdown = false :=
    onCourse.noShutdown message (by simp [channel])
  refine ⟨?_, fun stopped => absurd stopped (running notShutdown), ?_⟩
  · intro other member
    refine onCourse.noShutdown other ?_
    rw [channel]
    exact mem_cons_of_mem _ member
  · have remaining := onCourse.remaining
    rw [pending, channel] at remaining
    exact (taken notShutdown _ _).trans remaining

theorem OnCourse.endDrain
    (onCourse : OnCourse total worker)
    {batch : List StoredEvent}
    (draining : worker.phase = .draining batch) :
    OnCourse total { worker with phase := .flushing batch } := by
  refine ⟨onCourse.noShutdown, nofun, ?_⟩
  have remaining := onCourse.remaining
  rw [pending, draining] at remaining
  exact remaining

/-- An upper bound on the steps still to be taken. -/
def work (worker : BatchingWorker) : Nat :=
  5 * worker.unsent.length + 4 * worker.channel.length + worker.phase.work

theorem work_resume_le
    (worker : BatchingWorker)
    (service : Service)
    (phase : WorkerPhase StoredEvent BackendRequest) :
    (worker.resume service phase).work ≤
      { worker with phase := phase }.work := by
  unfold work resume
  cases service.panicked with
  | true =>
    exact Nat.add_le_add_left (Nat.zero_le _) _
  | false =>
    exact le_rfl

/-- The worker's own steps bring the end nearer and keep it on course. -/
theorem work?_spec
    {next : BatchingWorker}
    (works : worker.work? = some next) :
    next.work < worker.work ∧
      (OnCourse total worker → OnCourse total next) := by
  cases phase : worker.phase with
  | receiving =>
    cases channel : worker.channel with
    | nil =>
      simp [work?, phase, channel] at works
    | cons message rest =>
      simp only [work?, phase, channel, Option.some.injEq] at works
      subst works
      refine ⟨?_, fun onCourse => onCourse.take channel ?_ ?_⟩
      · cases message <;>
          simp only [work, phase, channel, WorkerPhase.afterRecv,
            WorkerPhase.work, length_cons] <;>
          omega
      · cases message <;>
          simp [BackendWorkers.BackendMsg.isShutdown, WorkerPhase.afterRecv]
      · intro notShutdown service later
        rw [phase]
        cases message with
        | shutdown =>
          cases notShutdown
        | _ =>
          rfl
  | dispatching request =>
    simp only [work?, phase, Option.some.injEq] at works
    subst works
    refine ⟨(worker.work_resume_le _ _).trans_lt ?_,
      fun onCourse => onCourse.resume (by simp) ?_⟩
    · simp [work, phase, WorkerPhase.work]
    · rw [pending, phase]
      rfl
  | draining batch =>
    cases channel : worker.channel with
    | nil =>
      simp only [work?, phase, channel, Option.some.injEq] at works
      subst works
      refine ⟨by simp [work, phase, channel, WorkerPhase.work],
        fun onCourse => ?_⟩
      simpa [channel] using onCourse.endDrain phase
    | cons message rest =>
      simp only [work?, phase, channel, Option.some.injEq] at works
      subst works
      refine ⟨?_, fun onCourse => onCourse.take channel ?_ ?_⟩
      · cases message <;>
          simp only [work, phase, channel, WorkerPhase.afterTryRecv,
            WorkerPhase.work, length_cons] <;>
          omega
      · cases message <;> simp [WorkerPhase.afterTryRecv]
      · intro notShutdown service later
        rw [phase]
        cases message with
        | storeBatch requests =>
          exact congrArg (Service.handleAll · later)
            (service.flushBatch_append batch requests).symm
        | request request =>
          rfl
        | shutdown =>
          cases notShutdown
  | interrupting batch request =>
    simp only [work?, phase, Option.some.injEq] at works
    subst works
    refine ⟨(worker.work_resume_le _ _).trans_lt ?_,
      fun onCourse => onCourse.resume (by simp) ?_⟩
    · simp [work, phase, WorkerPhase.work]
    · simp [pending, phase, WorkerPhase.taken, Service.handle]
  | flushing batch =>
    simp only [work?, phase, Option.some.injEq] at works
    subst works
    refine ⟨by simp [work, phase, WorkerPhase.work],
      fun onCourse => ⟨onCourse.noShutdown, by simp, ?_⟩⟩
    have remaining := onCourse.remaining
    rw [pending, phase] at remaining
    exact remaining
  | stopped =>
    simp [work?, phase] at works

/-- Every step brings the end nearer, and none leads off course. -/
theorem step?_spec
    {worker next : BatchingWorker}
    {action : BatchingAction}
    (steps : worker.step? action = some next) :
    next.work < worker.work ∧
      (OnCourse total worker → OnCourse total next) := by
  cases action with
  | send =>
    cases isUnsent : worker.unsent with
    | nil =>
      simp [step?, isUnsent] at steps
    | cons message rest =>
      simp only [step?, isUnsent, Option.some.injEq] at steps
      subst steps
      have sameMessages :
          (worker.channel ++ [message]) ++ rest =
            worker.channel ++ worker.unsent := by
        rw [isUnsent, append_assoc, singleton_append]
      refine ⟨?_, fun onCourse => ⟨?_, onCourse.died, ?_⟩⟩
      · simp only [work, isUnsent, length_append, length_cons,
          length_nil]
        omega
      · simp only [sameMessages]
        exact onCourse.noShutdown
      · simp only [pending, sameMessages]
        exact onCourse.remaining
  | work =>
    exact work?_spec steps
  | miss =>
    cases phase : worker.phase with
    | draining batch =>
      simp only [step?, phase, Option.some.injEq] at steps
      subst steps
      exact ⟨by simp [work, phase, WorkerPhase.work],
        fun onCourse => onCourse.endDrain phase⟩
    | _ =>
      simp [step?, phase] at steps

/-- A worker that cannot go on waits for messages or has died. -/
theorem idle_of_quiet
    (quiet : Quiet step? worker) :
    worker.unsent = [] ∧
      (worker.phase = .stopped ∨
        worker.phase = .receiving ∧ worker.channel = []) := by
  have cannotSend := quiet .send
  have cannotWork := quiet .work
  simp only [step?] at cannotSend cannotWork
  refine ⟨?_, ?_⟩
  · cases isUnsent : worker.unsent with
    | nil =>
      rfl
    | cons message rest =>
      simp [isUnsent] at cannotSend
  · cases phase : worker.phase with
    | stopped =>
      exact Or.inl rfl
    | receiving =>
      cases channel : worker.channel with
      | nil =>
        exact Or.inr ⟨rfl, rfl⟩
      | cons message rest =>
        simp [work?, phase, channel] at cannotWork
    | draining batch =>
      cases channel : worker.channel <;>
        simp [work?, phase, channel] at cannotWork
    | _ =>
      simp [work?, phase] at cannotWork

/-- A worker that is done has handled everything, unless it died. -/
theorem OnCourse.done
    (onCourse : OnCourse total worker)
    (quiet : Quiet step? worker) :
    worker.service = total := by
  obtain ⟨nothingUnsent, stopped | ⟨receiving, emptyChannel⟩⟩ :=
    idle_of_quiet quiet
  · rw [← onCourse.remaining,
      Service.handleAll_panicked (onCourse.died stopped)]
  · rw [← onCourse.remaining, pending, receiving, emptyChannel, nothingUnsent]
    rfl

/-- A worker before the first message is sent. -/
def start (store : PartitionStore) (messages : List WorkerMsg) :
    BatchingWorker where
  service := { store := store }
  unsent := messages

/--
For every sequence of batches and requests and every timing of the attempts to
receive, the worker comes to rest, and wherever it does so its replies and its
store are those of handling the messages one at a time.
-/
theorem batching_invisible
    (store : PartitionStore)
    (messages : List WorkerMsg)
    (noShutdown : ∀ message ∈ messages, message.isShutdown = false) :
    (∀ worker,
        Reachable step? (start store messages) worker →
        ∃ final, Reachable step? worker final ∧ Quiet step? final) ∧
      ∀ final,
        Reachable step? (start store messages) final →
        Quiet step? final →
        final.service =
          ({ store := store } : Service).handleAll messages := by
  let total := ({ store := store } : Service).handleAll messages
  refine ⟨fun worker _ => exists_quiet
    (fun _ _ _ steps => (@step?_spec total _ _ _ steps).1) worker, ?_⟩
  intro final reachable quiet
  have initially : OnCourse total (start store messages) :=
    ⟨noShutdown, nofun, rfl⟩
  have onCourse :=
    reachable.invariant (OnCourse total)
      (fun _ _ _ kept steps => (step?_spec steps).2 kept) initially
  exact onCourse.done quiet

/-- Two batches of one publisher around a query for everything. -/
theorem batching_invisible_query :
    let store := PartitionStore.fresh 0
    let messages : List WorkerMsg :=
      [.storeBatch [plainEvent 7 1], .storeBatch [plainEvent 7 0],
        .request (.query {}), .storeBatch [plainEvent 7 2]]
    ∃ final,
      Reachable step? (start store messages) final ∧
        Quiet step? final ∧
        final.service.replies =
          [.query [plainEvent 7 0, plainEvent 7 1]] := by
  intro store messages
  obtain ⟨comesToRest, sameService⟩ :=
    batching_invisible store messages (by decide)
  obtain ⟨final, reachable, quiet⟩ := comesToRest _ (Reachable.refl _)
  refine ⟨final, reachable, quiet, ?_⟩
  rw [sameService final reachable quiet]
  rfl

end BatchingWorker

end Mitiflow
