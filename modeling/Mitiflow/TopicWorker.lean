import Mitiflow.OverrideEpochs
import Mitiflow.Reconciler

namespace Mitiflow

open Library

/-!
# The topic worker

A topic worker follows the membership of the storage agents and reconciles its
stores.  At the start it reconciles once and then registers a callback; every
membership event that finds the callback spawns a task with a copy of the
nodes.  A task reads the overrides, compares the stores with those it wants
and applies the actions one by one, and nothing keeps two tasks apart.  A new
override table is only put aside for the next task.
-/

/-- A liveliness sample, with the metadata that was fetched for a join. -/
inductive MembershipSample where
  | put (nodeId : String) (descriptor : NodeDescriptor)
  | delete (nodeId : String)

def MembershipSample.nodeId : MembershipSample → String
  | .put nodeId _ | .delete nodeId => nodeId

/-- What a sample does to the known peers. -/
def MembershipSample.apply
    (peers : ListedMap String NodeDescriptor) :
    MembershipSample → ListedMap String NodeDescriptor
  | .put nodeId descriptor => peers.insert nodeId descriptor
  | .delete nodeId => peers.erase nodeId

/-- How far a reconcile task has come. -/
inductive ReconcileTask where
  /-- It holds a copy of the nodes. -/
  | spawned (nodes : List NodeDescriptor)
  /-- It has read the overrides and knows the stores it wants. -/
  | planned (desired : List StoreKey)
  /-- It has compared the stores and has these steps left. -/
  | applying (pending : List ApplyStep)

namespace ReconcileTask

/-- The steps that a task has left. -/
def pending : ReconcileTask → List ApplyStep
  | .applying pending => pending
  | _ => []

/-- Whether a task has compared the stores. -/
def compared : ReconcileTask → Bool
  | .applying _ => true
  | _ => false

/-- Whether a task has returned. -/
def returned : ReconcileTask → Bool
  | .applying [] => true
  | _ => false

end ReconcileTask

/-- The state of a topic worker. -/
structure TopicWorker where
  selfNode : NodeDescriptor
  numPartitions : U32
  replicationFactor : U32
  /-- The peers, in the order in which their map lists them. -/
  peers : ListedMap String NodeDescriptor
  overrides : OverrideTable
  reconciler : Reconciler
  /-- Whether the membership callback is registered. -/
  registered : Bool
  /-- Whether an event is handled whose callback is still to be fired. -/
  firing : Bool
  /-- The reconcile tasks; the first one is that of the start. -/
  tasks : List ReconcileTask

/-- What may happen next. -/
inductive WorkerStep where
  /-- A sample arrives; the peers are listed in a new order. -/
  | sample (sample : MembershipSample) (listing : List String)
  | fireCallback
  /-- The callback is registered. -/
  | onChange
  | recomputeAndReconcile
  /-- Bytes arrive for the overrides. -/
  | receiveOverrides (table : Option OverrideTable)
  /-- A task reads the overrides and computes what it wants. -/
  | computeDesired (task : Nat)
  /-- A task compares the stores, as their map lists them. -/
  | computeActions (task : Nat) (listing : List StoreKey)
  | applyNext (task : Nat)
  | drainExpires (timer : Nat)
  | recoveryAdvances (recovery : Nat)

namespace TopicWorker

def new
    (selfNode : NodeDescriptor)
    (numPartitions replicationFactor : U32)
    (peers : ListedMap String NodeDescriptor)
    (overrides : OverrideTable) : TopicWorker where
  selfNode := selfNode
  numPartitions := numPartitions
  replicationFactor := replicationFactor
  peers := peers
  overrides := overrides
  reconciler := .new true
  registered := false
  firing := false
  tasks := []

def currentNodes (worker : TopicWorker) : List NodeDescriptor :=
  worker.selfNode :: worker.peers.values

/-- The steps that the tasks have left. -/
def pendingSteps (worker : TopicWorker) : List ApplyStep :=
  worker.tasks.flatMap ReconcileTask.pending

section Steps

variable {Score : Type} [LinearOrder Score]
  (weightedHrwScore : WeightedHrwScore Score)

/-- The stores that a worker wants for some nodes. -/
def desiredFor (worker : TopicWorker) (nodes : List NodeDescriptor) :
    List StoreKey :=
  computeDesiredAssignment weightedHrwScore worker.selfNode.id
    worker.numPartitions worker.replicationFactor nodes worker.overrides

/-- The stores for the current membership and overrides. -/
def desiredNow (worker : TopicWorker) : List StoreKey :=
  worker.desiredFor weightedHrwScore worker.currentNodes

/-- A sample is put into the peers, unless it is about the node itself. -/
def receiveSample
    (worker : TopicWorker)
    (sample : MembershipSample)
    (listing : List String) : TopicWorker :=
  let peers := sample.apply worker.peers
  if worker.firing ∨ sample.nodeId = worker.selfNode.id ∨
      '/' ∈ sample.nodeId.toList then
    worker
  else if lists : listing.Perm peers.keys then
    { worker with
      peers := peers.relist listing lists
      firing := true }
  else
    worker

/-- One step; a step that is not due leaves the worker as it is. -/
def step (worker : TopicWorker) : WorkerStep → TopicWorker
  | .sample sample listing => worker.receiveSample sample listing
  | .fireCallback =>
    if worker.firing ∧ worker.registered then
      { worker with
        firing := false
        tasks := worker.tasks ++
          [.spawned (worker.peers.values ++ [worker.selfNode])] }
    else
      { worker with firing := false }
  | .onChange =>
    -- The start registers the callback when its reconciliation returns.
    if worker.tasks.head?.any ReconcileTask.returned then
      { worker with registered := true }
    else
      worker
  | .recomputeAndReconcile =>
    { worker with
      tasks := worker.tasks ++ [.spawned worker.currentNodes] }
  | .receiveOverrides table =>
    { worker with overrides := overrideWatcher worker.overrides table }
  | .computeDesired task =>
    match worker.tasks[task]? with
    | some (.spawned nodes) =>
      { worker with
        tasks := worker.tasks.set task
          (.planned (worker.desiredFor weightedHrwScore nodes)) }
    | _ => worker
  | .computeActions task listing =>
    match worker.tasks[task]? with
    | some (.planned desired) =>
      if listing.Perm worker.reconciler.stores.keys then
        { worker with
          tasks := worker.tasks.set task (.applying
            ((worker.reconciler.computeActions listing desired).map
              .action)) }
      else
        worker
    | _ => worker
  | .applyNext task =>
    match worker.tasks[task]? with
    | some (.applying (next :: rest)) =>
      { worker with
        reconciler := worker.reconciler.perform next
        tasks := worker.tasks.set task
          (.applying (worker.reconciler.followUp next ++ rest)) }
    | _ => worker
  | .drainExpires timer =>
    { worker with reconciler := worker.reconciler.drainExpires timer }
  | .recoveryAdvances recovery =>
    { worker with
      reconciler := worker.reconciler.recoveryAdvances recovery }

/-! ## What a run leaves as it is -/

variable {weightedHrwScore} {worker : TopicWorker}

theorem receiveSample_cases
    (worker : TopicWorker)
    (sample : MembershipSample)
    (listing : List String) :
    worker.receiveSample sample listing = worker ∨
      ∃ peers, worker.receiveSample sample listing =
        { worker with peers, firing := true } := by
  simp only [receiveSample]
  split
  · exact Or.inl rfl
  · split
    · exact Or.inr ⟨_, rfl⟩
    · exact Or.inl rfl

/-- The bytes that a step receives for the overrides. -/
def received : WorkerStep → Option (Option OverrideTable)
  | .receiveOverrides table => some table
  | _ => none

/-- A worker is what another becomes when it receives some tables. -/
structure Becomes
    (worker : TopicWorker)
    (tables : List (Option OverrideTable))
    (later : TopicWorker) : Prop where
  selfNode : later.selfNode = worker.selfNode
  numPartitions : later.numPartitions = worker.numPartitions
  replicationFactor : later.replicationFactor = worker.replicationFactor
  overrides : later.overrides = tables.foldl overrideWatcher worker.overrides

theorem becomes_step (worker : TopicWorker) (step : WorkerStep) :
    worker.Becomes (received step).toList
      (worker.step weightedHrwScore step) := by
  cases step with
  | sample sample listing =>
    rw [TopicWorker.step]
    rcases worker.receiveSample_cases sample listing with
      same | ⟨peers, same⟩ <;>
    · rw [same]
      exact ⟨rfl, rfl, rfl, rfl⟩
  | recomputeAndReconcile | receiveOverrides _ | drainExpires _
  | recoveryAdvances _ => exact ⟨rfl, rfl, rfl, rfl⟩
  | fireCallback | onChange | computeDesired _ | applyNext _ =>
    rw [TopicWorker.step]
    split <;> exact ⟨rfl, rfl, rfl, rfl⟩
  | computeActions _ _ =>
    rw [TopicWorker.step]
    split
    · split <;> exact ⟨rfl, rfl, rfl, rfl⟩
    · exact ⟨rfl, rfl, rfl, rfl⟩

theorem Becomes.trans
    {first second third : TopicWorker}
    {before after : List (Option OverrideTable)}
    (earlier : first.Becomes before second)
    (later : second.Becomes after third) :
    first.Becomes (before ++ after) third where
  selfNode := later.selfNode.trans earlier.selfNode
  numPartitions := later.numPartitions.trans earlier.numPartitions
  replicationFactor := later.replicationFactor.trans earlier.replicationFactor
  overrides := by
    rw [later.overrides, earlier.overrides, List.foldl_append]

theorem becomes_run (worker : TopicWorker) (steps : List WorkerStep) :
    worker.Becomes (steps.filterMap received)
      (steps.foldl (step weightedHrwScore) worker) := by
  induction steps generalizing worker with
  | nil => exact ⟨rfl, rfl, rfl, rfl⟩
  | cons first rest inductionHypothesis =>
    have both := (becomes_step worker first).trans
      (inductionHypothesis (worker.step weightedHrwScore first))
    cases isReceived : received first with
    | none =>
      rw [isReceived] at both
      rwa [List.filterMap_cons_none isReceived]
    | some table =>
      rw [isReceived] at both
      rwa [List.filterMap_cons_some isReceived]

theorem Becomes.desiredNow
    {later : TopicWorker}
    {tables : List (Option OverrideTable)}
    (becomes : worker.Becomes tables later) :
    later.desiredNow weightedHrwScore =
      computeDesiredAssignment weightedHrwScore worker.selfNode.id
        worker.numPartitions worker.replicationFactor later.currentNodes
        (tables.foldl overrideWatcher worker.overrides) := by
  rw [TopicWorker.desiredNow, desiredFor, becomes.selfNode,
    becomes.numPartitions, becomes.replicationFactor, becomes.overrides]

end Steps

end TopicWorker

end Mitiflow
