import Mitiflow.HashRing

namespace Mitiflow

/-!
# The partition manager

A worker of a group watches the liveliness tokens of all workers, keeps the
list of known workers, and recomputes its own partitions after every change.
A change of its partitions is reported to a callback as what was gained and
what was lost.
-/

/-- The worker named by a liveliness key under the group's prefix. -/
def workerIdOf (livelinessPrefix key : String) : Option String :=
  let leading := livelinessPrefix.toList ++ ['/']
  if leading <+: key.toList then
    some (String.ofList (key.toList.drop leading.length))
  else
    none

/-- The state of the partition manager. -/
structure PartitionManager where
  workerId : String
  numPartitions : U32
  livelinessPrefix : String
  workers : List String
  myPartitions : List U32
  generation : U64
  deriving Repr, DecidableEq

/-- Add a worker to a sorted list unless it is there. -/
def joinWorker (workers : List String) (worker : String) : List String :=
  if worker ∈ workers then
    workers
  else
    (workers ++ [worker]).insertionSort (· ≤ ·)

def updateWorkers
    (livelinessPrefix : String)
    (workers : List String)
    (key : String)
    (isPut : Bool) : List String :=
  match workerIdOf livelinessPrefix key with
  | none => workers
  | some worker =>
    if isPut then
      joinWorker workers worker
    else
      workers.filter fun known => known ≠ worker

namespace PartitionManager

variable (hrwScore : HrwScore)

/--
A manager for a worker that found other workers' tokens, with the partitions
it gets among them.
-/
def new
    (workerId : String)
    (numPartitions : U32)
    (livelinessPrefix : String)
    (found : List String) : PartitionManager :=
  let workers :=
    ((found.filterMap (workerIdOf livelinessPrefix)).foldl
      (fun known worker =>
        if worker ∈ known then known else known ++ [worker])
      [workerId]).insertionSort (· ≤ ·)
  { workerId := workerId
    numPartitions := numPartitions
    livelinessPrefix := livelinessPrefix
    workers := workers
    myPartitions := partitionsOf hrwScore workerId workers numPartitions
    generation := 1 }

/--
Recompute the assignment.  The result carries the gained and lost partitions
if the callback fires.
-/
def rebalance (manager : PartitionManager) :
    PartitionManager × Option (List U32 × List U32) :=
  let newPartitions :=
    partitionsOf hrwScore manager.workerId manager.workers
      manager.numPartitions
  let gained := newPartitions.filter (· ∉ manager.myPartitions)
  let lost := manager.myPartitions.filter (· ∉ newPartitions)
  if gained = [] ∧ lost = [] then
    (manager, none)
  else
    ({ manager with
        myPartitions := newPartitions
        generation := manager.generation + 1 },
      some (gained, lost))

/-- Process one liveliness sample; keys outside the prefix are ignored. -/
def onLiveliness (manager : PartitionManager) (key : String) (isPut : Bool) :
    PartitionManager × Option (List U32 × List U32) :=
  match workerIdOf manager.livelinessPrefix key with
  | none => (manager, none)
  | some _ =>
    rebalance hrwScore
      { manager with
        workers :=
          updateWorkers manager.livelinessPrefix manager.workers key isPut }

/-- The manager's partitions are those its workers' scores give it. -/
def Assigned (manager : PartitionManager) : Prop :=
  ∀ partition,
    partition ∈ manager.myPartitions ↔
      partition.val < manager.numPartitions.val ∧
        workerFor hrwScore partition manager.workers =
          some manager.workerId

variable {hrwScore}

/-- Rebalancing establishes the assignment and keeps everything else. -/
theorem rebalance_spec (manager : PartitionManager) :
    (manager.rebalance hrwScore).1.Assigned hrwScore ∧
      (manager.rebalance hrwScore).1.workers = manager.workers ∧
      (manager.rebalance hrwScore).1.workerId = manager.workerId ∧
      (manager.rebalance hrwScore).1.numPartitions =
        manager.numPartitions ∧
      (manager.rebalance hrwScore).1.livelinessPrefix =
        manager.livelinessPrefix := by
  simp only [rebalance]
  split
  · rename_i unchanged
    obtain ⟨nothingGained, nothingLost⟩ := unchanged
    refine ⟨fun partition => ?_, rfl, rfl, rfl, rfl⟩
    rw [← mem_partitionsOf]
    constructor
    · intro isOwn
      by_contra isLost
      exact List.filter_eq_nil_iff.mp nothingLost partition isOwn
        (decide_eq_true isLost)
    · intro isNew
      by_contra isGained
      exact List.filter_eq_nil_iff.mp nothingGained partition isNew
        (decide_eq_true isGained)
  · exact ⟨fun _ => mem_partitionsOf, rfl, rfl, rfl, rfl⟩

/-- A liveliness sample keeps the assignment and updates the workers. -/
theorem onLiveliness_spec
    {manager : PartitionManager}
    (assigned : manager.Assigned hrwScore)
    (key : String)
    (isPut : Bool) :
    (manager.onLiveliness hrwScore key isPut).1.Assigned hrwScore ∧
      (manager.onLiveliness hrwScore key isPut).1.workers =
        updateWorkers manager.livelinessPrefix manager.workers key isPut ∧
      (manager.onLiveliness hrwScore key isPut).1.workerId =
        manager.workerId ∧
      (manager.onLiveliness hrwScore key isPut).1.numPartitions =
        manager.numPartitions ∧
      (manager.onLiveliness hrwScore key isPut).1.livelinessPrefix =
        manager.livelinessPrefix := by
  cases named : workerIdOf manager.livelinessPrefix key with
  | none =>
    have ignored :
        manager.onLiveliness hrwScore key isPut = (manager, none) := by
      simp only [onLiveliness, named]
    have unchanged :
        updateWorkers manager.livelinessPrefix manager.workers key isPut =
          manager.workers := by
      simp only [updateWorkers, named]
    rw [ignored, unchanged]
    exact ⟨assigned, rfl, rfl, rfl, rfl⟩
  | some worker =>
    simp only [onLiveliness, named]
    exact rebalance_spec _

end PartitionManager

end Mitiflow
