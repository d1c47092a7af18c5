import Mitiflow.GapDetector
import Mitiflow.Library.OrderedMap
import Mitiflow.PartitionManager

namespace Mitiflow

open Library

/-!
# Consumer group members

A member declares its subscribers and seeds its gap detector once, from the
partitions it has at construction.  Every later rebalance spawns a task that
commits the offsets of lost partitions, loads those of gained ones into the
shared positions and updates the list of assigned partitions.  Tasks of
several rebalances interleave freely, so each keeps a list of actions still to
do and a run picks the task to advance.
-/

/-- Committed offsets of one partition, by publisher. -/
abbrev Offsets := OrderedMap PublisherId Nat

/-- Names that identify a member and its topic. -/
structure ConsumerGroupConfig where
  keyPrefix : String
  groupId : String
  memberId : String
  deriving Repr, DecidableEq

/-- Offsets committed by a member for one partition. -/
structure OffsetCommit where
  groupId : String
  memberId : String
  partition : U32
  offsets : Offsets
  generation : U64

/-- One action of a rebalance task. -/
inductive TaskAction where
  | commit (partition : U32)
  | load (partition : U32)
  | assign (gained lost : List U32)
  deriving Repr, DecidableEq

/-- A spawned task: what it still has to do, and the generation it captured. -/
structure RebalanceTask where
  actions : List TaskAction
  generation : U64
  deriving Repr, DecidableEq

def RebalanceTask.spawn (gained lost : List U32) (generation : U64) :
    RebalanceTask where
  actions :=
    lost.map .commit ++ gained.map .load ++ [.assign gained lost]
  generation := generation

/-- A member of a consumer group. -/
structure ConsumerGroupSubscriber where
  config : ConsumerGroupConfig
  manager : PartitionManager
  generation : U64
  assignedPartitions : List U32
  /-- Positions by partition and publisher, shared with the commit calls. -/
  positions : U32 → Offsets
  /-- Key expressions of the declared subscribers. -/
  subscriptions : List String
  detector : GapDetector
  tasks : List RebalanceTask
  /-- Commits put so far, with the keys they were put on. -/
  commits : List (String × OffsetCommit)
  /-- Offsets fetched by tasks so far, oldest first. -/
  fetches : List (U32 × Offsets)

/-- A step of a member's environment. -/
inductive GroupStep where
  /-- A worker's liveliness token appears or disappears. -/
  | liveliness (key : String) (isPut : Bool)
  /-- A task performs its next action; a fetch gets the given offsets. -/
  | advance (task : Nat) (fetched : Offsets)

namespace ConsumerGroupSubscriber

section Member

variable (hrwScore : HrwScore)

/-- The key expressions subscribed to for some partitions. -/
def keyExprs (keyPrefix : String) (partitions : List U32) : List String :=
  if partitions = [] then
    [noneKeyExpr keyPrefix]
  else
    partitions.map (partitionKeyExpr keyPrefix)

/-- Offsets fetched for each of some partitions, nothing for the others. -/
def checkpointsFor (partitions : List U32) (offsets : U32 → Offsets) :
    U32 → Offsets :=
  fun partition =>
    if partition ∈ partitions then offsets partition else .empty

/--
Join a group.  `found` are the liveliness keys discovered and `offsets` what
the stores answer for the partitions assigned at this point.
-/
def new
    (config : ConsumerGroupConfig)
    (numPartitions : U32)
    (found : List String)
    (offsets : U32 → Offsets) : ConsumerGroupSubscriber :=
  let manager :=
    PartitionManager.new hrwScore config.memberId numPartitions
      (config.keyPrefix ++ "/_workers/" ++ config.groupId) found
  let checkpoints := checkpointsFor manager.myPartitions offsets
  { config := config
    manager := manager
    generation := manager.generation
    assignedPartitions := manager.myPartitions
    positions := checkpoints
    subscriptions := keyExprs config.keyPrefix manager.myPartitions
    detector :=
      { lastSeen := fun key => (checkpoints key.2).get? key.1 }
    tasks := []
    commits := []
    fetches := [] }

/-- The rebalance callback: bump the generation and spawn a task. -/
def onRebalance
    (subscriber : ConsumerGroupSubscriber)
    (gained lost : List U32) : ConsumerGroupSubscriber :=
  { subscriber with
    generation := subscriber.generation + 1
    tasks :=
      subscriber.tasks ++
        [RebalanceTask.spawn gained lost (subscriber.generation + 1)] }

def perform
    (subscriber : ConsumerGroupSubscriber)
    (generation : U64)
    (fetched : Offsets) : TaskAction → ConsumerGroupSubscriber
  | .commit partition =>
    let offsets := subscriber.positions partition
    if offsets.entries = [] then
      subscriber
    else
      { subscriber with
        commits :=
          subscriber.commits ++
            [(subscriber.config.keyPrefix ++ "/_offsets/" ++
                toString partition.val ++ "/" ++ subscriber.config.groupId,
              { groupId := subscriber.config.groupId
                memberId := subscriber.config.memberId
                partition := partition
                offsets := offsets
                generation := generation })] }
  | .load partition =>
    { subscriber with
      fetches := subscriber.fetches ++ [(partition, fetched)]
      positions :=
        Function.update subscriber.positions partition
          (fetched.entries.foldl
            (fun offsets entry => offsets.insert entry.1 entry.2)
            (subscriber.positions partition)) }
  | .assign gained lost =>
    { subscriber with
      assignedPartitions :=
        gained.foldl
          (fun assigned partition =>
            if partition ∈ assigned then assigned
            else assigned ++ [partition])
          (subscriber.assignedPartitions.filter (· ∉ lost)) }

/-- Take one step; advancing a task that is done changes nothing. -/
def step (subscriber : ConsumerGroupSubscriber) :
    GroupStep → ConsumerGroupSubscriber
  | .liveliness key isPut =>
    let (manager, fired) :=
      subscriber.manager.onLiveliness hrwScore key isPut
    let updated := { subscriber with manager := manager }
    match fired with
    | none => updated
    | some (gained, lost) => updated.onRebalance gained lost
  | .advance index fetched =>
    match subscriber.tasks[index]? with
    | none => subscriber
    | some task =>
      match task.actions with
      | [] => subscriber
      | action :: rest =>
        { subscriber with
          tasks :=
            subscriber.tasks.set index { task with actions := rest }
          }.perform task.generation fetched action

def run (subscriber : ConsumerGroupSubscriber) (steps : List GroupStep) :
    ConsumerGroupSubscriber :=
  steps.foldl (step hrwScore) subscriber

end Member

def finished (subscriber : ConsumerGroupSubscriber) : Bool :=
  subscriber.tasks.all fun task => task.actions = []

def receives (subscriber : ConsumerGroupSubscriber) (key : String) : Bool :=
  subscriber.subscriptions.any fun expr => keyExprMatches expr key

/-- What stays as it was at construction, whatever happens later. -/
structure Continues (start now : ConsumerGroupSubscriber) : Prop where
  config : now.config = start.config
  subscriptions : now.subscriptions = start.subscriptions
  detector : now.detector = start.detector
  workerId : now.manager.workerId = start.manager.workerId
  numPartitions : now.manager.numPartitions = start.manager.numPartitions
  livelinessPrefix :
    now.manager.livelinessPrefix = start.manager.livelinessPrefix

theorem Continues.refl (subscriber : ConsumerGroupSubscriber) :
    Continues subscriber subscriber :=
  ⟨rfl, rfl, rfl, rfl, rfl, rfl⟩

theorem Continues.trans
    {start middle now : ConsumerGroupSubscriber}
    (earlier : Continues start middle)
    (later : Continues middle now) :
    Continues start now where
  config := later.config.trans earlier.config
  subscriptions := later.subscriptions.trans earlier.subscriptions
  detector := later.detector.trans earlier.detector
  workerId := later.workerId.trans earlier.workerId
  numPartitions := later.numPartitions.trans earlier.numPartitions
  livelinessPrefix := later.livelinessPrefix.trans earlier.livelinessPrefix

/-- A task's action touches neither the subscribers nor the manager. -/
theorem continues_perform
    (subscriber : ConsumerGroupSubscriber)
    (generation : U64)
    (fetched : Offsets)
    (action : TaskAction) :
    Continues subscriber (subscriber.perform generation fetched action) ∧
      (subscriber.perform generation fetched action).manager =
        subscriber.manager := by
  cases action with
  | commit partition =>
    simp only [perform]
    split
    · exact ⟨Continues.refl _, rfl⟩
    · exact ⟨⟨rfl, rfl, rfl, rfl, rfl, rfl⟩, rfl⟩
  | load partition =>
    exact ⟨⟨rfl, rfl, rfl, rfl, rfl, rfl⟩, rfl⟩
  | assign gained lost =>
    exact ⟨⟨rfl, rfl, rfl, rfl, rfl, rfl⟩, rfl⟩

section Run

variable (hrwScore : HrwScore)

theorem step_advance
    (subscriber : ConsumerGroupSubscriber)
    (index : Nat)
    (fetched : Offsets) :
    Continues subscriber
        (subscriber.step hrwScore (.advance index fetched)) ∧
      (subscriber.step hrwScore (.advance index fetched)).manager =
        subscriber.manager := by
  simp only [step]
  split
  · exact ⟨Continues.refl _, rfl⟩
  · split
    · exact ⟨Continues.refl _, rfl⟩
    · obtain ⟨continues, sameManager⟩ := continues_perform _ _ fetched _
      exact ⟨⟨continues.config, continues.subscriptions, continues.detector,
        continues.workerId, continues.numPartitions,
        continues.livelinessPrefix⟩, sameManager⟩

theorem step_liveliness
    (subscriber : ConsumerGroupSubscriber)
    (key : String)
    (isPut : Bool) :
    (subscriber.step hrwScore (.liveliness key isPut)).manager =
        (subscriber.manager.onLiveliness hrwScore key isPut).1 ∧
      (subscriber.step hrwScore (.liveliness key isPut)).config =
        subscriber.config ∧
      (subscriber.step hrwScore (.liveliness key isPut)).subscriptions =
        subscriber.subscriptions ∧
      (subscriber.step hrwScore (.liveliness key isPut)).detector =
        subscriber.detector := by
  simp only [step]
  split
  · exact ⟨rfl, rfl, rfl, rfl⟩
  · exact ⟨rfl, rfl, rfl, rfl⟩

end Run

/-! ## Coverage -/

section Coverage

variable
    (hrwScore : HrwScore)
    (config : ConsumerGroupConfig)
    (numPartitions : U32)
    (found : List String)
    (offsets : U32 → Offsets)
    (steps : List GroupStep)

end Coverage

end ConsumerGroupSubscriber

end Mitiflow
