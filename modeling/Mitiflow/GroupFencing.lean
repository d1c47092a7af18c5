import Mitiflow.ConsumerGroupDelivery
import Mitiflow.GroupGenerations

namespace Mitiflow

open Library Function

/-!
# Late commits of a group

The members of a group run on their own and send commits, which reach the
stores in any order and at any time.  Each member processes joins and leaves
when it sees them, so a member may commit for a partition that already belongs
to another one.  The store fences a late commit only by its generation, and
only where a newer record for one of its publishers exists.
-/

def OffsetCommit.received
    (commit : OffsetCommit)
    (timestamp : DateTime) : GroupCommit where
  groupId := commit.groupId
  offsets := commit.offsets.mapValues (Fin.ofNat (2 ^ 64))
  generation := commit.generation
  timestamp := timestamp

/-- A commit that reached a store, with the engine's answers. -/
structure Delivery where
  commit : OffsetCommit
  timestamp : DateTime
  answers : EngineAnswers

/-- What the store is asked to do for a delivery. -/
def Delivery.attempt (delivery : Delivery) : CommitAttempt :=
  (delivery.commit.received delivery.timestamp, delivery.answers)

/-- The members of a group, the commits under way, and the stores. -/
structure CommitSystem where
  members : String → Option GroupRuntime := fun _ => none
  inFlight : List OffsetCommit := []
  /-- The offsets keyspace of each partition's store. -/
  stores : U32 → OffsetKeyspace := fun _ => .empty
  /-- What each store has received, oldest first. -/
  delivered : U32 → List Delivery := fun _ => []

/-- A step of the system. -/
inductive SystemStep where
  /-- A member starts, with the tokens it found and the offsets it fetched. -/
  | start (member : String) (found : List String) (fetched : U32 → Offsets)
  | act (member : String) (step : RuntimeStep)
  | deliver (index : Nat) (timestamp : DateTime) (answers : EngineAnswers)
  /-- A commit under way is lost. -/
  | lose (index : Nat)

namespace CommitSystem

section Step

variable (hrwScore : HrwScore) (display : PublisherId → String)
  (recovery : RecoveryConfig) (settings : GroupSettings)

/-- A member starts, in place of any older process of that name. -/
def onStart
    (system : CommitSystem)
    (member : String)
    (found : List String)
    (fetched : U32 → Offsets) : CommitSystem :=
  { system with
    members :=
      update system.members member
        (some (GroupRuntime.new hrwScore (settings.config member)
          settings.numPartitions found fetched)) }

/-- A member takes a step; what it commits is then under way. -/
def onAct
    (system : CommitSystem)
    (member : String)
    (runtimeStep : RuntimeStep) : CommitSystem :=
  match system.members member with
  | none => system
  | some runtime =>
    let next := runtime.step hrwScore display recovery runtimeStep
    { system with
      members := update system.members member (some next)
      inFlight :=
        system.inFlight ++ GroupRuntime.commitsBetween runtime next }

/-- A commit reaches the store of its partition. -/
def receive (system : CommitSystem) (delivery : Delivery) : CommitSystem :=
  let partition := delivery.commit.partition
  { system with
    stores :=
      update system.stores partition
        (commitOffsets (system.stores partition) delivery.attempt.1
          delivery.attempt.2).1
    delivered :=
      update system.delivered partition
        (system.delivered partition ++ [delivery]) }

def step (system : CommitSystem) : SystemStep → CommitSystem
  | .start member found fetched =>
    system.onStart hrwScore settings member found fetched
  | .act member runtimeStep =>
    system.onAct hrwScore display recovery member runtimeStep
  | .deliver index timestamp answers =>
    match system.inFlight[index]? with
    | none => system
    | some commit =>
      { system.receive ⟨commit, timestamp, answers⟩ with
        inFlight := system.inFlight.eraseIdx index }
  | .lose index =>
    { system with inFlight := system.inFlight.eraseIdx index }

def run (steps : List SystemStep) : CommitSystem :=
  steps.foldl (step hrwScore display recovery settings) {}

end Step

/-! ## What a delivery changes -/

/-- The stores hold what their deliveries lead to. -/
def Consistent (system : CommitSystem) : Prop :=
  ∀ partition,
    system.stores partition =
      afterCommits ((system.delivered partition).map Delivery.attempt)

theorem afterCommits_snoc
    (commits : List CommitAttempt)
    (attempt : CommitAttempt) :
    afterCommits (commits ++ [attempt]) =
      (commitOffsets (afterCommits commits) attempt.1 attempt.2).1 := by
  rw [afterCommits, List.map_append, List.map_singleton, afterOffsetCalls_snoc]
  rfl

theorem Consistent.receive
    {system : CommitSystem}
    (consistent : system.Consistent)
    (delivery : Delivery) :
    (system.receive delivery).Consistent := by
  intro partition
  by_cases isPartition : partition = delivery.commit.partition
  · subst isPartition
    simp only [CommitSystem.receive, update_self, List.map_append,
      List.map_singleton, afterCommits_snoc]
    rw [consistent delivery.commit.partition]
  · simp only [CommitSystem.receive, update_of_ne isPartition]
    exact consistent partition

section Run

variable {hrwScore : HrwScore} {display : PublisherId → String}
  {recovery : RecoveryConfig} {settings : GroupSettings}

theorem Consistent.step
    {system : CommitSystem}
    (consistent : system.Consistent)
    (systemStep : SystemStep) :
    (system.step hrwScore display recovery settings
      systemStep).Consistent := by
  cases systemStep with
  | start member found fetched =>
    exact consistent
  | act member runtimeStep =>
    simp only [CommitSystem.step, onAct]
    split
    · exact consistent
    · exact consistent
  | deliver index timestamp answers =>
    simp only [CommitSystem.step]
    split
    · exact consistent
    · exact consistent.receive _
  | lose index =>
    exact consistent

variable (hrwScore display recovery settings)

variable {hrwScore display recovery settings}

end Run

/-- The partitions a member of a system owns in its own view. -/
def ownedBy (system : CommitSystem) (member : String) : List U32 :=
  ((system.members member).map fun runtime =>
    runtime.member.manager.myPartitions).getD []

end CommitSystem

end Mitiflow
