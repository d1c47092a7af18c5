import Mitiflow.ConsumerGroup
import Mitiflow.OffsetHistory

namespace Mitiflow

open Library

/-!
# Generations of the members of a group

Every member counts its own generation: it starts with one and goes up with
each change of the member's own partitions.  The store compares generations of
different members as if they came from one counter.

A history of joins and leaves is processed by all members.  A member that left
may still run; it then sees its own token disappear and loses its partitions.
-/

/-- A change of the membership of a group. -/
inductive MembershipChange where
  /-- A member starts, and the stores answer its fetches as given. -/
  | join (member : String) (fetched : U32 → Offsets)
  | leave (member : String)

/-- What the members of a group share. -/
structure GroupSettings where
  keyPrefix : String
  groupId : String
  numPartitions : U32
  deriving Repr, DecidableEq

namespace GroupSettings

def config (settings : GroupSettings) (member : String) :
    ConsumerGroupConfig where
  keyPrefix := settings.keyPrefix
  groupId := settings.groupId
  memberId := member

def tokenKey (settings : GroupSettings) (member : String) : String :=
  settings.keyPrefix ++ "/_workers/" ++ settings.groupId ++ "/" ++ member

end GroupSettings

/-- The liveliness tokens after a change. -/
def MembershipChange.tokens (tokens : List String) :
    MembershipChange → List String
  | .join member _ =>
    if member ∈ tokens then tokens else tokens ++ [member]
  | .leave member => tokens.filter (· ≠ member)

/-- One member along a history. -/
structure MemberView where
  /-- The members whose tokens are present. -/
  tokens : List String := []
  /-- The member's running process, once it has started. -/
  subscriber : Option ConsumerGroupSubscriber := none
  /-- How often the process saw its partitions change. -/
  rebalanced : Nat := 0

section History

variable (hrwScore : HrwScore) (settings : GroupSettings)

def MembershipChange.sample : MembershipChange → GroupStep
  | .join member _ => .liveliness (settings.tokenKey member) true
  | .leave member => .liveliness (settings.tokenKey member) false

namespace MemberView

/-- A running process observes a change. -/
def observe (view : MemberView) (change : MembershipChange) : MemberView where
  tokens := change.tokens view.tokens
  subscriber :=
    view.subscriber.map fun subscriber =>
      subscriber.step hrwScore (change.sample settings)
  rebalanced :=
    match view.subscriber with
    | none => view.rebalanced
    | some subscriber =>
      if (subscriber.step hrwScore
            (change.sample settings)).manager.myPartitions =
          subscriber.manager.myPartitions then
        view.rebalanced
      else
        view.rebalanced + 1

/-- A process starts and discovers the tokens present. -/
def start
    (view : MemberView)
    (member : String)
    (fetched : U32 → Offsets) : MemberView where
  tokens := (MembershipChange.join member fetched).tokens view.tokens
  subscriber :=
    some (ConsumerGroupSubscriber.new hrwScore (settings.config member)
      settings.numPartitions (view.tokens.map settings.tokenKey) fetched)
  rebalanced := 0

/-- A change reaches a member; its own join starts a new process. -/
def process
    (member : String)
    (view : MemberView) : MembershipChange → MemberView
  | .join joining fetched =>
    if joining = member then
      view.start hrwScore settings member fetched
    else
      view.observe hrwScore settings (.join joining fetched)
  | .leave leaving => view.observe hrwScore settings (.leave leaving)

end MemberView

def viewAfter (history : List MembershipChange) (member : String) :
    MemberView :=
  history.foldl (MemberView.process hrwScore settings member) {}

def memberAfter (history : List MembershipChange) (member : String) :
    Option ConsumerGroupSubscriber :=
  (viewAfter hrwScore settings history member).subscriber

end History

/-! ## Generations count rebalances -/

theorem PartitionManager.rebalance_fires_iff
    (hrwScore : HrwScore)
    (manager : PartitionManager) :
    (manager.rebalance hrwScore).2 = none ↔
      (manager.rebalance hrwScore).1.myPartitions = manager.myPartitions := by
  simp only [rebalance]
  split
  · exact iff_of_true rfl rfl
  · rename_i changed
    refine iff_of_false (fun isNone => by cases isNone) fun same => changed ?_
    simp only at same
    simp [same]

theorem PartitionManager.onLiveliness_fires_iff
    (hrwScore : HrwScore)
    (manager : PartitionManager)
    (key : String)
    (isPut : Bool) :
    (manager.onLiveliness hrwScore key isPut).2 = none ↔
      (manager.onLiveliness hrwScore key isPut).1.myPartitions =
        manager.myPartitions := by
  simp only [onLiveliness]
  split
  · exact iff_of_true rfl rfl
  · exact rebalance_fires_iff hrwScore _

/-- The generation goes up exactly when the partitions change. -/
theorem ConsumerGroupSubscriber.generation_step_liveliness
    (hrwScore : HrwScore)
    (subscriber : ConsumerGroupSubscriber)
    (key : String)
    (isPut : Bool) :
    (subscriber.step hrwScore (.liveliness key isPut)).generation =
      if (subscriber.step hrwScore
            (.liveliness key isPut)).manager.myPartitions =
          subscriber.manager.myPartitions then
        subscriber.generation
      else
        subscriber.generation + 1 := by
  have fires := subscriber.manager.onLiveliness_fires_iff hrwScore key isPut
  rw [(step_liveliness hrwScore subscriber key isPut).1]
  simp only [step]
  cases fired : (subscriber.manager.onLiveliness hrwScore key isPut).2 with
  | none =>
    rw [if_pos (fires.mp fired)]
  | some changes =>
    rw [if_neg fun same => by rw [fires.mpr same] at fired; cases fired]
    rfl

section Generations

variable {hrwScore : HrwScore} {settings : GroupSettings} {member : String}

variable (settings member) in
/-- A process of the member has the generation of the rebalances it saw. -/
def MemberView.Counts (view : MemberView) : Prop :=
  ∀ subscriber ∈ view.subscriber,
    subscriber.config = settings.config member ∧
      subscriber.generation.val = (1 + view.rebalanced) % 2 ^ 64

theorem MemberView.Counts.observe
    {view : MemberView}
    (counts : view.Counts settings member)
    (change : MembershipChange) :
    (view.observe hrwScore settings change).Counts settings member := by
  intro after isAfter
  obtain ⟨subscriber, isSubscriber, stepped⟩ :=
    Option.map_eq_some_iff.mp isAfter
  obtain ⟨sameConfig, before⟩ := counts subscriber isSubscriber
  obtain ⟨key, isPut, isSample⟩ :
      ∃ key isPut, change.sample settings = .liveliness key isPut := by
    cases change with
    | join joining fetched =>
      exact ⟨_, _, rfl⟩
    | leave leaving =>
      exact ⟨_, _, rfl⟩
  rw [isSample] at stepped
  rw [← stepped]
  refine ⟨(subscriber.step_liveliness hrwScore key isPut).2.1.trans
    sameConfig, ?_⟩
  simp only [MemberView.observe, isSubscriber, isSample,
    ConsumerGroupSubscriber.generation_step_liveliness]
  split
  · exact before
  · have one : (1 : U64).val = 1 := rfl
    rw [Fin.val_add, before, one, Nat.mod_add_mod, Nat.add_assoc]

theorem MemberView.counts_start
    (view : MemberView)
    (fetched : U32 → Offsets) :
    (view.start hrwScore settings member fetched).Counts settings member := by
  intro after isAfter
  cases isAfter
  exact ⟨rfl, rfl⟩

/-- Every process has the generation of the rebalances it saw. -/
theorem counts_viewAfter
    (history : List MembershipChange) :
    (viewAfter hrwScore settings history member).Counts settings member := by
  refine List.foldlRecOn history _
    (motive := MemberView.Counts settings member) ?_ ?_
  · intro subscriber isSubscriber
    cases isSubscriber
  · intro view counts change _
    cases change with
    | join joining fetched =>
      simp only [MemberView.process]
      split
      · exact view.counts_start fetched
      · exact counts.observe _
    | leave leaving =>
      exact counts.observe _

/-! ## Who is fenced -/

variable (hrwScore settings)

/--
The last change of a history moves a partition from one member to another, and
both have processed it.
-/
structure Reassigned
    (history : List MembershipChange)
    (change : MembershipChange)
    (loser gainer : String)
    (partition : U32) : Prop where
  distinct : loser ≠ gainer
  owned :
    ∃ before ∈ memberAfter hrwScore settings history loser,
      partition ∈ before.manager.myPartitions
  lost :
    ∃ after ∈ memberAfter hrwScore settings (history ++ [change]) loser,
      partition ∉ after.manager.myPartitions
  gained :
    ∃ after ∈ memberAfter hrwScore settings (history ++ [change]) gainer,
      partition ∈ after.manager.myPartitions

/-- A commit a member can send after a history, whatever its positions. -/
def CommitsAfter
    (history : List MembershipChange)
    (member : String)
    (commit : GroupCommit) : Prop :=
  ∃ subscriber ∈ memberAfter hrwScore settings history member,
    commit.groupId = subscriber.config.groupId ∧
      commit.generation = subscriber.generation

/-- A commit a member may have sent at some point of a history. -/
def CommitsDuring
    (history : List MembershipChange)
    (member : String)
    (commit : GroupCommit) : Prop :=
  ∃ earlier, earlier <+: history ∧
    CommitsAfter hrwScore settings earlier member commit

variable {hrwScore settings}

/-- The generations a member commits with, by the rebalances it saw. -/
theorem CommitsAfter.spec
    {history : List MembershipChange}
    {commit : GroupCommit}
    (commits : CommitsAfter hrwScore settings history member commit) :
    commit.groupId = settings.groupId ∧
      commit.generation.val =
        (1 + (viewAfter hrwScore settings history member).rebalanced) %
          2 ^ 64 := by
  obtain ⟨subscriber, isMember, sameGroup, sameGeneration⟩ := commits
  obtain ⟨isConfig, isGeneration⟩ :=
    counts_viewAfter history subscriber isMember
  rw [sameGroup, sameGeneration, isConfig]
  exact ⟨rfl, isGeneration⟩

/--
The member that just gained a partition has its commits accepted, whatever the
member that lost it committed, exactly if the losing member never had seen
more rebalances than the gaining member now has.
-/
theorem gainer_accepted_iff
    {history : List MembershipChange}
    {change : MembershipChange}
    {loser gainer : String}
    {partition : U32}
    (reassigned :
      Reassigned hrwScore settings history change loser gainer partition) :
    (∀ attempts : List CommitAttempt,
        (∀ attempt ∈ attempts,
          CommitsDuring hrwScore settings (history ++ [change]) loser
            attempt.1) →
        ∀ commit,
          CommitsAfter hrwScore settings (history ++ [change]) gainer commit →
          acceptedAfter attempts (commit, {}) = true) ↔
      ∀ earlier,
        earlier <+: history ++ [change] →
        (memberAfter hrwScore settings earlier loser).isSome = true →
        (1 + (viewAfter hrwScore settings earlier loser).rebalanced) %
            2 ^ 64 ≤
          (1 + (viewAfter hrwScore settings (history ++ [change])
            gainer).rebalanced) % 2 ^ 64 := by
  constructor
  · intro accepted earlier isEarlier hasStarted
    obtain ⟨before, isBefore⟩ := Option.isSome_iff_exists.mp hasStarted
    obtain ⟨after, isAfter, _⟩ := reassigned.gained
    -- Both commit for the same publisher, the loser first.
    have late :
        CommitsAfter hrwScore settings earlier loser
          (singleCommit before.config.groupId 0 0 before.generation) :=
      ⟨before, isBefore, rfl, rfl⟩
    have current :
        CommitsAfter hrwScore settings (history ++ [change]) gainer
          (singleCommit after.config.groupId 0 0 after.generation) :=
      ⟨after, isAfter, rfl, rfl⟩
    have verdict :=
      accepted [(singleCommit before.config.groupId 0 0 before.generation, {})]
        (by
          intro attempt member
          rw [List.mem_singleton.mp member]
          exact ⟨earlier, isEarlier, late⟩)
        _ current
    rw [acceptedAfter_eq, Registers.acceptsAfter_iff] at verdict
    have ordered := verdict.2 [] _ [] rfl ?_ ?_
    · rw [← late.spec.2, ← current.spec.2]
      exact ordered
    · rw [Registers.acceptsAfter_iff]
      refine ⟨rfl, ?_⟩
      intro shorter older rest shape
      simp at shape
    · rw [shares_attemptWrite_iff
        (congrArg xxhashGroup (late.spec.1.trans current.spec.1.symm))]
      exact ⟨0, rfl, rfl⟩
  · intro ordered attempts areLoser commit isGainer
    rw [acceptedAfter_eq, Registers.acceptsAfter_iff]
    constructor
    · simp [attemptWrite, GroupCommit.write, Except.isOk, Except.toBool]
    · intro before older after shape _ _
      obtain ⟨earlier, isEarlier, commits⟩ :=
        areLoser older (by rw [shape]; simp)
      have hasStarted :
          (memberAfter hrwScore settings earlier loser).isSome = true := by
        obtain ⟨subscriber, isMember, _⟩ := commits
        exact Option.isSome_iff_exists.mpr ⟨subscriber, isMember⟩
      have bound := ordered earlier isEarlier hasStarted
      rw [← commits.spec.2, ← isGainer.spec.2] at bound
      exact bound

end Generations

/-- A group on a topic with one partition. -/
def onePartition : GroupSettings := ⟨"events", "g", 1⟩

/-- One worker is preferred for every partition. -/
def preferring (preferred : String) : HrwScore :=
  fun worker _ => if worker = preferred then 1 else 0

/--
A member that was there all along takes back the partition of a member that
joined and left.
-/
theorem gainer_accepted_afterLeave :
    let history : List MembershipChange :=
      [.join "b" fun _ => .empty, .join "a" fun _ => .empty]
    Reassigned (preferring "a") onePartition history (.leave "a") "a" "b" 0 ∧
      ∀ attempts : List CommitAttempt,
        (∀ attempt ∈ attempts,
          CommitsDuring (preferring "a") onePartition
            (history ++ [.leave "a"]) "a" attempt.1) →
        ∀ commit,
          CommitsAfter (preferring "a") onePartition
            (history ++ [.leave "a"]) "b" commit →
          acceptedAfter attempts (commit, {}) = true := by
  intro history
  have reassigned :
      Reassigned (preferring "a") onePartition history (.leave "a") "a" "b"
        0 :=
    ⟨by decide, ⟨_, rfl, by decide⟩, ⟨_, rfl, by decide⟩, ⟨_, rfl, by decide⟩⟩
  have ordered :
      ∀ earlier ∈ (history ++ [MembershipChange.leave "a"]).inits,
        (1 + (viewAfter (preferring "a") onePartition earlier
            "a").rebalanced) % 2 ^ 64 ≤
          (1 + (viewAfter (preferring "a") onePartition
            (history ++ [.leave "a"]) "b").rebalanced) % 2 ^ 64 := by
    decide
  refine ⟨reassigned, (gainer_accepted_iff reassigned).mpr ?_⟩
  intro earlier isEarlier _
  exact ordered earlier ((List.mem_inits _ _).mpr isEarlier)

/--
A member joins and gets the partition.  The member that lost it is one
generation ahead, and its last commit fences the new owner.
-/
theorem gainer_fenced_afterJoin :
    let history : List MembershipChange := [.join "a" fun _ => .empty]
    let change : MembershipChange := .join "b" fun _ => .empty
    let late := singleCommit "g" 7 5 2
    let current := singleCommit "g" 7 6 1
    Reassigned (preferring "b") onePartition history change "a" "b" 0 ∧
      CommitsDuring (preferring "b") onePartition (history ++ [change]) "a"
        late ∧
      CommitsAfter (preferring "b") onePartition (history ++ [change]) "b"
        current ∧
      acceptedAfter [(late, {})] (current, {}) = false := by
  intro history change late current
  refine ⟨⟨by decide, ⟨_, rfl, by decide⟩, ⟨_, rfl, by decide⟩,
    ⟨_, rfl, by decide⟩⟩, ?_, ?_, by decide⟩
  · exact ⟨history ++ [change], List.prefix_refl _, _, rfl, rfl, rfl⟩
  · exact ⟨_, rfl, rfl, rfl⟩

end Mitiflow
