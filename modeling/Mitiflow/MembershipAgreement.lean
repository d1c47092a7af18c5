import Mathlib.Data.Finset.Sort
import Mitiflow.PartitionManager

namespace Mitiflow

open List

/-!
# Agreement on the membership

Every member of a group runs its own membership watcher and sees its own
sequence of liveliness samples.  The list of known workers is kept sorted and
free of duplicates, so members that know the same set of workers hold the same
list and compute the same assignment.
-/

/-- A sample of the liveliness subscription. -/
structure LivelinessSample where
  key : String
  isPut : Bool
  deriving Repr, DecidableEq

/-- A manager and the changes of its partitions so far. -/
structure Membership where
  manager : PartitionManager
  changes : List (List U32 × List U32)
  deriving Repr, DecidableEq

/-- Apply what was gained and lost to a set of partitions. -/
def applyChange (partitions : Finset U32) (change : List U32 × List U32) :
    Finset U32 :=
  (partitions \ change.2.toFinset) ∪ change.1.toFinset

namespace Membership

variable (hrwScore : HrwScore)

/-- One turn of the watcher's loop. -/
def onSample (membership : Membership) (sample : LivelinessSample) :
    Membership :=
  let (manager, change) :=
    membership.manager.onLiveliness hrwScore sample.key sample.isPut
  ⟨manager, membership.changes ++ change.toList⟩

/-- The watcher's loop over the samples it received. -/
def membershipWatcher
    (membership : Membership)
    (samples : List LivelinessSample) : Membership :=
  samples.foldl (onSample hrwScore) membership

end Membership

namespace PartitionManager

variable {hrwScore : HrwScore}

/-- The sorted list without duplicates, and the assignment of that list. -/
structure Canonical
    (hrwScore : HrwScore)
    (manager : PartitionManager) : Prop where
  increasing : manager.workers.Pairwise (· < ·)
  assignment :
    manager.myPartitions =
      partitionsOf hrwScore manager.workerId manager.workers
        manager.numPartitions

variable {manager : PartitionManager}

theorem Canonical.assigned
    (canonical : manager.Canonical hrwScore) :
    manager.Assigned hrwScore := by
  intro partition
  rw [canonical.assignment, mem_partitionsOf]

theorem pairwise_lt_insertionSort
    {workers : List String}
    (distinct : workers.Nodup) :
    (workers.insertionSort (· ≤ ·)).Pairwise (· < ·) := by
  have ordered := pairwise_insertionSort (· ≤ ·) workers
  have stillDistinct : (workers.insertionSort (· ≤ ·)).Nodup :=
    (perm_insertionSort _ _).nodup_iff.mpr distinct
  exact (ordered.and stillDistinct).imp fun both => lt_of_le_of_ne both.1 both.2

/-- Replies of workers already listed are skipped. -/
theorem nodup_foldl_new
    (named known : List String)
    (distinct : known.Nodup) :
    (named.foldl
      (fun known worker =>
        if worker ∈ known then known else known ++ [worker])
      known).Nodup := by
  induction named generalizing known with
  | nil =>
    exact distinct
  | cons worker rest inductionHypothesis =>
    grind

theorem canonical_new
    (workerId : String)
    (numPartitions : U32)
    (livelinessPrefix : String)
    (found : List String) :
    (new hrwScore workerId numPartitions livelinessPrefix found).Canonical
      hrwScore where
  increasing :=
    pairwise_lt_insertionSort
      (nodup_foldl_new _ _ (nodup_singleton workerId))
  assignment := rfl

theorem pairwise_updateWorkers
    {workers : List String}
    (increasing : workers.Pairwise (· < ·))
    (livelinessPrefix key : String)
    (isPut : Bool) :
    (updateWorkers livelinessPrefix workers key isPut).Pairwise
      (· < ·) := by
  unfold updateWorkers
  split
  · exact increasing
  · rename_i worker _
    split
    · unfold joinWorker
      split
      · exact increasing
      · rename_i isNew
        have distinct : workers.Nodup := increasing.imp ne_of_lt
        exact pairwise_lt_insertionSort
          (distinct.append (nodup_singleton worker)
            (disjoint_singleton.mpr isNew))
    · exact increasing.filter _

/-- The stored partitions are replaced by an increasing list or kept. -/
theorem pairwise_rebalance
    (increasing : manager.myPartitions.Pairwise (· < ·)) :
    (manager.rebalance hrwScore).1.myPartitions.Pairwise (· < ·) := by
  simp only [rebalance]
  split
  · exact increasing
  · exact pairwise_partitionsOf _ _ _

theorem pairwise_onLiveliness
    (increasing : manager.myPartitions.Pairwise (· < ·))
    (key : String)
    (isPut : Bool) :
    (manager.onLiveliness hrwScore key isPut).1.myPartitions.Pairwise
      (· < ·) := by
  cases named : workerIdOf manager.livelinessPrefix key with
  | none =>
    simp only [onLiveliness, named]
    exact increasing
  | some worker =>
    simp only [onLiveliness, named]
    exact pairwise_rebalance increasing

theorem Canonical.onLiveliness
    (canonical : manager.Canonical hrwScore)
    (key : String)
    (isPut : Bool) :
    (manager.onLiveliness hrwScore key isPut).1.Canonical hrwScore := by
  obtain ⟨assigned, isWorkers, _⟩ :=
    onLiveliness_spec canonical.assigned key isPut
  have partitionsIncreasing : manager.myPartitions.Pairwise (· < ·) := by
    rw [canonical.assignment]
    exact pairwise_partitionsOf _ _ _
  refine ⟨?_, ?_⟩
  · rw [isWorkers]
    exact pairwise_updateWorkers canonical.increasing _ _ _
  · refine (pairwise_onLiveliness partitionsIncreasing key isPut).eq_of_mem_iff
      (pairwise_partitionsOf _ _ _) ?_
    intro partition
    rw [assigned partition, mem_partitionsOf]

/-- The change that a rebalance computes leads from the old partitions to the
new ones. -/
theorem foldl_rebalance (manager : PartitionManager) :
    (manager.rebalance hrwScore).2.toList.foldl applyChange
        manager.myPartitions.toFinset =
      (manager.rebalance hrwScore).1.myPartitions.toFinset := by
  simp only [rebalance]
  split
  · rfl
  · ext partition
    simp only [Option.toList_some, foldl_cons, foldl_nil,
      applyChange, Finset.mem_union, Finset.mem_sdiff, mem_toFinset,
      mem_filter, decide_eq_true_eq]
    tauto

theorem foldl_onLiveliness
    (manager : PartitionManager)
    (key : String)
    (isPut : Bool) :
    (manager.onLiveliness hrwScore key isPut).2.toList.foldl applyChange
        manager.myPartitions.toFinset =
      (manager.onLiveliness hrwScore key isPut).1.myPartitions.toFinset := by
  cases named : workerIdOf manager.livelinessPrefix key with
  | none =>
    simp only [onLiveliness, named]
    rfl
  | some worker =>
    simp only [onLiveliness, named]
    exact foldl_rebalance
      { manager with
        workers :=
          updateWorkers manager.livelinessPrefix manager.workers key isPut }

end PartitionManager

namespace Membership

variable {hrwScore : HrwScore}

/-- What holds of a member from its start on. -/
structure Follows
    (hrwScore : HrwScore)
    (start : PartitionManager)
    (membership : Membership) : Prop where
  canonical : membership.manager.Canonical hrwScore
  workerId : membership.manager.workerId = start.workerId
  numPartitions : membership.manager.numPartitions = start.numPartitions
  folded :
    membership.changes.foldl applyChange start.myPartitions.toFinset =
      membership.manager.myPartitions.toFinset

section

variable
  {start : PartitionManager}
  {membership : Membership}
  (follows : membership.Follows hrwScore start)

include follows

theorem Follows.onSample
    (sample : LivelinessSample) :
    (membership.onSample hrwScore sample).Follows hrwScore start := by
  obtain ⟨_, _, sameId, sameCount, _⟩ :=
    PartitionManager.onLiveliness_spec follows.canonical.assigned sample.key
      sample.isPut
  refine ⟨follows.canonical.onLiveliness _ _, ?_, ?_, ?_⟩
  · exact sameId.trans follows.workerId
  · exact sameCount.trans follows.numPartitions
  · simp only [Membership.onSample, foldl_append, follows.folded]
    exact PartitionManager.foldl_onLiveliness _ _ _

/-- Every sequence of samples keeps what holds of a member. -/
theorem Follows.membershipWatcher
    (samples : List LivelinessSample) :
    (membership.membershipWatcher hrwScore samples).Follows hrwScore
      start := by
  induction samples generalizing membership with
  | nil =>
    exact follows
  | cons sample rest inductionHypothesis =>
    exact inductionHypothesis (follows.onSample sample)

end

end Membership

section MembershipAgreement

variable (hrwScore : HrwScore)

/-- The members of a group: what each found at its start and then saw. -/
structure WorkerGroup where
  numPartitions : U32
  livelinessPrefix : String
  members : Set String
  found : String → List String
  samples : String → List LivelinessSample

namespace WorkerGroup

def initial (group : WorkerGroup) (member : String) : PartitionManager :=
  PartitionManager.new hrwScore member group.numPartitions
    group.livelinessPrefix (group.found member)

def after
    (group : WorkerGroup)
    (member : String)
    (seen : List LivelinessSample) : Membership :=
  Membership.membershipWatcher hrwScore ⟨group.initial hrwScore member, []⟩
    seen

def final (group : WorkerGroup) (member : String) : PartitionManager :=
  (group.after hrwScore member (group.samples member)).manager

variable {hrwScore}

theorem follows_after
    (group : WorkerGroup)
    (member : String)
    (seen : List LivelinessSample) :
    (group.after hrwScore member seen).Follows hrwScore
      (group.initial hrwScore member) := by
  have atStart :
      (⟨group.initial hrwScore member, []⟩ : Membership).Follows hrwScore
        (group.initial hrwScore member) :=
    ⟨PartitionManager.canonical_new _ _ _ _, rfl, rfl, rfl⟩
  exact atStart.membershipWatcher seen

section

variable
  {group : WorkerGroup}
  {member : String}
  {agreed : Finset String}
  (sameWorkers :
    ∀ worker,
      worker ∈ (group.final hrwScore member).workers ↔ worker ∈ agreed)

include sameWorkers

/-- Members that know the same workers know the same list. -/
theorem workers_final :
    (group.final hrwScore member).workers = agreed.sort (· ≤ ·) := by
  have follows := @follows_after hrwScore group member (group.samples member)
  refine follows.canonical.increasing.eq_of_mem_iff
    agreed.sortedLT_sort.pairwise ?_
  intro worker
  rw [Finset.mem_sort]
  exact sameWorkers worker

/-- A member has the partitions that the agreed workers' scores give it. -/
theorem mem_myPartitions_final
    (partition : U32) :
    partition ∈ (group.final hrwScore member).myPartitions ↔
      partition.val < group.numPartitions.val ∧
        workerFor hrwScore partition (agreed.sort (· ≤ ·)) =
          some member := by
  have follows := @follows_after hrwScore group member (group.samples member)
  have assigned := follows.canonical.assigned partition
  rw [follows.workerId, follows.numPartitions] at assigned
  rw [← workers_final sameWorkers]
  exact assigned

end

/-- Members that agree on the workers share the partitions out: no two have
one in common, and together they have those whose owner is a member, which are
all of them if every agreed worker is a member.  Before and after each sample a
member holds its list of the assignment, and the changes add up to it. -/
theorem membership_agreement
    (group : WorkerGroup)
    (agreed : Finset String)
    (agree :
      ∀ member ∈ group.members,
        member ∈ agreed ∧
          ∀ worker,
            worker ∈ (group.final hrwScore member).workers ↔
              worker ∈ agreed) :
    (∀ first ∈ group.members,
      ∀ second ∈ group.members,
        first ≠ second →
          List.Disjoint (group.final hrwScore first).myPartitions
            (group.final hrwScore second).myPartitions) ∧
      (∀ partition,
        (∃ member ∈ group.members,
            partition ∈ (group.final hrwScore member).myPartitions) ↔
          partition.val < group.numPartitions.val ∧
            ∃ owner ∈ group.members,
              workerFor hrwScore partition (agreed.sort (· ≤ ·)) =
                some owner) ∧
      (agreed.Nonempty →
        (∀ worker ∈ agreed, worker ∈ group.members) →
          ∀ partition,
            (∃ member ∈ group.members,
                partition ∈ (group.final hrwScore member).myPartitions) ↔
              partition.val < group.numPartitions.val) ∧
      ∀ member ∈ group.members,
        ∀ seen,
          seen <+: group.samples member →
            (group.after hrwScore member seen).manager.myPartitions =
                (assignments hrwScore
                  (group.after hrwScore member seen).manager.workers
                  group.numPartitions member).getD [] ∧
              (member ∉ (group.after hrwScore member seen).manager.workers →
                (group.after hrwScore member seen).manager.myPartitions =
                  []) ∧
              (group.after hrwScore member seen).changes.foldl applyChange
                  (group.initial hrwScore member).myPartitions.toFinset =
                List.toFinset
                  (group.after hrwScore member seen).manager.myPartitions := by
  have together :
      ∀ partition,
        (∃ member ∈ group.members,
            partition ∈ (group.final hrwScore member).myPartitions) ↔
          partition.val < group.numPartitions.val ∧
            ∃ owner ∈ group.members,
              workerFor hrwScore partition (agreed.sort (· ≤ ·)) =
                some owner := by
    intro partition
    constructor
    · rintro ⟨member, isMember, isOwned⟩
      obtain ⟨below, chosen⟩ :=
        (mem_myPartitions_final (agree member isMember).2 partition).mp isOwned
      exact ⟨below, member, isMember, chosen⟩
    · rintro ⟨below, owner, isMember, chosen⟩
      exact ⟨owner, isMember,
        (mem_myPartitions_final (agree owner isMember).2 partition).mpr
          ⟨below, chosen⟩⟩
  refine ⟨?_, together, ?_, ?_⟩
  · intro first isFirst second isSecond different partition inFirst inSecond
    have chosenFirst :=
      ((mem_myPartitions_final (agree first isFirst).2 partition).mp inFirst).2
    have chosenSecond :=
      ((mem_myPartitions_final (agree second isSecond).2 partition).mp
        inSecond).2
    exact different (Option.some.inj (chosenFirst.symm.trans chosenSecond))
  · intro nonempty allMembers partition
    rw [together partition, and_iff_left_iff_imp]
    intro _
    have sortNonempty : agreed.sort (· ≤ ·) ≠ [] := by
      obtain ⟨worker, isAgreed⟩ := nonempty
      exact ne_nil_of_mem ((Finset.mem_sort _).mpr isAgreed)
    obtain ⟨owner, chosen⟩ :=
      @exists_workerFor hrwScore partition _ sortNonempty
    have isAgreed : owner ∈ agreed :=
      (Finset.mem_sort _).mp (mem_of_workerFor chosen)
    exact ⟨owner, allMembers owner isAgreed, chosen⟩
  · intro member _ seen _
    have follows := @follows_after hrwScore group member seen
    have assignment := follows.canonical.assignment
    rw [follows.workerId, follows.numPartitions] at assignment
    refine ⟨assignment, ?_, follows.folded⟩
    intro unknown
    have noEntry :
        assignments hrwScore
            (group.after hrwScore member seen).manager.workers
            group.numPartitions member =
          none := by
      rw [assignments_eq, if_neg unknown]
    exact assignment.trans (congrArg (fun entry => entry.getD []) noEntry)

end WorkerGroup

/-- Two members, each of which saw the other join, one of them twice. -/
def twoMembers : WorkerGroup where
  numPartitions := 2
  livelinessPrefix := "w"
  members := {"a", "b"}
  found := fun member => if member = "b" then ["w/a"] else []
  samples := fun member =>
    if member = "a" then
      [⟨"w/b", true⟩, ⟨"w/c", true⟩, ⟨"w/b", true⟩, ⟨"w/c", false⟩]
    else
      []

theorem membership_agreement_twoMembers :
    ∃ member ∈ twoMembers.members,
      (1 : U32) ∈
        (twoMembers.final (fun _ _ => 0) member).myPartitions := by
  have knownByAll :
      ∀ member ∈ ["a", "b"],
        (twoMembers.final (fun _ _ => 0) member).workers = ["a", "b"] := by
    decide
  refine ((WorkerGroup.membership_agreement twoMembers {"a", "b"}
    ?_).2.2.1 (by simp) ?_ 1).mpr (by decide)
  · intro member isMember
    have isListed : member ∈ ["a", "b"] := by
      simpa [twoMembers] using isMember
    refine ⟨by simpa using isListed, fun worker => ?_⟩
    rw [knownByAll member isListed]
    simp
  · intro worker isAgreed
    simpa [twoMembers] using isAgreed

/-- A member knows of a worker that is not among the members.  What that
worker owns is missing. -/
def oneOfTwo : WorkerGroup where
  numPartitions := 1
  livelinessPrefix := "w"
  members := {"a"}
  found := fun _ => []
  samples := fun _ => [⟨"w/b", true⟩]

theorem oneOfTwo_not_covered :
    (∀ member ∈ oneOfTwo.members,
      member ∈ ["a", "b"] ∧
        (oneOfTwo.final (fun _ _ => 0) member).workers = ["a", "b"]) ∧
      (0 : U32).val < oneOfTwo.numPartitions.val ∧
      ¬ ∃ member ∈ oneOfTwo.members,
        (0 : U32) ∈
          (oneOfTwo.final (fun _ _ => 0) member).myPartitions := by
  have onlyMember : ∀ member ∈ oneOfTwo.members, member = "a" :=
    fun _ isMember => isMember
  refine ⟨?_, by decide, ?_⟩
  · intro member isMember
    rw [onlyMember member isMember]
    decide
  · rintro ⟨member, isMember, isOwned⟩
    rw [onlyMember member isMember] at isOwned
    revert isOwned
    decide

end MembershipAgreement

end Mitiflow
