import Mitiflow.Library.LastMaximum
import Mitiflow.Types

namespace Mitiflow

open Library List Function

/-!
# Rendezvous hashing

Every worker is scored against a partition and the best one owns it.  The
score comes from the standard library's hasher and is a parameter here.
-/

/-- The score of a worker for a partition. -/
abbrev HrwScore := String → U32 → U64

section HashRing

variable (hrwScore : HrwScore)

/-- The worker with the highest score; the last of several wins. -/
def workerFor (partition : U32) (workers : List String) : Option String :=
  workers.foldl
    (fun best worker =>
      match best with
      | none => some worker
      | some leader =>
        if hrwScore leader partition ≤ hrwScore worker partition then
          some worker
        else
          some leader)
    none

/-- The partitions `0..num_partitions`. -/
def allPartitions (numPartitions : U32) : List U32 :=
  (List.range numPartitions.val).map (Fin.ofNat (2 ^ 32))

def giveToWorker
    (workers : List String)
    (map : String → Option (List U32))
    (partition : U32) : String → Option (List U32) :=
  match workerFor hrwScore partition workers with
  | none => map
  | some worker =>
    update map worker
      ((map worker).map fun partitions => partitions ++ [partition])

/-- The partitions of every worker, each list sorted. -/
def assignments (workers : List String) (numPartitions : U32) :
    String → Option (List U32) :=
  let assigned :=
    (allPartitions numPartitions).foldl (giveToWorker hrwScore workers)
      (fun worker => if worker ∈ workers then some [] else none)
  fun worker => (assigned worker).map (List.insertionSort (· ≤ ·))

/-- The partitions of one worker, none if it is unknown. -/
def partitionsOf
    (worker : String)
    (workers : List String)
    (numPartitions : U32) : List U32 :=
  (assignments hrwScore workers numPartitions worker).getD []

variable {hrwScore}

theorem workerFor_eq (partition : U32) (workers : List String) :
    workerFor hrwScore partition workers =
      lastMaximum (fun worker => hrwScore worker partition) workers := by
  unfold workerFor lastMaximum
  congr 1
  funext best worker
  cases best with
  | none =>
    rfl
  | some leader =>
    rw [laterOfBest_some]

variable {worker : String}

theorem mem_of_workerFor
    {partition : U32}
    {workers : List String}
    (chosen : workerFor hrwScore partition workers = some worker) :
    worker ∈ workers := by
  rw [workerFor_eq] at chosen
  exact mem_of_lastMaximum chosen

theorem exists_workerFor
    (partition : U32)
    {workers : List String}
    (nonempty : workers ≠ []) :
    ∃ owner, workerFor hrwScore partition workers = some owner := by
  rw [workerFor_eq]
  exact exists_lastMaximum nonempty

theorem mem_allPartitions {numPartitions partition : U32} :
    partition ∈ allPartitions numPartitions ↔
      partition.val < numPartitions.val := by
  simp only [allPartitions, mem_map, mem_range]
  constructor
  · rintro ⟨number, below, isPartition⟩
    rw [← isPartition]
    exact lt_of_le_of_lt (Nat.mod_le _ _) below
  · intro below
    exact ⟨partition.val, below, Fin.ext (Nat.mod_eq_of_lt partition.isLt)⟩

theorem giveToWorker_apply
    (workers : List String)
    (map : String → Option (List U32))
    (partition : U32)
    (worker : String) :
    giveToWorker hrwScore workers map partition worker =
      if workerFor hrwScore partition workers = some worker then
        (map worker).map fun partitions => partitions ++ [partition]
      else
        map worker := by
  unfold giveToWorker
  cases chosen : workerFor hrwScore partition workers with
  | none =>
    simp
  | some owner =>
    by_cases isOwner : owner = worker
    · subst isOwner
      simp
    · simp [isOwner, update_of_ne (Ne.symm isOwner)]

/-- Every listed worker collects the partitions it is chosen for. -/
theorem foldl_giveToWorker
    (workers : List String)
    (map : String → Option (List U32))
    (partitions : List U32)
    (worker : String) :
    partitions.foldl (giveToWorker hrwScore workers) map worker =
      (map worker).map fun earlier =>
        earlier ++ partitions.filter fun partition =>
          workerFor hrwScore partition workers = some worker := by
  induction partitions generalizing map with
  | nil =>
    simp
  | cons partition rest inductionHypothesis =>
    rw [foldl_cons, inductionHypothesis, giveToWorker_apply]
    by_cases chosen : workerFor hrwScore partition workers = some worker
    · simp [chosen, comp_def]
    · simp [chosen]

theorem pairwise_allPartitions (numPartitions : U32) :
    (allPartitions numPartitions).Pairwise (· < ·) := by
  refine pairwise_map.mpr ?_
  refine pairwise_lt_range.imp_of_mem ?_
  intro earlier later isEarlier isLater before
  have numPartitionsBound := numPartitions.isLt
  rw [mem_range] at isEarlier isLater
  rw [Fin.lt_def, Fin.val_ofNat, Fin.val_ofNat,
    Nat.mod_eq_of_lt (isEarlier.trans numPartitionsBound),
    Nat.mod_eq_of_lt (isLater.trans numPartitionsBound)]
  exact before

/-- The partitions a worker is chosen for, in increasing order. -/
def chosenPartitions
    (hrwScore : HrwScore)
    (worker : String)
    (workers : List String)
    (numPartitions : U32) : List U32 :=
  (allPartitions numPartitions).filter fun partition =>
    workerFor hrwScore partition workers = some worker

theorem pairwise_chosenPartitions
    (worker : String)
    (workers : List String)
    (numPartitions : U32) :
    (chosenPartitions hrwScore worker workers numPartitions).Pairwise
      (· < ·) :=
  (pairwise_allPartitions numPartitions).filter _

theorem mem_chosenPartitions
    {workers : List String}
    {numPartitions partition : U32} :
    partition ∈ chosenPartitions hrwScore worker workers numPartitions ↔
      partition.val < numPartitions.val ∧
        workerFor hrwScore partition workers = some worker := by
  rw [chosenPartitions, mem_filter, mem_allPartitions, decide_eq_true_eq]

/-- A known worker gets what it is chosen for, an unknown one has no entry. -/
theorem assignments_eq
    (workers : List String)
    (numPartitions : U32)
    (worker : String) :
    assignments hrwScore workers numPartitions worker =
      if worker ∈ workers then
        some (chosenPartitions hrwScore worker workers numPartitions)
      else
        none := by
  simp only [assignments, foldl_giveToWorker]
  split
  · rw [Option.map_some, Option.map_some, nil_append]
    have increasing :=
      @pairwise_chosenPartitions hrwScore worker workers numPartitions
    exact congrArg some (increasing.imp le_of_lt).insertionSort_eq
  · rfl

theorem partitionsOf_eq
    (worker : String)
    (workers : List String)
    (numPartitions : U32) :
    partitionsOf hrwScore worker workers numPartitions =
      chosenPartitions hrwScore worker workers numPartitions := by
  rw [partitionsOf, assignments_eq]
  split
  · rfl
  · rename_i unknown
    symm
    refine eq_nil_iff_forall_not_mem.mpr ?_
    intro partition isChosen
    exact unknown (mem_of_workerFor (mem_chosenPartitions.mp isChosen).2)

theorem mem_partitionsOf
    {workers : List String}
    {numPartitions partition : U32} :
    partition ∈ partitionsOf hrwScore worker workers numPartitions ↔
      partition.val < numPartitions.val ∧
        workerFor hrwScore partition workers = some worker := by
  rw [partitionsOf_eq, mem_chosenPartitions]

theorem pairwise_partitionsOf
    (worker : String)
    (workers : List String)
    (numPartitions : U32) :
    (partitionsOf hrwScore worker workers numPartitions).Pairwise
      (· < ·) := by
  rw [partitionsOf_eq]
  exact pairwise_chosenPartitions worker workers numPartitions

/-- The owner has the partition once, the others do not have it. -/
theorem count_partitionsOf
    {workers : List String}
    {numPartitions partition : U32}
    {owner : String}
    (below : partition.val < numPartitions.val)
    (chosen : workerFor hrwScore partition workers = some owner)
    (worker : String) :
    (partitionsOf hrwScore worker workers numPartitions).count partition =
      if worker = owner then 1 else 0 := by
  have distinct :
      (partitionsOf hrwScore worker workers numPartitions).Nodup :=
    (pairwise_partitionsOf worker workers numPartitions).imp ne_of_lt
  simp only [distinct.count, mem_partitionsOf, below, chosen, true_and,
    Option.some_inj, eq_comm]

/-- A new worker takes partitions from the others and moves none between
them. -/
theorem partitionsOf_insert
    {before after : List String}
    {worker added : String}
    (numPartitions : U32)
    (other : worker ≠ added) :
    partitionsOf hrwScore worker (before ++ added :: after) numPartitions ⊆
        partitionsOf hrwScore worker (before ++ after) numPartitions ∧
      partitionsOf hrwScore worker (before ++ after) numPartitions ⊆
        partitionsOf hrwScore worker (before ++ added :: after)
            numPartitions ++
          partitionsOf hrwScore added (before ++ added :: after)
            numPartitions := by
  constructor
  · intro partition isOwned
    obtain ⟨below, chosen⟩ := mem_partitionsOf.mp isOwned
    rw [workerFor_eq] at chosen
    refine mem_partitionsOf.mpr ⟨below, ?_⟩
    rw [workerFor_eq]
    exact lastMaximum_remove chosen other
  · intro partition isOwned
    obtain ⟨below, chosen⟩ := mem_partitionsOf.mp isOwned
    rw [workerFor_eq] at chosen
    rw [mem_append, mem_partitionsOf, mem_partitionsOf, workerFor_eq]
    rcases lastMaximum_insert chosen added with same | moved
    · exact Or.inl ⟨below, same⟩
    · exact Or.inr ⟨below, moved⟩

/-- The laws of the assignment for any score, ties included: every partition
has one owner, who lists it once; the lists are increasing; when a worker
leaves only its partitions move; when one joins partitions move only to it. -/
theorem assignments_laws
    (hrwScore : HrwScore)
    (workers : List String)
    (numPartitions : U32)
    (nonempty : workers ≠ [])
    (distinct : workers.Nodup) :
    (∀ worker,
      assignments hrwScore workers numPartitions worker =
        if worker ∈ workers then
          some (partitionsOf hrwScore worker workers numPartitions)
        else
          none) ∧
      (∀ partition : U32,
        partition.val < numPartitions.val →
          ∃ owner ∈ workers,
            ∀ worker,
              (partitionsOf hrwScore worker workers numPartitions).count
                  partition =
                if worker = owner then 1 else 0) ∧
      (∀ worker,
        (partitionsOf hrwScore worker workers numPartitions).Pairwise
            (· < ·) ∧
          ∀ partition ∈ partitionsOf hrwScore worker workers numPartitions,
            partition.val < numPartitions.val) ∧
      (∀ gone ∈ workers,
        ∀ worker,
          worker ≠ gone →
            partitionsOf hrwScore worker workers numPartitions ⊆
                partitionsOf hrwScore worker (workers.erase gone)
                  numPartitions ∧
              partitionsOf hrwScore worker (workers.erase gone)
                  numPartitions ⊆
                partitionsOf hrwScore worker workers numPartitions ++
                  partitionsOf hrwScore gone workers numPartitions) ∧
      ∀ before after added,
        workers = before ++ after →
          added ∉ workers →
            ∀ worker ∈ workers,
              partitionsOf hrwScore worker (before ++ added :: after)
                    numPartitions ⊆
                  partitionsOf hrwScore worker workers numPartitions ∧
                partitionsOf hrwScore worker workers numPartitions ⊆
                  partitionsOf hrwScore worker (before ++ added :: after)
                      numPartitions ++
                    partitionsOf hrwScore added (before ++ added :: after)
                      numPartitions := by
  refine ⟨?_, ?_, ?_, ?_, ?_⟩
  · intro worker
    rw [assignments_eq, partitionsOf_eq]
  · intro partition below
    obtain ⟨owner, chosen⟩ :=
      @exists_workerFor hrwScore partition workers nonempty
    exact ⟨owner, mem_of_workerFor chosen, count_partitionsOf below chosen⟩
  · intro worker
    refine ⟨pairwise_partitionsOf worker workers numPartitions, ?_⟩
    intro partition isOwned
    exact (mem_partitionsOf.mp isOwned).1
  · intro gone isWorker worker other
    obtain ⟨before, after, isWorkers⟩ := append_of_mem isWorker
    have notBefore : gone ∉ before := by
      intro isBefore
      rw [isWorkers] at distinct
      exact (nodup_append.mp distinct).2.2 gone isBefore gone
        mem_cons_self rfl
    have isErased : workers.erase gone = before ++ after := by
      rw [isWorkers, erase_append_right _ notBefore, erase_cons_head]
    rw [isErased, isWorkers]
    exact partitionsOf_insert numPartitions other
  · intro before after added isWorkers isNew worker isWorker
    have other : worker ≠ added := by
      intro isAdded
      exact isNew (isAdded ▸ isWorker)
    rw [isWorkers]
    exact partitionsOf_insert numPartitions other

theorem assignments_laws_two :
    ∃ owner ∈ ["a", "b"],
      ∀ worker,
        (partitionsOf (fun _ _ => 0) worker ["a", "b"] 4).count 3 =
          if worker = owner then 1 else 0 :=
  (assignments_laws (fun _ _ => 0) ["a", "b"] 4 (by decide)
    (by decide)).2.1 3 (by decide)

end HashRing

end Mitiflow
