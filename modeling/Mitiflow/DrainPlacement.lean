import Mitiflow.Drain

namespace Mitiflow

open Library List

/-!
# Replicas after a drain

The entries of a drain send every replica of the node to the best other node
for the partition.  That node often stores another replica of the partition
already, and then one node holds two of them.
-/

section Placement

variable {Score : Type} [LinearOrder Score]

/-- The assignments are those that the agents compute without overrides. -/
def HashPlacement
    (weightedHrwScore : WeightedHrwScore Score)
    (numPartitions replicationFactor : U32)
    (nodes : List NodeDescriptor)
    (assignments : ListedMap StoreKey AssignmentInfo) : Prop :=
  ∀ key : StoreKey,
    (assignments.get? key).map AssignmentInfo.nodeId =
      if key.1.val < numPartitions.val ∧
          key.2.val < replicationFactor.val then
        (replicasOf weightedHrwScore key.1 replicationFactor
          nodes)[key.2.val]?
      else
        none

/-- The best of the nodes other than one, for a partition. -/
def BestOther
    (weightedHrwScore : WeightedHrwScore Score)
    (nodes : List NodeDescriptor)
    (nodeId : String)
    (partition : U32)
    (target : NodeDescriptor) : Prop :=
  target ∈ nodes ∧ target.id ≠ nodeId ∧
    ∀ other ∈ nodes, other.id ≠ nodeId →
      nodeScore weightedHrwScore partition other ≤
        nodeScore weightedHrwScore partition target

/-- Every replica of a partition is on one node, all on different ones, and
none on a given one. -/
def KeptApart
    (desired : String → List StoreKey)
    (nodes : List NodeDescriptor)
    (replicationFactor : U32)
    (nodeId : String)
    (partition : U32) : Prop :=
  ∃ holders : List String,
    holders.Nodup ∧ holders.length = replicationFactor.val ∧
      nodeId ∉ holders ∧
      ∀ replica : U32, replica.val < replicationFactor.val →
        ∀ node ∈ nodes,
          (partition, replica) ∈ desired node.id ↔
            holders[replica.val]? = some node.id

/-- One name takes the place of another one. -/
def moved (nodeId target holder : String) : String :=
  if holder = nodeId then target else holder

variable {target : String}

theorem nodup_map_moved_iff
    {nodeId : String}
    (differs : target ≠ nodeId)
    {holders : List String}
    (distinct : holders.Nodup) :
    (holders.map (moved nodeId target)).Nodup ↔
      (nodeId ∈ holders → target ∉ holders) := by
  rw [nodup_map_iff_inj_on distinct]
  constructor
  · intro injective isHolder isTarget
    refine differs (injective target isTarget nodeId isHolder ?_)
    simp [moved]
  · intro apart first isFirst second isSecond same
    unfold moved at same
    split at same <;> split at same
    · next firstMoves secondMoves => rw [firstMoves, secondMoves]
    · next firstMoves _ =>
        exact absurd (same ▸ isSecond) (apart (firstMoves ▸ isFirst))
    · next _ secondMoves =>
        exact absurd (same ▸ isFirst) (apart (secondMoves ▸ isSecond))
    · exact same

variable
  {weightedHrwScore : WeightedHrwScore Score}
  {nodes : List NodeDescriptor}
  {nodeId : String}
  {replicationFactor partition : U32}

theorem bestOther_of_scored
    {first : NodeDescriptor}
    {rest : List NodeDescriptor}
    (isList :
      scored weightedHrwScore partition (alternativesTo nodeId nodes) =
        first :: rest) :
    BestOther weightedHrwScore nodes nodeId partition first := by
  have isPerm := @perm_scored _ _ weightedHrwScore partition
    (alternativesTo nodeId nodes)
  have ranked := @ranked_scored _ _ weightedHrwScore partition
    (alternativesTo nodeId nodes)
  rw [isList] at isPerm ranked
  have isFirst := isPerm.mem_iff.mp (mem_cons_self (a := first))
  rw [alternativesTo, mem_filter] at isFirst
  refine ⟨isFirst.1, of_decide_eq_true isFirst.2,
    fun other isOther differs => ?_⟩
  have isRanked : other ∈ first :: rest :=
    isPerm.mem_iff.mpr (mem_filter.mpr ⟨isOther, decide_eq_true differs⟩)
  rcases mem_cons.mp isRanked with rfl | isLater
  · exact le_rfl
  · exact (pairwise_cons.mp ranked).1 other isLater

theorem exists_drainTarget
    (weightedHrwScore : WeightedHrwScore Score)
    (distinct : (nodes.map NodeDescriptor.id).Nodup)
    (positive : 0 < replicationFactor.val)
    (hasOther : alternativesTo nodeId nodes ≠ [])
    (partition : U32) :
    ∃ target, BestOther weightedHrwScore nodes nodeId partition target ∧
      drainTarget weightedHrwScore nodeId nodes replicationFactor
        partition = some target.id := by
  rw [drainTarget_eq_head? distinct positive]
  match isList : scored weightedHrwScore partition
      (alternativesTo nodeId nodes) with
  | [] =>
    have isPerm := @perm_scored _ _ weightedHrwScore partition
      (alternativesTo nodeId nodes)
    rw [isList] at isPerm
    exact absurd isPerm.nil_eq.symm hasOther
  | first :: rest => exact ⟨first, bestOther_of_scored isList, rfl⟩

theorem BestOther.unique
    (scoresDiffer :
      (nodes.map (nodeScore weightedHrwScore partition)).Nodup)
    {first second : NodeDescriptor}
    (firstBest : BestOther weightedHrwScore nodes nodeId partition first)
    (secondBest : BestOther weightedHrwScore nodes nodeId partition second) :
    first = second :=
  inj_on_of_nodup_map scoresDiffer firstBest.1 secondBest.1
    (le_antisymm (secondBest.2.2 first firstBest.1 firstBest.2.1)
      (firstBest.2.2 second secondBest.1 secondBest.2.1))

/-- The node that holds a replica once the drain has been applied. -/
theorem mem_desired_iff_moved
    {numPartitions : U32}
    {assignments : ListedMap StoreKey AssignmentInfo}
    (placed :
      HashPlacement weightedHrwScore numPartitions replicationFactor nodes
        assignments)
    {table : OverrideTable}
    (drains :
      table.entries =
        computeDrainOverrides weightedHrwScore nodeId assignments nodes
          replicationFactor)
    (isPartition : partition.val < numPartitions.val)
    (isTarget :
      drainTarget weightedHrwScore nodeId nodes replicationFactor
        partition = some target)
    {replica : U32}
    (isReplica : replica.val < replicationFactor.val)
    (selfNodeId : String) :
    (partition, replica) ∈
        computeDesiredAssignment weightedHrwScore selfNodeId numPartitions
          replicationFactor nodes table ↔
      ((replicasOf weightedHrwScore partition replicationFactor nodes).map
        (moved nodeId target))[replica.val]? = some selfNodeId := by
  have oneEach : OverrideManager.OneEach table.entries :=
    drains ▸ oneEach_computeDrainOverrides nodeId assignments nodes
      replicationFactor
  have isOwned :
      (partition, replica) ∈ ownedBy assignments nodeId ↔
        (replicasOf weightedHrwScore partition replicationFactor
          nodes)[replica.val]? = some nodeId := by
    rw [mem_ownedBy, placed, if_pos ⟨isPartition, isReplica⟩]
  rw [mem_computeDesiredAssignment, List.getElem?_map, takesReplica]
  simp only [isPartition, isReplica, true_and]
  by_cases owned : (partition, replica) ∈ ownedBy assignments nodeId
  · have isEntry : table.entryFor partition replica =
        some ⟨partition, replica, target, drainReason nodeId⟩ := by
      rw [entryFor_eq_some_iff oneEach, drains, mem_computeDrainOverrides]
      exact ⟨⟨owned, isTarget, rfl⟩, rfl⟩
    rw [isEntry, isOwned.mp owned]
    simp [moved]
  · have noEntry : table.entryFor partition replica = none := by
      refine Option.eq_none_iff_forall_ne_some.mpr fun entry isEntry => ?_
      rw [entryFor_eq_some_iff oneEach, drains,
        mem_computeDrainOverrides] at isEntry
      exact owned (isEntry.2 ▸ isEntry.1.1)
    rw [noEntry]
    rw [isOwned] at owned
    cases isHolder : (replicasOf weightedHrwScore partition replicationFactor
        nodes)[replica.val]? with
    | none => simp
    | some holder =>
      rw [isHolder, Option.some_inj] at owned
      simp [moved, owned]

theorem keptApart_iff_nodup
    {desired : String → List StoreKey}
    {holders : List String}
    (isLength : holders.length = replicationFactor.val)
    (known : ∀ holder ∈ holders, holder ∈ nodes.map NodeDescriptor.id)
    (elsewhere : nodeId ∉ holders)
    (holds :
      ∀ replica : U32, replica.val < replicationFactor.val →
        ∀ selfNodeId,
          (partition, replica) ∈ desired selfNodeId ↔
            holders[replica.val]? = some selfNodeId) :
    KeptApart desired nodes replicationFactor nodeId partition ↔
      holders.Nodup := by
  constructor
  · rintro ⟨others, othersDistinct, othersLength, -, areHolders⟩
    -- Both lists name the node that takes a replica.
    suffices same : holders = others by
      rwa [same]
    refine ext_getElem? fun index => ?_
    rcases Nat.lt_or_ge index replicationFactor.val with isReplica | tooLarge
    · let replica : U32 := ⟨index, isReplica.trans replicationFactor.isLt⟩
      cases isHolder : holders[index]? with
      | none =>
        rw [List.getElem?_eq_none_iff] at isHolder
        omega
      | some holder =>
        obtain ⟨node, isHolding, rfl⟩ :=
          mem_map.mp (known holder (mem_of_getElem? isHolder))
        exact ((areHolders replica isReplica node isHolding).mp
          ((holds replica isReplica node.id).mpr isHolder)).symm
    · rw [List.getElem?_eq_none (isLength ▸ tooLarge),
        List.getElem?_eq_none (othersLength ▸ tooLarge)]
  · intro distinct
    exact ⟨holders, distinct, isLength, elsewhere,
      fun replica isReplica node _ => holds replica isReplica node.id⟩

/-- The replicas stay apart exactly if the node held none of them, or the best
other node held none either. -/
theorem keptApart_iff
    (distinct : (nodes.map NodeDescriptor.id).Nodup)
    {numPartitions : U32}
    {assignments : ListedMap StoreKey AssignmentInfo}
    (placed :
      HashPlacement weightedHrwScore numPartitions replicationFactor nodes
        assignments)
    {table : OverrideTable}
    (drains :
      table.entries =
        computeDrainOverrides weightedHrwScore nodeId assignments nodes
          replicationFactor)
    (enough :
      replicationFactor.val ≤ (alternativesTo nodeId nodes).length)
    (isPartition : partition.val < numPartitions.val)
    (isTarget :
      drainTarget weightedHrwScore nodeId nodes replicationFactor
        partition = some target) :
    KeptApart
        (fun selfNodeId =>
          computeDesiredAssignment weightedHrwScore selfNodeId numPartitions
            replicationFactor nodes table)
        nodes replicationFactor nodeId partition ↔
      (nodeId ∈ replicasOf weightedHrwScore partition replicationFactor
          nodes →
        target ∉ replicasOf weightedHrwScore partition replicationFactor
          nodes) := by
  obtain ⟨selection, length⟩ :=
    @replicasOf_spec _ _ weightedHrwScore _ distinct partition replicationFactor
  obtain ⟨isNode, differs⟩ := mem_of_drainTarget distinct isTarget
  rw [← nodup_map_moved_iff differs selection.distinct]
  refine keptApart_iff_nodup ?_ ?_ ?_ fun replica isReplica =>
    mem_desired_iff_moved placed drains isPartition isTarget isReplica
  · have fewer : (alternativesTo nodeId nodes).length ≤ nodes.length :=
      length_filter_le _ nodes
    rw [length_map, length]
    omega
  · intro holder isMoved
    obtain ⟨before, isBefore, rfl⟩ := mem_map.mp isMoved
    unfold moved
    split
    · exact isNode
    · exact selection.known before isBefore
  · intro isMoved
    obtain ⟨holder, -, isSame⟩ := mem_map.mp isMoved
    unfold moved at isSame
    split at isSame
    · exact differs isSame
    · contradiction

section

variable
  (distinct : (nodes.map NodeDescriptor.id).Nodup)
  (scoresDiffer :
    (nodes.map (nodeScore weightedHrwScore partition)).Nodup)

include distinct scoresDiffer

theorem mem_replicasOf_iff
    {node : NodeDescriptor}
    (isNode : node ∈ nodes) :
    node.id ∈ replicasOf weightedHrwScore partition replicationFactor
        nodes ↔
      place (nodeScore weightedHrwScore partition) NodeDescriptor.rack nodes
        node < replicationFactor.val := by
  simp only [mem_iff_getElem?,
    getElem?_replicasOf_iff distinct scoresDiffer replicationFactor isNode]
  constructor
  · rintro ⟨_, rfl, isReplica⟩
    exact isReplica
  · intro isReplica
    exact ⟨_, rfl, isReplica⟩

theorem best_notMem_replicasOf_iff
    (positive : 0 < replicationFactor.val)
    {node : NodeDescriptor}
    (isNode : node ∈ nodes)
    {target : NodeDescriptor}
    (isBest : BestOther weightedHrwScore nodes node.id partition target) :
    target.id ∉ replicasOf weightedHrwScore partition replicationFactor
        nodes ↔
      nodeScore weightedHrwScore partition target <
          nodeScore weightedHrwScore partition node ∧
        (replicationFactor.val ≤ 1 ∨
          target.rack = node.rack ∧
            replicationFactor.val ≤
              (nodes.map NodeDescriptor.rack).dedup.length) := by
  obtain ⟨isTarget, differs, beats⟩ := isBest
  have isPerm := @perm_scored _ _ weightedHrwScore partition nodes
  have isPlace :=
    @place_best_but_one _ _ _ _ _ (nodeScore weightedHrwScore partition)
      NodeDescriptor.rack _ (ranked_scored partition nodes)
      ((isPerm.map _).nodup_iff.mpr scoresDiffer) node target
      (isPerm.mem_iff.mpr isNode) (isPerm.mem_iff.mpr isTarget)
      (fun same => differs (congrArg NodeDescriptor.id same))
      (fun other isOther different => beats other
        (isPerm.mem_iff.mp isOther) fun sameId => different
          (inj_on_of_nodup_map distinct (isPerm.mem_iff.mp isOther)
            isNode sameId))
  rw [place_perm isPerm,
    (isPerm.map NodeDescriptor.rack).dedup.length_eq] at isPlace
  have someRack : 0 < (nodes.map NodeDescriptor.rack).dedup.length :=
    length_pos_of_mem (mem_dedup.mpr (mem_map_of_mem isNode))
  rw [mem_replicasOf_iff distinct scoresDiffer isTarget, isPlace, not_lt]
  split
  · grind
  · next notLower =>
      simp only [notLower, false_and, iff_false]
      omega

end

/--
After the drain of a node, with every agent listing the nodes in its own order,
the replicas of every partition are on different nodes and none is on the
drained one, exactly if for every partition of which the node held a replica it
scored highest, and there is one replica only, or the best other node is of the
same rack and there are enough racks.
-/
theorem drain_keeps_apart_iff
    (weightedHrwScore : WeightedHrwScore Score)
    (nodes : List NodeDescriptor)
    (distinct : (nodes.map NodeDescriptor.id).Nodup)
    (scoresDiffer :
      ∀ partition, (nodes.map (nodeScore weightedHrwScore partition)).Nodup)
    (nodeId : String)
    (numPartitions replicationFactor : U32)
    (enough :
      replicationFactor.val ≤
        (nodes.filter fun node => node.id ≠ nodeId).length)
    (assignments : ListedMap StoreKey AssignmentInfo)
    (placed :
      HashPlacement weightedHrwScore numPartitions replicationFactor nodes
        assignments)
    (table : OverrideTable)
    (drains :
      table.entries =
        computeDrainOverrides weightedHrwScore nodeId assignments nodes
          replicationFactor)
    (listing : String → List NodeDescriptor)
    (lists : ∀ selfNodeId, (listing selfNodeId).Perm nodes) :
    (∀ partition : U32, partition.val < numPartitions.val →
      KeptApart
        (fun selfNodeId =>
          computeDesiredAssignment weightedHrwScore selfNodeId numPartitions
            replicationFactor (listing selfNodeId) table)
        nodes replicationFactor nodeId partition) ↔
    ∀ partition : U32, partition.val < numPartitions.val →
      ∀ node ∈ nodes, node.id = nodeId →
        nodeId ∈ replicasOf weightedHrwScore partition replicationFactor
          nodes →
        ∀ target, BestOther weightedHrwScore nodes nodeId partition target →
          nodeScore weightedHrwScore partition target <
              nodeScore weightedHrwScore partition node ∧
            (replicationFactor.val ≤ 1 ∨
              target.rack = node.rack ∧
                replicationFactor.val ≤
                  (nodes.map NodeDescriptor.rack).dedup.length) := by
  refine forall_congr' fun partition => forall_congr' fun isPartition => ?_
  simp only [computeDesiredAssignment_perm distinct scoresDiffer (lists _)]
  have selection :=
    (@replicasOf_spec _ _ weightedHrwScore _ distinct partition
      replicationFactor).1
  rcases Nat.eq_zero_or_pos replicationFactor.val with none | positive
  · have noReplica : replicasOf weightedHrwScore partition replicationFactor
        nodes = [] :=
      length_eq_zero_iff.mp (Nat.le_zero.mp (none ▸ selection.bounded))
    refine iff_of_true ⟨[], nodup_nil, none.symm, not_mem_nil,
      fun replica isReplica => ?_⟩ ?_
    · omega
    · intro node _ _ holds
      rw [noReplica] at holds
      cases holds
  · have hasOther : alternativesTo nodeId nodes ≠ [] :=
      ne_nil_of_length_pos (positive.trans_le enough)
    obtain ⟨best, isBest, isTarget⟩ :=
      exists_drainTarget weightedHrwScore distinct positive hasOther partition
    rw [keptApart_iff distinct placed drains enough isPartition isTarget]
    constructor
    · rintro apart node isNode rfl holds target isTarget
      rw [← best_notMem_replicasOf_iff distinct (scoresDiffer partition)
        positive isNode isTarget,
        isTarget.unique (scoresDiffer partition) isBest]
      exact apart holds
    · intro condition holds
      obtain ⟨node, isNode, rfl⟩ :=
        mem_map.mp (selection.known nodeId holds)
      rw [best_notMem_replicasOf_iff distinct (scoresDiffer partition)
        positive isNode isBest]
      exact condition node isNode rfl holds best isBest

end Placement

/-- Three nodes in two racks; the two best ones share a rack. -/
def twoRacks : List NodeDescriptor :=
  [⟨"a", 1, fun _ => some "r2"⟩, ⟨"b", 1, fun _ => some "r1"⟩,
    ⟨"c", 1, fun _ => some "r1"⟩]

/-- The hash placement of two replicas of one partition. -/
def twoPlaced : ListedMap StoreKey AssignmentInfo :=
  .insertAll .empty
    [((0, 0), ⟨0, 0, "c", .active, .computed⟩),
      ((0, 1), ⟨0, 1, "a", .active, .computed⟩)]

theorem twoPlaced_placed :
    HashPlacement weightedByCapacity 1 2 twoRacks twoPlaced := by
  rintro ⟨partition, replica⟩
  by_cases inRange : partition.val < (1 : U32).val ∧ replica.val < (2 : U32).val
  · obtain ⟨isPartition, isReplica⟩ := inRange
    have first : partition = 0 := Fin.ext (Nat.lt_one_iff.mp isPartition)
    have either : replica = 0 ∨ replica = 1 :=
      (Nat.le_one_iff_eq_zero_or_eq_one.mp
        (Nat.lt_succ_iff.mp isReplica)).imp (Fin.ext ·) (Fin.ext ·)
    subst first
    rcases either with rfl | rfl <;> decide
  · rw [if_neg inRange, twoPlaced, ListedMap.get?_insertAll_of_notMem]
    · rfl
    · have listed : ∀ key ∈ [((0, 0) : StoreKey), (0, 1)],
          key.1.val < (1 : U32).val ∧ key.2.val < (2 : U32).val :=
        forall_mem_cons.mpr
          ⟨by decide, forall_mem_singleton.mpr (by decide)⟩
      intro pair isPair isKey
      have bounds := listed pair.1 (mem_map_of_mem isPair)
      rw [isKey] at bounds
      exact inRange bounds

/-- The best node is drained; the next one of its rack takes over. -/
theorem drain_keeps_apart_twoRacks :
    KeptApart
      (fun selfNodeId =>
        computeDesiredAssignment weightedByCapacity selfNodeId 1 2 twoRacks
          ⟨computeDrainOverrides weightedByCapacity "c" twoPlaced twoRacks 2,
            1, none⟩)
      twoRacks 2 "c" 0 :=
  (drain_keeps_apart_iff weightedByCapacity twoRacks (by decide)
    (fun _ => show (twoRacks.map (nodeScore weightedByCapacity 0)).Nodup by
      decide)
    "c" 1 2 (by decide) twoPlaced twoPlaced_placed
    ⟨computeDrainOverrides weightedByCapacity "c" twoPlaced twoRacks 2, 1,
      none⟩ rfl (fun _ => twoRacks) fun _ => .refl _).mpr
    (by
      intro partition isPartition node isNode isId holds target isBest
      have first : partition = 0 := Fin.ext (Nat.lt_one_iff.mp isPartition)
      subst first
      have isC := inj_on_of_nodup_map (f := NodeDescriptor.id)
        (show (twoRacks.map NodeDescriptor.id).Nodup by decide) isNode
        (get_mem twoRacks ⟨2, by decide⟩) isId
      have isB := isBest.unique (by decide)
        ⟨get_mem twoRacks ⟨1, by decide⟩, by decide, by decide⟩
      subst isC isB
      decide)
    0 (by decide)

/-- The second replica is drained to the node that holds the first one. -/
theorem drain_doubles_replica :
    let table : OverrideTable :=
      ⟨computeDrainOverrides weightedByCapacity "a" twoPlaced twoRacks 2, 1,
        none⟩
    HashPlacement weightedByCapacity 1 2 twoRacks twoPlaced ∧
      2 ≤ (twoRacks.filter fun node => node.id ≠ "a").length ∧
      ((0, 0) : StoreKey) ∈
        computeDesiredAssignment weightedByCapacity "c" 1 2 twoRacks table ∧
      ((0, 1) : StoreKey) ∈
        computeDesiredAssignment weightedByCapacity "c" 1 2 twoRacks table :=
  ⟨twoPlaced_placed, by decide, by decide, by decide⟩

end Mitiflow
