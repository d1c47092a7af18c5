import Mitiflow.Library.GroupPlaces
import Mitiflow.Placement

namespace Mitiflow

open Library List

/-!
# The order behind a placement

The two passes over the ranked nodes choose the best node of every rack and
then the best of the others.  The replica index is the place of a node in this
order.  This module says when the order depends on how an agent lists the
nodes, and which replicas stay where they are when a node is lost.
-/

section Order

variable {Score : Type} [LinearOrder Score]
  (weightedHrwScore : WeightedHrwScore Score)

/-- The score by which the nodes are ranked for a partition. -/
def nodeScore (partition : U32) (node : NodeDescriptor) : Score :=
  weightedHrwScore node.id partition 0 node.capacity

variable {weightedHrwScore}

theorem ranked_scored (partition : U32) (nodes : List NodeDescriptor) :
    Ranked (nodeScore weightedHrwScore partition)
      (scored weightedHrwScore partition nodes) := by
  let outranks (first second : NodeDescriptor) : Prop :=
    nodeScore weightedHrwScore partition second ≤
      nodeScore weightedHrwScore partition first
  have total : Std.Total outranks := ⟨fun first second => le_total _ _⟩
  have transitive : IsTrans NodeDescriptor outranks :=
    ⟨fun first second third higher lower => le_trans lower higher⟩
  exact pairwise_insertionSort outranks nodes

variable {partition : U32} {nodes : List NodeDescriptor}
  {selected : List String} {node : NodeDescriptor}

theorem scored_of_ranked
    (ranked : Ranked (nodeScore weightedHrwScore partition) nodes) :
    scored weightedHrwScore partition nodes = nodes :=
  List.Pairwise.insertionSort_eq ranked

/-- An agent takes the same nodes whether or not it looks at racks: without
rack labels there is one rack. -/
theorem replicasOf_eq
    (distinct : (nodes.map NodeDescriptor.id).Nodup)
    (partition replicationFactor : U32) :
    replicasOf weightedHrwScore partition replicationFactor nodes =
      ((groupOrder NodeDescriptor.rack
        (scored weightedHrwScore partition nodes)).take
          replicationFactor.val).map NodeDescriptor.id := by
  unfold replicasOf
  split
  · exact assignReplicasRackAware_eq distinct partition replicationFactor
  · rename_i noLabels
    have oneRack :
        ∀ node ∈ scored weightedHrwScore partition nodes, node.rack = "" := by
      intro node isRanked
      have isNode := (perm_scored partition nodes).mem_iff.mp isRanked
      cases isLabel : node.labels "rack" with
      | none =>
        rw [NodeDescriptor.rack, isLabel, Option.getD_none]
      | some label =>
        refine absurd (any_eq_true.mpr ⟨node, isNode, ?_⟩) noLabels
        rw [isLabel, Option.isSome_some]
    rw [groupOrder_of_one oneRack]
    rfl

/-! ## The listing of the nodes -/

/--
However the nodes are listed, both placements are the same exactly if for any
two nodes with equal scores there are enough nodes that score higher, and
enough racks of such nodes if neither is beaten in its own rack.
-/
theorem placement_order_free_iff
    (weightedHrwScore : WeightedHrwScore Score)
    (nodes : List NodeDescriptor)
    (distinct : (nodes.map NodeDescriptor.id).Nodup)
    (partition replicationFactor : U32) :
    (∀ listing : List NodeDescriptor,
        listing.Perm nodes →
          assignReplicas weightedHrwScore partition replicationFactor
                listing =
              assignReplicas weightedHrwScore partition replicationFactor
                nodes ∧
            assignReplicasRackAware weightedHrwScore partition
                replicationFactor listing =
              assignReplicasRackAware weightedHrwScore partition
                replicationFactor nodes) ↔
      ∀ first ∈ nodes, ∀ second ∈ nodes,
        first.id ≠ second.id →
          TiesBehind (nodeScore weightedHrwScore partition)
            NodeDescriptor.rack replicationFactor.val nodes first second := by
  let ranked := scored weightedHrwScore partition nodes
  have isRanked := @ranked_scored _ _ weightedHrwScore partition nodes
  have isPerm : ranked.Perm nodes := perm_scored partition nodes
  have rankedDistinct : (ranked.map NodeDescriptor.id).Nodup :=
    nodup_scored distinct partition
  have orderFree :=
    @order_free_iff _ _ _ _ _ (nodeScore weightedHrwScore partition)
      NodeDescriptor.rack _ NodeDescriptor.id ranked rankedDistinct isRanked
      replicationFactor.val
  have sameTies :
      (∀ first ∈ ranked, ∀ second ∈ ranked,
          first.id ≠ second.id →
            TiesBehind (nodeScore weightedHrwScore partition)
              NodeDescriptor.rack replicationFactor.val ranked first
              second) ↔
        ∀ first ∈ nodes, ∀ second ∈ nodes,
          first.id ≠ second.id →
            TiesBehind (nodeScore weightedHrwScore partition)
              NodeDescriptor.rack replicationFactor.val nodes first
              second := by
    simp only [isPerm.mem_iff, tiesBehind_perm isPerm]
  rw [← sameTies, ← orderFree]
  constructor
  · intro always listing isListing listingRanked
    have listingPerm := isListing.trans isPerm
    have listingDistinct :=
      (listingPerm.map NodeDescriptor.id).nodup_iff.mpr distinct
    have same := always listing listingPerm
    rw [assignReplicasRackAware_eq listingDistinct,
      assignReplicasRackAware_eq distinct, assignReplicas, assignReplicas,
      scored_of_ranked listingRanked] at same
    exact same
  · intro always listing isListing
    have listingDistinct :=
      (isListing.map NodeDescriptor.id).nodup_iff.mpr distinct
    have same :=
      always (scored weightedHrwScore partition listing)
        ((perm_scored partition listing).trans (isListing.trans isPerm.symm))
        (ranked_scored partition listing)
    rw [assignReplicasRackAware_eq listingDistinct,
      assignReplicasRackAware_eq distinct, assignReplicas, assignReplicas]
    exact same

theorem scored_perm
    {listing : List NodeDescriptor}
    (scoresDiffer :
      (nodes.map (nodeScore weightedHrwScore partition)).Nodup)
    (isListing : listing.Perm nodes) :
    scored weightedHrwScore partition listing =
      scored weightedHrwScore partition nodes := by
  have listed := (@perm_scored _ _ weightedHrwScore partition listing).trans
    isListing
  refine (listed.trans (perm_scored partition nodes).symm).eq_of_pairwise
    ?_ (ranked_scored partition listing) (ranked_scored partition nodes)
  intro first second isFirst isSecond notLower notHigher
  exact inj_on_of_nodup_map scoresDiffer (listed.mem_iff.mp isFirst)
    ((perm_scored partition nodes).mem_iff.mp isSecond)
    (le_antisymm notHigher notLower)

theorem computeDesiredAssignment_perm
    {listing : List NodeDescriptor}
    (distinct : (nodes.map NodeDescriptor.id).Nodup)
    (scoresDiffer :
      ∀ partition, (nodes.map (nodeScore weightedHrwScore partition)).Nodup)
    (isListing : listing.Perm nodes)
    (selfNodeId : String)
    (numPartitions replicationFactor : U32)
    (overrides : OverrideTable) :
    computeDesiredAssignment weightedHrwScore selfNodeId numPartitions
        replicationFactor listing overrides =
      computeDesiredAssignment weightedHrwScore selfNodeId numPartitions
        replicationFactor nodes overrides := by
  have sameReplicas (partition : U32) :
      replicasOf weightedHrwScore partition replicationFactor listing =
        replicasOf weightedHrwScore partition replicationFactor nodes := by
    rw [replicasOf_eq ((isListing.map _).nodup_iff.mpr distinct),
      replicasOf_eq distinct, scored_perm (scoresDiffer partition) isListing]
  simp only [computeDesiredAssignment, takesReplica, sameReplicas]

/-! ## The loss of a node -/

section

variable (distinct : (nodes.map NodeDescriptor.id).Nodup)

include distinct

/-- The replica of a node is its place among the nodes. -/
theorem getElem?_replicasOf_iff
    (scoresDiffer :
      (nodes.map (nodeScore weightedHrwScore partition)).Nodup)
    (replicationFactor : U32)
    (isNode : node ∈ nodes)
    {index : Nat} :
    (replicasOf weightedHrwScore partition replicationFactor
        nodes)[index]? = some node.id ↔
      place (nodeScore weightedHrwScore partition) NodeDescriptor.rack nodes
          node = index ∧
        index < replicationFactor.val := by
  have isPerm := @perm_scored _ _ weightedHrwScore partition nodes
  have rankedDiffer :=
    (isPerm.map (nodeScore weightedHrwScore partition)).nodup_iff.mpr
      scoresDiffer
  have placed (other : NodeDescriptor) :
      (groupOrder NodeDescriptor.rack
          (scored weightedHrwScore partition nodes))[index]? = some other ↔
        other ∈ nodes ∧
          place (nodeScore weightedHrwScore partition) NodeDescriptor.rack
            nodes other = index := by
    rw [getElem?_groupOrder_iff (ranked_scored partition nodes) rankedDiffer,
      isPerm.mem_iff, place_perm isPerm]
  rw [replicasOf_eq distinct, List.getElem?_map, List.getElem?_take]
  constructor
  · grind [inj_on_of_nodup_map]
  · rintro ⟨isPlace, isReplica⟩
    rw [if_pos isReplica, (placed node).mpr ⟨isNode, isPlace⟩, Option.map_some]

theorem mem_computeDesiredAssignment_iff_place
    {numPartitions replicationFactor replica : U32}
    (scoresDiffer :
      (nodes.map (nodeScore weightedHrwScore partition)).Nodup)
    {overrides : OverrideTable}
    (notOverridden : overrides.entryFor partition replica = none)
    (isNode : node ∈ nodes) :
    (partition, replica) ∈
        computeDesiredAssignment weightedHrwScore node.id numPartitions
          replicationFactor nodes overrides ↔
      partition.val < numPartitions.val ∧
        replica.val < replicationFactor.val ∧
        place (nodeScore weightedHrwScore partition) NodeDescriptor.rack
          nodes node = replica.val := by
  rw [mem_computeDesiredAssignment, takesReplica, notOverridden]
  simp only [decide_eq_true_eq,
    getElem?_replicasOf_iff distinct scoresDiffer replicationFactor isNode]
  tauto

theorem perm_cons_without
    (isNode : node ∈ nodes) :
    nodes.Perm (node :: nodes.filter fun other => other.id ≠ node.id) := by
  obtain ⟨front, back, rfl⟩ := append_of_mem isNode
  rw [map_append, map_cons, nodup_append,
    nodup_cons] at distinct
  have keepsFront :
      (front.filter fun other => other.id ≠ node.id) = front := by
    rw [filter_eq_self]
    intro other isOther
    exact decide_eq_true (distinct.2.2 _ (mem_map_of_mem isOther) _
      mem_cons_self)
  have keepsBack : (back.filter fun other => other.id ≠ node.id) = back := by
    grind [filter_eq_self]
  rw [filter_append, filter_cons, keepsFront, keepsBack]
  simp

/-- A node keeps its place when another one is lost exactly if the lost one was
not before it, or a node that was behind it is before it now. -/
theorem place_without_eq_iff
    (scoresDiffer :
      (nodes.map (nodeScore weightedHrwScore partition)).Nodup)
    {lost : NodeDescriptor}
    (isLost : lost ∈ nodes)
    (isLeft : node ∈ nodes.filter fun other => other.id ≠ lost.id) :
    place (nodeScore weightedHrwScore partition) NodeDescriptor.rack
          (nodes.filter fun other => other.id ≠ lost.id) node =
        place (nodeScore weightedHrwScore partition) NodeDescriptor.rack
          nodes node ↔
      (Before (nodeScore weightedHrwScore partition) NodeDescriptor.rack
          nodes lost node →
        ∃ heir ∈ nodes.filter fun other => other.id ≠ lost.id,
          Before (nodeScore weightedHrwScore partition)
              NodeDescriptor.rack nodes node heir ∧
            Before (nodeScore weightedHrwScore partition)
              NodeDescriptor.rack
              (nodes.filter fun other => other.id ≠ lost.id) heir node) := by
  have isPerm := perm_cons_without distinct isLost
  simp only [place_perm isPerm, before_perm isPerm]
  exact place_cons_eq_iff
    (scoresDiffer.sublist (filter_sublist.map _)) isLeft

end

/--
When a node is lost, every other node keeps its replicas exactly if for each
of them the lost node was not before it, or a node that was behind it is before
it now: the next one of the lost node's rack.
-/
theorem replicas_stay_iff
    (weightedHrwScore : WeightedHrwScore Score)
    (nodes : List NodeDescriptor)
    (distinct : (nodes.map NodeDescriptor.id).Nodup)
    (scoresDiffer :
      ∀ partition : U32,
        (nodes.map (nodeScore weightedHrwScore partition)).Nodup)
    (lost : NodeDescriptor)
    (isLost : lost ∈ nodes)
    (numPartitions replicationFactor : U32)
    (overrides : OverrideTable)
    (noOverrides : overrides.entries = []) :
    (∀ node ∈ nodes,
        node.id ≠ lost.id →
          ∀ replica ∈
            computeDesiredAssignment weightedHrwScore node.id numPartitions
              replicationFactor nodes overrides,
            replica ∈
              computeDesiredAssignment weightedHrwScore node.id
                numPartitions replicationFactor
                (nodes.filter fun other => other.id ≠ lost.id) overrides) ↔
      ∀ partition : U32,
        partition.val < numPartitions.val →
          ∀ node ∈ nodes,
            node.id ≠ lost.id →
            place (nodeScore weightedHrwScore partition) NodeDescriptor.rack
                nodes node < replicationFactor.val →
            Before (nodeScore weightedHrwScore partition)
                NodeDescriptor.rack nodes lost node →
              ∃ heir ∈ nodes.filter fun other => other.id ≠ lost.id,
                Before (nodeScore weightedHrwScore partition)
                    NodeDescriptor.rack nodes node heir ∧
                  Before (nodeScore weightedHrwScore partition)
                    NodeDescriptor.rack
                    (nodes.filter fun other => other.id ≠ lost.id) heir
                    node := by
  let left := nodes.filter fun other => other.id ≠ lost.id
  have leftSublist : left.Sublist nodes := filter_sublist
  have leftDistinct : (left.map NodeDescriptor.id).Nodup :=
    distinct.sublist (leftSublist.map _)
  have notOverridden (partition replica : U32) :
      overrides.entryFor partition replica = none := by
    rw [OverrideTable.entryFor, noOverrides, List.find?_nil]
  constructor
  · intro stays partition isPartition node isNode differs isReplica
    have isLeft : node ∈ left :=
      mem_filter.mpr ⟨isNode, decide_eq_true differs⟩
    refine (place_without_eq_iff distinct (scoresDiffer partition) isLost
      isLeft).mp ?_
    let replica : U32 := ⟨_, isReplica.trans replicationFactor.isLt⟩
    have isAssigned :=
      stays node isNode differs (partition, replica)
        ((mem_computeDesiredAssignment_iff_place distinct
          (scoresDiffer partition) (notOverridden partition replica)
          isNode).mpr ⟨isPartition, isReplica, rfl⟩)
    rw [mem_computeDesiredAssignment_iff_place leftDistinct
      ((scoresDiffer partition).sublist (leftSublist.map _))
      (notOverridden partition replica) isLeft] at isAssigned
    exact isAssigned.2.2
  · rintro kept node isNode differs ⟨partition, replica⟩ isAssigned
    have isLeft : node ∈ left :=
      mem_filter.mpr ⟨isNode, decide_eq_true differs⟩
    rw [mem_computeDesiredAssignment_iff_place distinct
      (scoresDiffer partition) (notOverridden partition replica) isNode]
      at isAssigned
    obtain ⟨isPartition, isReplica, isPlace⟩ := isAssigned
    rw [mem_computeDesiredAssignment_iff_place leftDistinct
      ((scoresDiffer partition).sublist (leftSublist.map _))
      (notOverridden partition replica) isLeft]
    refine ⟨isPartition, isReplica, ?_⟩
    rw [← isPlace]
    exact (place_without_eq_iff distinct (scoresDiffer partition) isLost
      isLeft).mpr
        (kept partition isPartition node isNode differs (isPlace ▸ isReplica))

end Order

/-- A score that is the capacity times a positive factor of the node. -/
def weightedByCapacity : WeightedHrwScore Nat :=
  fun nodeId _ _ capacity =>
    capacity.val *
      if nodeId = "a" then 1 else if nodeId = "b" then 2 else 3

theorem placement_order_free_threeNodes :
    assignReplicas weightedByCapacity 0 2 threeNodes.reverse =
      assignReplicas weightedByCapacity 0 2 threeNodes :=
  ((placement_order_free_iff weightedByCapacity threeNodes (by decide) 0
    2).mpr (by decide) threeNodes.reverse threeNodes.reverse_perm).1

theorem replicas_stay_threeNodes :
    ((0, 1) : U32 × U32) ∈
      computeDesiredAssignment weightedByCapacity "b" 1 2
        (threeNodes.filter fun other => other.id ≠ "a") ⟨[], 0, none⟩ :=
  (replicas_stay_iff weightedByCapacity threeNodes (by decide)
    (fun partition => by
      change (threeNodes.map (nodeScore weightedByCapacity 0)).Nodup
      decide)
    (threeNodes.get ⟨0, by decide⟩) (get_mem _ _) 1 2 ⟨[], 0, none⟩
    rfl).mpr
      (fun partition isFirst => by
        rw [show partition = 0 from Fin.ext (Nat.lt_one_iff.mp isFirst)]
        decide)
      (threeNodes.get ⟨1, by decide⟩) (get_mem _ _) (by decide) (0, 1)
      (by decide)

/-- The node of the first replica is lost: the node that stored the second
replica stores the first one instead. -/
theorem replica_abandoned :
    ((0, 1) : U32 × U32) ∈
        computeDesiredAssignment weightedByCapacity "b" 1 2 threeNodes
          ⟨[], 0, none⟩ ∧
      ((0, 1) : U32 × U32) ∉
        computeDesiredAssignment weightedByCapacity "b" 1 2
          (threeNodes.filter fun other => other.id ≠ "c") ⟨[], 0, none⟩ := by
  decide

/-- Two nodes without capacity score alike, and the first one listed wins. -/
theorem placement_depends_on_listing :
    (([⟨"a", 0, fun _ => none⟩, ⟨"b", 0, fun _ => none⟩] :
        List NodeDescriptor).map NodeDescriptor.id).Nodup ∧
      assignReplicas weightedByCapacity 0 1
          [⟨"a", 0, fun _ => none⟩, ⟨"b", 0, fun _ => none⟩] ≠
        assignReplicas weightedByCapacity 0 1
          [⟨"b", 0, fun _ => none⟩, ⟨"a", 0, fun _ => none⟩] := by
  decide

end Mitiflow
