import Mitiflow.PlacementOrder

namespace Mitiflow

open Library List

/-!
# The set of replicas

A partition is stored on as many different nodes as it asks for, as far as
there are nodes, and on as many racks.  A node that joins may take a place in
the set; it brings no other node into it.
-/

/-- A choice of as many different nodes as there can be. -/
structure ReplicaSet
    (replicationFactor : U32)
    (nodes : List NodeDescriptor)
    (selected : List String) : Prop where
  distinct : selected.Nodup
  known : ∀ nodeId ∈ selected, nodeId ∈ nodes.map NodeDescriptor.id
  length : selected.length = min replicationFactor.val nodes.length

/-- The racks on which a selection is. -/
def racksOf
    (nodes : List NodeDescriptor)
    (selected : List String) : List String :=
  ((nodes.filter fun node => node.id ∈ selected).map
    NodeDescriptor.rack).dedup

variable {nodes : List NodeDescriptor} {replicationFactor : U32}

theorem FullSelection.replicaSet
    {selected : List String}
    (distinct : (nodes.map NodeDescriptor.id).Nodup)
    (full :
      FullSelection replicationFactor (nodes.map NodeDescriptor.id)
        selected) :
    ReplicaSet replicationFactor nodes selected where
  distinct := full.distinct
  known := full.known
  length := by
    rw [full.length_eq distinct, length_map]

/-- The racks of a selection do not depend on how the nodes are listed. -/
theorem length_racksOf_map_id
    (distinct : (nodes.map NodeDescriptor.id).Nodup)
    {chosen : List NodeDescriptor}
    (areNodes : ∀ node ∈ chosen, node ∈ nodes) :
    (racksOf nodes (chosen.map NodeDescriptor.id)).length =
      (chosen.map NodeDescriptor.rack).dedup.length := by
  refine ((perm_ext_iff_of_nodup (nodup_dedup _)
    (nodup_dedup _)).mpr fun rack => ?_).length_eq
  simp only [mem_dedup, mem_map, mem_filter,
    decide_eq_true_eq]
  constructor
  · rintro ⟨node, ⟨isNode, other, isChosen, sameId⟩, isRack⟩
    have same : other = node :=
      inj_on_of_nodup_map distinct (areNodes other isChosen) isNode
        sameId
    exact ⟨other, isChosen, same ▸ isRack⟩
  · rintro ⟨node, isChosen, isRack⟩
    exact ⟨node, ⟨areNodes node isChosen, node, isChosen, rfl⟩, isRack⟩

section Sets

variable {Score : Type} [LinearOrder Score]

/-- Both ways of choosing replicas give as many different nodes as there can
be, and the one that minds racks as many racks. -/
theorem replica_sets_full
    (weightedHrwScore : WeightedHrwScore Score)
    (nodes : List NodeDescriptor)
    (distinct : (nodes.map NodeDescriptor.id).Nodup)
    (partition replicationFactor : U32) :
    ReplicaSet replicationFactor nodes
        (assignReplicas weightedHrwScore partition replicationFactor
          nodes) ∧
      ReplicaSet replicationFactor nodes
        (assignReplicasRackAware weightedHrwScore partition
          replicationFactor nodes) ∧
      (racksOf nodes
          (assignReplicasRackAware weightedHrwScore partition
            replicationFactor nodes)).length =
        min replicationFactor.val
          (nodes.map NodeDescriptor.rack).dedup.length := by
  refine ⟨(full_assignReplicas distinct _ _).replicaSet distinct,
    (full_assignReplicasRackAware distinct _ _).replicaSet distinct, ?_⟩
  have isRanked := @perm_scored _ _ weightedHrwScore partition nodes
  have areNodes :
      ∀ node ∈ (groupOrder NodeDescriptor.rack
          (scored weightedHrwScore partition nodes)).take
            replicationFactor.val,
        node ∈ nodes := by
    intro node isTaken
    exact ((perm_groupOrder _).trans isRanked).mem_iff.mp
      (mem_of_mem_take isTaken)
  rw [assignReplicasRackAware_eq distinct,
    length_racksOf_map_id distinct areNodes, length_dedup_take_groupOrder,
    (isRanked.map NodeDescriptor.rack).dedup.length_eq]

theorem replica_sets_full_threeNodes :
    (racksOf threeNodes
      (assignReplicasRackAware weightedByCapacity 0 3 threeNodes)).length =
        2 :=
  (replica_sets_full weightedByCapacity threeNodes (by decide) 0 3).2.2.trans
    (by decide)

variable {weightedHrwScore : WeightedHrwScore Score} {partition : U32}

/-- A node that joins takes a place in the ranking of the others. -/
theorem exists_scored_cons
    (scoresDiffer :
      (nodes.map (nodeScore weightedHrwScore partition)).Nodup)
    {joined : NodeDescriptor}
    {grown : List NodeDescriptor}
    (isGrown : grown.Perm (joined :: nodes)) :
    ∃ front back,
      scored weightedHrwScore partition grown = front ++ joined :: back ∧
        scored weightedHrwScore partition nodes = front ++ back := by
  have isRanked := (@perm_scored _ _ weightedHrwScore partition grown).trans
    isGrown
  obtain ⟨front, back, split⟩ :=
    append_of_mem (isRanked.mem_iff.mpr mem_cons_self)
  have ranked := @ranked_scored _ _ weightedHrwScore partition grown
  rw [split] at isRanked ranked
  have others : (front ++ back).Perm nodes :=
    (perm_middle.symm.trans isRanked).cons_inv
  have othersRanked :
      Ranked (nodeScore weightedHrwScore partition) (front ++ back) :=
    List.Pairwise.sublist
      (List.Sublist.append_left (sublist_cons_self _ _) front) ranked
  refine ⟨front, back, split, ?_⟩
  rw [← scored_perm scoresDiffer others, scored_of_ranked othersRanked]

end Sets

/-- A node that joins, with any rack and any score, brings no other node into
the set of replicas; and when it leaves, no other node loses its place in the
set. -/
theorem replica_set_stable
    {Score : Type}
    [LinearOrder Score]
    (weightedHrwScore : WeightedHrwScore Score)
    (partition : U32)
    (nodes : List NodeDescriptor)
    (scoresDiffer :
      (nodes.map (nodeScore weightedHrwScore partition)).Nodup)
    (joined : NodeDescriptor)
    (grown : List NodeDescriptor)
    (isGrown : grown.Perm (joined :: nodes))
    (distinct : (grown.map NodeDescriptor.id).Nodup)
    (replicationFactor : U32) :
    ∀ nodeId ∈
        assignReplicasRackAware weightedHrwScore partition replicationFactor
          grown,
      nodeId = joined.id ∨
        nodeId ∈
          assignReplicasRackAware weightedHrwScore partition
            replicationFactor nodes := by
  have othersDistinct : (nodes.map NodeDescriptor.id).Nodup :=
    ((isGrown.map NodeDescriptor.id).nodup_iff.mp distinct).of_cons
  obtain ⟨front, back, ranked, othersRanked⟩ :=
    exists_scored_cons scoresDiffer isGrown
  rw [assignReplicasRackAware_eq distinct,
    assignReplicasRackAware_eq othersDistinct, ranked, othersRanked]
  intro nodeId isSelected
  obtain ⟨node, isTaken, isId⟩ := mem_map.mp isSelected
  rcases mem_take_groupOrder_of_insert isTaken with isJoined | wasTaken
  · exact Or.inl (isJoined ▸ isId.symm)
  · exact Or.inr (mem_map.mpr ⟨node, wasTaken, isId⟩)

/-- A node of a rack of its own joins and comes second by its score. -/
theorem replica_set_stable_threeNodes :
    let grown := assignReplicasRackAware weightedByCapacity 0 2
      (⟨"d", 80, fun _ => some "r3"⟩ :: threeNodes)
    grown.length = 2 ∧ ∀ nodeId ∈ grown, nodeId = "d" ∨
      nodeId ∈ assignReplicasRackAware weightedByCapacity 0 2 threeNodes :=
  ⟨by decide, replica_set_stable weightedByCapacity 0 threeNodes (by decide)
    ⟨"d", 80, fun _ => some "r3"⟩ _ (List.Perm.refl _) (by decide) 2⟩

end Mitiflow
