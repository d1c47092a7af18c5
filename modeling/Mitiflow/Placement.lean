import Mitiflow.HashRing
import Mitiflow.Library.RankedGroups

namespace Mitiflow

open Library List

/-!
# Placement of replicas

A storage agent decides on its own which replicas of which partitions it
stores.  An override entry decides first; otherwise the nodes are ranked by a
weighted score, with racks kept apart as far as possible when nodes carry rack
labels.  All agents compute from the same nodes and the same overrides.

The score is a floating-point number of a hash and is a parameter here: a
function into a linear order, as `total_cmp` gives one.
-/

/-- A node of the cluster. -/
structure NodeDescriptor where
  id : String
  capacity : U32
  labels : String → Option String

/-- The rack of a node; nodes without the label share one. -/
def NodeDescriptor.rack (node : NodeDescriptor) : String :=
  (node.labels "rack").getD ""

/-- A manual placement of one replica. -/
structure OverrideEntry where
  partition : U32
  replica : U32
  nodeId : String
  reason : String
  deriving Repr, DecidableEq

/-- The overrides that the orchestrator published. -/
structure OverrideTable where
  entries : List OverrideEntry
  epoch : Nat
  expiresAt : Option DateTime
  deriving Repr, DecidableEq

section Placement

variable {Score : Type} [LinearOrder Score]

/-- The score of a node id for a partition and a replica under a weight. -/
abbrev WeightedHrwScore (Score : Type) :=
  String → U32 → U32 → U32 → Score

variable (weightedHrwScore : WeightedHrwScore Score)

/-- The nodes by descending score; equal scores keep their order. -/
def scored (partition : U32) (nodes : List NodeDescriptor) :
    List NodeDescriptor :=
  let score (node : NodeDescriptor) :=
    weightedHrwScore node.id partition 0 node.capacity
  nodes.insertionSort fun first second => score second ≤ score first

def assignReplicas
    (partition replicationFactor : U32)
    (nodes : List NodeDescriptor) : List String :=
  ((scored weightedHrwScore partition nodes).take replicationFactor.val).map
    NodeDescriptor.id

/-- The first pass: a node of a rack that is not used yet. -/
def selectRack
    (replicationFactor : U32)
    (chosen : List String × List String)
    (node : NodeDescriptor) : List String × List String :=
  let (selected, usedRacks) := chosen
  if replicationFactor.val ≤ selected.length then
    chosen
  else
    let rack := (node.labels "rack").getD ""
    if rack ∈ usedRacks then
      chosen
    else
      (selected ++ [node.id], usedRacks ++ [rack])

/-- The second pass: any node that is not selected yet. -/
def fillSlot
    (replicationFactor : U32)
    (selected : List String)
    (node : NodeDescriptor) : List String :=
  if replicationFactor.val ≤ selected.length then
    selected
  else if node.id ∈ selected then
    selected
  else
    selected ++ [node.id]

/-- The best nodes of different racks, then the best of the others. -/
def assignReplicasRackAware
    (partition replicationFactor : U32)
    (nodes : List NodeDescriptor) : List String :=
  let ranked := scored weightedHrwScore partition nodes
  let (selected, _) := ranked.foldl (selectRack replicationFactor) ([], [])
  if selected.length < replicationFactor.val then
    ranked.foldl (fillSlot replicationFactor) selected
  else
    selected

def replicasOf
    (partition replicationFactor : U32)
    (nodes : List NodeDescriptor) : List String :=
  if nodes.any fun node => (node.labels "rack").isSome then
    assignReplicasRackAware weightedHrwScore partition replicationFactor nodes
  else
    assignReplicas weightedHrwScore partition replicationFactor nodes

/-- The first entry for a replica. -/
def OverrideTable.entryFor
    (overrides : OverrideTable)
    (partition replica : U32) : Option OverrideEntry :=
  overrides.entries.find? fun entry =>
    entry.partition = partition ∧ entry.replica = replica

/-- The body of the loops: whether a node takes a replica. -/
def takesReplica
    (selfNodeId : String)
    (replicationFactor : U32)
    (nodes : List NodeDescriptor)
    (overrides : OverrideTable)
    (partition replica : U32) : Bool :=
  match overrides.entryFor partition replica with
  | some entry => entry.nodeId = selfNodeId
  | none =>
    (replicasOf weightedHrwScore partition replicationFactor
      nodes)[replica.val]? = some selfNodeId

/-- The replicas that a node should store. -/
def computeDesiredAssignment
    (selfNodeId : String)
    (numPartitions replicationFactor : U32)
    (nodes : List NodeDescriptor)
    (overrides : OverrideTable) : List (U32 × U32) :=
  (allPartitions numPartitions).flatMap fun partition =>
    -- The replicas `0..replication_factor` are listed in the same way.
    ((allPartitions replicationFactor).filter fun replica =>
      takesReplica weightedHrwScore selfNodeId replicationFactor nodes
        overrides partition replica).map fun replica => (partition, replica)

variable {weightedHrwScore}

variable {replicationFactor : U32} {nodes : List NodeDescriptor}
  {candidates selected : List String}

theorem mem_computeDesiredAssignment
    {selfNodeId : String}
    {numPartitions : U32}
    {overrides : OverrideTable}
    {partition replica : U32} :
    (partition, replica) ∈
        computeDesiredAssignment weightedHrwScore selfNodeId numPartitions
          replicationFactor nodes overrides ↔
      partition.val < numPartitions.val ∧
        replica.val < replicationFactor.val ∧
        takesReplica weightedHrwScore selfNodeId replicationFactor nodes
          overrides partition replica = true := by
  simp only [computeDesiredAssignment, mem_flatMap, mem_map,
    mem_filter, mem_allPartitions, Prod.mk.injEq]
  constructor
  · rintro ⟨_, isPartition, _, ⟨isReplica, takes⟩, rfl, rfl⟩
    exact ⟨isPartition, isReplica, takes⟩
  · rintro ⟨isPartition, isReplica, takes⟩
    exact ⟨partition, isPartition, replica, ⟨isReplica, takes⟩, rfl, rfl⟩

theorem perm_scored (partition : U32) (nodes : List NodeDescriptor) :
    (scored weightedHrwScore partition nodes).Perm nodes :=
  perm_insertionSort _ _

/-- A choice of node ids: different ones, no more than asked for. -/
structure Selection
    (replicationFactor : U32)
    (candidates selected : List String) : Prop where
  distinct : selected.Nodup
  known : ∀ nodeId ∈ selected, nodeId ∈ candidates
  bounded : selected.length ≤ replicationFactor.val

/-- A selection that leaves no slot free while a candidate is left. -/
structure FullSelection
    (replicationFactor : U32)
    (candidates selected : List String) : Prop
    extends Selection replicationFactor candidates selected where
  filled :
    replicationFactor.val ≤ selected.length ∨
      ∀ nodeId ∈ candidates, nodeId ∈ selected

theorem FullSelection.length_eq
    (selection : FullSelection replicationFactor candidates selected)
    (candidatesDistinct : candidates.Nodup) :
    selected.length = min replicationFactor.val candidates.length := by
  have atMost : selected.length ≤ candidates.length :=
    (selection.distinct.subperm selection.known).length_le
  have bounded := selection.bounded
  rcases selection.filled with noSlot | noCandidate
  · omega
  · have atLeast : candidates.length ≤ selected.length :=
      (candidatesDistinct.subperm noCandidate).length_le
    omega

theorem nodup_scored
    (distinct : (nodes.map NodeDescriptor.id).Nodup)
    (partition : U32) :
    ((scored weightedHrwScore partition nodes).map
      NodeDescriptor.id).Nodup :=
  ((perm_scored partition nodes).map _).nodup_iff.mpr distinct

/-- The first nodes of an order leave no slot free while a node is left. -/
theorem full_take
    {order : List NodeDescriptor}
    (isOrder : order.Perm nodes)
    (distinct : (nodes.map NodeDescriptor.id).Nodup)
    (replicationFactor : U32) :
    FullSelection replicationFactor (nodes.map NodeDescriptor.id)
      ((order.take replicationFactor.val).map NodeDescriptor.id) := by
  have sameIds := isOrder.map NodeDescriptor.id
  rw [map_take]
  refine ⟨⟨?_, ?_, ?_⟩, ?_⟩
  · exact (sameIds.nodup_iff.mpr distinct).sublist (take_sublist _ _)
  · exact fun nodeId isTaken =>
      sameIds.mem_iff.mp (mem_of_mem_take isTaken)
  · rw [length_take]
    exact Nat.min_le_left _ _
  · rcases le_or_gt (order.map NodeDescriptor.id).length
        replicationFactor.val with all | some
    · rw [take_of_length_le all]
      exact Or.inr fun nodeId isNode => sameIds.mem_iff.mpr isNode
    · rw [length_take]
      exact Or.inl (Nat.le_min.mpr ⟨le_refl _, some.le⟩)

theorem full_assignReplicas
    (distinct : (nodes.map NodeDescriptor.id).Nodup)
    (partition replicationFactor : U32) :
    FullSelection replicationFactor (nodes.map NodeDescriptor.id)
      (assignReplicas weightedHrwScore partition replicationFactor
        nodes) :=
  full_take (perm_scored partition nodes) distinct replicationFactor

theorem selectRack_eq
    (replicationFactor : U32)
    (selected usedRacks : List String)
    (node : NodeDescriptor) :
    selectRack replicationFactor (selected, usedRacks) node =
      if replicationFactor.val ≤ selected.length then
        (selected, usedRacks)
      else if node.rack ∈ usedRacks then
        (selected, usedRacks)
      else
        (selected ++ [node.id], usedRacks ++ [node.rack]) :=
  rfl

theorem append_take_of_full
    {slots : Nat}
    (full : slots ≤ selected.length)
    (candidates : List String) :
    selected ++ candidates.take (slots - selected.length) = selected := by
  rw [Nat.sub_eq_zero_of_le full, take_zero, append_nil]

theorem append_take_of_free
    {slots : Nat}
    (free : ¬ slots ≤ selected.length)
    (candidate : String)
    (candidates : List String) :
    selected ++ (candidate :: candidates).take (slots - selected.length) =
      (selected ++ [candidate]) ++
        candidates.take (slots - (selected ++ [candidate]).length) := by
  obtain ⟨more, isMore⟩ := Nat.exists_eq_succ_of_ne_zero
    (Nat.sub_ne_zero_of_lt (Nat.lt_of_not_le free))
  have oneLess : slots - (selected ++ [candidate]).length = more := by
    rw [length_append, length_singleton]
    omega
  rw [oneLess, isMore, take_succ_cons, append_assoc,
    singleton_append]

/-- The first pass takes the first node of each rack. -/
theorem foldl_selectRack
    (replicationFactor : U32)
    (nodes : List NodeDescriptor)
    (selected usedRacks : List String) :
    (nodes.foldl (selectRack replicationFactor) (selected, usedRacks)).1 =
      selected ++
        ((firsts NodeDescriptor.rack usedRacks nodes).map
          NodeDescriptor.id).take
            (replicationFactor.val - selected.length) := by
  induction nodes generalizing selected usedRacks with
  | nil =>
    simp [firsts]
  | cons node rest inductionHypothesis =>
    rw [foldl_cons, selectRack_eq, firsts]
    split
    · rename_i full
      rw [inductionHypothesis, append_take_of_full full,
        append_take_of_full full]
    · rename_i free
      split
      · exact inductionHypothesis selected usedRacks
      · rw [inductionHypothesis, map_cons, append_take_of_free free]

/-- The second pass takes the other nodes. -/
theorem foldl_fillSlot
    (replicationFactor : U32)
    (distinct : (nodes.map NodeDescriptor.id).Nodup)
    {usedRacks : List String}
    (taken :
      ∀ node ∈ firsts NodeDescriptor.rack usedRacks nodes,
        node.id ∈ selected)
    (left :
      ∀ node ∈ others NodeDescriptor.rack usedRacks nodes,
        node.id ∉ selected) :
    nodes.foldl (fillSlot replicationFactor) selected =
      selected ++
        ((others NodeDescriptor.rack usedRacks nodes).map
          NodeDescriptor.id).take
            (replicationFactor.val - selected.length) := by
  induction nodes generalizing usedRacks selected with
  | nil =>
    simp [others]
  | cons node rest inductionHypothesis =>
    obtain ⟨isNew, restDistinct⟩ := nodup_cons.mp distinct
    rw [firsts] at taken
    rw [others] at left ⊢
    rw [foldl_cons, fillSlot]
    by_cases isUsed : node.rack ∈ usedRacks
    · rw [if_pos isUsed] at taken left ⊢
      have restLeft :
          ∀ other ∈ others NodeDescriptor.rack usedRacks rest,
            other.id ∉ selected :=
        fun other isOther => left other (mem_cons_of_mem _ isOther)
      by_cases full : replicationFactor.val ≤ selected.length
      · rw [if_pos full, inductionHypothesis restDistinct taken restLeft,
          append_take_of_full full, append_take_of_full full]
      · rw [if_neg full, if_neg (left node mem_cons_self),
          inductionHypothesis restDistinct, map_cons,
          append_take_of_free full]
        · exact fun other isFirst =>
            mem_append_left _ (taken other isFirst)
        · intro other isOther isSelected
          rcases mem_append.mp isSelected with before | isNode
          · exact restLeft other isOther before
          · refine isNew (mem_map.mpr
              ⟨other, (others_sublist _ _).subset isOther, ?_⟩)
            exact mem_singleton.mp isNode
    · rw [if_neg isUsed] at taken left ⊢
      have isTaken := taken node mem_cons_self
      rw [if_pos isTaken, ite_self]
      exact inductionHypothesis restDistinct
        (fun other isFirst => taken other (mem_cons_of_mem _ isFirst))
        left

section

variable (distinct : (nodes.map NodeDescriptor.id).Nodup)

include distinct

/-- The two passes take the first nodes of the order by racks. -/
theorem assignReplicasRackAware_eq
    (partition replicationFactor : U32) :
    assignReplicasRackAware weightedHrwScore partition replicationFactor
        nodes =
      ((groupOrder NodeDescriptor.rack
        (scored weightedHrwScore partition nodes)).take
          replicationFactor.val).map NodeDescriptor.id := by
  let ranked := scored weightedHrwScore partition nodes
  have rankedDistinct : (ranked.map NodeDescriptor.id).Nodup :=
    nodup_scored distinct partition
  have firstPass :
      (ranked.foldl (selectRack replicationFactor) ([], [])).1 =
        ((firsts NodeDescriptor.rack [] ranked).map
          NodeDescriptor.id).take replicationFactor.val :=
    foldl_selectRack replicationFactor ranked [] []
  have orderDistinct :
      ((firsts NodeDescriptor.rack [] ranked ++
        others NodeDescriptor.rack [] ranked).map NodeDescriptor.id).Nodup :=
    ((perm_groupOrder ranked).map _).nodup_iff.mpr rankedDistinct
  rw [map_append, nodup_append] at orderDistinct
  simp only [assignReplicasRackAware, groupOrder]
  rw [firstPass, map_take, map_append]
  split
  · rename_i short
    rw [length_take] at short
    have allFirst :
        ((firsts NodeDescriptor.rack [] ranked).map
            NodeDescriptor.id).length ≤ replicationFactor.val := by
      omega
    rw [take_of_length_le allFirst, take_append,
      take_of_length_le allFirst]
    refine foldl_fillSlot replicationFactor rankedDistinct ?_ ?_
    · exact fun node isFirst => mem_map_of_mem isFirst
    · intro node isOther isTaken
      exact orderDistinct.2.2 _ isTaken _ (mem_map_of_mem isOther) rfl
  · rename_i full
    have enough :
        replicationFactor.val ≤
          ((firsts NodeDescriptor.rack [] ranked).map
            NodeDescriptor.id).length := by
      rw [length_take] at full
      omega
    exact (take_append_of_le_length enough).symm

theorem full_assignReplicasRackAware
    (partition replicationFactor : U32) :
    FullSelection replicationFactor (nodes.map NodeDescriptor.id)
      (assignReplicasRackAware weightedHrwScore partition replicationFactor
        nodes) := by
  rw [assignReplicasRackAware_eq distinct]
  exact full_take ((perm_groupOrder _).trans (perm_scored partition nodes))
    distinct replicationFactor

/-- With or without racks, the replicas are on as many different nodes as
there can be. -/
theorem replicasOf_spec
    (partition replicationFactor : U32) :
    Selection replicationFactor (nodes.map NodeDescriptor.id)
        (replicasOf weightedHrwScore partition replicationFactor nodes) ∧
      (replicasOf weightedHrwScore partition replicationFactor
          nodes).length =
        min replicationFactor.val nodes.length := by
  have full :
      FullSelection replicationFactor (nodes.map NodeDescriptor.id)
        (replicasOf weightedHrwScore partition replicationFactor nodes) := by
    unfold replicasOf
    split
    · exact full_assignReplicasRackAware distinct _ _
    · exact full_assignReplicas distinct _ _
  have length := full.length_eq distinct
  rw [length_map] at length
  exact ⟨full.toSelection, length⟩

theorem existsUnique_id_iff
    {nodeId : String} :
    (∃! node, node ∈ nodes ∧ nodeId = node.id) ↔
      ∃ node ∈ nodes, node.id = nodeId := by
  constructor
  · rintro ⟨node, ⟨isNode, isId⟩, _⟩
    exact ⟨node, isNode, isId.symm⟩
  · rintro ⟨node, isNode, isId⟩
    refine ⟨node, ⟨isNode, isId.symm⟩, ?_⟩
    rintro other ⟨isOther, isSame⟩
    exact inj_on_of_nodup_map distinct isOther isNode
      (isSame.symm.trans isId.symm)

end

/-- A replica is on exactly one node of the list exactly if the first override
entry for it, if there is one, names a node of the list. -/
theorem covered_iff
    (weightedHrwScore : WeightedHrwScore Score)
    (nodes : List NodeDescriptor)
    (distinct : (nodes.map NodeDescriptor.id).Nodup)
    (overrides : OverrideTable)
    (numPartitions replicationFactor partition replica : U32)
    (isPartition : partition.val < numPartitions.val)
    (isReplica : replica.val < min replicationFactor.val nodes.length) :
    (∃! node,
        node ∈ nodes ∧
          (partition, replica) ∈
            computeDesiredAssignment weightedHrwScore node.id numPartitions
              replicationFactor nodes overrides) ↔
      ∀ entry,
        overrides.entryFor partition replica = some entry →
          ∃ node ∈ nodes, node.id = entry.nodeId := by
  have belowFactor : replica.val < replicationFactor.val :=
    lt_of_lt_of_le isReplica (Nat.min_le_left _ _)
  simp only [mem_computeDesiredAssignment, isPartition, belowFactor, true_and]
  cases overridden : overrides.entryFor partition replica with
  | some entry =>
    simp only [takesReplica, overridden, decide_eq_true_eq]
    rw [existsUnique_id_iff distinct]
    constructor
    · rintro named _ ⟨⟩
      exact named
    · intro named
      exact named entry rfl
  | none =>
    obtain ⟨selection, length⟩ :=
      @replicasOf_spec _ _ weightedHrwScore _ distinct partition
        replicationFactor
    rw [← length] at isReplica
    have assigned := List.getElem?_eq_getElem isReplica
    have isNode := selection.known _ (getElem_mem isReplica)
    simp only [takesReplica, overridden, assigned, Option.some_inj,
      decide_eq_true_eq]
    rw [existsUnique_id_iff distinct]
    refine ⟨?_, fun _ => mem_map.mp isNode⟩
    rintro _ _ ⟨⟩

end Placement

/-- Two nodes in one rack and one in another. -/
def threeNodes : List NodeDescriptor :=
  [⟨"a", 100, fun label => if label = "rack" then some "r1" else none⟩,
    ⟨"b", 100, fun label => if label = "rack" then some "r1" else none⟩,
    ⟨"c", 100, fun label => if label = "rack" then some "r2" else none⟩]

theorem covered_threeNodes :
    ∃! node,
      node ∈ threeNodes ∧
        ((1, 2) : U32 × U32) ∈
          computeDesiredAssignment (fun _ _ _ _ => 0) node.id 2 3 threeNodes
            ⟨[⟨1, 0, "c", "pin"⟩], 1, none⟩ :=
  (covered_iff (fun _ _ _ _ => 0) threeNodes (by decide)
    ⟨[⟨1, 0, "c", "pin"⟩], 1, none⟩ 2 3 1 2 (by decide) (by decide)).mpr
    (by rintro _ ⟨⟩)

/-- An override names a node that is gone: no node stores the replica. -/
theorem uncovered_when_offline :
    (threeNodes.map NodeDescriptor.id).Nodup ∧
      ¬ ∃ node ∈ threeNodes,
        ((0, 0) : U32 × U32) ∈
          computeDesiredAssignment
            (fun nodeId _ _ _ =>
              if nodeId = "a" then 0 else if nodeId = "b" then 1 else 2)
            node.id 1 1 threeNodes ⟨[⟨0, 0, "gone", "pin"⟩], 1, none⟩ := by
  decide

end Mitiflow
