import Mitiflow.ClusterView
import Mitiflow.OverrideManager
import Mitiflow.PlacementOrder

namespace Mitiflow

open Library List

/-!
# Draining a node

For maintenance the orchestrator moves everything off a node.  It looks up the
replicas that the table of assignments gives to the node, and publishes for
each an override to the best other node.  A replica that another node reports
too may be missing from what the node is taken to own.
-/

def OverrideEntry.key (entry : OverrideEntry) : StoreKey :=
  (entry.partition, entry.replica)

/-- A node as a placement sees it, with defaults for missing metadata. -/
def NodeInfo.descriptor (info : NodeInfo) (nodeId : String) :
    NodeDescriptor where
  id := nodeId
  capacity := (info.metadata.map NodeMetadata.capacity).getD 100
  labels := (info.metadata.map NodeMetadata.labels).getD fun _ => none

def ClusterView.descriptors (view : ClusterView) : List NodeDescriptor :=
  view.nodes.keys.filterMap fun nodeId =>
    (view.nodes.get? nodeId).bind fun info =>
      if info.online then some (info.descriptor nodeId) else none

/-- The replicas that the assignments give to a node. -/
def ownedBy
    (assignments : ListedMap StoreKey AssignmentInfo)
    (nodeId : String) : List StoreKey :=
  assignments.keys.filter fun key =>
    (assignments.get? key).any fun info => info.nodeId = nodeId

def alternativesTo (nodeId : String) (allNodes : List NodeDescriptor) :
    List NodeDescriptor :=
  allNodes.filter fun node => node.id ≠ nodeId

/-- An entry counts if it is the only one for its replica. -/
theorem entryFor_eq_some_iff
    {table : OverrideTable}
    (oneEach : OverrideManager.OneEach table.entries)
    {partition replica : U32}
    {entry : OverrideEntry} :
    table.entryFor partition replica = some entry ↔
      entry ∈ table.entries ∧ entry.key = (partition, replica) := by
  have isFor (other : OverrideEntry) :
      (other.partition = partition ∧ other.replica = replica) ↔
        other.key = (partition, replica) :=
    Prod.mk.injEq .. ▸ Iff.rfl
  constructor
  · intro isFound
    refine ⟨mem_of_find?_eq_some isFound, (isFor entry).mp ?_⟩
    simpa using List.find?_some isFound
  · rintro ⟨isEntry, isKey⟩
    obtain ⟨found, isFound⟩ : ∃ found,
        table.entryFor partition replica = some found := by
      rw [← Option.isSome_iff_exists, OverrideTable.entryFor, List.find?_isSome]
      exact ⟨entry, isEntry, decide_eq_true ((isFor entry).mpr isKey)⟩
    have foundKey : found.key = (partition, replica) :=
      (isFor found).mp (by simpa using List.find?_some isFound)
    rw [isFound, inj_on_of_nodup_map oneEach
      (mem_of_find?_eq_some isFound) isEntry
      (foundKey.trans isKey.symm)]

section Drain

variable {Score : Type} [LinearOrder Score]
  (weightedHrwScore : WeightedHrwScore Score)

/-- The entries that move everything off a node. -/
def computeDrainOverrides
    (nodeId : String)
    (assignments : ListedMap StoreKey AssignmentInfo)
    (allNodes : List NodeDescriptor)
    (replicationFactor : U32) : List OverrideEntry :=
  let owned := ownedBy assignments nodeId
  if owned.isEmpty then
    []
  else
    let alternatives := alternativesTo nodeId allNodes
    match alternatives with
    | [] => []
    | first :: _ =>
      owned.map fun (partition, replica) =>
        let chain :=
          assignReplicasRackAware weightedHrwScore partition
            replicationFactor alternatives
        { partition := partition
          replica := replica
          nodeId := chain.head?.getD first.id
          reason := drainReason nodeId }

/--
Compute the entries from the assignments and the nodes, which are read from the
view one after the other, and publish them, if there are any.
-/
def drainNode
    (nodeId : String)
    (view : ClusterView)
    (assignments : ListedMap StoreKey AssignmentInfo)
    (manager : OverrideManager)
    (replicationFactor : U32)
    (now : DateTime) : OverrideManager × List OverrideEntry :=
  let overrides :=
    computeDrainOverrides weightedHrwScore nodeId assignments
      view.descriptors replicationFactor
  if overrides.isEmpty then
    (manager, overrides)
  else
    (manager.runCall (.addEntries overrides none, now), overrides)

/-! ## The entries of a drain -/

/-- The node that takes over the replicas of a partition, if there is one. -/
def drainTarget
    (nodeId : String)
    (allNodes : List NodeDescriptor)
    (replicationFactor partition : U32) : Option String :=
  (alternativesTo nodeId allNodes).head?.map fun first =>
    (assignReplicasRackAware weightedHrwScore partition replicationFactor
      (alternativesTo nodeId allNodes)).head?.getD first.id

variable {weightedHrwScore}

/-- Every owned replica goes to the target of its partition. -/
theorem computeDrainOverrides_eq
    (nodeId : String)
    (assignments : ListedMap StoreKey AssignmentInfo)
    (allNodes : List NodeDescriptor)
    (replicationFactor : U32) :
    computeDrainOverrides weightedHrwScore nodeId assignments allNodes
        replicationFactor =
      (ownedBy assignments nodeId).filterMap fun key =>
        (drainTarget weightedHrwScore nodeId allNodes replicationFactor
          key.1).map fun target =>
            ⟨key.1, key.2, target, drainReason nodeId⟩ := by
  simp only [computeDrainOverrides, drainTarget]
  split
  · next isNone =>
      rw [isEmpty_iff.mp isNone, filterMap_nil]
  · split
    · next noOther => simp [noOther]
    · next first rest isOther =>
        rw [isOther, ← filterMap_eq_map]
        rfl

theorem mem_ownedBy
    {assignments : ListedMap StoreKey AssignmentInfo}
    {nodeId : String}
    {key : StoreKey} :
    key ∈ ownedBy assignments nodeId ↔
      (assignments.get? key).map AssignmentInfo.nodeId = some nodeId := by
  rw [ownedBy, mem_filter, assignments.mem_keys]
  cases assignments.get? key <;> simp

theorem nodup_ownedBy
    (assignments : ListedMap StoreKey AssignmentInfo)
    (nodeId : String) :
    (ownedBy assignments nodeId).Nodup :=
  assignments.nodup.filter _

variable {allNodes : List NodeDescriptor}

theorem mem_computeDrainOverrides
    {nodeId : String}
    {assignments : ListedMap StoreKey AssignmentInfo}
    {replicationFactor : U32}
    {entry : OverrideEntry} :
    entry ∈ computeDrainOverrides weightedHrwScore nodeId assignments
        allNodes replicationFactor ↔
      entry.key ∈ ownedBy assignments nodeId ∧
        drainTarget weightedHrwScore nodeId allNodes replicationFactor
          entry.partition = some entry.nodeId ∧
        entry.reason = drainReason nodeId := by
  rw [computeDrainOverrides_eq, mem_filterMap]
  constructor
  · grind [Option.map_eq_some_iff, OverrideEntry.key]
  · rintro ⟨isOwned, isTarget, isReason⟩
    refine ⟨_, isOwned, Option.map_eq_some_iff.mpr ⟨entry.nodeId, isTarget, ?_⟩⟩
    rw [← isReason]
    rfl

theorem oneEach_computeDrainOverrides
    (nodeId : String)
    (assignments : ListedMap StoreKey AssignmentInfo)
    (allNodes : List NodeDescriptor)
    (replicationFactor : U32) :
    OverrideManager.OneEach
      (computeDrainOverrides weightedHrwScore nodeId assignments allNodes
        replicationFactor) := by
  rw [OverrideManager.OneEach, computeDrainOverrides_eq, map_filterMap]
  refine (nodup_ownedBy assignments nodeId).filterMap ?_
  intro first second key isFirst isSecond
  simp only [Option.map_map, Option.mem_def, Option.map_eq_some_iff]
    at isFirst isSecond
  obtain ⟨_, -, rfl⟩ := isFirst
  obtain ⟨_, -, same⟩ := isSecond
  exact same.symm

theorem mem_of_drainTarget
    {nodeId : String}
    (distinct : (allNodes.map NodeDescriptor.id).Nodup)
    {replicationFactor partition : U32}
    {target : String}
    (isTarget :
      drainTarget weightedHrwScore nodeId allNodes replicationFactor
        partition = some target) :
    target ∈ allNodes.map NodeDescriptor.id ∧ target ≠ nodeId := by
  obtain ⟨first, isFirst, isChosen⟩ := Option.map_eq_some_iff.mp isTarget
  have firstOther := mem_of_mem_head? isFirst
  have otherDistinct :
      ((alternativesTo nodeId allNodes).map NodeDescriptor.id).Nodup :=
    distinct.sublist (filter_sublist.map _)
  have isOther :
      target ∈ (alternativesTo nodeId allNodes).map NodeDescriptor.id := by
    cases isHead : (assignReplicasRackAware weightedHrwScore partition
        replicationFactor (alternativesTo nodeId allNodes)).head? with
    | none =>
      rw [isHead, Option.getD_none] at isChosen
      rw [← isChosen]
      exact mem_map_of_mem firstOther
    | some chosen =>
      rw [isHead, Option.getD_some] at isChosen
      have full := @full_assignReplicasRackAware _ _ weightedHrwScore _
        otherDistinct partition replicationFactor
      rw [← isChosen]
      exact full.known chosen (mem_of_mem_head? isHead)
  obtain ⟨node, isNode, rfl⟩ := mem_map.mp isOther
  rw [alternativesTo, mem_filter] at isNode
  exact ⟨mem_map_of_mem isNode.1, of_decide_eq_true isNode.2⟩

/-- The target is the node of the highest score among the others. -/
theorem drainTarget_eq_head?
    {nodeId : String}
    (distinct : (allNodes.map NodeDescriptor.id).Nodup)
    {replicationFactor : U32}
    (positive : 0 < replicationFactor.val)
    (partition : U32) :
    drainTarget weightedHrwScore nodeId allNodes replicationFactor
        partition =
      (scored weightedHrwScore partition
        (alternativesTo nodeId allNodes)).head?.map NodeDescriptor.id := by
  have otherDistinct :
      ((alternativesTo nodeId allNodes).map NodeDescriptor.id).Nodup :=
    distinct.sublist (filter_sublist.map _)
  have isPerm := @perm_scored _ _ weightedHrwScore partition
    (alternativesTo nodeId allNodes)
  obtain ⟨bound, isBound⟩ := Nat.exists_eq_succ_of_ne_zero positive.ne'
  rw [drainTarget, assignReplicasRackAware_eq otherDistinct, isBound]
  cases isRanked : scored weightedHrwScore partition
      (alternativesTo nodeId allNodes) with
  | nil =>
    rw [isRanked] at isPerm
    rw [← isPerm.nil_eq]
    rfl
  | cons first rest =>
    cases isOther : alternativesTo nodeId allNodes with
    | nil =>
      rw [isRanked, isOther] at isPerm
      cases isPerm.eq_nil
    | cons other others =>
      rw [groupOrder, firsts, if_neg not_mem_nil]
      rfl

/-! ## What a drain moves -/

/-- There is one entry for a replica, to an online node other than one. -/
def Evacuates
    (view : ClusterView)
    (nodeId : String)
    (entries : List OverrideEntry)
    (key : StoreKey) : Prop :=
  (entries.map OverrideEntry.key).count key = 1 ∧
    ∀ entry ∈ entries, entry.key = key →
      view.isNodeOnline entry.nodeId ∧ entry.nodeId ≠ nodeId

theorem map_id_descriptors (view : ClusterView) :
    view.descriptors.map NodeDescriptor.id =
      view.nodes.keys.filter view.isNodeOnline := by
  rw [ClusterView.descriptors, map_filterMap, ← filterMap_eq_filter]
  congr 1
  funext nodeId
  cases isKnown : view.nodes.get? nodeId with
  | none => simp [ClusterView.isNodeOnline, Option.guard, isKnown]
  | some info =>
    cases online : info.online <;>
      simp [ClusterView.isNodeOnline, Option.guard, isKnown, online,
        NodeInfo.descriptor]

theorem mem_descriptors
    {view : ClusterView}
    {nodeId : String} :
    nodeId ∈ view.descriptors.map NodeDescriptor.id ↔
      view.isNodeOnline nodeId := by
  rw [map_id_descriptors, mem_filter]
  refine and_iff_right_of_imp fun online => ?_
  rw [view.nodes.mem_keys]
  cases isKnown : view.nodes.get? nodeId with
  | none =>
    rw [ClusterView.isNodeOnline, isKnown] at online
    cases online
  | some info => rfl

theorem nodup_descriptors (view : ClusterView) :
    (view.descriptors.map NodeDescriptor.id).Nodup := by
  rw [map_id_descriptors]
  exact view.nodes.nodup.filter _

theorem map_key_computeDrainOverrides
    {nodeId : String}
    (hasOther : ∃ node ∈ allNodes, node.id ≠ nodeId)
    (assignments : ListedMap StoreKey AssignmentInfo)
    (replicationFactor : U32) :
    (computeDrainOverrides weightedHrwScore nodeId assignments allNodes
        replicationFactor).map OverrideEntry.key =
      ownedBy assignments nodeId := by
  simp only [computeDrainOverrides]
  split
  · next isNone => rw [isEmpty_iff.mp isNone, map_nil]
  · split
    · next noOther =>
        obtain ⟨node, isNode, differs⟩ := hasOther
        have isOther : node ∈ alternativesTo nodeId allNodes :=
          mem_filter.mpr ⟨isNode, decide_eq_true differs⟩
        rw [noOther] at isOther
        cases isOther
    · rw [map_map]
      exact map_id _

/-- A drain moves exactly the replicas that a node is taken to own. -/
theorem evacuates_iff
    {view : ClusterView}
    {nodeId : String}
    (hasOther : ∃ other, other ≠ nodeId ∧ view.isNodeOnline other)
    (assignments : ListedMap StoreKey AssignmentInfo)
    (replicationFactor : U32)
    (key : StoreKey) :
    Evacuates view nodeId
        (computeDrainOverrides weightedHrwScore nodeId assignments
          view.descriptors replicationFactor) key ↔
      (assignments.get? key).map AssignmentInfo.nodeId = some nodeId := by
  have anotherNode : ∃ node ∈ view.descriptors, node.id ≠ nodeId := by
    obtain ⟨other, differs, online⟩ := hasOther
    obtain ⟨node, isNode, rfl⟩ := mem_map.mp (mem_descriptors.mpr online)
    exact ⟨node, isNode, differs⟩
  rw [Evacuates, map_key_computeDrainOverrides anotherNode, ← mem_ownedBy]
  constructor
  · rintro ⟨once, -⟩
    exact count_pos_iff.mp (once ▸ Nat.one_pos)
  · intro isOwned
    refine ⟨count_eq_one_of_mem (nodup_ownedBy assignments nodeId)
      isOwned, fun entry isEntry _ => ?_⟩
    obtain ⟨-, isTarget, -⟩ := mem_computeDrainOverrides.mp isEntry
    have isOther := mem_of_drainTarget (nodup_descriptors view) isTarget
    exact ⟨mem_descriptors.mp isOther.1, isOther.2⟩

section

variable
  (nodeId : String)
  (view : ClusterView)
  (assignments : ListedMap StoreKey AssignmentInfo)
  (manager : OverrideManager)
  (replicationFactor : U32)

theorem entries_drainNode
    (now : DateTime) :
    (drainNode weightedHrwScore nodeId view assignments manager
        replicationFactor now).1.entries =
      (computeDrainOverrides weightedHrwScore nodeId assignments
        view.descriptors replicationFactor).foldl mergeEntry
          manager.entries := by
  simp only [drainNode]
  split
  · next isNone => rw [isEmpty_iff.mp isNone, foldl_nil]
  · rfl

theorem drainNode_snd
    (now : DateTime) :
    (drainNode weightedHrwScore nodeId view assignments manager
        replicationFactor now).2 =
      computeDrainOverrides weightedHrwScore nodeId assignments
        view.descriptors replicationFactor := by
  simp only [drainNode]
  split <;> rfl

end

variable (weightedHrwScore)

/--
A drain moves every replica in the report of a node, in whatever order the
assignments are listed.
-/
def DrainEvacuates
    (view : ClusterView)
    (nodeId : String)
    (manager : OverrideManager)
    (replicationFactor : U32)
    (now : DateTime) : Prop :=
  ∀ listing (lists : listing.Perm view.assignments.keys),
    ∀ key, view.Reports nodeId key →
      Evacuates view nodeId
        (drainNode weightedHrwScore nodeId view
          (view.assignments.relist listing lists) manager replicationFactor
          now).2 key

theorem drainEvacuates_iff_listedAfter
    {view : ClusterView}
    {nodeId : String}
    (hasOther : ∃ other, other ≠ nodeId ∧ view.isNodeOnline other)
    (manager : OverrideManager)
    (replicationFactor : U32)
    (now : DateTime) :
    DrainEvacuates weightedHrwScore view nodeId manager replicationFactor
        now ↔
      ∀ key, view.Reports nodeId key →
        ∀ other ∈ view.listedAfter nodeId, ¬ view.Reports other key := by
  constructor
  · intro evacuates key reports
    rw [← ClusterView.owner_eq_iff reports]
    have moved := evacuates _ (List.Perm.refl _) key reports
    rw [drainNode_snd, evacuates_iff hasOther] at moved
    exact moved
  · intro silent listing lists key reports
    rw [drainNode_snd, evacuates_iff hasOther]
    exact (ClusterView.owner_eq_iff reports).mpr (silent key reports)

/--
A drain moves every replica in the report of the node exactly if none of them
is reported by a node that is listed after it.  It does so however the nodes
are listed exactly if no other node reports any of them.
-/
theorem drain_evacuates_iff
    (view : ClusterView)
    (nodeId : String)
    (hasOther : ∃ other, other ≠ nodeId ∧ view.isNodeOnline other)
    (manager : OverrideManager)
    (replicationFactor : U32)
    (now : DateTime) :
    (DrainEvacuates weightedHrwScore view nodeId manager replicationFactor
        now ↔
      ∀ key, view.Reports nodeId key →
        ∀ other ∈ view.listedAfter nodeId, ¬ view.Reports other key) ∧
    ((∀ order (lists : order.Perm view.nodes.keys),
        DrainEvacuates weightedHrwScore (view.relist order lists) nodeId
          manager replicationFactor now) ↔
      ∀ key, view.Reports nodeId key →
        ∀ other ∈ view.nodes.keys, other ≠ nodeId →
          ¬ view.Reports other key) := by
  have exact := fun order (lists : order.Perm view.nodes.keys) =>
    @drainEvacuates_iff_listedAfter _ _ weightedHrwScore
      (view.relist order lists) nodeId hasOther manager replicationFactor now
  refine ⟨exact _ (List.Perm.refl _), ?_, ?_⟩
  · intro always key reports other isKey differs
    have isListed := ClusterView.mem_keys_of_reports reports
    -- The node is listed first, so that all others come after it.
    have lists : (nodeId :: view.nodes.keys.erase nodeId).Perm
        view.nodes.keys :=
      (perm_cons_erase isListed).symm
    refine (exact _ lists).mp (always _ lists) key reports other ?_
    rw [ClusterView.listedAfter, ClusterView.relist, ListedMap.relist,
      dropWhile_cons_of_neg (by simp), tail_cons]
    exact (mem_erase_of_ne differs).mpr isKey
  · intro silent order lists
    refine (exact order lists).mpr fun key reports other isAfter => ?_
    have isListed : nodeId ∈ (view.relist order lists).nodes.keys :=
      lists.mem_iff.mpr (ClusterView.mem_keys_of_reports reports)
    obtain ⟨before, isSplit⟩ := ClusterView.keys_eq_listedAfter isListed
    have distinct := (view.relist order lists).nodes.nodup
    rw [isSplit, nodup_append, nodup_cons] at distinct
    refine silent key reports other (lists.mem_iff.mp ?_) ?_
    · rw [show order = (view.relist order lists).nodes.keys from rfl, isSplit]
      exact mem_append_right _ (mem_cons_of_mem _ isAfter)
    · rintro rfl
      exact distinct.2.1.1 isAfter

end Drain

/-- Two online nodes; the second one reports one store in some state. -/
def twoReports (second : PartitionStatus) : ClusterView :=
  ⟨.ofItems
    [("a", ⟨none, some ⟨[⟨0, 0, .active⟩]⟩, true⟩),
      ("b", ⟨none, some ⟨[second]⟩, true⟩)]
    Prod.fst Prod.snd (show ["a", "b"].Nodup by decide)⟩

/-- The nodes report different replicas, and either one is listed first. -/
theorem drain_evacuates_separate :
    let view := twoReports ⟨1, 0, .active⟩
    DrainEvacuates weightedByCapacity
        (view.relist ["a", "b"] (by decide)) "a" .new 1 0 ∧
      DrainEvacuates weightedByCapacity
        (view.relist ["b", "a"] (by decide)) "a" .new 1 0 := by
  have evacuates := (drain_evacuates_iff weightedByCapacity
    (twoReports ⟨1, 0, .active⟩) "a" ⟨"b", by decide, by decide⟩
    .new 1 0).2.mpr (by
      rintro key ⟨status, isStatus, rfl⟩
      rw [mem_singleton.mp isStatus]
      decide)
  exact ⟨evacuates _ _, evacuates _ _⟩

/-- The second node still drains the replica that the first one reports: the
first one is taken to own nothing, and the drain moves nothing. -/
theorem drain_moves_nothing :
    let view := twoReports ⟨0, 0, .draining⟩
    view.isNodeOnline "b" ∧ view.Reports "a" (0, 0) ∧
      (drainNode weightedByCapacity "a" view view.assignments .new 1 0).2 =
        [] := by
  decide

end Mitiflow
