import Mitiflow.Drain
import Mitiflow.Library.GuardedRun

namespace Mitiflow

open Library List

/-!
# Drains and undrains of several nodes

Nodes are drained and undrained one after the other, and before each operation
every agent has applied the published table and reported what it stores.  A
drain knows nothing of the other drained nodes: it may send replicas to one of
them, and an undrain gives replicas back to whatever node the hash names.  The
agents list the nodes in orders of their own, so that two of them may store a
replica for which two nodes score the same.
-/

/-- The nodes of a cluster whose membership is fixed. -/
structure FixedCluster where
  /-- The nodes as the orchestrator lists them. -/
  nodes : List NodeDescriptor
  distinct : (nodes.map NodeDescriptor.id).Nodup
  /-- The nodes as an agent lists them. -/
  listing : String → List NodeDescriptor
  lists : ∀ nodeId, (listing nodeId).Perm nodes
  numPartitions : U32
  replicationFactor : U32

/-- The published overrides and the nodes that are drained. -/
structure DrainHistory where
  manager : OverrideManager
  drained : List String
  deriving Repr, DecidableEq

/-- An operation; a drain reads the assignments in some order. -/
inductive DrainOperation where
  | drainNode (nodeId : String) (listing : List StoreKey) (now : DateTime)
  | undrainNode (nodeId : String) (now : DateTime)
  deriving Repr, DecidableEq

namespace FixedCluster

section History

variable {Score : Type} [LinearOrder Score]
  (weightedHrwScore : WeightedHrwScore Score)

/-- What a node stores under a table. -/
def desired
    (cluster : FixedCluster)
    (table : OverrideTable)
    (nodeId : String) : List StoreKey :=
  computeDesiredAssignment weightedHrwScore nodeId cluster.numPartitions
    cluster.replicationFactor (cluster.listing nodeId) table

/-- The view when every node has reported what it stores under a table. -/
def view (cluster : FixedCluster) (table : OverrideTable) : ClusterView :=
  ⟨.ofItems cluster.nodes NodeDescriptor.id
    (fun node =>
      { metadata := some ⟨node.capacity, node.labels⟩
        status := some
          ⟨(cluster.desired weightedHrwScore table node.id).map fun key =>
            ⟨key.1, key.2, .active⟩⟩
        online := true })
    cluster.distinct⟩

def step (cluster : FixedCluster) (history : DrainHistory) :
    DrainOperation → DrainHistory
  | .drainNode nodeId listing now =>
    let view := cluster.view weightedHrwScore history.manager.current
    if lists : listing.Perm view.assignments.keys then
      { manager :=
          (drainNode weightedHrwScore nodeId view
            (view.assignments.relist listing lists) history.manager
            cluster.replicationFactor now).1
        drained := nodeId :: history.drained }
    else
      history
  | .undrainNode nodeId now =>
    { manager := history.manager.runCall (.undrainNode nodeId, now)
      drained := history.drained.filter fun other => other ≠ nodeId }

/-- Nothing is drained and nothing published. -/
def undrained : DrainHistory :=
  ⟨.new, []⟩

/-- A node owns every replica that it stores, and another node that is not
drained is the best one for it. -/
def CanDrain
    (cluster : FixedCluster)
    (history : DrainHistory)
    (nodeId : String) : Prop :=
  ∀ key ∈ cluster.desired weightedHrwScore history.manager.current nodeId,
    (cluster.view weightedHrwScore history.manager.current).owner key =
        some nodeId ∧
      ∃ target,
        (scored weightedHrwScore key.1
          (alternativesTo nodeId cluster.nodes)).head? = some target ∧
        target.id ∉ history.drained

/-- No replica that was drained off a node would go to another drained one. -/
def CanUndrain
    (cluster : FixedCluster)
    (history : DrainHistory)
    (nodeId : String) : Prop :=
  ∀ entry ∈ history.manager.entries,
    entry.reason = drainReason nodeId →
      ∀ holder ∈ history.drained, holder ≠ nodeId →
        (replicasOf weightedHrwScore entry.partition
          cluster.replicationFactor
          (cluster.listing holder))[entry.replica.val]? ≠ some holder

def Allowed (cluster : FixedCluster) (history : DrainHistory) :
    DrainOperation → Prop
  | .drainNode nodeId listing _ =>
    listing.Perm (cluster.view weightedHrwScore
      history.manager.current).assignments.keys →
      cluster.CanDrain weightedHrwScore history nodeId
  | .undrainNode nodeId _ =>
    cluster.CanUndrain weightedHrwScore history nodeId

/-! ## Who stores a replica -/

def IsReplica (cluster : FixedCluster) (key : StoreKey) : Prop :=
  key.1.val < cluster.numPartitions.val ∧
    key.2.val < cluster.replicationFactor.val

variable {weightedHrwScore} {cluster : FixedCluster}

variable {table : OverrideTable} {nodeId : String} {key : StoreKey}

theorem mem_desired_iff :
    key ∈ cluster.desired weightedHrwScore table nodeId ↔
      cluster.IsReplica key ∧
        takesReplica weightedHrwScore nodeId cluster.replicationFactor
          (cluster.listing nodeId) table key.1 key.2 := by
  rw [desired, ← Prod.eta key, mem_computeDesiredAssignment, ← and_assoc]
  rfl

/-- An entry decides alone who stores its replica. -/
theorem mem_desired_of_entryFor
    {entry : OverrideEntry}
    (isEntry : table.entryFor key.1 key.2 = some entry) :
    key ∈ cluster.desired weightedHrwScore table nodeId ↔
      cluster.IsReplica key ∧ entry.nodeId = nodeId := by
  rw [mem_desired_iff, takesReplica, isEntry, decide_eq_true_iff]

/-- Without an entry a replica is stored where the hash puts it. -/
theorem mem_desired_of_none
    (isNone : table.entryFor key.1 key.2 = none) :
    key ∈ cluster.desired weightedHrwScore table nodeId ↔
      cluster.IsReplica key ∧
        (replicasOf weightedHrwScore key.1 cluster.replicationFactor
          (cluster.listing nodeId))[key.2.val]? = some nodeId := by
  rw [mem_desired_iff, takesReplica, isNone, decide_eq_true_iff]

theorem mem_desired_congr
    {before after : OverrideTable}
    (same : after.entryFor key.1 key.2 = before.entryFor key.1 key.2) :
    key ∈ cluster.desired weightedHrwScore after nodeId ↔
      key ∈ cluster.desired weightedHrwScore before nodeId := by
  rw [mem_desired_iff, mem_desired_iff, takesReplica, same, takesReplica]

/-! ## The view of the orchestrator -/

theorem mem_desired_of_reports
    (reports : (cluster.view weightedHrwScore table).Reports nodeId key) :
    key ∈ cluster.desired weightedHrwScore table nodeId := by
  have isKey := ClusterView.mem_keys_of_reports reports
  obtain ⟨node, isNode, rfl⟩ := mem_map.mp isKey
  obtain ⟨status, isStatus, rfl⟩ := reports
  rw [ClusterView.reported, view,
    ListedMap.get?_ofItems _ cluster.distinct isNode] at isStatus
  obtain ⟨key, isKey, rfl⟩ := mem_map.mp isStatus
  exact isKey

theorem descriptors_view (table : OverrideTable) :
    (cluster.view weightedHrwScore table).descriptors = cluster.nodes := by
  rw [ClusterView.descriptors, view]
  change (cluster.nodes.map NodeDescriptor.id).filterMap _ = _
  rw [filterMap_map]
  refine Eq.trans (filterMap_congr fun node isNode => ?_)
    filterMap_some
  simp only [Function.comp_apply,
    ListedMap.get?_ofItems _ cluster.distinct isNode]
  rfl

/-! ## A drain -/

/-- The entries of a history are for replicas of the cluster, one for each. -/
structure WellFormed
    (cluster : FixedCluster)
    (history : DrainHistory) : Prop where
  oneEach : OverrideManager.OneEach history.manager.entries
  isReplica :
    ∀ entry ∈ history.manager.entries, cluster.IsReplica entry.key

variable (weightedHrwScore) in
/-- The entry that a drain adds for a replica, if it adds one. -/
def drainEntry
    (cluster : FixedCluster)
    (history : DrainHistory)
    (nodeId : String)
    (key : StoreKey) : Option OverrideEntry :=
  if (cluster.view weightedHrwScore history.manager.current).owner key =
      some nodeId then
    (scored weightedHrwScore key.1
      (alternativesTo nodeId cluster.nodes)).head?.map fun target =>
        ⟨key.1, key.2, target.id, drainReason nodeId⟩
  else
    none

section Steps

variable {history : DrainHistory} {nodeId : String}

variable {entry : OverrideEntry}

theorem drainEntry_eq_some_iff
    {key : StoreKey} :
    cluster.drainEntry weightedHrwScore history nodeId key = some entry ↔
      (cluster.view weightedHrwScore history.manager.current).owner key =
          some nodeId ∧
        ∃ target,
          (scored weightedHrwScore key.1
            (alternativesTo nodeId cluster.nodes)).head? = some target ∧
          ⟨key.1, key.2, target.id, drainReason nodeId⟩ = entry := by
  rw [drainEntry]
  split
  · next isOwner =>
      rw [Option.map_eq_some_iff, and_iff_right isOwner]
  · next notOwner =>
      exact iff_of_false (Option.some_ne_none _).symm fun isOwner =>
        notOwner isOwner.1

theorem key_of_drainEntry
    {key : StoreKey}
    (isNew :
      cluster.drainEntry weightedHrwScore history nodeId key = some entry) :
    entry.key = key := by
  obtain ⟨-, target, -, rfl⟩ := drainEntry_eq_some_iff.mp isNew
  rfl

theorem mem_drain_iff
    {listing : List StoreKey}
    (lists :
      listing.Perm (cluster.view weightedHrwScore
        history.manager.current).assignments.keys) :
    entry ∈ computeDrainOverrides weightedHrwScore nodeId
        ((cluster.view weightedHrwScore
          history.manager.current).assignments.relist listing lists)
        cluster.nodes cluster.replicationFactor ↔
      cluster.drainEntry weightedHrwScore history nodeId entry.key =
        some entry := by
  rw [mem_computeDrainOverrides, mem_ownedBy, drainEntry_eq_some_iff]
  refine and_congr_right fun isOwner => ?_
  have stores := mem_desired_of_reports (ClusterView.reports_of_owner isOwner)
  have positive : 0 < cluster.replicationFactor.val :=
    Nat.zero_lt_of_lt (mem_desired_iff.mp stores).1.2
  rw [drainTarget_eq_head? cluster.distinct positive, Option.map_eq_some_iff]
  constructor
  · rintro ⟨⟨target, isTarget, isId⟩, isReason⟩
    refine ⟨target, isTarget, ?_⟩
    rw [isId, ← isReason]
    rfl
  · grind

section Drained

variable
  (wellFormed : cluster.WellFormed history)
  {listing : List StoreKey}
  (lists :
    listing.Perm (cluster.view weightedHrwScore
      history.manager.current).assignments.keys)
  (now : DateTime)

include lists in
theorem mem_entries_drainNode
    {entry : OverrideEntry} :
    entry ∈ (cluster.step weightedHrwScore history
        (.drainNode nodeId listing now)).manager.entries ↔
      cluster.drainEntry weightedHrwScore history nodeId entry.key =
          some entry ∨
        entry ∈ history.manager.entries ∧
          cluster.drainEntry weightedHrwScore history nodeId entry.key =
            none := by
  simp only [step, dif_pos lists]
  rw [entries_drainNode, descriptors_view,
    OverrideManager.mem_foldl_mergeEntry_iff
      (oneEach_computeDrainOverrides ..), mem_drain_iff lists]
  refine or_congr_right (and_congr_right fun _ => ?_)
  constructor
  · intro spared
    refine Option.eq_none_iff_forall_ne_some.mpr fun new isNew => ?_
    have sameKey := key_of_drainEntry isNew
    have differs := spared new
      ((mem_drain_iff lists).mpr (sameKey.symm ▸ isNew))
    exact of_decide_eq_false differs (Prod.ext_iff.mp sameKey.symm)
  · grind [mem_drain_iff, OverrideEntry.key, OverrideEntry.sameReplica]

include wellFormed in
theorem wellFormed_drainNode :
    cluster.WellFormed
      (cluster.step weightedHrwScore history
        (.drainNode nodeId listing now)) := by
  by_cases lists : listing.Perm (cluster.view weightedHrwScore
      history.manager.current).assignments.keys
  · constructor
    · simp only [step, dif_pos lists]
      rw [entries_drainNode]
      exact wellFormed.oneEach.edit (.addEntries _ none)
    · intro entry isEntry
      rcases (mem_entries_drainNode lists now).mp isEntry with
        isNew | ⟨old, -⟩
      · have isOwner := (drainEntry_eq_some_iff.mp isNew).1
        exact (mem_desired_iff.mp (mem_desired_of_reports
          (ClusterView.reports_of_owner isOwner))).1
      · exact wellFormed.isReplica entry old
  · rw [step]
    simp only [dif_neg lists]
    exact wellFormed

include wellFormed lists in
/-- The new entry counts if there is one, and else the one from before. -/
theorem entryFor_drainNode (key : StoreKey) :
    (cluster.step weightedHrwScore history
        (.drainNode nodeId listing now)).manager.current.entryFor
          key.1 key.2 =
      (cluster.drainEntry weightedHrwScore history nodeId key).or
        (history.manager.current.entryFor key.1 key.2) := by
  have later := @wellFormed_drainNode _ _ weightedHrwScore cluster history
    nodeId wellFormed listing now
  refine Option.ext fun entry => ?_
  rw [entryFor_eq_some_iff later.oneEach, Option.or_eq_some_iff,
    entryFor_eq_some_iff wellFormed.oneEach]
  constructor
  · rintro ⟨isEntry, isKey⟩
    have sameKey : entry.key = key := isKey
    subst sameKey
    exact ((mem_entries_drainNode lists now).mp isEntry).imp_right
      fun old => ⟨old.2, old.1, rfl⟩
  · intro isEntry
    have sameKey : entry.key = key := by
      rcases isEntry with isNew | ⟨-, -, isKey⟩
      · exact key_of_drainEntry isNew
      · exact isKey
    subst sameKey
    exact ⟨(mem_entries_drainNode lists now).mpr
      (isEntry.imp_right fun old => ⟨old.2.1, old.1⟩), rfl⟩

include wellFormed lists in
theorem mem_desired_drainNode_of_none
    {key : StoreKey}
    (isNone :
      cluster.drainEntry weightedHrwScore history nodeId key = none)
    {other : String} :
    key ∈ cluster.desired weightedHrwScore
        (cluster.step weightedHrwScore history
          (.drainNode nodeId listing now)).manager.current other ↔
      key ∈ cluster.desired weightedHrwScore history.manager.current
        other := by
  refine mem_desired_congr ?_
  rw [entryFor_drainNode wellFormed lists now, isNone, Option.none_or]

include wellFormed lists in
/-- A replica with a new entry goes to the node that it names. -/
theorem mem_desired_drainNode_of_some
    {key : StoreKey}
    {entry : OverrideEntry}
    (isNew :
      cluster.drainEntry weightedHrwScore history nodeId key = some entry)
    {other : String} :
    key ∈ cluster.desired weightedHrwScore
        (cluster.step weightedHrwScore history
          (.drainNode nodeId listing now)).manager.current other ↔
      cluster.IsReplica key ∧ entry.nodeId = other := by
  refine mem_desired_of_entryFor ?_
  rw [entryFor_drainNode wellFormed lists now, isNew, Option.some_or]

end Drained

/-! ## An undrain -/

theorem wellFormed_undrainNode
    (wellFormed : cluster.WellFormed history)
    (nodeId : String)
    (now : DateTime) :
    cluster.WellFormed
      (cluster.step weightedHrwScore history
        (.undrainNode nodeId now)) where
  oneEach := wellFormed.oneEach.filter _
  isReplica := fun entry isEntry =>
    wellFormed.isReplica entry (mem_of_mem_filter isEntry)

/-- The entry from before counts unless a drain of the node added it. -/
theorem entryFor_undrainNode
    (wellFormed : cluster.WellFormed history)
    (nodeId : String)
    (now : DateTime)
    (key : StoreKey) :
    (cluster.step weightedHrwScore history
        (.undrainNode nodeId now)).manager.current.entryFor key.1 key.2 =
      (history.manager.current.entryFor key.1 key.2).filter fun entry =>
        entry.reason ≠ drainReason nodeId := by
  have later := @wellFormed_undrainNode _ _ weightedHrwScore cluster history
    wellFormed nodeId now
  refine Option.ext fun entry => ?_
  rw [entryFor_eq_some_iff later.oneEach, Option.filter_eq_some_iff,
    entryFor_eq_some_iff wellFormed.oneEach, and_right_comm]
  exact and_congr_left fun _ => mem_filter

/-! ## Which operations keep the drained nodes empty -/

variable (weightedHrwScore) in
/-- No drained node stores anything. -/
def Evacuated (cluster : FixedCluster) (history : DrainHistory) : Prop :=
  ∀ nodeId ∈ history.drained,
    cluster.desired weightedHrwScore history.manager.current nodeId = []

theorem evacuated_iff :
    cluster.Evacuated weightedHrwScore history ↔
      ∀ nodeId ∈ history.drained, ∀ key,
        key ∉ cluster.desired weightedHrwScore history.manager.current
          nodeId :=
  forall_congr' fun _ => forall_congr' fun _ => eq_nil_iff_forall_not_mem

section Drained

variable
  (wellFormed : cluster.WellFormed history)
  {listing : List StoreKey}
  (lists :
    listing.Perm (cluster.view weightedHrwScore
      history.manager.current).assignments.keys)
  (now : DateTime)

include lists in
theorem drained_drainNode :
    (cluster.step weightedHrwScore history
      (.drainNode nodeId listing now)).drained =
        nodeId :: history.drained := by
  simp only [step, dif_pos lists]

include wellFormed lists in
theorem canDrain_of_evacuated
    (evacuated :
      cluster.Evacuated weightedHrwScore
        (cluster.step weightedHrwScore history
          (.drainNode nodeId listing now))) :
    cluster.CanDrain weightedHrwScore history nodeId := by
  rw [evacuated_iff, drained_drainNode lists] at evacuated
  intro key stores
  cases isNew : cluster.drainEntry weightedHrwScore history nodeId key with
  | none =>
    have still :=
      (mem_desired_drainNode_of_none wellFormed lists now isNew).mpr stores
    exact absurd still (evacuated nodeId mem_cons_self key)
  | some new =>
    obtain ⟨isOwner, target, isTarget, isEntry⟩ :=
      drainEntry_eq_some_iff.mp isNew
    refine ⟨isOwner, target, isTarget, fun drained => ?_⟩
    have gained :=
      (mem_desired_drainNode_of_some wellFormed lists now isNew).mpr
        ⟨(mem_desired_iff.mp stores).1,
          (congrArg OverrideEntry.nodeId isEntry).symm⟩
    exact evacuated target.id (mem_cons_of_mem _ drained) key gained

include wellFormed lists in
theorem evacuated_drainNode
    (evacuated : cluster.Evacuated weightedHrwScore history)
    (canDrain : cluster.CanDrain weightedHrwScore history nodeId) :
    cluster.Evacuated weightedHrwScore
      (cluster.step weightedHrwScore history
        (.drainNode nodeId listing now)) := by
  rw [evacuated_iff] at evacuated ⊢
  rw [drained_drainNode lists]
  intro other isOther key stores
  cases isNew : cluster.drainEntry weightedHrwScore history nodeId key with
  | none =>
    have stored :=
      (mem_desired_drainNode_of_none wellFormed lists now isNew).mp stores
    rcases mem_cons.mp isOther with rfl | drained
    · obtain ⟨isOwner, target, isTarget, -⟩ := canDrain key stored
      have added := drainEntry_eq_some_iff.mpr ⟨isOwner, target, isTarget, rfl⟩
      rw [isNew] at added
      cases added
    · exact evacuated other drained key stored
  | some new =>
    obtain ⟨-, rfl⟩ :=
      (mem_desired_drainNode_of_some wellFormed lists now isNew).mp stores
    obtain ⟨isOwner, target, isTarget, rfl⟩ := drainEntry_eq_some_iff.mp isNew
    rcases mem_cons.mp isOther with same | drained
    · have isAlternative := (perm_scored key.1 _).mem_iff.mp
        (mem_of_mem_head? isTarget)
      rw [alternativesTo, mem_filter] at isAlternative
      exact of_decide_eq_true isAlternative.2 same
    · obtain ⟨-, best, isBest, undrained⟩ := canDrain key
        (mem_desired_of_reports (ClusterView.reports_of_owner isOwner))
      rw [isTarget] at isBest
      cases isBest
      exact undrained drained

end Drained

theorem evacuated_drainNode_iff
    (wellFormed : cluster.WellFormed history)
    (evacuated : cluster.Evacuated weightedHrwScore history)
    (nodeId : String)
    (listing : List StoreKey)
    (now : DateTime) :
    cluster.Evacuated weightedHrwScore
        (cluster.step weightedHrwScore history
          (.drainNode nodeId listing now)) ↔
      cluster.Allowed weightedHrwScore history
        (.drainNode nodeId listing now) := by
  rw [Allowed]
  by_cases lists : listing.Perm (cluster.view weightedHrwScore
      history.manager.current).assignments.keys
  · rw [forall_prop_of_true lists]
    exact ⟨canDrain_of_evacuated wellFormed lists now,
      evacuated_drainNode wellFormed lists now evacuated⟩
  · rw [step]
    simp only [dif_neg lists]
    exact iff_of_true evacuated fun isListing => absurd isListing lists

theorem evacuated_undrainNode_iff
    (wellFormed : cluster.WellFormed history)
    (evacuated : cluster.Evacuated weightedHrwScore history)
    (nodeId : String)
    (now : DateTime) :
    cluster.Evacuated weightedHrwScore
        (cluster.step weightedHrwScore history (.undrainNode nodeId now)) ↔
      cluster.Allowed weightedHrwScore history
        (.undrainNode nodeId now) := by
  have isEntry (key : StoreKey) :=
    @entryFor_undrainNode _ _ weightedHrwScore cluster history wellFormed
      nodeId now key
  constructor
  · intro empty entry isOld drains other drained differs isHash
    have isFound :
        history.manager.current.entryFor entry.key.1 entry.key.2 = some entry :=
      (entryFor_eq_some_iff wellFormed.oneEach).mpr ⟨isOld, rfl⟩
    have isNone := isEntry entry.key
    rw [isFound, Option.filter_some, if_neg (by simp [drains])] at isNone
    exact evacuated_iff.mp empty other
      (mem_filter.mpr ⟨drained, decide_eq_true differs⟩) entry.key
      ((mem_desired_of_none isNone).mpr
        ⟨wellFormed.isReplica entry isOld, isHash⟩)
  · intro allowed
    refine evacuated_iff.mpr fun other isOther key stores => ?_
    obtain ⟨drained, differs⟩ := mem_filter.mp isOther
    have notStored := evacuated_iff.mp evacuated other drained key
    have after := isEntry key
    cases before : history.manager.current.entryFor key.1 key.2 with
    | none =>
      rw [before, Option.filter_none, ← before] at after
      exact notStored ((mem_desired_congr after).mp stores)
    | some entry =>
      obtain ⟨isOld, isKey⟩ :=
        (entryFor_eq_some_iff wellFormed.oneEach).mp before
      by_cases drains : entry.reason = drainReason nodeId
      · rw [before, Option.filter_some, if_neg (by simp [drains])] at after
        have sameKey : entry.key = key := isKey
        subst sameKey
        exact allowed entry isOld drains other drained
          (of_decide_eq_true differs)
          ((mem_desired_of_none after).mp stores).2
      · grind [mem_desired_congr]

end Steps

theorem wellFormed_step
    {history : DrainHistory}
    (wellFormed : cluster.WellFormed history)
    (operation : DrainOperation) :
    cluster.WellFormed
      (cluster.step weightedHrwScore history operation) := by
  cases operation with
  | drainNode nodeId listing now => exact wellFormed_drainNode wellFormed now
  | undrainNode nodeId now => exact wellFormed_undrainNode wellFormed nodeId now

theorem wellFormed_run (operations : List DrainOperation) :
    cluster.WellFormed
      (operations.foldl (cluster.step weightedHrwScore) undrained) :=
  operations.foldlRecOn _ ⟨nodup_nil, nofun⟩
    fun _ before operation _ => wellFormed_step before operation

/--
The nodes that are drained at any time of a history store nothing under the
published table exactly if every drain finds its node to own what it stores
and the best other node undrained, and no undrain gives a replica back to a
drained node.
-/
theorem drains_independent_iff
    (weightedHrwScore : WeightedHrwScore Score)
    (cluster : FixedCluster)
    (operations : List DrainOperation) :
    (∀ earlier, earlier <+: operations →
      ∀ nodeId ∈ (earlier.foldl (cluster.step weightedHrwScore)
          undrained).drained,
        cluster.desired weightedHrwScore
          (earlier.foldl (cluster.step weightedHrwScore)
            undrained).manager.current nodeId = []) ↔
      GuardedRun (cluster.step weightedHrwScore)
        (cluster.Allowed weightedHrwScore) undrained operations := by
  rw [GuardedRun.iff_throughout
    (fun history => cluster.WellFormed history ∧
      cluster.Evacuated weightedHrwScore history)]
  · refine forall_congr' fun earlier => forall_congr' fun _ => ?_
    exact (and_iff_right (wellFormed_run earlier)).symm
  · rintro history operation ⟨wellFormed, evacuated⟩
    rw [and_iff_right (wellFormed_step wellFormed operation)]
    cases operation with
    | drainNode nodeId listing now =>
      exact evacuated_drainNode_iff wellFormed evacuated nodeId listing now
    | undrainNode nodeId now =>
      exact evacuated_undrainNode_iff wellFormed evacuated nodeId now
  · exact ⟨@wellFormed_run _ _ weightedHrwScore cluster [], nofun⟩

end History

/-- Three nodes and one partition with one replica. -/
def threeNodeCluster : FixedCluster :=
  ⟨threeNodes, by decide, fun _ => threeNodes, fun _ => .refl _, 1, 1⟩

/--
The replica moves from `c` to `b`.  When `b` is drained too, the best other
node is `c`, and `c` gets the replica back although it is drained and `a` is
not.
-/
theorem drained_node_gets_replica :
    let history :=
      [.drainNode "c" [(0, 0)] 0, .drainNode "b" [(0, 0)] 1].foldl
        (threeNodeCluster.step weightedByCapacity) undrained
    history.drained = ["b", "c"] ∧
      "a" ∈ threeNodeCluster.nodes.map NodeDescriptor.id ∧
      threeNodeCluster.desired weightedByCapacity history.manager.current
        "c" = [(0, 0)] := by
  decide

end FixedCluster

end Mitiflow
