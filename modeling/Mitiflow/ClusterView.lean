import Mitiflow.Reconciler

namespace Mitiflow

open Library List

/-!
# The cluster view

The orchestrator keeps what it knows of each node: its metadata, its last
status report, and whether it is online.  The table of assignments is read off
the reports of all nodes; where several nodes report the same replica, the one
that the map lists last is taken for its owner.
-/

/-- The metadata that a node published. -/
structure NodeMetadata where
  capacity : U32
  labels : String → Option String

/-- The status report of a node. -/
structure NodeStatus where
  partitions : List PartitionStatus
  deriving Repr, DecidableEq

/-- What is known of a node. -/
structure NodeInfo where
  metadata : Option NodeMetadata
  status : Option NodeStatus
  online : Bool

/-- Where an assignment comes from. -/
inductive AssignmentSource where
  | computed
  | override
  deriving Repr, DecidableEq

/-- An assignment of a replica, derived from a report. -/
structure AssignmentInfo where
  partition : U32
  replica : U32
  nodeId : String
  state : StoreState
  source : AssignmentSource
  deriving Repr, DecidableEq

/-- The nodes, in the order in which their map lists them. -/
structure ClusterView where
  nodes : ListedMap String NodeInfo

namespace ClusterView

/-- The replicas in the last report of a node. -/
def reported (view : ClusterView) (nodeId : String) : List PartitionStatus :=
  ((view.nodes.get? nodeId).bind NodeInfo.status).elim []
    NodeStatus.partitions

def assignmentsOf (view : ClusterView) (nodeId : String) :
    List (StoreKey × AssignmentInfo) :=
  (view.reported nodeId).map fun status =>
    ((status.partition, status.replica),
      { partition := status.partition
        replica := status.replica
        nodeId := nodeId
        state := status.state
        source := .computed })

/-- The assignments of all nodes; a later node replaces an earlier one. -/
def assignments (view : ClusterView) : ListedMap StoreKey AssignmentInfo :=
  view.nodes.keys.foldl
    (fun result nodeId => result.insertAll (view.assignmentsOf nodeId))
    .empty

def isNodeOnline (view : ClusterView) (nodeId : String) : Bool :=
  (view.nodes.get? nodeId).any NodeInfo.online

def Reports (view : ClusterView) (nodeId : String) (key : StoreKey) : Prop :=
  ∃ status ∈ view.reported nodeId, (status.partition, status.replica) = key

instance Reports.decidable
    (view : ClusterView)
    (nodeId : String)
    (key : StoreKey) :
    Decidable (view.Reports nodeId key) :=
  inferInstanceAs (Decidable (∃ status ∈ view.reported nodeId, _))

/-- The nodes that are listed after one. -/
def listedAfter (view : ClusterView) (nodeId : String) : List String :=
  (view.nodes.keys.dropWhile fun other => other ≠ nodeId).tail

/-- The same nodes in another order. -/
def relist
    (view : ClusterView)
    (order : List String)
    (lists : order.Perm view.nodes.keys) : ClusterView :=
  ⟨view.nodes.relist order lists⟩

variable {view : ClusterView} {key : StoreKey}

/-! ## Reports of a reconciler -/

variable {nodeId : String}

/-! ## The owner of a replica -/

theorem mem_keys_of_reports
    (reports : view.Reports nodeId key) :
    nodeId ∈ view.nodes.keys := by
  obtain ⟨status, isStatus, -⟩ := reports
  rw [view.nodes.mem_keys]
  cases isKnown : view.nodes.get? nodeId with
  | none =>
    rw [reported, isKnown] at isStatus
    cases isStatus
  | some info => rfl

theorem keys_eq_listedAfter
    (isKey : nodeId ∈ view.nodes.keys) :
    ∃ before,
      view.nodes.keys = before ++ nodeId :: view.listedAfter nodeId := by
  obtain ⟨before, after, isListed⟩ := append_of_mem isKey
  have distinct := view.nodes.nodup
  rw [isListed, nodup_append] at distinct
  refine ⟨before, ?_⟩
  rw [listedAfter, isListed, dropWhile_append_of_pos]
  · rw [dropWhile_cons_of_neg (by simp), tail_cons]
  · intro other isBefore
    exact decide_eq_true (distinct.2.2 other isBefore nodeId mem_cons_self)

theorem insertAll_assignmentsOf
    (result : ListedMap StoreKey AssignmentInfo)
    (nodeId : String) :
    ((result.insertAll (view.assignmentsOf nodeId)).get? key).map
        AssignmentInfo.nodeId =
      if view.Reports nodeId key then
        some nodeId
      else
        (result.get? key).map AssignmentInfo.nodeId := by
  split
  · next reports =>
      obtain ⟨status, isStatus, isKey⟩ := reports
      have present : ∃ pair ∈ view.assignmentsOf nodeId, pair.1 = key :=
        ⟨_, mem_map_of_mem isStatus, isKey⟩
      obtain ⟨pair, isPair, -, isValue⟩ := result.get?_insertAll_of_mem present
      obtain ⟨other, -, rfl⟩ := mem_map.mp isPair
      exact congrArg (Option.map AssignmentInfo.nodeId) isValue
  · next silent =>
      rw [result.get?_insertAll_of_notMem]
      intro pair isPair isKey
      obtain ⟨status, isStatus, rfl⟩ := mem_map.mp isPair
      exact silent ⟨status, isStatus, isKey⟩

/-- After some nodes, the owner is one of them that reports the replica. -/
theorem foldl_assignmentsOf
    (nodeIds : List String)
    (result : ListedMap StoreKey AssignmentInfo) :
    let owner :=
      ((nodeIds.foldl
        (fun result nodeId => result.insertAll (view.assignmentsOf nodeId))
        result).get? key).map AssignmentInfo.nodeId
    (∃ nodeId ∈ nodeIds, view.Reports nodeId key ∧ owner = some nodeId) ∨
      (∀ nodeId ∈ nodeIds, ¬ view.Reports nodeId key) ∧
        owner = (result.get? key).map AssignmentInfo.nodeId := by
  induction nodeIds generalizing result with
  | nil => exact Or.inr ⟨nofun, rfl⟩
  | cons first rest inductionHypothesis =>
    rw [foldl_cons]
    rcases inductionHypothesis
      (result.insertAll (view.assignmentsOf first)) with
      ⟨nodeId, isRest, reports, isOwner⟩ | ⟨silent, isOwner⟩
    · exact Or.inl ⟨nodeId, mem_cons_of_mem _ isRest, reports, isOwner⟩
    · rw [insertAll_assignmentsOf] at isOwner
      by_cases reports : view.Reports first key
      · rw [if_pos reports] at isOwner
        exact Or.inl ⟨first, mem_cons_self, reports, isOwner⟩
      · rw [if_neg reports] at isOwner
        exact Or.inr ⟨forall_mem_cons.mpr ⟨reports, silent⟩, isOwner⟩

def owner (view : ClusterView) (key : StoreKey) : Option String :=
  (view.assignments.get? key).map AssignmentInfo.nodeId

/--
A node that reports a replica is its owner exactly if no node that is listed
after it reports it too.
-/
theorem owner_eq_iff
    (reports : view.Reports nodeId key) :
    view.owner key = some nodeId ↔
      ∀ other ∈ view.listedAfter nodeId, ¬ view.Reports other key := by
  obtain ⟨before, isListed⟩ := keys_eq_listedAfter (mem_keys_of_reports reports)
  have distinct := view.nodes.nodup
  rw [isListed] at distinct
  have notAfter : nodeId ∉ view.listedAfter nodeId :=
    (nodup_cons.mp (nodup_append.mp distinct).2.1).1
  rw [owner, assignments, isListed, foldl_append, foldl_cons]
  rcases @foldl_assignmentsOf view key (view.listedAfter nodeId) _ with
    ⟨other, isAfter, otherReports, isOwner⟩ | ⟨silent, isOwner⟩
  · rw [isOwner]
    constructor
    · intro same
      cases same
      exact absurd isAfter notAfter
    · exact fun silent => absurd otherReports (silent other isAfter)
  · rw [isOwner, insertAll_assignmentsOf, if_pos reports]
    exact iff_of_true rfl silent

theorem reports_of_owner
    (isOwner : view.owner key = some nodeId) :
    view.Reports nodeId key := by
  rcases @foldl_assignmentsOf view key view.nodes.keys .empty with
    ⟨other, -, reports, isOther⟩ | ⟨-, isNone⟩
  · rw [owner, assignments, isOther] at isOwner
    cases isOwner
    exact reports
  · rw [owner, assignments, isNone] at isOwner
    cases isOwner

end ClusterView

end Mitiflow
