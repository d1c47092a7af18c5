import Mitiflow.Drain
import Mitiflow.Library.GuardedRun

namespace Mitiflow

open Library Function

/-!
# Who is online

Several tasks keep the map of the cluster view.  Status and health reports and
liveliness events create the entry of a node that has none, a sweep removes
nodes that have been offline for long, and an operator can remove any node.
Only liveliness events change whether a known node is online; a report makes a
node that is not known an online one.
-/

/-- An entry of the view and the time at which the node was last heard of. -/
structure TrackedNode extends NodeInfo where
  lastSeen : DateTime

def TrackedNode.new (online : Bool) (now : DateTime) : TrackedNode where
  metadata := none
  status := none
  online := online
  lastSeen := now

/-- The settings of a view; the timeout is in nanoseconds. -/
structure ViewConfig where
  keyPrefix : String
  evictionTimeout : Nat := 300000000000
  deriving Repr, DecidableEq

/-- The age that a sweep compares with; a timeout out of range counts as five
minutes. -/
def ViewConfig.threshold (config : ViewConfig) : Int :=
  if config.evictionTimeout ≤ (2 ^ 63 - 1) * 1000000 then
    config.evictionTimeout
  else
    300000000000

def livelinessNode (keyPrefix key : String) : Option String :=
  ((key.toList.dropPrefix?
    (keyPrefix ++ "/_agents/").toList).filter fun nodeId =>
      '/' ∉ nodeId).map String.ofList

/-- What the tasks of a view process, and the removal by an operator. -/
inductive ViewEvent where
  | status (nodeId : String) (status : NodeStatus)
  | health (nodeId : String)
  | liveliness (key : String) (kind : SampleKind)
  | evictionSweep
  | evictNode (nodeId : String)
  deriving Repr, DecidableEq

abbrev TimedEvent := DateTime × ViewEvent

abbrev TrackedNodes := ListedMap String TrackedNode

namespace TrackedNodes

/-- Change the entry of a node, which is created if there is none. -/
def touch
    (nodes : TrackedNodes)
    (nodeId : String)
    (online : Bool)
    (now : DateTime)
    (change : TrackedNode → TrackedNode) : TrackedNodes :=
  let entry := (nodes.get? nodeId).getD (.new online now)
  nodes.insert nodeId { change entry with lastSeen := now }

/-- Whether a sweep leaves an entry. -/
def survivesSweep
    (config : ViewConfig)
    (now : DateTime)
    (entry : TrackedNode) : Bool :=
  entry.online || now - entry.lastSeen ≤ config.threshold

def process
    (config : ViewConfig)
    (nodes : TrackedNodes)
    (timed : TimedEvent) : TrackedNodes :=
  match timed.2 with
  | .status nodeId status =>
    nodes.touch nodeId true timed.1 fun entry =>
      { entry with status := some status }
  | .health nodeId => nodes.touch nodeId true timed.1 id
  | .liveliness key kind =>
    match livelinessNode config.keyPrefix key with
    | none => nodes
    | some nodeId =>
      nodes.touch nodeId (kind = .put) timed.1 fun entry =>
        { entry with online := kind = .put }
  | .evictionSweep =>
    if config.evictionTimeout = 0 then
      nodes
    else
      nodes.retain (survivesSweep config timed.1)
  | .evictNode nodeId => nodes.erase nodeId

def afterEvents
    (config : ViewConfig)
    (start : TrackedNodes)
    (events : List TimedEvent) : TrackedNodes :=
  events.foldl (process config) start

/-- The view that other components read. -/
def view (nodes : TrackedNodes) : ClusterView :=
  ⟨nodes.mapValues TrackedNode.toNodeInfo⟩

end TrackedNodes

def ClusterView.onlineNodes (view : ClusterView) : List String :=
  view.nodes.keys.filter fun nodeId =>
    (view.nodes.get? nodeId).any NodeInfo.online

/-! ## One node at a time -/

/-- The node that an event reports on. -/
def ViewEvent.reports? : ViewEvent → Option String
  | .status nodeId _ | .health nodeId => some nodeId
  | .liveliness _ _ | .evictionSweep | .evictNode _ => none

def ViewEvent.announces?
    (config : ViewConfig)
    (nodeId : String) : ViewEvent → Option SampleKind
  | .liveliness key kind =>
    if livelinessNode config.keyPrefix key = some nodeId then
      some kind
    else
      none
  | .status _ _ | .health _ | .evictionSweep | .evictNode _ => none

/-- The last liveliness event of a node. -/
def lastLiveliness
    (config : ViewConfig)
    (nodeId : String)
    (events : List TimedEvent) : Option SampleKind :=
  (events.filterMap fun timed => timed.2.announces? config nodeId).getLast?

theorem lastLiveliness_snoc
    (config : ViewConfig)
    (nodeId : String)
    (events : List TimedEvent)
    (timed : TimedEvent) :
    lastLiveliness config nodeId (events ++ [timed]) =
      (timed.2.announces? config nodeId).or
        (lastLiveliness config nodeId events) := by
  rw [lastLiveliness, List.filterMap_append]
  cases isNews : timed.2.announces? config nodeId with
  | none =>
    simp [isNews, lastLiveliness]
  | some kind =>
    simp [isNews]

/-- Whether an entry exists and is marked online. -/
def TrackedNode.online? (entry : Option TrackedNode) : Bool :=
  entry.any fun node => node.online

/-- What an event does to the entry of one node. -/
def followEvent
    (config : ViewConfig)
    (nodeId : String)
    (entry : Option TrackedNode)
    (timed : TimedEvent) : Option TrackedNode :=
  match timed.2 with
  | .status other status =>
    if nodeId = other then
      some { entry.getD (.new true timed.1) with
        status := some status
        lastSeen := timed.1 }
    else
      entry
  | .health other =>
    if nodeId = other then
      some { entry.getD (.new true timed.1) with lastSeen := timed.1 }
    else
      entry
  | .liveliness key kind =>
    if livelinessNode config.keyPrefix key = some nodeId then
      some { entry.getD (.new (kind = .put) timed.1) with
        online := kind = .put
        lastSeen := timed.1 }
    else
      entry
  | .evictionSweep =>
    if config.evictionTimeout = 0 then
      entry
    else
      entry.filter (TrackedNodes.survivesSweep config timed.1)
  | .evictNode other => if nodeId = other then none else entry

namespace TrackedNodes

variable {config : ViewConfig}

theorem get?_process
    (nodes : TrackedNodes)
    (timed : TimedEvent)
    (nodeId : String) :
    (nodes.process config timed).get? nodeId =
      followEvent config nodeId (nodes.get? nodeId) timed := by
  obtain ⟨now, event⟩ := timed
  cases event with
  | status other status =>
    simp only [process, touch, ListedMap.get?_insert, followEvent,
      update_apply]
    by_cases own : nodeId = other
    · simp [own]
    · simp [own]
  | health other =>
    simp only [process, touch, ListedMap.get?_insert, followEvent,
      update_apply]
    by_cases own : nodeId = other
    · simp [own]
    · simp [own]
  | liveliness key kind =>
    simp only [process, followEvent]
    cases isNode : livelinessNode config.keyPrefix key with
    | none =>
      simp
    | some other =>
      simp only [touch, ListedMap.get?_insert, update_apply,
        Option.some.injEq]
      by_cases own : nodeId = other
      · simp [own]
      · simp [own, Ne.symm own]
  | evictionSweep =>
    simp only [process, followEvent]
    split <;> rfl
  | evictNode other =>
    simp only [process, followEvent, ListedMap.get?_erase,
      update_apply]

theorem get?_afterEvents_snoc
    (start : TrackedNodes)
    (events : List TimedEvent)
    (timed : TimedEvent)
    (nodeId : String) :
    (afterEvents config start (events ++ [timed])).get? nodeId =
      followEvent config nodeId
        ((afterEvents config start events).get? nodeId) timed := by
  rw [afterEvents, List.foldl_append, List.foldl_cons, List.foldl_nil,
    get?_process, afterEvents]

theorem isNodeOnline_view (nodes : TrackedNodes) (nodeId : String) :
    nodes.view.isNodeOnline nodeId =
      TrackedNode.online? (nodes.get? nodeId) := by
  simp only [view, ClusterView.isNodeOnline, ListedMap.mapValues,
    TrackedNode.online?]
  cases nodes.get? nodeId <;> rfl

end TrackedNodes

variable {config : ViewConfig} {nodeId : String}

/--
A node whose entry is offline or missing: an event that does not announce it
leaves it so, unless it is a report on a node without an entry.
-/
theorem online?_followEvent
    {entry : Option TrackedNode}
    (offline : TrackedNode.online? entry = false)
    {timed : TimedEvent}
    (unannounced : timed.2.announces? config nodeId = none) :
    TrackedNode.online? (followEvent config nodeId entry timed) = false ↔
      (timed.2.reports? = some nodeId → entry.isSome = true) := by
  obtain ⟨now, event⟩ := timed
  cases event with
  | status other status =>
    by_cases own : nodeId = other
    · subst own
      cases entry with
      | none =>
        simp [followEvent, TrackedNode.online?, TrackedNode.new,
          ViewEvent.reports?]
      | some node =>
        simpa [followEvent, TrackedNode.online?,
          ViewEvent.reports?] using offline
    · simpa [followEvent, own, Ne.symm own, ViewEvent.reports?] using offline
  | health other =>
    by_cases own : nodeId = other
    · subst own
      cases entry with
      | none =>
        simp [followEvent, TrackedNode.online?, TrackedNode.new,
          ViewEvent.reports?]
      | some node =>
        simpa [followEvent, TrackedNode.online?,
          ViewEvent.reports?] using offline
    · simpa [followEvent, own, Ne.symm own, ViewEvent.reports?] using offline
  | liveliness key kind =>
    have other : livelinessNode config.keyPrefix key ≠ some nodeId := by
      intro own
      simp [ViewEvent.announces?, own] at unannounced
    simpa [followEvent, other, ViewEvent.reports?] using offline
  | evictionSweep =>
    cases entry with
    | none =>
      simp [followEvent, TrackedNode.online?, ViewEvent.reports?]
    | some node =>
      have isOffline : node.online = false := by
        simpa [TrackedNode.online?] using offline
      simp only [followEvent, ViewEvent.reports?, reduceCtorEq,
        IsEmpty.forall_iff, iff_true]
      split
      · exact offline
      · cases survives : TrackedNodes.survivesSweep config now node <;>
          simp [Option.filter, survives, TrackedNode.online?, isOffline]
  | evictNode other =>
    by_cases own : nodeId = other
    · simp [followEvent, own, ViewEvent.reports?, TrackedNode.online?]
    · simpa [followEvent, own, ViewEvent.reports?] using offline

theorem online?_of_announces
    (entry : Option TrackedNode)
    {timed : TimedEvent}
    {kind : SampleKind}
    (announced : timed.2.announces? config nodeId = some kind) :
    TrackedNode.online? (followEvent config nodeId entry timed) =
      decide (kind = .put) := by
  obtain ⟨now, event⟩ := timed
  cases event with
  | liveliness key announcedKind =>
    simp only [ViewEvent.announces?] at announced
    split at announced
    · next own =>
        cases announced
        simp [followEvent, own, TrackedNode.online?]
    · cases announced
  | status | health | evictionSweep | evictNode =>
    cases announced

theorem reports?_of_announces
    {event : ViewEvent}
    {kind : SampleKind}
    (announced : event.announces? config nodeId = some kind) :
    event.reports? = none := by
  cases event with
  | status | health =>
    cases announced
  | liveliness | evictionSweep | evictNode =>
    rfl

/-! ## Offline nodes in runs -/

/-- Neither online nor listed as online nor the target of any drain. -/
def ClusterView.Unreported (view : ClusterView) (nodeId : String) : Prop :=
  view.isNodeOnline nodeId = false ∧
    nodeId ∉ view.onlineNodes ∧
    ∀ (Score : Type) [LinearOrder Score]
      (weightedHrwScore : WeightedHrwScore Score)
      (drained : String)
      (assignments : ListedMap StoreKey AssignmentInfo)
      (manager : OverrideManager)
      (replicationFactor : U32)
      (now : DateTime),
      ∀ entry ∈
          (drainNode weightedHrwScore drained view assignments manager
            replicationFactor now).2,
        entry.nodeId ≠ nodeId

theorem ClusterView.unreported_iff
    {view : ClusterView} :
    view.Unreported nodeId ↔ view.isNodeOnline nodeId = false := by
  refine ⟨fun unreported => unreported.1, fun offline => ⟨offline, ?_, ?_⟩⟩
  · intro listed
    have online : view.isNodeOnline nodeId = true :=
      (List.mem_filter.mp listed).2
    cases online.symm.trans offline
  · intro Score order weightedHrwScore drained assignments manager
      replicationFactor now entry isEntry isNode
    have isOverride :
        entry ∈ computeDrainOverrides weightedHrwScore drained assignments
          view.descriptors replicationFactor := by
      unfold drainNode at isEntry
      dsimp only at isEntry
      split at isEntry <;> exact isEntry
    obtain ⟨-, isTarget, -⟩ := mem_computeDrainOverrides.mp isOverride
    have online :=
      mem_descriptors.mp (mem_of_drainTarget (nodup_descriptors view)
        isTarget).1
    rw [isNode] at online
    cases online.symm.trans offline

namespace TrackedNodes

section Runs

variable (config : ViewConfig) (start : TrackedNodes)

/-- No node whose last liveliness event is a delete is marked online. -/
def OfflineUnmarked (events : List TimedEvent) : Prop :=
  ∀ nodeId, lastLiveliness config nodeId events = some .delete →
    TrackedNode.online? ((afterEvents config start events).get? nodeId) =
      false

/-- A report on a node that went offline finds its entry. -/
def ReportFindsEntry (events : List TimedEvent) (timed : TimedEvent) :
    Prop :=
  ∀ nodeId, timed.2.reports? = some nodeId →
    lastLiveliness config nodeId events = some .delete →
      ((afterEvents config start events).get? nodeId).isSome = true

theorem offlineUnmarked_snoc_iff
    (events : List TimedEvent)
    (timed : TimedEvent)
    (unmarked : OfflineUnmarked config start events) :
    OfflineUnmarked config start (events ++ [timed]) ↔
      ReportFindsEntry config start events timed := by
  have single :
      ∀ nodeId,
        (lastLiveliness config nodeId (events ++ [timed]) = some .delete →
          TrackedNode.online?
              ((afterEvents config start (events ++ [timed])).get? nodeId) =
            false) ↔
        (timed.2.reports? = some nodeId →
          lastLiveliness config nodeId events = some .delete →
            ((afterEvents config start events).get? nodeId).isSome = true) := by
    intro nodeId
    rw [lastLiveliness_snoc, get?_afterEvents_snoc]
    cases isNews : timed.2.announces? config nodeId with
    | some kind =>
      rw [online?_of_announces _ isNews, Option.some_or,
        reports?_of_announces isNews]
      cases kind <;> simp
    | none =>
      rw [Option.none_or]
      constructor
      · intro stays reported wentOffline
        exact (online?_followEvent (unmarked nodeId wentOffline)
          isNews).mp (stays wentOffline) reported
      · intro finds wentOffline
        exact (online?_followEvent (unmarked nodeId wentOffline)
          isNews).mpr fun reported => finds reported wentOffline
  exact forall_congr' single

end Runs

/--
A node whose last liveliness event is a delete stays unreported throughout a
run exactly if every status or health report on such a node finds its entry.
-/
theorem offline_unreported_iff
    (config : ViewConfig)
    (start : TrackedNodes)
    (events : List TimedEvent) :
    (∀ earlier, earlier <+: events →
        ∀ nodeId, lastLiveliness config nodeId earlier = some .delete →
          (afterEvents config start earlier).view.Unreported nodeId) ↔
      ∀ earlier timed later,
        events = earlier ++ timed :: later →
          ReportFindsEntry config start earlier timed := by
  rw [← GuardedRun.history_iff (OfflineUnmarked config start)
    (offlineUnmarked_snoc_iff config start) nofun events]
  simp only [ClusterView.unreported_iff, isNodeOnline_view]
  rfl

/-- A report that comes in after its node was removed marks it online. -/
theorem evicted_node_reported_online :
    let config : ViewConfig := { keyPrefix := "p" }
    let events : List TimedEvent :=
      [(0, .liveliness "p/_agents/a" .put),
        (1, .liveliness "p/_agents/a" .delete),
        (2, .evictNode "a"),
        (3, .status "a" ⟨[]⟩)]
    lastLiveliness config "a" events = some .delete ∧
      (afterEvents config .empty events).view.isNodeOnline "a" = true ∧
      (afterEvents config .empty events).view.onlineNodes = ["a"] := by
  decide +kernel

end TrackedNodes

end Mitiflow
