import Mitiflow.OffsetStore
import Mitiflow.QuerySemantics

namespace Mitiflow

open Library List

/-!
# The store of one partition

A backend keeps the events of its partition and, in a keyspace of their own,
the offsets of the consumer groups.  This module puts the two together, lets
the storage engine refuse any write, and says what `gc` leaves alone: every
event that is not expired, its place in both listings, the durability progress
of every publisher and every committed offset.
-/

/-- The backend of a partition with its offsets keyspace. -/
structure PartitionStore where
  backend : FjallBackend
  offsets : OffsetKeyspace

/-- A call that may change the store, with the storage engine's answers. -/
inductive StoreCommand where
  | store (event : StoredEvent) (outcome : Except String Unit)
  | storeBatch (events : List StoredEvent) (outcome : Except String Unit)
  | gc (olderThan : DateTime) (outcome : Except String Unit)
  | compact (outcome : Except String Unit)
  | compactKeyed (outcome : Except String Unit)
  | commitOffsets (commit : GroupCommit) (answers : EngineAnswers)
  | commitKeyedOffset (commit : KeyedOffsetCommit) (answers : EngineAnswers)
  | reopen

namespace PartitionStore

/-- The store of an empty directory. -/
def fresh (partition : U32) : PartitionStore where
  backend := FjallBackend.fresh partition
  offsets := .empty

def perform (store : PartitionStore) : StoreCommand → PartitionStore
  | .store event outcome =>
    { store with backend := (store.backend.store event outcome).1 }
  | .storeBatch events outcome =>
    { store with backend := (store.backend.storeBatch events outcome).1 }
  | .gc olderThan outcome =>
    { store with backend := (store.backend.gc olderThan outcome).1 }
  | .compact outcome =>
    { store with backend := (store.backend.compact outcome).1 }
  | .compactKeyed outcome =>
    { store with backend := (store.backend.compactKeyed outcome).1 }
  | .commitOffsets commit answers =>
    { store with
      offsets := (Mitiflow.commitOffsets store.offsets commit answers).1 }
  | .commitKeyedOffset commit answers =>
    { store with
      offsets :=
        (Mitiflow.commitKeyedOffset store.offsets commit answers).1 }
  | .reopen =>
    { store with
      backend :=
        FjallBackend.rebuild store.backend.db store.backend.partition }

def after (partition : U32) (commands : List StoreCommand) :
    PartitionStore :=
  commands.foldl perform (fresh partition)

end PartitionStore

/-! ## Events under their own keys -/

namespace FjallBackend

theorem wellFormed_commitBatch
    {backend : FjallBackend}
    (wellFormed : backend.db.WellFormed)
    {batch : List WriteOp}
    (writes : ∀ op ∈ batch, op.WellFormed)
    (outcome : Except String Unit)
    (failure : String) :
    (backend.commitBatch batch outcome failure).1.db.WellFormed := by
  cases outcome with
  | ok =>
    exact wellFormed.commit writes
  | error =>
    exact wellFormed

theorem wellFormed_storeBatch
    {backend : FjallBackend}
    (wellFormed : backend.db.WellFormed)
    (events : List StoredEvent)
    (outcome : Except String Unit) :
    (backend.storeBatch events outcome).1.db.WellFormed := by
  cases events with
  | nil =>
    exact wellFormed
  | cons event rest =>
    have tracked :
        (backend.beginStoreBatch (event :: rest)).1.db.WellFormed := by
      rw [db_beginStoreBatch]
      exact wellFormed
    exact wellFormed_commitBatch tracked
      (fun _ => backend.beginStoreBatch_wellFormed _) outcome _

end FjallBackend

namespace PartitionStore

/-- Whatever the storage engine answers, a call keeps every event under its
own key. -/
theorem wellFormed_perform
    {store : PartitionStore}
    (wellFormed : store.backend.db.WellFormed)
    (command : StoreCommand) :
    (store.perform command).backend.db.WellFormed := by
  cases command with
  | store event outcome =>
    have asBatch :
        store.backend.store event outcome =
          store.backend.storeBatch [event] outcome := by
      rw [FjallBackend.store, ← FjallBackend.beginStoreBatch_singleton]
      rfl
    change (store.backend.store event outcome).1.db.WellFormed
    rw [asBatch]
    exact FjallBackend.wellFormed_storeBatch wellFormed [event] outcome
  | storeBatch events outcome =>
    exact FjallBackend.wellFormed_storeBatch wellFormed events outcome
  | gc olderThan outcome =>
    exact FjallBackend.wellFormed_commitBatch wellFormed
      (fun _ member => WriteOp.wellFormed_of_removes
        (FjallBackend.removes_gcWrites member)) outcome _
  | compact outcome =>
    exact FjallBackend.wellFormed_commitBatch wellFormed
      (fun _ member => WriteOp.wellFormed_of_removes
        (FjallBackend.removes_compactWrites member)) outcome _
  | compactKeyed outcome =>
    exact FjallBackend.wellFormed_commitBatch wellFormed
      (fun _ member => WriteOp.wellFormed_of_removes
        (FjallBackend.removes_compactKeyedWrites member)) outcome _
  | commitOffsets commit answers =>
    exact wellFormed
  | commitKeyedOffset commit answers =>
    exact wellFormed
  | reopen =>
    exact wellFormed

theorem wellFormed_after
    (partition : U32)
    (commands : List StoreCommand) :
    (after partition commands).backend.db.WellFormed :=
  List.foldlRecOn commands perform
    (motive := fun store => store.backend.db.WellFormed)
    Database.wellFormed_empty
    (fun _ wellFormed command _ => wellFormed_perform wellFormed command)

end PartitionStore

/-! ## What `gc` leaves -/

namespace FjallBackend

variable {backend : FjallBackend} {olderThan : DateTime}

/-- Everything stored, as a query without filters returns it. -/
theorem query_unfiltered (backend : FjallBackend) :
    backend.query {} =
      some (backend.db.events.entries.map EventEntry.returned) := by
  have everything :
      backend.db.events.entries.filter ({} : QueryFilters).selects =
        backend.db.events.entries :=
    filter_eq_self.mpr fun _ _ => rfl
  rw [(@query_all_iff {} backend rfl).mpr nofun, selected, everything]
  rfl

/-- Everything indexed, as a replay query without filters returns it. -/
theorem queryReplay_unfiltered (backend : FjallBackend) :
    backend.queryReplay {} =
      (backend.db.replay.entries.filterMap backend.db.follow).map
        fun item => item.2.returned := by
  rw [queryReplay, scan_none, nil_append,
    ReplayFilters.collected_visit, map_filterMap]
  refine filterMap_congr fun index _ => ?_
  rw [Database.value?_visit]
  cases backend.db.follow index with
  | none =>
    rfl
  | some item =>
    rfl

theorem removeEvent_mem_gcWrites_iff
    {entry : EventEntry}
    (member : entry ∈ backend.db.events.entries) :
    .removeEvent entry.1 ∈ backend.gcWrites olderThan ↔
      entry.2.1.timestamp < olderThan := by
  constructor
  · intro removed
    obtain ⟨expired, isExpired, isKey⟩ := expired_of_removeEvent_mem removed
    obtain ⟨expiredMember, older⟩ := mem_filter.mp isExpired
    rw [← backend.db.events.entry_unique expiredMember member isKey]
    exact of_decide_eq_true older
  · intro older
    exact mem_flatMap.mpr
      ⟨entry, mem_filter.mpr ⟨member, decide_eq_true older⟩,
        mem_cons_self⟩

theorem entries_gc :
    (backend.gc olderThan (.ok ())).1.db.events.entries =
      backend.db.events.entries.filter (olderThan ≤ ·.2.1.timestamp) := by
  refine OrderedMap.eq_of_ascending (OrderedMap.sorted _)
    (backend.db.events.sorted.filter _) fun entry => ?_
  rw [mem_filter, decide_eq_true_eq, ← not_lt]
  refine ((Database.mem_commit_removals fun _ => removes_gcWrites).1
    entry).trans (and_congr_right fun member => ?_)
  rw [removeEvent_mem_gcWrites_iff member]

theorem followed_gc (wellFormed : backend.db.WellFormed) :
    let collected := (backend.gc olderThan (.ok ())).1
    collected.db.replay.entries.filterMap collected.db.follow =
      (backend.db.replay.entries.filterMap backend.db.follow).filter
        (olderThan ≤ ·.2.2.1.timestamp) := by
  intro collected
  refine OrderedMap.eq_of_ascending collected.db.ascending_followed
    (backend.db.ascending_followed.filter _) fun item => ?_
  rw [mem_filter, decide_eq_true_eq, ← not_lt, Database.mem_followed,
    Database.mem_followed]
  have inReplay :=
    (@Database.mem_commit_removals backend.db (backend.gcWrites olderThan)
      fun _ => removes_gcWrites).2 (item.1, item.2.1)
  have inEvents :
      item.2 ∈ collected.db.events.entries ↔
        item.2 ∈ backend.db.events.entries ∧
          ¬item.2.2.1.timestamp < olderThan := by
    rw [entries_gc, mem_filter, decide_eq_true_eq, not_lt]
  rw [inEvents, ← and_assoc]
  refine and_congr_left fun notOlder => ?_
  change (item.1, item.2.1) ∈
      (backend.db.commit (backend.gcWrites olderThan)).replay.entries ∧ _ ↔ _
  rw [inReplay]
  refine and_congr_left fun member => and_iff_left_of_imp fun indexed => ?_
  intro unindexed
  have removed := removeEvent_mem_gcWrites unindexed
  rw [← wellFormed.replay _ indexed] at removed
  exact notOlder ((removeEvent_mem_gcWrites_iff member).mp removed)

end FjallBackend

namespace PartitionStore

/--
After a successful `gc` in any reachable store, both listings are as before
without the events older than the given instant, which are counted in the
answer; the progress of publishers and the committed offsets are as before.
-/
theorem gc_frame
    (partition : U32)
    (commands : List StoreCommand)
    (olderThan : DateTime) :
    let store := after partition commands
    let collected := store.perform (.gc olderThan (.ok ()))
    ∃ events,
      store.backend.query {} = some events ∧
        collected.backend.query {} =
          some (events.filter (olderThan ≤ ·.metadata.timestamp)) ∧
        collected.backend.queryReplay {} =
          (store.backend.queryReplay {}).filter
            (olderThan ≤ ·.metadata.timestamp) ∧
        (store.backend.gc olderThan (.ok ())).2 =
          .ok (events.countP (·.metadata.timestamp < olderThan)) ∧
        (∀ publisher,
          collected.backend.publisherWatermarks publisher =
            store.backend.publisherWatermarks publisher) ∧
        (∀ groupId scan,
          fetchOffsets collected.offsets groupId scan =
            fetchOffsets store.offsets groupId scan) ∧
        ∀ groupId keyFilterHash read,
          fetchKeyedOffset collected.offsets groupId keyFilterHash read =
            fetchKeyedOffset store.offsets groupId keyFilterHash read := by
  intro store collected
  refine ⟨_, store.backend.query_unfiltered, ?_, ?_, ?_, fun _ => rfl,
    fun _ _ => rfl, fun _ _ _ => rfl⟩
  · rw [collected.backend.query_unfiltered, filter_map]
    exact congrArg (fun entries => some (entries.map EventEntry.returned))
      FjallBackend.entries_gc
  · rw [collected.backend.queryReplay_unfiltered,
      store.backend.queryReplay_unfiltered, filter_map]
    exact congrArg (List.map _)
      (FjallBackend.followed_gc (wellFormed_after partition commands))
  · rw [countP_map, countP_eq_length_filter]
    rfl

end PartitionStore

end Mitiflow
