import Mitiflow.StoreCompaction

namespace Mitiflow

open Library List

/-!
# Keyed compaction and latest values

`compact_keyed` and `query_latest_by_keys` each look for the latest event of
an application key, one by the keys of the events and the other by their
metadata.  Both pick the same event, so compaction keeps what the query
returns, and there is nothing left for a second compaction to remove.
-/

/-! ## What a pass counts -/

section Pass

variable
    {group : EventMetadata → Option String}
    {events : OrderedMap EventKey (EventMetadata × Bytes)}

/-- An entry with its flag, if it belongs to a group. -/
def flagged
    (group : EventMetadata → Option String)
    (entries : List EventEntry)
    (entry : EventEntry) : Option (EventKey × Bool) :=
  (group entry.2.1).map fun _ =>
    (entry.1, decide (entry.1 ∉ supersededKeys group entries))

/-- Every grouped entry is flagged, as latest unless it is superseded. -/
theorem groupedEntries_eq :
    groupedEntries group events.entries =
      events.entries.filterMap (flagged group events.entries) := by
  refine filterMap_congr fun entry member => ?_
  cases inGroup : group entry.2.1 with
  | none =>
    simp [flagged, inGroup]
  | some name =>
    obtain ⟨latest, isLatest⟩ := exists_isLatest group member inGroup
    have led := leaders_entries_eq_some_iff.mpr isLatest
    have kept :
        entry.1 ∉ supersededKeys group events.entries ↔ entry.1 = latest.1 := by
      rw [mem_supersededKeys member]
      constructor
      · intro notSuperseded
        have entryLatest : IsLatest group events.entries name entry := by
          by_contra notLatest
          exact notSuperseded ⟨name, inGroup, notLatest⟩
        rw [entryLatest.unique isLatest]
      · rintro sameKey ⟨other, otherGroup, notLatest⟩
        have sameEntry := events.entry_unique member isLatest.member sameKey
        cases inGroup.symm.trans otherGroup
        exact notLatest (sameEntry ▸ isLatest)
    simp [flagged, inGroup, latestByGroup_eq, led, kept]

theorem entry_of_mem_supersededKeys
    {key : EventKey}
    (superseded : key ∈ supersededKeys group events.entries) :
    ∃ entry ∈ events.entries, entry.1 = key := by
  obtain ⟨flag, isFlag, isKey⟩ := mem_map.mp superseded
  have grouped := (mem_filter.mp isFlag).1
  rw [groupedEntries_eq] at grouped
  obtain ⟨entry, member, flagShape⟩ := mem_filterMap.mp grouped
  obtain ⟨_, _, rfl⟩ := Option.map_eq_some_iff.mp flagShape
  exact ⟨entry, member, isKey⟩

theorem compactionStats_total :
    (compactionStats group events.entries).removed +
        (compactionStats group events.entries).retained =
      events.entries.countP fun entry => (group entry.2.1).isSome := by
  have total :
      (groupedEntries group events.entries).length =
        events.entries.countP fun entry => (group entry.2.1).isSome := by
    rw [groupedEntries_eq, length_filterMap_eq_countP]
    simp only [flagged, Option.isSome_map]
  rw [← total, length_eq_countP_add_countP (fun entry => entry.2),
    Nat.add_comm]
  simp [compactionStats]

theorem compactionStats_removed :
    (compactionStats group events.entries).removed =
      events.entries.countP
        fun entry => entry.1 ∈ supersededKeys group events.entries := by
  rw [compactionStats, groupedEntries_eq, countP_filterMap]
  refine countP_congr fun entry member => ?_
  cases inGroup : group entry.2.1 with
  | none =>
    have notSuperseded :
        entry.1 ∉ supersededKeys group events.entries := by
      rw [mem_supersededKeys member]
      rintro ⟨name, isName, _⟩
      cases inGroup.symm.trans isName
    simp [flagged, inGroup, notSuperseded]
  | some name =>
    simp [flagged, inGroup]

end Pass

/-! ## Compaction and the latest values -/

namespace FjallBackend

theorem entries_compactKeyed (backend : FjallBackend) :
    (backend.compactKeyed (.ok ())).1.db.events.entries =
      backend.db.events.entries.filter fun entry =>
        entry.1 ∉ supersededKeys EventMetadata.key
          backend.db.events.entries := by
  refine OrderedMap.eq_of_ascending (OrderedMap.sorted _)
    (backend.db.events.sorted.filter _) fun entry => ?_
  rw [mem_events_compactKeyed, mem_filter, decide_eq_true_eq]
  refine and_congr_right fun member => ?_
  rw [mem_supersededKeys member]
  simp

/-- Nothing is superseded in what `compact_keyed` leaves. -/
theorem supersededKeys_compactKeyed (backend : FjallBackend) :
    supersededKeys EventMetadata.key
        (backend.compactKeyed (.ok ())).1.db.events.entries =
      [] := by
  refine eq_nil_iff_forall_not_mem.mpr fun key superseded => ?_
  obtain ⟨entry, member, rfl⟩ := entry_of_mem_supersededKeys superseded
  obtain ⟨name, isName, notLatest⟩ := (mem_supersededKeys member).mp superseded
  exact notLatest (isLatest_compactKeyed_iff.mpr
    ((mem_events_compactKeyed.mp member).2 name isName))

theorem wellFormed_compactKeyed
    {backend : FjallBackend}
    (wellFormed : backend.db.WellFormed) :
    (backend.compactKeyed (.ok ())).1.db.WellFormed :=
  wellFormed.commit fun _ member =>
    WriteOp.wellFormed_of_removes (removes_compactKeyedWrites member)

theorem filter_key_compactKeyed
    {backend : FjallBackend}
    {name : String}
    {latest : EventEntry}
    (isLatest :
      IsLatest EventMetadata.key backend.db.events.entries name latest) :
    (backend.compactKeyed (.ok ())).1.db.events.entries.filter
        (·.2.1.key = some name) =
      [latest] := by
  refine OrderedMap.eq_of_ascending ((OrderedMap.sorted _).filter _)
    (pairwise_singleton _ _) fun entry => ?_
  rw [mem_filter, decide_eq_true_eq, mem_singleton]
  constructor
  · rintro ⟨member, isName⟩
    exact ((mem_events_compactKeyed.mp member).2 name isName).unique isLatest
  · rintro rfl
    exact ⟨(isLatest_compactKeyed_iff.mpr isLatest).member, isLatest.inGroup⟩

/--
Over any backend whose events are stored under their own keys, `compact_keyed`
changes no answer of `query_latest_by_keys`, keeps every unkeyed event and one
event of each application key in use, counts every keyed event as removed or
retained, and leaves nothing for a second run.
-/
theorem compactKeyed_keeps_latest
    (backend : FjallBackend)
    (wellFormed : backend.db.WellFormed) :
    let compacted := (backend.compactKeyed (.ok ())).1
    (∀ keys event,
        event ∈ compacted.queryLatestByKeys keys ↔
          event ∈ backend.queryLatestByKeys keys) ∧
      (∀ entry ∈ backend.db.events.entries,
        entry.2.1.key = none → entry ∈ compacted.db.events.entries) ∧
      (∀ name,
        (∃ entry ∈ backend.db.events.entries, entry.2.1.key = some name) →
        ∃ latest,
          compacted.db.events.entries.filter (·.2.1.key = some name) =
            [latest]) ∧
      (∃ stats,
        (backend.compactKeyed (.ok ())).2 = .ok stats ∧
          stats.removed + stats.retained =
            backend.db.events.entries.countP (·.2.1.key.isSome) ∧
          stats.removed + compacted.db.events.entries.length =
            backend.db.events.entries.length) ∧
      ∃ stats,
        compacted.compactKeyed (.ok ()) = (compacted, .ok stats) ∧
          stats.removed = 0 := by
  intro compacted
  refine ⟨?_, ?_, ?_, ⟨_, rfl, compactionStats_total, ?_⟩,
    ⟨compactionStats EventMetadata.key compacted.db.events.entries, ?_, ?_⟩⟩
  · intro keys event
    rw [mem_queryLatestByKeys (wellFormed_compactKeyed wellFormed),
      mem_queryLatestByKeys wellFormed]
    simp only [isLatest_compactKeyed_iff]
  · intro entry member unkeyed
    refine mem_events_compactKeyed.mpr ⟨member, fun name isName => ?_⟩
    cases unkeyed.symm.trans isName
  · rintro name ⟨entry, member, isName⟩
    obtain ⟨latest, isLatest⟩ := exists_isLatest EventMetadata.key member isName
    exact ⟨latest, filter_key_compactKeyed isLatest⟩
  · rw [compactionStats_removed, entries_compactKeyed,
      ← countP_eq_length_filter]
    simpa using (length_eq_countP_add_countP _).symm
  · have noWrites : compacted.compactKeyedWrites = [] := by
      rw [compactKeyedWrites, supersededKeys_compactKeyed, flatMap_nil]
    unfold compactKeyed
    rw [noWrites]
    rfl
  · rw [compactionStats_removed, supersededKeys_compactKeyed]
    simp

/-- Two publishers share a key and a sequence, beside an unkeyed event. -/
theorem compactKeyed_keeps_latest_tied :
    let backend :=
      afterActions 0
        (keyedStores [(7, 0, ⟨1, 0⟩), (7, 1, ⟨2, 0⟩), (9, 1, ⟨3, 0⟩)] ++
          [.store (.store (plainEvent 9 2))])
    let compacted := (backend.compactKeyed (.ok ())).1
    compacted.db.events.entries.map Prod.fst = [⟨7, 1⟩, ⟨9, 2⟩] ∧
      ∀ keys event,
        event ∈ compacted.queryLatestByKeys keys ↔
          event ∈ backend.queryLatestByKeys keys := by
  intro backend compacted
  refine ⟨by decide +kernel, ?_⟩
  exact (compactKeyed_keeps_latest backend (wellFormed_afterActions 0 _)).1

end FjallBackend

end Mitiflow
