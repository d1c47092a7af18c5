import Mitiflow.Library.GuardedRun
import Mitiflow.ReplayLog
import Mitiflow.StoreBatch

namespace Mitiflow

open Library List

/-!
# The replay index follows the events

The replay keyspace indexes the events keyspace by clock value.  Storing an
event writes its index entry and never removes the entry of a copy it
replaces; `gc` and `compact_keyed` remove the entry rebuilt from the metadata
they hold; `compact` leaves the index alone.  This module says exactly which
calls keep the index in step with the events, and what a query lists while it
is.
-/

/-- The index leads to an event exactly when it is held under that clock. -/
def Database.ReplayIndexed (db : Database) : Prop :=
  ∀ hlc key,
    replayEntry hlc key ∈ db.replay.entries ↔
      ∃ value,
        db.events.get? key = some value ∧
          value.1.hlcTimestamp = some hlc

/-! ## Stored copies -/

/-- The copy of an event that a sequence of stores leaves. -/
def lastCopy (events : List StoredEvent) (key : EventKey) :
    Option StoredEvent :=
  (events.filter (·.metadata.eventKey = key)).getLast?

theorem lastCopy_snoc
    (events : List StoredEvent)
    (event : StoredEvent)
    (key : EventKey) :
    lastCopy (events ++ [event]) key =
      if key = event.metadata.eventKey then
        some event
      else
        lastCopy events key := by
  by_cases isKey : key = event.metadata.eventKey
  · simp [lastCopy, isKey]
  · simp [lastCopy, isKey, Ne.symm isKey]

variable {events : List StoredEvent}

theorem mem_of_lastCopy
    {key : EventKey}
    {final : StoredEvent}
    (isLast : lastCopy events key = some final) :
    final ∈ events ∧ final.metadata.eventKey = key := by
  simpa using mem_of_getLast? isLast

theorem lastCopy_eq_none_iff
    {key : EventKey} :
    lastCopy events key = none ↔
      ∀ event ∈ events, event.metadata.eventKey ≠ key := by
  simp [lastCopy]

namespace Database

theorem get?_commit_stores
    (db : Database)
    (events : List StoredEvent)
    (key : EventKey) :
    (db.commit (events.flatMap eventWrites)).events.get? key =
      ((lastCopy events key).map fun event =>
        (event.metadata, event.payload)).or (db.events.get? key) := by
  induction events using List.reverseRecOn with
  | nil =>
    rfl
  | append_singleton earlier event inductionHypothesis =>
    grind [commit_append, get?_commit_eventWrites, lastCopy_snoc]

variable {db : Database}

theorem mem_replay_commit_stores
    {hlc : HlcTimestamp}
    {key : EventKey} :
    replayEntry hlc key ∈
        (db.commit (events.flatMap eventWrites)).replay.entries ↔
      replayEntry hlc key ∈ db.replay.entries ∨
        ∃ event ∈ events,
          event.metadata.eventKey = key ∧
            event.metadata.hlcTimestamp = some hlc := by
  induction events using List.reverseRecOn with
  | nil =>
    simp [commit]
  | append_singleton earlier event inductionHypothesis =>
    grind [commit_append, mem_replay_commit_eventWrites]

/--
The stores give no event a clock value that differs from one it had: neither
the held copy nor an earlier one among them.
-/
def KeepsClocks (db : Database) (events : List StoredEvent) : Prop :=
  ∀ event ∈ events, ∀ final ∈ lastCopy events event.metadata.eventKey,
    (∀ hlc ∈ event.metadata.hlcTimestamp,
      hlc ∈ final.metadata.hlcTimestamp) ∧
    ∀ held ∈ db.events.get? event.metadata.eventKey,
      ∀ hlc ∈ held.1.hlcTimestamp, hlc ∈ final.metadata.hlcTimestamp

instance KeepsClocks.decidable (db : Database) (events : List StoredEvent) :
    Decidable (db.KeepsClocks events) :=
  inferInstanceAs (Decidable (∀ event ∈ events,
    ∀ final ∈ lastCopy events event.metadata.eventKey,
      (∀ hlc ∈ event.metadata.hlcTimestamp,
        hlc ∈ final.metadata.hlcTimestamp) ∧
      ∀ held ∈ db.events.get? event.metadata.eventKey,
        ∀ hlc ∈ held.1.hlcTimestamp, hlc ∈ final.metadata.hlcTimestamp))

/-- Stores keep the index in step exactly when they keep the clock values. -/
theorem replayIndexed_commit_stores_iff
    (indexed : db.ReplayIndexed)
    (events : List StoredEvent) :
    (db.commit (events.flatMap eventWrites)).ReplayIndexed ↔
      db.KeepsClocks events := by
  constructor
  · intro after event isEvent final isFinal
    have heldAfter :
        ∀ hlc,
          replayEntry hlc event.metadata.eventKey ∈
              (db.commit (events.flatMap eventWrites)).replay.entries →
            hlc ∈ final.metadata.hlcTimestamp := by
      intro hlc entered
      obtain ⟨value, found, clock⟩ := (after _ _).mp entered
      rw [get?_commit_stores, Option.mem_def.mp isFinal] at found
      rw [← Option.some.inj found] at clock
      exact clock
    refine ⟨?_, ?_⟩
    · intro hlc clock
      exact heldAfter hlc
        (mem_replay_commit_stores.mpr (Or.inr ⟨event, isEvent, rfl, clock⟩))
    · intro held isHeld hlc clock
      exact heldAfter hlc
        (mem_replay_commit_stores.mpr
          (Or.inl ((indexed _ _).mpr ⟨held, isHeld, clock⟩)))
  · intro keeps hlc key
    rw [mem_replay_commit_stores, get?_commit_stores, indexed hlc key]
    cases isLast : lastCopy events key with
    | none =>
      grind [lastCopy_eq_none_iff]
    | some final =>
      obtain ⟨isFinal, finalKey⟩ := mem_of_lastCopy isLast
      simp only [Option.map_some, Option.some_or, Option.some.injEq,
        exists_eq_left']
      constructor
      · rintro (⟨held, isHeld, clock⟩ | ⟨event, isEvent, isKey, clock⟩)
        · rw [← finalKey] at isLast isHeld
          exact (keeps final isFinal final isLast).2 held isHeld hlc clock
        · rw [← isKey] at isLast
          exact (keeps event isEvent final isLast).1 hlc clock
      · intro clock
        exact Or.inr ⟨final, isFinal, finalKey, clock⟩

/-- In an index in step every entry has the clock value of its event. -/
theorem ReplayIndexed.current
    (wellFormed : db.WellFormed)
    (indexed : db.ReplayIndexed)
    {index : ReplayKey × EventKey}
    (member : index ∈ db.replay.entries)
    (value : EventMetadata × Bytes)
    (found : db.events.get? index.2 = some value) :
    value.1.hlcTimestamp = some index.1.hlc := by
  have isEntry := wellFormed.eq_replayEntry member
  obtain ⟨held, isHeld, clock⟩ :=
    (indexed index.1.hlc index.2).mp (isEntry ▸ member)
  rw [found] at isHeld
  rw [Option.some.inj isHeld]
  exact clock

/-- A batch of deletions that unindexes exactly the events it removes. -/
theorem replayIndexed_commit_removals
    (indexed : db.ReplayIndexed)
    {batch : List WriteOp}
    (removals : ∀ op ∈ batch, op.removes = true)
    (together :
      ∀ hlc key value,
        db.events.get? key = some value →
        value.1.hlcTimestamp = some hlc →
          (.removeReplay (replayEntry hlc key).1 ∈ batch ↔
            .removeEvent key ∈ batch)) :
    (db.commit batch).ReplayIndexed := by
  intro hlc key
  rw [(mem_commit_removals removals).2, indexed hlc key]
  simp only [OrderedMap.get?_eq_some, (mem_commit_removals removals).1]
  constructor
  · rintro ⟨⟨value, held, clock⟩, notUnindexed⟩
    refine ⟨value, ⟨held, ?_⟩, clock⟩
    rw [← together hlc key value (OrderedMap.get?_eq_some.mpr held) clock]
    exact notUnindexed
  · rintro ⟨value, ⟨held, notRemoved⟩, clock⟩
    refine ⟨⟨value, held, clock⟩, ?_⟩
    rw [together hlc key value (OrderedMap.get?_eq_some.mpr held) clock]
    exact notRemoved

end Database

namespace FjallBackend

/-! ## The deletions -/

variable {backend : FjallBackend}

/-- `gc` unindexes exactly the events it removes. -/
theorem replayIndexed_gc
    (indexed : backend.db.ReplayIndexed)
    (olderThan : DateTime) :
    (backend.db.commit (backend.gcWrites olderThan)).ReplayIndexed := by
  refine Database.replayIndexed_commit_removals indexed
    (fun _ => removes_gcWrites) ?_
  intro hlc key value found clock
  refine ⟨removeEvent_mem_gcWrites, ?_⟩
  intro removed
  obtain ⟨entry, isExpired, isKey⟩ := expired_of_removeEvent_mem removed
  refine mem_flatMap.mpr ⟨entry, isExpired, ?_⟩
  have isEntry : entry = (key, value) :=
    backend.db.events.entry_unique (mem_filter.mp isExpired).1
      (OrderedMap.get?_eq_some.mp found) isKey
  rw [isEntry]
  exact mem_append_right _ (mem_removeReplayOf.mpr ⟨hlc, clock, rfl⟩)

/-- `compact_keyed` unindexes exactly the events it removes. -/
theorem replayIndexed_compactKeyed
    (indexed : backend.db.ReplayIndexed) :
    (backend.db.commit backend.compactKeyedWrites).ReplayIndexed := by
  refine Database.replayIndexed_commit_removals indexed
    (fun _ => removes_compactKeyedWrites) ?_
  intro hlc key value found clock
  refine ⟨removeEvent_mem_compactKeyedWrites, ?_⟩
  intro removed
  obtain ⟨superseded, isSuperseded, written⟩ := mem_flatMap.mp removed
  refine mem_flatMap.mpr ⟨superseded, isSuperseded, ?_⟩
  have isKey : superseded = key := by
    grind [mem_removeReplayOf]
  rw [isKey]
  refine mem_append_left _ ?_
  rw [found]
  exact mem_removeReplayOf.mpr ⟨hlc, clock, rfl⟩

/-- `compact` keeps the index in step if what it removes is not indexed. -/
theorem replayIndexed_compact_iff
    (indexed : backend.db.ReplayIndexed) :
    (backend.db.commit backend.compactWrites).ReplayIndexed ↔
      ∀ key ∈
          supersededKeys (fun metadata => some metadata.keyExpr)
            backend.db.events.entries,
        ∀ held ∈ backend.db.events.get? key,
          held.1.hlcTimestamp = none := by
  have named :
      ∀ key,
        .removeEvent key ∈ backend.compactWrites ↔
          key ∈ supersededKeys (fun metadata => some metadata.keyExpr)
            backend.db.events.entries := by
    intro key
    simp [compactWrites]
  have unindexesNone :
      ∀ index, .removeReplay index ∉ backend.compactWrites := by
    intro index
    simp [compactWrites]
  constructor
  · intro after key isSuperseded held isHeld
    rw [Option.eq_none_iff_forall_ne_some]
    intro hlc clock
    have entered :
        replayEntry hlc key ∈
          (backend.db.commit backend.compactWrites).replay.entries :=
      ((Database.mem_commit_removals
        fun _ => removes_compactWrites).2 _).mpr
        ⟨(indexed hlc key).mpr ⟨held, isHeld, clock⟩, unindexesNone _⟩
    obtain ⟨value, found, _⟩ := (after hlc key).mp entered
    exact (((Database.mem_commit_removals
      fun _ => removes_compactWrites).1 _).mp
        (OrderedMap.get?_eq_some.mp found)).2 ((named key).mpr isSuperseded)
  · intro clockless
    refine Database.replayIndexed_commit_removals indexed
      (fun _ => removes_compactWrites) ?_
    intro hlc key value found clock
    refine ⟨fun unindexed => absurd unindexed (unindexesNone _), ?_⟩
    intro removed
    rw [clockless key ((named key).mp removed) value found] at clock
    cases clock

/-! ## Histories -/

/-- What a call must meet to keep the index in step with the events. -/
def KeepsIndex (backend : FjallBackend) : StoreAction → Prop
  | .store call => backend.db.KeepsClocks call.events
  | .compact =>
    ∀ key ∈
        supersededKeys (fun metadata => some metadata.keyExpr)
          backend.db.events.entries,
      ∀ held ∈ backend.db.events.get? key, held.1.hlcTimestamp = none
  | .gc _ | .compactKeyed | .reopen => True

instance KeepsIndex.decidable (backend : FjallBackend) :
    (action : StoreAction) → Decidable (backend.KeepsIndex action)
  | .store call =>
    inferInstanceAs (Decidable (backend.db.KeepsClocks call.events))
  | .compact =>
    inferInstanceAs (Decidable (∀ key ∈
        supersededKeys (fun metadata => some metadata.keyExpr)
          backend.db.events.entries,
      ∀ held ∈ backend.db.events.get? key, held.1.hlcTimestamp = none))
  | .gc _ | .compactKeyed | .reopen => inferInstanceAs (Decidable True)

theorem replayIndexed_act_iff
    (backend : FjallBackend)
    (action : StoreAction)
    (indexed : backend.db.ReplayIndexed) :
    (backend.act action).db.ReplayIndexed ↔ backend.KeepsIndex action := by
  cases action with
  | store call =>
    rw [act, runCall_enlarged]
    exact Database.replayIndexed_commit_stores_iff indexed call.events
  | gc olderThan =>
    exact iff_of_true (replayIndexed_gc indexed olderThan) trivial
  | compact =>
    exact replayIndexed_compact_iff indexed
  | compactKeyed =>
    exact iff_of_true (replayIndexed_compactKeyed indexed) trivial
  | reopen =>
    exact iff_of_true indexed trivial

theorem replayIndexed_fresh (partition : U32) :
    (fresh partition).db.ReplayIndexed := by
  intro hlc key
  refine ⟨fun entered => (by cases entered), ?_⟩
  rintro ⟨value, found, _⟩
  cases found

theorem replayIndexed_afterActions
    {partition : U32}
    {actions : List StoreAction}
    (guarded : GuardedRun act KeepsIndex (fresh partition) actions) :
    (afterActions partition actions).db.ReplayIndexed :=
  GuardedRun.invariant (fun backend : FjallBackend => backend.db.ReplayIndexed)
    (fun backend action indexed =>
      (replayIndexed_act_iff backend action indexed).mpr)
    (replayIndexed_fresh partition) guarded

/-- Events with clock values, each listed once and at its own place. -/
structure ListedInPlace (events : List StoredEvent) : Prop where
  stamped :
    ∀ event ∈ events, event.metadata.hlcTimestamp = some (hlcOf event)
  ascends :
    events.Pairwise fun first second =>
      replayPosition first < replayPosition second

theorem listedInPlace_queryReplay
    (wellFormed : backend.db.WellFormed)
    (indexed : backend.db.ReplayIndexed)
    (filters : ReplayFilters) :
    ListedInPlace (backend.queryReplay filters) := by
  have sub :=
    scan_sublist filters.limit (filters.visit backend.db)
      backend.db.replay.entries
  refine ⟨?_, ?_⟩
  · intro event listed
    obtain ⟨index, member, taken⟩ := mem_filterMap.mp (sub.subset listed)
    exact (replayPosition_of_visit wellFormed member
      (indexed.current wellFormed member) (value?_eq_some_iff.mp taken)).1
  · exact List.Pairwise.sublist sub (pairwise_position_visits wellFormed
      (fun _ member => indexed.current wellFormed member) filters)

/--
The index stays in step through a history exactly when every call keeps the
clock values of the events it replaces and no `compact` removes an indexed
event; queries then list each event once, at its own place.
-/
theorem replayIndexed_throughout_iff
    (partition : U32)
    (actions : List StoreAction) :
    ((∀ earlier, earlier <+: actions →
        (afterActions partition earlier).db.ReplayIndexed) ↔
      GuardedRun act KeepsIndex (fresh partition) actions) ∧
    (GuardedRun act KeepsIndex (fresh partition) actions →
      ∀ filters,
        ListedInPlace
          ((afterActions partition actions).queryReplay filters)) := by
  refine ⟨?_, ?_⟩
  · exact (GuardedRun.iff_throughout
      (fun backend : FjallBackend => backend.db.ReplayIndexed)
      replayIndexed_act_iff (replayIndexed_fresh partition) actions).symm
  · intro guarded filters
    exact listedInPlace_queryReplay
      (wellFormed_afterActions partition actions)
      (replayIndexed_afterActions guarded) filters

/-- An event stored again under a later clock value is listed twice. -/
theorem restamped_event_listed_twice :
    let actions : List StoreAction :=
      [.store (.store (stampedEvent 0 0 0 none (some ⟨1, 0⟩))),
        .store (.store (stampedEvent 0 0 0 none (some ⟨2, 0⟩)))]
    ¬(afterActions 0 actions).db.ReplayIndexed ∧
      (afterActions 0 actions).queryReplay {} =
        [stampedEvent 0 0 0 none (some ⟨2, 0⟩),
          stampedEvent 0 0 0 none (some ⟨2, 0⟩)] := by
  refine ⟨?_, by decide +kernel⟩
  intro indexed
  obtain ⟨value, found, clock⟩ := (indexed ⟨1, 0⟩ ⟨0, 0⟩).mp (by decide +kernel)
  have isLast :
      some value =
        some ((stampedEvent 0 0 0 none (some ⟨2, 0⟩)).metadata, []) :=
    found.symm.trans (by decide +kernel)
  rw [Option.some.inj isLast] at clock
  cases clock

end FjallBackend

end Mitiflow
