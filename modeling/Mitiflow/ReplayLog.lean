import Mitiflow.Library.BufferedPages
import Mitiflow.Replayer
import Mitiflow.StoreCompaction

namespace Mitiflow

open Library List

/-!
# The log a replay reads

Over a backend whose events have distinct clock values and are indexed under
them, the replay index lists the events in clock order, and a query above a
cursor returns the next ones.  Every history of a backend whose stored events
carry one clock value each leaves it in that shape.
-/

/-! ## The log of a replay -/

/-- Every event is indexed under its own clock value, and no other has it. -/
structure ReplayContent (db : Database) : Prop where
  wellFormed : db.WellFormed
  stamped :
    ∀ entry ∈ db.events.entries, ∃ hlc,
      entry.2.1.hlcTimestamp = some hlc ∧
        (⟨hlc, entry.1.publisherId, entry.1.seq⟩, entry.1) ∈
          db.replay.entries
  current :
    ∀ index ∈ db.replay.entries, ∀ value,
      db.events.get? index.2 = some value →
        value.1.hlcTimestamp = some index.1.hlc
  distinct :
    ∀ first ∈ db.events.entries, ∀ second ∈ db.events.entries,
      first.2.1.hlcTimestamp = second.2.1.hlcTimestamp → first = second

/-- Every event is indexed under its clock value, and under no other. -/
structure IndexedContent (db : Database) : Prop where
  wellFormed : db.WellFormed
  stamped :
    ∀ entry ∈ db.events.entries, ∃ hlc,
      entry.2.1.hlcTimestamp = some hlc ∧
        (⟨hlc, entry.1.publisherId, entry.1.seq⟩, entry.1) ∈
          db.replay.entries
  current :
    ∀ index ∈ db.replay.entries, ∀ value,
      db.events.get? index.2 = some value →
        value.1.hlcTimestamp = some index.1.hlc

variable {db : Database} {index : ReplayKey × EventKey} {key : EventKey}

theorem ReplayContent.indexedContent
    (content : ReplayContent db) :
    IndexedContent db :=
  ⟨content.wellFormed, content.stamped, content.current⟩

/-- Whether a scope selects an event of a local backend. -/
def ReplayScope.selects (metadata : EventMetadata) : ReplayScope → Bool
  | .all | .partition _ => true
  | .key exactKey => metadata.key = some exactKey
  | .keyPrefix leading =>
    match metadata.key with
    | some appKey => leading.toList.isPrefixOf appKey.toList
    | none => false
  | .publisher wanted => metadata.publisherId = wanted

def hlcOf (event : StoredEvent) : HlcTimestamp :=
  event.metadata.hlcTimestamp.getD ⟨0, 0⟩

theorem getLast?_bind_hlcTimestamp
    {events : List StoredEvent}
    (stamped :
      ∀ event ∈ events, event.metadata.hlcTimestamp = some (hlcOf event)) :
    events.getLast?.bind (·.metadata.hlcTimestamp) =
      events.getLast?.map hlcOf := by
  cases isLast : events.getLast? with
  | none =>
    rfl
  | some last =>
    exact stamped last (mem_of_getLast? isLast)

section Log

variable {db : Database} {scope : ReplayScope}

def ReplayScope.filters
    (scope : ReplayScope)
    (afterHlc beforeHlc : Option HlcTimestamp)
    (limit : Option Nat) : ReplayFilters :=
  scope.restrict
    { afterHlc := afterHlc, beforeHlc := beforeHlc, limit := limit }

theorem ReplayScope.filters_bounds
    (afterHlc beforeHlc : Option HlcTimestamp)
    (limit : Option Nat) :
    (scope.filters afterHlc beforeHlc limit).afterHlc = afterHlc ∧
      (scope.filters afterHlc beforeHlc limit).beforeHlc = beforeHlc ∧
      (scope.filters afterHlc beforeHlc limit).limit = limit := by
  cases scope with
  | all =>
    exact ⟨rfl, rfl, rfl⟩
  | «partition» partition =>
    exact ⟨rfl, rfl, rfl⟩
  | key exactKey =>
    exact ⟨rfl, rfl, rfl⟩
  | keyPrefix leading =>
    exact ⟨rfl, rfl, rfl⟩
  | publisher wanted =>
    exact ⟨rfl, rfl, rfl⟩

theorem ReplayScope.filters_match
    (afterHlc beforeHlc : Option HlcTimestamp)
    (limit : Option Nat)
    (metadata : EventMetadata) :
    ((scope.filters afterHlc beforeHlc limit).matchesPublisher
          metadata.publisherId &&
        (scope.filters afterHlc beforeHlc limit).matchesKey metadata.key) =
      scope.selects metadata := by
  cases scope with
  | all =>
    rfl
  | «partition» partition =>
    rfl
  | key exactKey =>
    rfl
  | keyPrefix leading =>
    grind [filters, restrict, ReplayFilters.matchesPublisher,
      ReplayFilters.matchesKey, selects]
  | publisher wanted =>
    simp [filters, restrict, ReplayFilters.matchesPublisher,
      ReplayFilters.matchesKey, selects]

variable {beforeHlc : Option HlcTimestamp} {index : ReplayKey × EventKey}
  {event : StoredEvent}

/-- What a visit of the replay index takes under a scope's filters. -/
theorem visit_filters_eq_take_iff
    (wellFormed : db.WellFormed)
    {afterHlc : Option HlcTimestamp}
    {limit : Option Nat}
    (indexed : index ∈ db.replay.entries) :
    (scope.filters afterHlc beforeHlc limit).visit db index = .take event ↔
      atOrBelow afterHlc index.1.hlc = false ∧
        atOrAbove beforeHlc index.1.hlc = false ∧
        ∃ value,
          db.events.get? index.2 = some value ∧
            scope.selects value.1 = true ∧
            event = returnedEvent value.1 value.2 := by
  obtain ⟨sameAfter, sameBefore, _⟩ :=
    scope.filters_bounds afterHlc beforeHlc limit
  rw [ReplayFilters.visit_eq_take_iff, sameAfter, sameBefore]
  have publisherOf
      {value : EventMetadata × Bytes}
      (found : db.events.get? index.2 = some value) :
      value.1.publisherId = index.1.publisherId := by
    have sameKey :=
      (wellFormed.events (index.2, value)
        (OrderedMap.get?_eq_some.mp found)).trans
          (wellFormed.replay index indexed)
    exact congrArg EventKey.publisherId sameKey
  constructor
  · rintro ⟨⟨above, below, fromPublisher⟩, value, found, keyMatches, shape⟩
    refine ⟨above, below, value, found, ?_, shape⟩
    rw [← scope.filters_match afterHlc beforeHlc limit, publisherOf found,
      fromPublisher, keyMatches]
    rfl
  · grind [scope.filters_match]

/-- The events a scope selects below a bound, in clock order. -/
def replayLog
    (db : Database)
    (scope : ReplayScope)
    (beforeHlc : Option HlcTimestamp) : List StoredEvent :=
  db.replay.entries.filterMap fun index =>
    ((scope.filters none beforeHlc none).visit db index).value?

theorem ReplayKey.hlc_le_of_lt
    {first second : ReplayKey}
    (ordered : first < second) :
    first.hlc ≤ second.hlc := by
  have lexOrdered : first.sortKey < second.sortKey := ordered
  rw [ReplayKey.sortKey, ReplayKey.sortKey, Prod.Lex.toLex_lt_toLex]
    at lexOrdered
  rcases lexOrdered with below | ⟨same, _⟩
  · exact below.le
  · exact same.le

/-- A visit stops at or above the upper bound, where later ones stay. -/
theorem ReplayFilters.value?_after_stop
    {filters : ReplayFilters}
    {first later : ReplayKey × EventKey}
    (ordered : first.1.hlc ≤ later.1.hlc)
    (stops : filters.visit db first = .stop) :
    (filters.visit db later).value? = none := by
  have firstAbove : atOrAbove filters.beforeHlc first.1.hlc = true := by
    grind [ReplayFilters.visit]
  rw [Option.eq_none_iff_forall_not_mem]
  intro event taken
  have laterBelow :=
    (ReplayFilters.visit_eq_take_iff.mp (value?_eq_some_iff.mp taken)).1.2.1
  cases isBound : filters.beforeHlc with
  | none =>
    rw [isBound] at firstAbove
    cases firstAbove
  | some upper =>
    rw [isBound] at firstAbove laterBelow
    have reached := of_decide_eq_true firstAbove
    exact absurd (reached.trans ordered) (of_decide_eq_false laterBelow)

/-- The early exit of the loop drops no match. -/
theorem ReplayFilters.collected_visit (filters : ReplayFilters) :
    collected (filters.visit db) db.replay.entries =
      db.replay.entries.filterMap fun index =>
        (filters.visit db index).value? :=
  collected_eq_filterMap_of_pairwise
    (db.replay.sorted.imp fun ordered stops =>
      ReplayFilters.value?_after_stop (ReplayKey.hlc_le_of_lt ordered) stops)

theorem IndexedContent.hlcOf_returned
    (content : IndexedContent db)
    (indexed : index ∈ db.replay.entries)
    {value : EventMetadata × Bytes}
    (found : db.events.get? index.2 = some value) :
    hlcOf (returnedEvent value.1 value.2) = index.1.hlc := by
  simp [hlcOf, returnedEvent, content.current index indexed value found]

/-- The place of an event in the replay order. -/
def replayPosition (event : StoredEvent) : ReplayKey :=
  ⟨hlcOf event, event.metadata.publisherId, event.metadata.seq⟩

/-- An event found through an index entry with its clock value is in place. -/
theorem replayPosition_of_visit
    (wellFormed : db.WellFormed)
    {filters : ReplayFilters}
    (indexed : index ∈ db.replay.entries)
    (current :
      ∀ value, db.events.get? index.2 = some value →
        value.1.hlcTimestamp = some index.1.hlc)
    (taken : filters.visit db index = .take event) :
    event.metadata.hlcTimestamp = some (hlcOf event) ∧
      replayPosition event = index.1 := by
  obtain ⟨_, value, found, _, shape⟩ := ReplayFilters.visit_eq_take_iff.mp taken
  have clock := current value found
  have sameKey :=
    (wellFormed.events (index.2, value)
      (OrderedMap.get?_eq_some.mp found)).trans
        (wellFormed.replay index indexed)
  obtain ⟨samePublisher, sameSeq⟩ := EventKey.mk.inj sameKey
  subst shape
  have isClock : hlcOf (returnedEvent value.1 value.2) = index.1.hlc := by
    simp [hlcOf, returnedEvent, clock]
  refine ⟨?_, ?_⟩
  · rw [isClock]
    exact clock
  · rw [replayPosition, isClock]
    exact congrArg₂ (ReplayKey.mk index.1.hlc) samePublisher sameSeq

/-- What the visits of the index take stands in replay order. -/
theorem pairwise_position_visits
    (wellFormed : db.WellFormed)
    (current :
      ∀ index ∈ db.replay.entries, ∀ value,
        db.events.get? index.2 = some value →
          value.1.hlcTimestamp = some index.1.hlc)
    (filters : ReplayFilters) :
    (db.replay.entries.filterMap fun index =>
        (filters.visit db index).value?).Pairwise
      fun first second => replayPosition first < replayPosition second := by
  rw [pairwise_filterMap]
  refine db.replay.sorted.imp_of_mem ?_
  intro first second firstIndexed secondIndexed ordered firstEvent firstTaken
    secondEvent secondTaken
  rw [(replayPosition_of_visit wellFormed firstIndexed
      (current first firstIndexed) (value?_eq_some_iff.mp firstTaken)).2,
    (replayPosition_of_visit wellFormed secondIndexed
      (current second secondIndexed) (value?_eq_some_iff.mp secondTaken)).2]
  exact ordered

/-- A query above a cursor returns the next events of the log. -/
theorem queryReplay_filters
    {backend : FjallBackend}
    (content : IndexedContent backend.db)
    (cursor : HlcTimestamp)
    (beforeHlc : Option HlcTimestamp)
    {limit : Nat}
    (positive : 1 ≤ limit) :
    backend.queryReplay (scope.filters (some cursor) beforeHlc (some limit)) =
      (above hlcOf cursor (replayLog backend.db scope beforeHlc)).take
        limit := by
  have sameValues :
      ∀ index ∈ backend.db.replay.entries,
        ((scope.filters (some cursor) beforeHlc (some limit)).visit backend.db
            index).value? =
          (((scope.filters none beforeHlc none).visit backend.db
            index).value?).filter fun event => cursor < hlcOf event := by
    intro index indexed
    ext event
    rw [Option.filter_eq_some_iff, value?_eq_some_iff, value?_eq_some_iff,
      visit_filters_eq_take_iff content.wellFormed indexed,
      visit_filters_eq_take_iff content.wellFormed indexed,
      decide_eq_true_eq]
    constructor
    · grind [atOrBelow, returnedEvent, hlcOf, IndexedContent]
    · grind [atOrBelow, returnedEvent, hlcOf, IndexedContent]
  unfold FjallBackend.queryReplay
  rw [(scope.filters_bounds (some cursor) beforeHlc (some limit)).2.2,
    scan_some, nil_append, length_nil, Nat.sub_zero,
    max_eq_right positive, ReplayFilters.collected_visit, above,
    replayLog, filter_filterMap, filterMap_congr sameValues]

/-- The log holds the events that are selected below the bound. -/
theorem mem_replayLog
    (content : IndexedContent db) :
    event ∈ replayLog db scope beforeHlc ↔
      ∃ entry ∈ db.events.entries,
        scope.selects entry.2.1 = true ∧
          atOrAbove beforeHlc (hlcOf event) = false ∧
          event = returnedEvent entry.2.1 entry.2.2 := by
  simp only [replayLog, mem_filterMap, value?_eq_some_iff]
  constructor
  · rintro ⟨index, indexed, taken⟩
    obtain ⟨_, notAbove, value, found, selected, shape⟩ :=
      (visit_filters_eq_take_iff content.wellFormed indexed).mp taken
    refine ⟨(index.2, value), OrderedMap.get?_eq_some.mp found, selected, ?_,
      shape⟩
    rw [shape, content.hlcOf_returned indexed found]
    exact notAbove
  · rintro ⟨entry, member, selected, notAbove, shape⟩
    obtain ⟨hlc, isHlc, indexed⟩ := content.stamped entry member
    refine ⟨_, indexed,
      (visit_filters_eq_take_iff content.wellFormed indexed).mpr
        ⟨rfl, ?_, entry.2, OrderedMap.get?_eq_some.mpr member, selected, shape⟩⟩
    rw [shape] at notAbove
    simpa [hlcOf, returnedEvent, isHlc] using notAbove

theorem stamped_of_mem_replayLog
    (content : IndexedContent db)
    (member : event ∈ replayLog db scope beforeHlc) :
    event.metadata.hlcTimestamp = some (hlcOf event) := by
  obtain ⟨entry, held, _, _, shape⟩ := (mem_replayLog content).mp member
  obtain ⟨hlc, isHlc, _⟩ := content.stamped entry held
  rw [shape]
  simp [hlcOf, returnedEvent, isHlc]

theorem pairwise_replayLog
    (content : ReplayContent db)
    (beforeHlc : Option HlcTimestamp) :
    (replayLog db scope beforeHlc).Pairwise
      fun first second => hlcOf first < hlcOf second := by
  refine (pairwise_position_visits content.wellFormed content.current
    _).imp_of_mem ?_
  intro first second firstMember secondMember ordered
  refine lt_of_le_of_ne (ReplayKey.hlc_le_of_lt ordered) fun sameHlc => ?_
  -- Equal clock values mean one event, hence one place.
  have firstStamped := stamped_of_mem_replayLog content.indexedContent firstMember
  have secondStamped :=
    stamped_of_mem_replayLog content.indexedContent secondMember
  obtain ⟨firstEntry, firstHeld, _, _, firstShape⟩ :=
    (mem_replayLog content.indexedContent).mp firstMember
  obtain ⟨secondEntry, secondHeld, _, _, secondShape⟩ :=
    (mem_replayLog content.indexedContent).mp secondMember
  rw [← sameHlc, ← firstStamped, firstShape, secondShape] at secondStamped
  have sameEntry :=
    content.distinct firstEntry firstHeld secondEntry secondHeld
      secondStamped.symm
  rw [firstShape, secondShape, sameEntry] at ordered
  exact absurd ordered (lt_irrefl _)

end Log

/-! ## Contents that histories leave -/

def replayEntry
    (hlc : HlcTimestamp)
    (key : EventKey) : ReplayKey × EventKey :=
  (⟨hlc, key.publisherId, key.seq⟩, key)

/-- An index entry that agrees with its target. -/
theorem Database.WellFormed.eq_replayEntry
    (wellFormed : db.WellFormed)
    (member : index ∈ db.replay.entries) :
    index = replayEntry index.1.hlc index.2 := by
  refine Prod.ext ?_ rfl
  rw [wellFormed.replay index member]
  rfl

theorem replayEntry_inj
    {hlc clock : HlcTimestamp}
    {other : EventKey} :
    replayEntry hlc key = replayEntry clock other ↔
      hlc = clock ∧ key = other := by
  constructor
  · intro same
    exact ⟨congrArg (·.1.hlc) same, congrArg Prod.snd same⟩
  · rintro ⟨sameHlc, sameKey⟩
    rw [sameHlc, sameKey]

theorem Database.get?_commit_eventWrites
    (db : Database)
    (event : StoredEvent)
    (key : EventKey) :
    (db.commit (eventWrites event)).events.get? key =
      if key = event.metadata.eventKey then
        some (event.metadata, event.payload)
      else
        db.events.get? key := by
  have sameEvents :
      (db.commit (eventWrites event)).events =
        db.events.insert event.metadata.eventKey
          (event.metadata, event.payload) := by
    unfold eventWrites
    cases event.metadata.hlcTimestamp with
    | none =>
      rfl
    | some hlc =>
      rfl
  rw [sameEvents, OrderedMap.get?_insert]
  by_cases isKey : key = event.metadata.eventKey
  · rw [if_pos isKey, if_pos isKey]
  · rw [if_neg isKey, if_neg isKey]

theorem Database.replay_commit_eventWrites
    (db : Database)
    (event : StoredEvent) :
    (db.commit (eventWrites event)).replay =
      match event.metadata.hlcTimestamp with
      | some hlc =>
        db.replay.insert (replayEntry hlc event.metadata.eventKey).1
          event.metadata.eventKey
      | none => db.replay := by
  unfold eventWrites
  cases event.metadata.hlcTimestamp with
  | none =>
    rfl
  | some hlc =>
    rfl

theorem Database.of_mem_replay_commit_eventWrites
    {event : StoredEvent}
    (member : index ∈ (db.commit (eventWrites event)).replay.entries) :
    index ∈ db.replay.entries ∨
      ∃ hlc,
        event.metadata.hlcTimestamp = some hlc ∧
          index = replayEntry hlc event.metadata.eventKey := by
  rw [replay_commit_eventWrites] at member
  cases isHlc : event.metadata.hlcTimestamp with
  | none =>
    rw [isHlc] at member
    exact Or.inl member
  | some hlc =>
    rw [isHlc] at member
    rcases OrderedMap.mem_of_mem_insertEntry member with isNew | isOld
    · exact Or.inr ⟨hlc, rfl, isNew⟩
    · exact Or.inl isOld

theorem Database.mem_replay_commit_eventWrites
    {event : StoredEvent}
    {hlc : HlcTimestamp} :
    replayEntry hlc key ∈ (db.commit (eventWrites event)).replay.entries ↔
      replayEntry hlc key ∈ db.replay.entries ∨
        event.metadata.eventKey = key ∧
          event.metadata.hlcTimestamp = some hlc := by
  constructor
  · intro member
    rcases of_mem_replay_commit_eventWrites member with
      isOld | ⟨clock, isClock, isNew⟩
    · exact Or.inl isOld
    · obtain ⟨sameHlc, sameKey⟩ := replayEntry_inj.mp isNew
      exact Or.inr ⟨sameKey.symm, isClock.trans (by rw [sameHlc])⟩
  · intro isEither
    rw [replay_commit_eventWrites]
    cases isHlc : event.metadata.hlcTimestamp with
    | none =>
      rw [isHlc] at isEither
      exact isEither.resolve_right (by simp)
    | some clock =>
      refine (OrderedMap.mem_insertEntry db.replay.sorted).mpr ?_
      -- An index key determines the event it leads to.
      by_cases sameIndex :
          (replayEntry hlc key).1 =
            (replayEntry clock event.metadata.eventKey).1
      · exact Or.inl ⟨sameIndex,
          congrArg
            (fun index : ReplayKey => EventKey.mk index.publisherId index.seq)
            sameIndex⟩
      · grind [replayEntry]

/-- A database that holds some of the given events, all of them indexed. -/
structure StoredFrom (events : List StoredEvent) (db : Database) : Prop where
  held :
    ∀ entry ∈ db.events.entries, ∃ event ∈ events,
      entry = (event.metadata.eventKey, event.metadata, event.payload)
  indexed :
    ∀ index ∈ db.replay.entries, ∃ event ∈ events, ∃ hlc,
      event.metadata.hlcTimestamp = some hlc ∧
        index = replayEntry hlc event.metadata.eventKey
  reachable :
    ∀ entry ∈ db.events.entries, ∀ hlc,
      entry.2.1.hlcTimestamp = some hlc →
        replayEntry hlc entry.1 ∈ db.replay.entries

theorem mem_removeReplayOf
    {metadata : EventMetadata}
    {op : WriteOp} :
    op ∈ removeReplayOf key metadata ↔
      ∃ hlc,
        metadata.hlcTimestamp = some hlc ∧
          op = .removeReplay (replayEntry hlc key).1 := by
  unfold removeReplayOf
  cases metadata.hlcTimestamp with
  | none =>
    simp
  | some hlc =>
    simp [replayEntry]

namespace FjallBackend

variable {backend : FjallBackend} {index : ReplayKey}

theorem expired_of_removeEvent_mem
    {olderThan : DateTime}
    {key : EventKey}
    (member : .removeEvent key ∈ backend.gcWrites olderThan) :
    ∃ entry ∈ backend.expiredEntries olderThan, entry.1 = key := by
  obtain ⟨entry, isExpired, written⟩ := mem_flatMap.mp member
  refine ⟨entry, isExpired, ?_⟩
  rcases mem_append.mp written with direct | replay
  · simpa [eq_comm] using direct
  · obtain ⟨_, _, isReplay⟩ := mem_removeReplayOf.mp replay
    cases isReplay

/-- `gc` unindexes the events it removes. -/
theorem removeEvent_mem_gcWrites
    {olderThan : DateTime}
    (member : .removeReplay index ∈ backend.gcWrites olderThan) :
    .removeEvent ⟨index.publisherId, index.seq⟩ ∈
      backend.gcWrites olderThan := by
  obtain ⟨entry, isExpired, written⟩ := mem_flatMap.mp member
  refine mem_flatMap.mpr ⟨entry, isExpired, ?_⟩
  simp only [cons_append, nil_append, mem_cons, reduceCtorEq,
    false_or] at written
  obtain ⟨hlc, _, isReplay⟩ := mem_removeReplayOf.mp written
  rw [WriteOp.removeReplay.inj isReplay]
  exact mem_cons_self

/-- `compact_keyed` unindexes the events it removes. -/
theorem removeEvent_mem_compactKeyedWrites
    (member : .removeReplay index ∈ backend.compactKeyedWrites) :
    .removeEvent ⟨index.publisherId, index.seq⟩ ∈
      backend.compactKeyedWrites := by
  obtain ⟨key, isSuperseded, written⟩ := mem_flatMap.mp member
  refine mem_flatMap.mpr ⟨key, isSuperseded, ?_⟩
  rw [mem_append] at written
  rcases written with ofReplay | ofEvent
  · split at ofReplay
    · obtain ⟨hlc, _, isReplay⟩ := mem_removeReplayOf.mp ofReplay
      rw [WriteOp.removeReplay.inj isReplay]
      exact mem_append_right _ mem_cons_self
    · cases ofReplay
  · simp at ofEvent

end FjallBackend

namespace StoredFrom

variable {events : List StoredEvent} {db : Database}

theorem of_fields_eq
    (stored : StoredFrom events db)
    {other : Database}
    (sameEvents : other.events = db.events)
    (sameReplay : other.replay = db.replay) :
    StoredFrom events other := by
  refine ⟨?_, ?_, ?_⟩
  · rw [sameEvents]
    exact stored.held
  · rw [sameReplay]
    exact stored.indexed
  · rw [sameEvents, sameReplay]
    exact stored.reachable

theorem commit_eventWrites
    (stored : StoredFrom events db)
    {event : StoredEvent}
    (isEvent : event ∈ events) :
    StoredFrom events (db.commit (eventWrites event)) := by
  refine ⟨?_, ?_, ?_⟩
  · intro entry member
    have found := OrderedMap.get?_eq_some.mpr member
    rw [Database.get?_commit_eventWrites] at found
    split_ifs at found with isKey
    · refine ⟨event, isEvent, ?_⟩
      rw [← isKey, Option.some.inj found]
    · exact stored.held entry (OrderedMap.get?_eq_some.mp found)
  · intro index member
    rcases Database.of_mem_replay_commit_eventWrites member with
      isOld | ⟨hlc, isHlc, isNew⟩
    · exact stored.indexed index isOld
    · exact ⟨event, isEvent, hlc, isHlc, isNew⟩
  · intro entry member hlc clock
    have found := OrderedMap.get?_eq_some.mpr member
    rw [Database.get?_commit_eventWrites] at found
    refine Database.mem_replay_commit_eventWrites.mpr ?_
    split_ifs at found with isKey
    · refine Or.inr ⟨isKey.symm, ?_⟩
      rw [← Option.some.inj found] at clock
      exact clock
    · exact Or.inl (stored.reachable entry
        (OrderedMap.get?_eq_some.mp found) hlc clock)

/-- A batch that unindexes only events it removes. -/
theorem commit_removals
    (stored : StoredFrom events db)
    {batch : List WriteOp}
    (removals : ∀ op ∈ batch, op.removes = true)
    (together :
      ∀ index, .removeReplay index ∈ batch →
        .removeEvent ⟨index.publisherId, index.seq⟩ ∈ batch) :
    StoredFrom events (db.commit batch) := by
  obtain ⟨remaining, stillIndexed⟩ := Database.mem_commit_removals removals
  refine ⟨?_, ?_, ?_⟩
  · intro entry member
    exact stored.held entry ((remaining entry).mp member).1
  · intro index member
    exact stored.indexed index ((stillIndexed index).mp member).1
  · intro entry member hlc clock
    obtain ⟨wasHeld, notRemoved⟩ := (remaining entry).mp member
    exact (stillIndexed _).mpr
      ⟨stored.reachable entry wasHeld hlc clock,
        fun unindexed => notRemoved (together _ unindexed)⟩

theorem runCall
    {backend : FjallBackend}
    (stored : StoredFrom events backend.db)
    {call : StoreCall}
    (areEvents : ∀ event ∈ call.events, event ∈ events) :
    StoredFrom events (backend.runCall call).db := by
  obtain ⟨committedWrites, batchShape, onlyCommitted⟩ :=
    backend.batch_beginStoreBatch call.events
  have written :
      StoredFrom events
        (backend.db.commit (call.events.flatMap eventWrites)) := by
    rw [Database.commit, foldl_flatMap]
    exact List.foldlRecOn call.events _ stored
      fun _ before event isEvent =>
        before.commit_eventWrites (areEvents event isEvent)
  rw [FjallBackend.runCall_eq]
  change StoredFrom events (backend.db.commit _)
  rw [batchShape, Database.commit_append]
  obtain ⟨sameEvents, sameReplay⟩ :=
    Database.commit_onlyCommitted _ onlyCommitted
  exact written.of_fields_eq sameEvents sameReplay

end StoredFrom

/-- The events a history stores. -/
def storedEvents (actions : List StoreAction) : List StoredEvent :=
  actions.flatMap fun action =>
    match action with
    | .store call => call.events
    | _ => []

/-- A history leaves some of the events it stored, all of them indexed. -/
theorem storedFrom_afterActions
    (partition : U32)
    (actions : List StoreAction) :
    StoredFrom (storedEvents actions)
      (FjallBackend.afterActions partition actions).db := by
  refine List.foldlRecOn actions FjallBackend.act
    (motive := fun backend => StoredFrom (storedEvents actions) backend.db)
    ?_ ?_
  · exact ⟨fun _ member => (by cases member),
      fun _ member => (by cases member), fun _ member => (by cases member)⟩
  · intro backend stored action isAction
    cases action with
    | store call =>
      exact stored.runCall fun event isEvent =>
        mem_flatMap.mpr ⟨.store call, isAction, isEvent⟩
    | gc olderThan =>
      exact stored.commit_removals
        (fun _ => FjallBackend.removes_gcWrites)
        (fun _ => FjallBackend.removeEvent_mem_gcWrites)
    | compact =>
      refine stored.commit_removals
        (fun _ => FjallBackend.removes_compactWrites) ?_
      intro index unindexed
      obtain ⟨key, _, isOther⟩ := mem_map.mp unindexed
      cases isOther
    | compactKeyed =>
      exact stored.commit_removals
        (fun _ => FjallBackend.removes_compactKeyedWrites)
        (fun _ => FjallBackend.removeEvent_mem_compactKeyedWrites)
    | reopen =>
      exact stored

end Mitiflow
