import Mitiflow.Library.GroupLeaders
import Mitiflow.PublisherSequencing
import Mitiflow.StoreQueryFilters

namespace Mitiflow

open Library List

/-!
# What compaction keeps

Both compactions keep one event per group, the one of highest sequence; they
differ in the group, which is the key expression for `compact` and the
application key for `compact_keyed`.  Sequences are counted separately by each
publisher.  This module says which events survive, what that means for the
events of several publishers, and how it compares with the answer of
`query_latest_by_keys`.
-/

/--
The latest entry of a group: highest sequence, and the smallest publisher
among equals.
-/
structure IsLatest
    (group : EventMetadata → Option String)
    (entries : List EventEntry)
    (name : String)
    (entry : EventEntry) : Prop where
  member : entry ∈ entries
  inGroup : group entry.2.1 = some name
  precedes :
    ∀ other ∈ entries,
      group other.2.1 = some name →
      other.1.seq < entry.1.seq ∨
        other.1.seq = entry.1.seq ∧
          entry.1.publisherId ≤ other.1.publisherId

theorem EventKey.le_iff_of_seq_eq
    {first second : EventKey}
    (sameSeq : first.seq = second.seq) :
    first ≤ second ↔ first.publisherId ≤ second.publisherId := by
  change first.sortKey ≤ second.sortKey ↔ _
  rw [sortKey, sortKey, Prod.Lex.toLex_le_toLex, sameSeq]
  simp [le_iff_lt_or_eq]

/-- The pass of a compaction keeps the leader of each group. -/
theorem latestByGroup_eq
    (group : EventMetadata → Option String)
    (entries : List EventEntry) :
    latestByGroup group entries =
      fun name =>
        (leaders (fun entry : EventEntry => group entry.2.1)
          (fun entry => entry.1.seq) entries name).map Prod.fst := by
  induction entries using List.reverseRecOn with
  | nil =>
    rfl
  | append_singleton earlier entry inductionHypothesis =>
    funext name
    rw [leaders_snoc, latestByGroup, foldl_append, foldl_cons,
      foldl_nil, ← latestByGroup, inductionHypothesis, challenge]
    cases entryGroup : group entry.2.1 with
    | none =>
      rfl
    | some entryName =>
      cases led :
          leaders (fun entry : EventEntry => group entry.2.1)
            (fun entry => entry.1.seq) earlier entryName with
      | none =>
        by_cases sameName : name = entryName
        · simp [led, sameName]
        · simp [led, sameName]
      | some leader =>
        by_cases higher : leader.1.seq < entry.1.seq
        · by_cases sameName : name = entryName
          · simp [led, higher, sameName]
          · simp [led, higher, sameName]
        · simp [led, higher]

variable {group : EventMetadata → Option String}
  {events : OrderedMap EventKey (EventMetadata × Bytes)} {name : String}
  {entry : EventEntry}

theorem leaders_entries_eq_some_iff :
    leaders (fun entry : EventEntry => group entry.2.1)
        (fun entry => entry.1.seq) events.entries name = some entry ↔
      IsLatest group events.entries name entry := by
  rw [leaders_eq_some_iff events.sorted]
  constructor
  · rintro ⟨member, inGroup, foremost⟩
    refine ⟨member, inGroup, ?_⟩
    intro other otherMember otherGroup
    rcases foremost other otherMember otherGroup with lower | ⟨same, first⟩
    · exact Or.inl lower
    · exact Or.inr ⟨same, (EventKey.le_iff_of_seq_eq same.symm).mp first⟩
  · rintro ⟨member, inGroup, precedes⟩
    refine ⟨member, inGroup, ?_⟩
    intro other otherMember otherGroup
    rcases precedes other otherMember otherGroup with lower | ⟨same, first⟩
    · exact Or.inl lower
    · exact Or.inr ⟨same, (EventKey.le_iff_of_seq_eq same.symm).mpr first⟩

theorem exists_isLatest
    (group : EventMetadata → Option String)
    (member : entry ∈ events.entries)
    (inGroup : group entry.2.1 = some name) :
    ∃ latest, IsLatest group events.entries name latest := by
  have led :
      leaders (fun entry : EventEntry => group entry.2.1)
        (fun entry => entry.1.seq) events.entries name ≠ none := by
    intro unled
    exact leaders_eq_none_iff.mp unled entry member inGroup
  obtain ⟨latest, isLeader⟩ := Option.ne_none_iff_exists'.mp led
  exact ⟨latest, leaders_entries_eq_some_iff.mp isLeader⟩

theorem IsLatest.unique
    {first second : EventEntry}
    (firstLatest : IsLatest group events.entries name first)
    (secondLatest : IsLatest group events.entries name second) :
    first = second := by
  have firstLed := leaders_entries_eq_some_iff.mpr firstLatest
  have secondLed := leaders_entries_eq_some_iff.mpr secondLatest
  exact Option.some.inj (firstLed.symm.trans secondLed)

/-- A grouped entry is superseded unless it is the latest of its group. -/
theorem mem_supersededKeys
    (member : entry ∈ events.entries) :
    entry.1 ∈ supersededKeys group events.entries ↔
      ∃ name,
        group entry.2.1 = some name ∧
          ¬IsLatest group events.entries name entry := by
  have sameEntry :
      ∀ other ∈ events.entries, other.1 = entry.1 → other = entry :=
    fun other otherMember sameKey =>
      events.entry_unique otherMember member sameKey
  simp only [supersededKeys, groupedEntries, latestByGroup_eq, mem_map,
    mem_filter, mem_filterMap, Bool.not_eq_true']
  constructor
  · rintro ⟨flagged, ⟨⟨other, otherMember, grouped⟩, notLatest⟩, sameKey⟩
    cases otherGroup : group other.2.1 with
    | none =>
      simp [otherGroup] at grouped
    | some name =>
      obtain ⟨latest, isLatest⟩ := exists_isLatest group otherMember otherGroup
      have led := leaders_entries_eq_some_iff.mpr isLatest
      simp only [otherGroup, led, Option.map_some, Option.some.injEq] at grouped
      subst grouped
      have isEntry := sameEntry other otherMember sameKey
      subst isEntry
      refine ⟨name, otherGroup, ?_⟩
      intro entryLatest
      rw [isLatest.unique entryLatest] at notLatest
      simp at notLatest
  · rintro ⟨name, inGroup, notLatest⟩
    obtain ⟨latest, isLatest⟩ := exists_isLatest group member inGroup
    have led := leaders_entries_eq_some_iff.mpr isLatest
    have otherKey : entry.1 ≠ latest.1 := by
      intro sameKey
      have isEntry := sameEntry latest isLatest.member sameKey.symm
      exact notLatest (isEntry ▸ isLatest)
    refine ⟨(entry.1, false), ⟨⟨entry, member, ?_⟩, rfl⟩, rfl⟩
    simp [inGroup, led, otherKey]

variable {backend : FjallBackend}

namespace FjallBackend

theorem mem_events_compact
    {entry : EventEntry} :
    entry ∈ (backend.compact (.ok ())).1.db.events.entries ↔
      IsLatest (fun metadata => some metadata.keyExpr)
        backend.db.events.entries entry.2.1.keyExpr entry := by
  change entry ∈ (backend.db.commit backend.compactWrites).events.entries ↔ _
  rw [(Database.mem_commit_removals fun _ => removes_compactWrites).1]
  have named :
      WriteOp.removeEvent entry.1 ∈ backend.compactWrites ↔
        entry.1 ∈ supersededKeys (fun metadata => some metadata.keyExpr)
          backend.db.events.entries := by
    simp [compactWrites]
  rw [named]
  constructor
  · rintro ⟨member, kept⟩
    rw [mem_supersededKeys member] at kept
    by_contra notLatest
    exact kept ⟨_, rfl, notLatest⟩
  · intro isLatest
    refine ⟨isLatest.member, ?_⟩
    rw [mem_supersededKeys isLatest.member]
    rintro ⟨name, sameName, notLatest⟩
    exact notLatest (Option.some.inj sameName ▸ isLatest)

theorem mem_events_compactKeyed
    {entry : EventEntry} :
    entry ∈ (backend.compactKeyed (.ok ())).1.db.events.entries ↔
      entry ∈ backend.db.events.entries ∧
        ∀ name, entry.2.1.key = some name →
          IsLatest EventMetadata.key backend.db.events.entries name
            entry := by
  change entry ∈
    (backend.db.commit backend.compactKeyedWrites).events.entries ↔ _
  rw [(Database.mem_commit_removals fun _ => removes_compactKeyedWrites).1]
  have named :
      WriteOp.removeEvent entry.1 ∈ backend.compactKeyedWrites ↔
        entry.1 ∈ supersededKeys EventMetadata.key
          backend.db.events.entries := by
    simp only [compactKeyedWrites, mem_flatMap, mem_append,
      mem_cons, not_mem_nil, or_false]
    constructor
    · rintro ⟨key, superseded, inReplay | isEvent | isKey⟩
      · split at inReplay
        · rename_i value _
          unfold removeReplayOf at inReplay
          split at inReplay
          · simp at inReplay
          · cases inReplay
        · cases inReplay
      · cases isEvent
        exact superseded
      · cases isKey
    · intro superseded
      exact ⟨_, superseded, Or.inr (Or.inl rfl)⟩
  rw [named]
  apply and_congr_right
  intro member
  rw [mem_supersededKeys member]
  simp

end FjallBackend

/-! ## Events of several publishers -/

/--
The key expression a publisher gives an event: `publish` without an
application key, `publish_keyed` with one.
-/
def publishedKeyExpr
    (keyPrefix : String)
    (partition : U32)
    (appKey : Option String)
    (seq : U64) : String :=
  match appKey with
  | none => eventKeyExpr keyPrefix partition seq
  | some key => keyedEventKeyExpr keyPrefix partition key seq

theorem toList_publishedKeyExpr
    (keyPrefix : String)
    (partition : U32)
    (appKey : Option String)
    (seq : U64) :
    (publishedKeyExpr keyPrefix partition appKey seq).toList =
      (keyPrefix.toList ++ "/p/".toList ++
          (Nat.repr partition.val).toList ++ ['/']) ++
        ((appKey.map fun key => ['k', '/'] ++ key.toList ++ ['/']).getD [] ++
          (Nat.repr seq.val).toList) := by
  cases appKey with
  | none =>
    simp [publishedKeyExpr, eventKeyExpr, toString]
  | some key =>
    simp [publishedKeyExpr, keyedEventKeyExpr, toString]

variable {keyPrefix : String}

/-- On one partition, a key expression fixes application key and sequence. -/
theorem publishedKeyExpr_inj
    {partition : U32}
    {firstKey secondKey : Option String}
    {firstSeq secondSeq : U64}
    (same :
      publishedKeyExpr keyPrefix partition firstKey firstSeq =
        publishedKeyExpr keyPrefix partition secondKey secondSeq) :
    firstKey = secondKey ∧ firstSeq = secondSeq := by
  have notKeyed (number : Nat) (rest : List Char) :
      (Nat.repr number).toList ≠ 'k' :: rest := by
    intro shape
    have digit : 'k'.isDigit = true :=
      isDigit_of_mem_repr (by rw [shape]; exact mem_cons_self)
    cases digit
  have sameText := congrArg String.toList same
  rw [toList_publishedKeyExpr, toList_publishedKeyExpr,
    append_cancel_left_eq] at sameText
  cases firstKey with
  | none =>
    cases secondKey with
    | none =>
      have sameNumber := Nat.repr_inj.mp (String.toList_inj.mp sameText)
      exact ⟨rfl, Fin.ext sameNumber⟩
    | some key =>
      grind
  | some key =>
    cases secondKey with
    | none =>
      grind
    | some other =>
      have cut :
          'k' :: '/' :: key.toList ++ '/' :: (Nat.repr firstSeq).toList =
            'k' :: '/' :: other.toList ++
              '/' :: (Nat.repr secondSeq).toList := by
        simpa using sameText
      obtain ⟨sameKey, sameSeq⟩ :=
        Text.append_separator_inj (ne_slash_of_mem_repr _)
          (ne_slash_of_mem_repr _) cut
      have sameName : key = other := by
        simpa [String.toList_inj] using sameKey
      have sameNumber := Nat.repr_inj.mp (String.toList_inj.mp sameSeq)
      exact ⟨congrArg some sameName, Fin.ext sameNumber⟩

/-- Metadata of an event published on a partition under a topic prefix. -/
def PublishedAs
    (keyPrefix : String)
    (partition : U32)
    (appKey : Option String)
    (metadata : EventMetadata) : Prop :=
  metadata.keyExpr = publishedKeyExpr keyPrefix partition appKey metadata.seq
  deriving Decidable

namespace FjallBackend

variable {partition : U32}

/-- Entries that share a key expression were published alike. -/
theorem publishedAs_alike
    {firstKey secondKey : Option String}
    {first second : EventMetadata}
    (firstPublished : PublishedAs keyPrefix partition firstKey first)
    (secondPublished : PublishedAs keyPrefix partition secondKey second)
    (sameExpr : first.keyExpr = second.keyExpr) :
    firstKey = secondKey ∧ first.seq = second.seq := by
  apply publishedKeyExpr_inj
  rw [← firstPublished, ← secondPublished, sameExpr]

/--
Compaction removes only events superseded under their application key
exactly when no two publishers have an unkeyed event of the same sequence.
-/
theorem compact_removes_superseded_iff
    (keyPrefix : String)
    (partition : U32)
    (backend : FjallBackend)
    (wellFormed : backend.db.WellFormed)
    (published :
      ∀ entry ∈ backend.db.events.entries,
        ∃ appKey, PublishedAs keyPrefix partition appKey entry.2.1) :
    (∀ entry ∈ backend.db.events.entries,
        entry ∉ (backend.compact (.ok ())).1.db.events.entries →
        ∃ key,
          PublishedAs keyPrefix partition (some key) entry.2.1 ∧
            ∃ other ∈ (backend.compact (.ok ())).1.db.events.entries,
              other ≠ entry ∧
                PublishedAs keyPrefix partition (some key) other.2.1) ↔
      ∀ first ∈ backend.db.events.entries,
        ∀ second ∈ backend.db.events.entries,
          PublishedAs keyPrefix partition none first.2.1 →
          PublishedAs keyPrefix partition none second.2.1 →
          first.1.seq = second.1.seq →
          first.1.publisherId = second.1.publisherId := by
  have seqOf :
      ∀ entry ∈ backend.db.events.entries, entry.2.1.seq = entry.1.seq :=
    fun entry member => congrArg EventKey.seq (wellFormed.events entry member)
  constructor
  · intro onlySuperseded first firstMember second secondMember
      firstUnkeyed secondUnkeyed sameSeq
    have kept :
        ∀ entry ∈ backend.db.events.entries,
          PublishedAs keyPrefix partition none entry.2.1 →
          entry ∈ (backend.compact (.ok ())).1.db.events.entries := by
      intro entry member unkeyed
      by_contra removed
      obtain ⟨key, keyed, _⟩ := onlySuperseded entry member removed
      cases (publishedAs_alike keyed unkeyed rfl).1
    have sameExpr : second.2.1.keyExpr = first.2.1.keyExpr := by
      rw [firstUnkeyed, secondUnkeyed, seqOf first firstMember,
        seqOf second secondMember, sameSeq]
    have firstLatest :=
      mem_events_compact.mp (kept first firstMember firstUnkeyed)
    have secondLatest :=
      mem_events_compact.mp (kept second secondMember secondUnkeyed)
    rw [sameExpr] at secondLatest
    rw [firstLatest.unique secondLatest]
  · intro noCollision entry member removed
    obtain ⟨latest, isLatest⟩ :=
      exists_isLatest (fun metadata => some metadata.keyExpr) member rfl
    have sameExpr : latest.2.1.keyExpr = entry.2.1.keyExpr :=
      Option.some.inj isLatest.inGroup
    have retained :
        latest ∈ (backend.compact (.ok ())).1.db.events.entries := by
      rw [mem_events_compact, sameExpr]
      exact isLatest
    have otherEntry : latest ≠ entry := by
      intro same
      exact removed (same ▸ retained)
    obtain ⟨appKey, entryPublished⟩ := published entry member
    obtain ⟨latestKey, latestPublished⟩ := published latest isLatest.member
    obtain ⟨sameKey, sameSeq⟩ :=
      publishedAs_alike latestPublished entryPublished sameExpr
    subst sameKey
    cases latestKey with
    | some key =>
      exact ⟨key, entryPublished, latest, retained, otherEntry, latestPublished⟩
    | none =>
      rw [seqOf latest isLatest.member, seqOf entry member] at sameSeq
      have samePublisher :=
        noCollision latest isLatest.member entry member latestPublished
          entryPublished sameSeq
      exact absurd
        (backend.db.events.entry_unique isLatest.member member
          (EventKey.ext samePublisher sameSeq)) otherEntry

end FjallBackend

/-- The stores of what a publisher on one partition puts along some calls. -/
def storesOf
    (publisher : PublisherId)
    (calls : List PublishCall) : List StoreAction :=
  match PublisherRun.run? (fun _ => 0) calls
      { publisher := { publisherId := publisher, config := singlePartition } }
    with
  | none => []
  | some run => run.puts.map fun put => .store (.store (put.received none))

/-- A publish call that reaches the transport. -/
def plainPublish : PublishCall :=
  .publish sampleOutgoing { put := .ok () }

/--
One publisher's unkeyed events and another's keyed event: nothing is lost.
-/
theorem compact_keeps_distinctSequences :
    let backend :=
      FjallBackend.afterActions 0
        (storesOf 7 [plainPublish, plainPublish] ++
          storesOf 9 [.publishKeyed "k" sampleOutgoing { put := .ok () }])
    backend.db.events.entries.length = 3 ∧
    ∀ entry ∈ backend.db.events.entries,
        entry ∉ (backend.compact (.ok ())).1.db.events.entries →
        ∃ key,
          PublishedAs "events" 0 (some key) entry.2.1 ∧
            ∃ other ∈ (backend.compact (.ok ())).1.db.events.entries,
              other ≠ entry ∧
                PublishedAs "events" 0 (some key) other.2.1 := by
  intro backend
  refine ⟨by decide, ?_⟩
  apply (FjallBackend.compact_removes_superseded_iff "events" 0 backend
    (FjallBackend.wellFormed_afterActions 0 _) ?_).mpr
  · decide
  · have published :
        ∀ entry ∈ backend.db.events.entries,
          PublishedAs "events" 0 none entry.2.1 ∨
            PublishedAs "events" 0 (some "k") entry.2.1 := by
      decide
    intro entry member
    rcases published entry member with unkeyed | keyed
    · exact ⟨none, unkeyed⟩
    · exact ⟨some "k", keyed⟩

/--
Two publishers number their first unkeyed event alike, so both have the same
key expression and compaction removes the second publisher's event.
-/
theorem compact_removes_unkeyed :
    let backend :=
      FjallBackend.afterActions 0
        (storesOf 7 [plainPublish] ++ storesOf 9 [plainPublish])
    let compacted := (backend.compact (.ok ())).1
    backend.db.events.entries.map Prod.fst = [⟨7, 0⟩, ⟨9, 0⟩] ∧
      (∀ entry ∈ backend.db.events.entries,
        PublishedAs "events" 0 none entry.2.1 ∧ entry.2.1.key = none) ∧
      compacted.db.events.entries.map Prod.fst = [⟨7, 0⟩] := by
  decide

/-! ## The latest value of an application key -/

/-- An entry of the events keyspace as a query returns it. -/
def EventEntry.returned (entry : EventEntry) : StoredEvent :=
  returnedEvent entry.2.1 entry.2.2

/-- The application key of an event, if it is among those asked for. -/
def askedKey (keys : List String) (event : StoredEvent) : Option String :=
  event.metadata.key.filter (· ∈ keys)

/--
The latest event of each application key asked for, by sequence number.  The
source returns them in no particular order.
-/
def FjallBackend.queryLatestByKeys
    (backend : FjallBackend)
    (keys : List String) : List StoredEvent :=
  keys.dedup.filterMap
    (leaders (askedKey keys) (fun event => event.metadata.seq)
      (backend.db.events.entries.map EventEntry.returned))

theorem askedKey_eq_some_iff
    {keys : List String} :
    askedKey keys entry.returned = some name ↔
      name ∈ keys ∧ entry.2.1.key = some name := by
  rw [askedKey, Option.filter_eq_some_iff, decide_eq_true_eq]
  exact and_comm

/-- The query answers with the latest entry of every key asked for. -/
theorem FjallBackend.mem_queryLatestByKeys
    (wellFormed : backend.db.WellFormed)
    {keys : List String}
    {event : StoredEvent} :
    event ∈ backend.queryLatestByKeys keys ↔
      ∃ name entry,
        name ∈ keys ∧
          IsLatest EventMetadata.key backend.db.events.entries name entry ∧
          event = entry.returned := by
  have seqOf :
      ∀ entry ∈ backend.db.events.entries, entry.2.1.seq = entry.1.seq :=
    fun entry member => congrArg EventKey.seq (wellFormed.events entry member)
  have led_iff {name : String} {entry : EventEntry} (asked : name ∈ keys) :
      leaders (fun entry : EventEntry => askedKey keys entry.returned)
          (fun entry => entry.2.1.seq) backend.db.events.entries name =
        some entry ↔
      IsLatest EventMetadata.key backend.db.events.entries name entry := by
    rw [leaders_eq_some_iff backend.db.events.sorted,
      ← leaders_entries_eq_some_iff,
      leaders_eq_some_iff backend.db.events.sorted]
    simp only [Foremost, askedKey_eq_some_iff, asked, true_and]
    apply and_congr_right
    intro member
    apply and_congr_right
    intro _
    apply forall_congr'
    intro other
    apply forall_congr'
    intro otherMember
    rw [seqOf entry member, seqOf other otherMember]
  simp only [queryLatestByKeys, mem_filterMap, mem_dedup,
    leaders_map, Option.map_eq_some_iff]
  constructor
  · rintro ⟨name, asked, entry, led, isReturned⟩
    exact ⟨name, entry, asked, (led_iff asked).mp led, isReturned.symm⟩
  · rintro ⟨name, entry, asked, isLatest, isReturned⟩
    exact ⟨name, asked, entry, (led_iff asked).mpr isLatest, isReturned.symm⟩

/-- The replay index key of an entry that carries a clock value. -/
def EventEntry.replayKey? (entry : EventEntry) : Option ReplayKey :=
  entry.2.1.hlcTimestamp.map fun hlc =>
    ⟨hlc, entry.1.publisherId, entry.1.seq⟩

/-- Among one publisher's entries the clock does not run backwards. -/
def ClockGrowsWithSeq (entries : List EventEntry) : Prop :=
  ∀ first ∈ entries, ∀ second ∈ entries,
    first.1.publisherId = second.1.publisherId →
    first.1.seq < second.1.seq →
    ∀ firstHlc ∈ first.2.1.hlcTimestamp,
      ∀ secondHlc ∈ second.2.1.hlcTimestamp, firstHlc ≤ secondHlc
  deriving Decidable

/-- The latest entry of a key is the newest of its own publisher. -/
theorem IsLatest.replayKey_le
    (stamped :
      ∀ entry ∈ events.entries,
        entry.2.1.key.isSome = true →
        entry.2.1.hlcTimestamp.isSome = true)
    (grows : ClockGrowsWithSeq events.entries)
    {other : EventEntry}
    (isLatest : IsLatest EventMetadata.key events.entries name entry)
    (otherMember : other ∈ events.entries)
    (otherGroup : other.2.1.key = some name)
    (samePublisher : other.1.publisherId = entry.1.publisherId) :
    ∃ otherKey entryKey,
      EventEntry.replayKey? other = some otherKey ∧
        EventEntry.replayKey? entry = some entryKey ∧
        otherKey ≤ entryKey := by
  obtain ⟨entryHlc, entryStamp⟩ :=
    Option.isSome_iff_exists.mp
      (stamped entry isLatest.member (by simp [isLatest.inGroup]))
  obtain ⟨otherHlc, otherStamp⟩ :=
    Option.isSome_iff_exists.mp
      (stamped other otherMember (by simp [otherGroup]))
  refine ⟨_, _, by rw [EventEntry.replayKey?, otherStamp, Option.map_some],
    by rw [EventEntry.replayKey?, entryStamp, Option.map_some], ?_⟩
  rcases isLatest.precedes other otherMember otherGroup with
    lower | ⟨sameSeq, _⟩
  · have notLater :=
      grows other otherMember entry isLatest.member samePublisher lower
        otherHlc otherStamp entryHlc entryStamp
    change ReplayKey.sortKey _ ≤ ReplayKey.sortKey _
    rw [ReplayKey.sortKey, ReplayKey.sortKey, Prod.Lex.toLex_le_toLex]
    rcases notLater.lt_or_eq with earlier | sameHlc
    · exact Or.inl earlier
    · refine Or.inr ⟨sameHlc, ?_⟩
      rw [Prod.Lex.toLex_le_toLex]
      exact Or.inr ⟨samePublisher, lower.le⟩
  · grind [events.entry_unique, isLatest.member, EventKey.ext]

namespace FjallBackend

/-- After `compact_keyed` the retained entry is still the latest. -/
theorem isLatest_compactKeyed_iff
    {name : String}
    {entry : EventEntry} :
    IsLatest EventMetadata.key
        (backend.compactKeyed (.ok ())).1.db.events.entries name entry ↔
      IsLatest EventMetadata.key backend.db.events.entries name entry := by
  constructor
  · intro stillLatest
    exact (mem_events_compactKeyed.mp stillLatest.member).2 name
      stillLatest.inGroup
  · intro isLatest
    refine ⟨mem_events_compactKeyed.mpr ⟨isLatest.member, ?_⟩,
      isLatest.inGroup, ?_⟩
    · intro other otherGroup
      rw [isLatest.inGroup, Option.some.injEq] at otherGroup
      exact otherGroup ▸ isLatest
    · intro other otherMember
      exact isLatest.precedes other (mem_events_compactKeyed.mp otherMember).1

/--
For every application key in use, `compact_keyed` retains exactly one event:
the one of highest sequence, of the smallest publisher among equals.  It is
the newest event of that key from its own publisher, and the query for latest
values returns it before and after.
-/
theorem compactKeyed_retains_highestSeq
    (backend : FjallBackend)
    (wellFormed : backend.db.WellFormed)
    (stamped :
      ∀ entry ∈ backend.db.events.entries,
        entry.2.1.key.isSome = true →
        entry.2.1.hlcTimestamp.isSome = true)
    (grows : ClockGrowsWithSeq backend.db.events.entries)
    (name : String)
    (inUse :
      ∃ entry ∈ backend.db.events.entries, entry.2.1.key = some name) :
    let compacted := (backend.compactKeyed (.ok ())).1
    ∃ entry,
      (∀ other,
        (other ∈ compacted.db.events.entries ∧ other.2.1.key = some name) ↔
          other = entry) ∧
      IsLatest EventMetadata.key backend.db.events.entries name entry ∧
      (∀ other ∈ backend.db.events.entries,
        other.2.1.key = some name →
        other.1.publisherId = entry.1.publisherId →
        ∃ otherKey entryKey,
          EventEntry.replayKey? other = some otherKey ∧
            EventEntry.replayKey? entry = some entryKey ∧
            otherKey ≤ entryKey) ∧
      ∀ queried ∈ [backend, compacted],
        ∀ keys,
          name ∈ keys →
          ∀ event,
            (event ∈ queried.queryLatestByKeys keys ∧
                event.metadata.key = some name) ↔
              event = EventEntry.returned entry := by
  intro compacted
  obtain ⟨used, usedMember, usedKey⟩ := inUse
  obtain ⟨entry, isLatest⟩ :=
    exists_isLatest EventMetadata.key usedMember usedKey
  have compactedWellFormed : compacted.db.WellFormed :=
    wellFormed_act wellFormed .compactKeyed
  refine ⟨entry, ?_, isLatest, ?_, ?_⟩
  · intro other
    rw [mem_events_compactKeyed]
    constructor
    · rintro ⟨⟨_, latestOf⟩, otherKey⟩
      exact (latestOf name otherKey).unique isLatest
    · intro isEntry
      subst isEntry
      have stillLatest := isLatest_compactKeyed_iff.mpr isLatest
      exact ⟨mem_events_compactKeyed.mp stillLatest.member, isLatest.inGroup⟩
  · intro other otherMember otherKey samePublisher
    exact isLatest.replayKey_le stamped grows otherMember otherKey samePublisher
  · intro queried isQueried keys asked event
    have answers :
        event ∈ queried.queryLatestByKeys keys ↔
          ∃ key latest,
            key ∈ keys ∧
              IsLatest EventMetadata.key backend.db.events.entries key latest ∧
              event = EventEntry.returned latest := by
      rw [mem_cons, mem_singleton] at isQueried
      rcases isQueried with isBackend | isCompacted
      · rw [isBackend, mem_queryLatestByKeys wellFormed]
      · rw [isCompacted, mem_queryLatestByKeys compactedWellFormed]
        simp only [compacted, isLatest_compactKeyed_iff]
    rw [answers]
    constructor
    · rintro ⟨⟨key, latest, _, latestOfKey, isReturned⟩, eventKey⟩
      have sameName : some key = some name := by
        rw [← latestOfKey.inGroup, ← eventKey, isReturned]
        rfl
      rw [Option.some.inj sameName] at latestOfKey
      rw [isReturned, latestOfKey.unique isLatest]
    · intro isReturned
      refine ⟨⟨name, entry, asked, isLatest, isReturned⟩, ?_⟩
      rw [isReturned]
      exact isLatest.inGroup

end FjallBackend

/-- Events of one application key with the given clock readings. -/
def keyedStores
    (readings : List (PublisherId × U64 × HlcTimestamp)) : List StoreAction :=
  readings.map fun reading =>
    .store (.store
      (stampedEvent reading.1 reading.2.1 0 (some "k") (some reading.2.2)))

/-- Publisher 7's second event outranks its first and publisher 9's first. -/
theorem compactKeyed_retains_secondEvent :
    let backend :=
      FjallBackend.afterActions 0
        (keyedStores [(7, 0, ⟨1, 0⟩), (7, 1, ⟨2, 0⟩), (9, 0, ⟨3, 0⟩)])
    ∃ entry,
      (∀ other,
        (other ∈ (backend.compactKeyed (.ok ())).1.db.events.entries ∧
            other.2.1.key = some "k") ↔
          other = entry) ∧
      entry.1 = ⟨7, 1⟩ := by
  intro backend
  obtain ⟨entry, retained, isLatest, _⟩ :=
    FjallBackend.compactKeyed_retains_highestSeq backend
      (FjallBackend.wellFormed_afterActions 0 _) (by decide) (by decide) "k"
      (by decide)
  refine ⟨entry, retained, ?_⟩
  have checked :
      ∀ kept ∈ (backend.compactKeyed (.ok ())).1.db.events.entries,
        kept.1 = ⟨7, 1⟩ := by
    decide
  exact checked entry ((retained entry).mpr rfl).1

/--
Two publishers write one key.  The event with the greater clock reading has
the smaller sequence: it is removed, and the query for latest values does not
return it before either.
-/
theorem compactKeyed_removes_newest :
    let backend :=
      FjallBackend.afterActions 0
        (keyedStores [(7, 1, ⟨1, 0⟩), (9, 0, ⟨2, 0⟩)])
    let compacted := (backend.compactKeyed (.ok ())).1
    backend.db.events.entries.map EventEntry.replayKey? =
        [some ⟨⟨1, 0⟩, 7, 1⟩, some ⟨⟨2, 0⟩, 9, 0⟩] ∧
      (⟨⟨1, 0⟩, 7, 1⟩ : ReplayKey) < ⟨⟨2, 0⟩, 9, 0⟩ ∧
      compacted.db.events.entries.map EventEntry.replayKey? =
        [some ⟨⟨1, 0⟩, 7, 1⟩] ∧
      (backend.queryLatestByKeys ["k"]).map (·.metadata.publisherId) =
        [7] := by
  decide

end Mitiflow
