import Mitiflow.CatchUpReader
import Mitiflow.Library.CursorOffer
import Mitiflow.SelectorText
import Mitiflow.StoreQueryFilters

namespace Mitiflow

open Library List

/-!
# Catching up from the stores

The reader's selectors answered by the stores themselves.  A selector that
names a publisher is sent to the replay index, which ignores the lower
sequence bound and applies the limit before the reader drops what is at or
below its cursor.  So a batch only ever sees the first events of a publisher
in clock order, and this module settles when that is enough.
-/

/-- The stores of all partitions, each holding events of its own partition. -/
structure PartitionStores where
  backend : U32 → FjallBackend
  wellFormed : ∀ partition, (backend partition).db.WellFormed
  routed :
    ∀ partition, ∀ entry ∈ (backend partition).db.events.entries,
      extractPartition entry.2.1.keyExpr = partition

def StoredEvent.reply (event : StoredEvent) : Reply :=
  .sample
    (some
      { seq := event.metadata.seq
        pubId := event.metadata.publisherId
        eventId := event.metadata.eventId
        timestamp := event.metadata.timestamp
        urgencyMs := noUrgency
        hlcPhysicalNs := event.metadata.hlcTimestamp.map (·.physicalNs)
        hlcLogical := event.metadata.hlcTimestamp.map (·.logical) })
    event.key event.payload

/-- Queries answered by the queryable of the partition they name. -/
def PartitionStores.get
    (stores : PartitionStores)
    (parsers : SelectorParsers) : Get :=
  fun selector =>
    .ok (((stores.backend selector.partition).answer parsers
      selector.parameters).map StoredEvent.reply)

/-! ## The reader's selector -/

section Selector

variable
    (uuid : UuidText)
    (reader : CatchUpReader)
    (publisher : PublisherId)
    (partition : U32)
    (afterSeq : Nat)

theorem selector_parameters :
    (reader.selector uuid.display
        ⟨partition, some publisher, afterSeq⟩).parameters.toList =
      joined
        [(.publisherId, (uuid.display publisher).toList),
          (.afterSeq, (Nat.repr afterSeq).toList),
          (.limit, (Nat.repr reader.batchSize).toList)] := by
  simp [CatchUpReader.selector, joined, Parameter.assign, Parameter.name,
    toString]

theorem recognised_selector :
    recognised
        (reader.selector uuid.display
          ⟨partition, some publisher, afterSeq⟩).parameters =
      [(.publisherId, (uuid.display publisher).toList),
        (.afterSeq, (Nat.repr afterSeq).toList),
        (.limit, (Nat.repr reader.batchSize).toList)] := by
  refine recognised_of_joined
    (selector_parameters uuid reader publisher partition afterSeq) ?_
  simp only [forall_mem_cons, not_mem_nil, false_imp_iff,
    implies_true, and_true]
  exact ⟨uuid.plain publisher, plainText_repr afterSeq,
    plainText_repr reader.batchSize⟩

theorem routesToReplay_selector :
    routesToReplay
        (reader.selector uuid.display
          ⟨partition, some publisher, afterSeq⟩).parameters =
      true :=
  routesToReplay_of_publisherId
    (selector_parameters uuid reader publisher partition afterSeq)
    mem_cons_self

/-- The replay filters keep the publisher and the limit, and nothing else. -/
theorem fromSelector_selector
    {dateTime : List Char → Except String DateTime}
    (fits : reader.batchSize ≤ u64Max) :
    ReplayFilters.fromSelector ⟨uuid.parse, dateTime⟩
        (reader.selector uuid.display
          ⟨partition, some publisher, afterSeq⟩).parameters =
      .ok
        { publisherId := some publisher
          limit := some reader.batchSize } := by
  unfold ReplayFilters.fromSelector
  rw [recognised_selector]
  simp only [foldlM_cons, foldlM_nil, ReplayFilters.apply,
    uuid.parse_display, decimal_repr fits, orInvalid, Except.map]
  rfl

end Selector

/-! ## The replies to one query -/

/-- The events of one publisher the replay index leads to, in clock order. -/
def FjallBackend.replayed
    (backend : FjallBackend)
    (publisher : PublisherId) : List StoredEvent :=
  backend.db.replay.entries.filterMap fun entry =>
    if entry.1.publisherId = publisher then
      (backend.db.events.get? entry.2).map fun value =>
        returnedEvent value.1 value.2
    else
      none

/-- Their sequences, in clock order. -/
def FjallBackend.replaySeqs
    (backend : FjallBackend)
    (publisher : PublisherId) : List Nat :=
  (backend.replayed publisher).map fun event => event.metadata.seq.val

/-- A replay query for one publisher returns the first events of its replay. -/
theorem FjallBackend.queryReplay_publisher
    (backend : FjallBackend)
    (publisher : PublisherId)
    {limit : Nat}
    (positive : 1 ≤ limit) :
    backend.queryReplay { publisherId := some publisher, limit := some limit } =
      (backend.replayed publisher).take limit := by
  have visited (entry : ReplayKey × EventKey) :
      ReplayFilters.visit
          { publisherId := some publisher, limit := some limit }
          backend.db entry =
        if entry.1.publisherId = publisher then
          match backend.db.events.get? entry.2 with
          | none => .skip
          | some value => .take (returnedEvent value.1 value.2)
        else
          .skip := by
    simp only [ReplayFilters.visit, atOrBelow, atOrAbove,
      ReplayFilters.matchesPublisher, ReplayFilters.hasKeyFilter]
    by_cases same : entry.1.publisherId = publisher
    · cases found : backend.db.events.get? entry.2 with
      | none =>
        simp [same]
      | some value =>
        simp [same]
    · simp [same]
  unfold FjallBackend.queryReplay
  rw [scan_some, nil_append, length_nil, Nat.sub_zero,
    max_eq_right positive, collected_eq_filterMap]
  · unfold FjallBackend.replayed
    congr 2
    funext entry
    rw [visited]
    split
    · cases backend.db.events.get? entry.2 with
      | none =>
        rfl
      | some value =>
        rfl
    · rfl
  · intro entry _
    rw [visited]
    split
    · split
      · exact fun stops => by cases stops
      · exact fun stops => by cases stops
    · exact fun stops => by cases stops

/-- The event a subscriber reads from the reply for a stored event. -/
def StoredEvent.raw (event : StoredEvent) : RawEvent where
  id := event.metadata.eventId
  seq := event.metadata.seq
  publisherId := event.metadata.publisherId
  keyExpr := event.key
  payload := event.payload
  timestamp := event.metadata.timestamp

namespace PartitionStores

/-- Sequences a store holds for a publisher on its partition. -/
def heldOn (stores : PartitionStores) (key : CursorKey) : Finset Nat :=
  heldSeqs (stores.backend key.2).db key.1

/-- The part of a publisher's replay that one query can see. -/
def window
    (stores : PartitionStores)
    (reader : CatchUpReader)
    (key : CursorKey) : List Nat :=
  ((stores.backend key.2).replaySeqs key.1).take reader.batchSize

/-- A replayed event belongs to the replayed publisher and to its store. -/
theorem raw_of_mem_replayed
    (stores : PartitionStores)
    {publisher : PublisherId}
    {partition : U32}
    {event : StoredEvent}
    (member : event ∈ (stores.backend partition).replayed publisher) :
    event.raw.cursorKey = (publisher, partition) ∧
      event.raw.position ∈ stores.heldOn (publisher, partition) := by
  obtain ⟨entry, indexed, found⟩ := mem_filterMap.mp member
  split at found
  · rename_i samePublisher
    obtain ⟨value, isStored, shape⟩ := Option.map_eq_some_iff.mp found
    have stored := OrderedMap.get?_eq_some.mp isStored
    have valueKey : value.1.eventKey = entry.2 :=
      (stores.wellFormed partition).events (entry.2, value) stored
    have target := (stores.wellFormed partition).replay entry indexed
    have eventPublisher : value.1.publisherId = publisher :=
      (congrArg EventKey.publisherId (valueKey.trans target)).trans
        samePublisher
    have eventPartition := stores.routed partition (entry.2, value) stored
    subst shape
    refine ⟨Prod.ext eventPublisher eventPartition, ?_⟩
    apply mem_heldSeqs.mpr
    refine ⟨entry.2, (Database.holds_iff_mem _ _).mpr ⟨value, stored⟩, ?_, ?_⟩
    · rw [← valueKey]
      exact eventPublisher
    · rw [← valueKey]
      rfl
  · cases found

section Batch

variable
    (stores : PartitionStores)
    (uuid : UuidText)
    (dateTime : List Char → Except String DateTime)
    {reader : CatchUpReader}

/-- The replies to a catch-up query are the first replayed events. -/
theorem received_eq
    (positive : 1 ≤ reader.batchSize)
    (fits : reader.batchSize ≤ u64Max)
    (key : CursorKey)
    (afterSeq : Nat) :
    reader.received uuid.display (stores.get ⟨uuid.parse, dateTime⟩)
        ⟨key.2, some key.1, afterSeq⟩ =
      (((stores.backend key.2).replayed key.1).take reader.batchSize).map
        StoredEvent.raw := by
  have answered :
      (stores.backend key.2).answer ⟨uuid.parse, dateTime⟩
          (reader.selector uuid.display
            ⟨key.2, some key.1, afterSeq⟩).parameters =
        ((stores.backend key.2).replayed key.1).take reader.batchSize := by
    unfold FjallBackend.answer
    rw [routesToReplay_selector, if_pos rfl,
      fromSelector_selector uuid reader key.1 key.2 afterSeq fits]
    exact FjallBackend.queryReplay_publisher _ _ positive
  have read (events : List StoredEvent) :
      (events.map StoredEvent.reply).filterMap Reply.event? =
        events.map StoredEvent.raw := by
    rw [filterMap_map]
    exact congrFun filterMap_eq_map events
  change List.filterMap Reply.event?
    (((stores.backend key.2).answer _ _).map StoredEvent.reply) = _
  rw [answered, read]

variable {snapshot : List (CursorKey × Nat)}

/-- The list enumerates a cursor map, each key once. -/
structure Enumerates
    (snapshot : List (CursorKey × Nat))
    (cursors : Cursors CursorKey) : Prop where
  distinct : (snapshot.map Prod.fst).Nodup
  complete :
    ∀ key cursor, (key, cursor) ∈ snapshot ↔ cursors key = some cursor

/-- What a batch offers for a tracked key is the window of its replay. -/
theorem offered_eq_window
    (positive : 1 ≤ reader.batchSize)
    (fits : reader.batchSize ≤ u64Max)
    (enumerates : Enumerates snapshot reader.cursors)
    {key : CursorKey}
    {cursor : Nat}
    (tracked : reader.cursors key = some cursor) :
    offered RawEvent.cursorKey RawEvent.position
        ((reader.queries snapshot).flatMap
          (reader.received uuid.display
            (stores.get ⟨uuid.parse, dateTime⟩)))
        key =
      stores.window reader key := by
  have listed := (enumerates.complete key cursor).mpr tracked
  have asked :
      reader.queries snapshot =
        snapshot.map fun entry => ⟨entry.1.2, some entry.1.1, entry.2⟩ := by
    cases snapshot with
    | nil =>
      cases listed
    | cons first rest =>
      rfl
  have answered (entry : CursorKey × Nat) :=
    stores.received_eq uuid dateTime positive fits entry.1 entry.2
  have shown :=
    @offered_flatMap _ _ _ RawEvent.cursorKey RawEvent.position _ snapshot
      Prod.fst
      (fun entry =>
        reader.received uuid.display (stores.get ⟨uuid.parse, dateTime⟩)
          ⟨entry.1.2, some entry.1.1, entry.2⟩)
      (by
        intro entry _ raw isReceived
        rw [answered] at isReceived
        obtain ⟨event, inWindow, shape⟩ := mem_map.mp isReceived
        rw [← shape]
        exact (stores.raw_of_mem_replayed (mem_of_mem_take inWindow)).1)
      enumerates.distinct (key, cursor) listed
  rw [asked, flatMap_map, shown, answered, window,
    FjallBackend.replaySeqs, ← map_take, map_map]
  rfl

theorem mem_heldOn_of_mem_window
    {key : CursorKey}
    {seq : Nat}
    (inWindow : seq ∈ stores.window reader key) :
    seq ∈ stores.heldOn key := by
  obtain ⟨event, isReplayed, shape⟩ :=
    mem_map.mp (mem_of_mem_take inWindow)
  rw [← shape]
  exact (stores.raw_of_mem_replayed isReplayed).2

/-! ## Progress and completeness of a batch -/

/-- Some tracked key has an event stored above its cursor. -/
def Behind (reader : CatchUpReader) : Prop :=
  ∃ key cursor,
    reader.cursors key = some cursor ∧
      ∃ seq ∈ stores.heldOn key, cursor < seq

/-- A reader that is behind gets a stored event above a tracked cursor. -/
def MakesProgress (reader : CatchUpReader) (batch : List RawEvent) : Prop :=
  stores.Behind reader →
    ∃ raw ∈ batch,
      ∃ cursor,
        reader.cursors raw.cursorKey = some cursor ∧
          cursor < raw.position ∧
          raw.position ∈ stores.heldOn raw.cursorKey

/-- No stored sequence between an old and a new cursor is left out. -/
def SkipsNone
    (reader next : CatchUpReader)
    (batch : List RawEvent) : Prop :=
  ∀ key before after,
    reader.cursors key = some before →
    next.cursors key = some after →
    ∀ seq ∈ stores.heldOn key,
      before < seq →
      seq ≤ after →
      ∃ raw ∈ batch, raw.cursorKey = key ∧ raw.position = seq

/--
The windows of a reader suffice: if it is behind, some window reaches above
its cursor, and every window lists the stored sequences above the cursor
before any higher sequence.
-/
structure WindowsSuffice (reader : CatchUpReader) : Prop where
  reach :
    stores.Behind reader →
    ∃ key cursor,
      reader.cursors key = some cursor ∧
        ∃ seq ∈ stores.window reader key, cursor < seq
  ordered :
    ∀ key cursor,
      reader.cursors key = some cursor →
      ∀ before reached after,
        stores.window reader key = before ++ reached :: after →
        ∀ seq ∈ stores.heldOn key,
          cursor < seq →
          seq < reached →
          seq ∈ before

end Batch

/-- The next batch of a reader whose selectors the stores answer. -/
def nextBatch
    (stores : PartitionStores)
    (uuid : UuidText)
    (dateTime : List Char → Except String DateTime)
    (reader : CatchUpReader)
    (snapshot : List (CursorKey × Nat)) : CatchUpReader × List RawEvent :=
  reader.nextBatch uuid.display (stores.get ⟨uuid.parse, dateTime⟩) snapshot

section Answered

variable
    (stores : PartitionStores)
    (uuid : UuidText)
    (dateTime : List Char → Except String DateTime)
    {reader : CatchUpReader}
    {snapshot : List (CursorKey × Nat)}

/-- The new cursors cover a sequence exactly if the filter passed it. -/
theorem covered_nextBatch_iff
    {key : CursorKey}
    {seq : Nat} :
    (∃ after,
        (stores.nextBatch uuid dateTime reader snapshot).1.cursors key =
            some after ∧
          seq ≤ after) ↔
      (reader.filteredReplies uuid.display
        (stores.get ⟨uuid.parse, dateTime⟩) snapshot).1.passed key seq =
        true := by
  rw [nextBatch, CatchUpReader.nextBatch_eq, Cursors.passed_iff]

variable
    (positive : 1 ≤ reader.batchSize)
    (fits : reader.batchSize ≤ u64Max)
    (enumerates : Enumerates snapshot reader.cursors)
    {key : CursorKey}
    {cursor : Nat}
    (tracked : reader.cursors key = some cursor)

include positive fits enumerates tracked

/-- A batch reaches above a tracked cursor exactly if the window does. -/
theorem exists_above_nextBatch_iff :
    (∃ raw ∈ (stores.nextBatch uuid dateTime reader snapshot).2,
        raw.cursorKey = key ∧ cursor < raw.position) ↔
      ∃ seq ∈ stores.window reader key, cursor < seq := by
  simp only [nextBatch, CatchUpReader.mem_nextBatch]
  rw [← stores.offered_eq_window uuid dateTime positive fits enumerates tracked]
  exact exists_above_letThrough_iff tracked

theorem mem_heldOn_of_mem_nextBatch
    {raw : RawEvent}
    (member : raw ∈ (stores.nextBatch uuid dateTime reader snapshot).2)
    (sameKey : raw.cursorKey = key) :
    raw.position ∈ stores.heldOn key := by
  apply stores.mem_heldOn_of_mem_window
  rw [← stores.offered_eq_window uuid dateTime positive fits enumerates tracked]
  exact mem_offered.mpr ⟨raw, mem_of_mem_letThrough
    (CatchUpReader.mem_nextBatch.mp member), sameKey, rfl⟩

/-- A batch skips nothing stored exactly if the window lists it in order. -/
theorem nextBatch_skips_none_iff :
    (∀ after,
        (stores.nextBatch uuid dateTime reader snapshot).1.cursors key =
          some after →
        ∀ seq ∈ stores.heldOn key,
          cursor < seq →
          seq ≤ after →
          ∃ raw ∈ (stores.nextBatch uuid dateTime reader snapshot).2,
            raw.cursorKey = key ∧ raw.position = seq) ↔
      ∀ before reached after,
        stores.window reader key = before ++ reached :: after →
        ∀ seq ∈ stores.heldOn key,
          cursor < seq →
          seq < reached →
          seq ∈ before := by
  have skips :=
    @letThrough_skips_none_iff _ _ _ RawEvent.cursorKey RawEvent.position
      reader.cursors
      ((reader.queries snapshot).flatMap
        (reader.received uuid.display (stores.get ⟨uuid.parse, dateTime⟩)))
      key cursor tracked (· ∈ stores.heldOn key)
  rw [stores.offered_eq_window uuid dateTime positive fits enumerates
    tracked] at skips
  rw [← skips]
  constructor
  · intro noneSkipped seq isHeld above covered
    obtain ⟨after, advanced, atMost⟩ :=
      (stores.covered_nextBatch_iff uuid dateTime).mpr covered
    obtain ⟨raw, member, shape⟩ :=
      noneSkipped after advanced seq isHeld above atMost
    exact ⟨raw, CatchUpReader.mem_nextBatch.mp member, shape⟩
  · intro noneSkipped after advanced seq isHeld above atMost
    obtain ⟨raw, member, shape⟩ :=
      noneSkipped seq isHeld above
        ((stores.covered_nextBatch_iff uuid dateTime).mp
          ⟨after, advanced, atMost⟩)
    exact ⟨raw, CatchUpReader.mem_nextBatch.mpr member, shape⟩

end Answered

/--
With its selectors answered by the stores, a batch makes progress and skips no
stored sequence exactly when the first replayed events of each publisher, as
many as the batch size, suffice.
-/
theorem nextBatch_progress_iff
    (stores : PartitionStores)
    (uuid : UuidText)
    (dateTime : List Char → Except String DateTime)
    (reader : CatchUpReader)
    (snapshot : List (CursorKey × Nat))
    (enumerates : Enumerates snapshot reader.cursors)
    (positive : 1 ≤ reader.batchSize)
    (fits : reader.batchSize ≤ u64Max) :
    (stores.MakesProgress reader
          (stores.nextBatch uuid dateTime reader snapshot).2 ∧
        stores.SkipsNone reader
          (stores.nextBatch uuid dateTime reader snapshot).1
          (stores.nextBatch uuid dateTime reader snapshot).2) ↔
      stores.WindowsSuffice reader := by
  have reaches {key : CursorKey} {cursor : Nat} :=
    @stores.exists_above_nextBatch_iff uuid dateTime reader snapshot positive
      fits enumerates key cursor
  have skips {key : CursorKey} {cursor : Nat} :=
    @stores.nextBatch_skips_none_iff uuid dateTime reader snapshot positive
      fits enumerates key cursor
  constructor
  · rintro ⟨progress, noneSkipped⟩
    constructor
    · intro behind
      obtain ⟨raw, member, cursor, tracked, above, _⟩ := progress behind
      exact ⟨raw.cursorKey, cursor, tracked,
        (reaches tracked).mp ⟨raw, member, rfl, above⟩⟩
    · intro key cursor tracked
      apply (skips tracked).mp
      intro after advanced
      exact noneSkipped key cursor after tracked advanced
  · intro sufficient
    constructor
    · intro behind
      obtain ⟨key, cursor, tracked, seq, inWindow, above⟩ :=
        sufficient.reach behind
      obtain ⟨raw, member, sameKey, rawAbove⟩ :=
        (reaches tracked).mpr ⟨seq, inWindow, above⟩
      subst sameKey
      exact ⟨raw, member, cursor, tracked, rawAbove,
        stores.mem_heldOn_of_mem_nextBatch uuid dateTime positive fits
          enumerates tracked member rfl⟩
    · intro key before after tracked advanced
      exact (skips tracked).mpr (sufficient.ordered key before tracked)
        after advanced

end PartitionStores

/-! ## Instances -/

/-- Identifiers written as decimal numbers. -/
def decimalUuid : UuidText where
  display publisher := Nat.repr publisher.val
  parse text := (decimal (2 ^ 128 - 1) text).map (Fin.ofNat (2 ^ 128))
  plain publisher c member := plain_of_isDigit (isDigit_of_mem_repr member)
  parse_display publisher := by
    have fits : publisher.val ≤ 2 ^ 128 - 1 :=
      Nat.le_sub_one_of_lt publisher.isLt
    simp only [decimal, Text.parseUnsigned_repr fits, Except.map,
      Except.ok.injEq]
    exact Fin.ext (Nat.mod_eq_of_lt publisher.isLt)

/-- Stores of which only that of partition zero has a history. -/
def PartitionStores.single
    (actions : List StoreAction)
    (routed :
      ∀ entry ∈ (FjallBackend.afterActions 0 actions).db.events.entries,
        extractPartition entry.2.1.keyExpr = 0) : PartitionStores where
  backend partition :=
    if partition = 0 then
      FjallBackend.afterActions 0 actions
    else
      FjallBackend.fresh partition
  wellFormed partition := by
    split
    · exact FjallBackend.wellFormed_afterActions 0 actions
    · exact Database.wellFormed_empty
  routed partition := by
    split
    · rename_i isZero
      rw [isZero]
      exact routed
    · intro entry member
      cases member

/-- Publisher seven's first events, stored in order with ascending clocks. -/
def firstEvents (count : Nat) : List StoreAction :=
  (List.range count).map fun seq =>
    .store (.store (stampedEvent 7 (Fin.ofNat _ seq) 0 none
      (some ⟨Fin.ofNat _ seq, 0⟩)))

/-- A reader that tracks publisher seven on partition zero only. -/
def readerAt (cursor batchSize : Nat) : CatchUpReader where
  storeKeyPrefix := "events/_store"
  cursors := fun key => if key = (7, 0) then some cursor else none
  batchSize := batchSize
  config := {}
  partitions := []

theorem enumerates_readerAt (cursor batchSize : Nat) :
    PartitionStores.Enumerates [((7, 0), cursor)]
      (readerAt cursor batchSize).cursors where
  distinct := by simp
  complete := by
    intro key position
    by_cases isTracked : key = (7, 0)
    · simp [readerAt, isTracked, eq_comm]
    · simp [readerAt, isTracked]

/-- A batch that covers a publisher's whole replay makes progress. -/
theorem nextBatch_progress_wholeReplay :
    let stores := PartitionStores.single (firstEvents 2) (by decide)
    let batch :=
      stores.nextBatch decimalUuid (fun _ => .error "no dates")
        (readerAt 0 2) [((7, 0), 0)]
    stores.Behind (readerAt 0 2) ∧
      stores.MakesProgress (readerAt 0 2) batch.2 ∧
      stores.SkipsNone (readerAt 0 2) batch.1 batch.2 := by
  intro stores batch
  have behind : stores.Behind (readerAt 0 2) :=
    ⟨(7, 0), 0, rfl, 1, by decide, by decide⟩
  have onlyTracked {key : CursorKey} {cursor : Nat}
      (tracked : (readerAt 0 2).cursors key = some cursor) :
      key = (7, 0) ∧ cursor = 0 := by
    have listed := ((enumerates_readerAt 0 2).complete key cursor).mpr tracked
    simpa using listed
  refine ⟨behind, (PartitionStores.nextBatch_progress_iff stores decimalUuid
    (fun _ => .error "no dates") (readerAt 0 2) [((7, 0), 0)]
    (enumerates_readerAt 0 2) (by decide) (by decide)).mpr ⟨?_, ?_⟩⟩
  · intro _
    exact ⟨(7, 0), 0, rfl, 1, by decide, by decide⟩
  · intro key cursor tracked before reached after shape seq isHeld above below
    obtain ⟨isKey, isCursor⟩ := onlyTracked tracked
    subst isKey isCursor
    have windowBound :
        ∀ seq ∈ stores.window (readerAt 0 2) (7, 0), seq ≤ 1 := by
      decide
    have reachedBound := windowBound reached (by simp [shape])
    omega

/--
Three events in clock order, the cursor at the second, batches of two: the
third is stored above the cursor, yet every batch is empty.
-/
theorem nextBatch_stuck_below_cursor :
    let stores := PartitionStores.single (firstEvents 3) (by decide)
    let reader := readerAt 1 2
    (∀ entry ∈ (stores.backend 0).db.events.entries,
        entry.2.1.hlcTimestamp.isSome) ∧
      reader.cursors (7, 0) = some 1 ∧
      2 ∈ stores.heldOn (7, 0) ∧
      (stores.nextBatch decimalUuid (fun _ => .error "no dates") reader
        [((7, 0), 1)]).2 = [] := by
  decide

end Mitiflow
