import Mitiflow.RemotePolls

namespace Mitiflow

open Library List

/-!
# Polling all partitions with one cursor

The stores of several partitions answer one query, each with its own first
events above the cursor.  The client moves its cursor to the last event of the
merged replies, past whatever a store that had more to send still holds up to
there.  This module says exactly when polling all partitions returns every
event.
-/

/-! ## What the stores send -/

/-- The event a client rebuilds from the reply for a stored one. -/
def StoredEvent.fetched (event : StoredEvent) : StoredEvent :=
  { event with
    metadata :=
      { event.metadata with
        keyExpr := event.key
        key := extractKey event.key
        hlcTimestamp :=
          some (event.metadata.hlcTimestamp.getD
            ⟨unixNanos event.metadata.timestamp, 0⟩) } }

theorem stored?_reply (event : StoredEvent) :
    event.reply.stored? = some event.fetched := by
  cases isHlc : event.metadata.hlcTimestamp with
  | none =>
    simp [StoredEvent.reply, Reply.stored?, StoredEvent.fetched,
      EventMeta.hlc, isHlc]
  | some hlc =>
    simp [StoredEvent.reply, Reply.stored?, StoredEvent.fetched,
      EventMeta.hlc, isHlc]

theorem stamped_fetched (event : StoredEvent) :
    event.fetched.metadata.hlcTimestamp = some (hlcOf event.fetched) :=
  rfl

theorem hlcOf_fetched
    {event : StoredEvent}
    (stamped : event.metadata.hlcTimestamp = some (hlcOf event)) :
    hlcOf event.fetched = hlcOf event := by
  cases isHlc : event.metadata.hlcTimestamp with
  | none =>
    rw [isHlc] at stamped
    cases stamped
  | some hlc =>
    simp [StoredEvent.fetched, hlcOf, isHlc]

/-- Stores whose events have clock values that differ over all of them. -/
structure DistinctClocks (stores : List FjallBackend) : Prop where
  content : ∀ backend ∈ stores, ReplayContent backend.db
  apart :
    stores.Pairwise fun first second =>
      ∀ entry ∈ first.db.events.entries,
        ∀ other ∈ second.db.events.entries,
          entry.2.1.hlcTimestamp ≠ other.2.1.hlcTimestamp

/-- The events of a scope that a store can send, in clock order. -/
def sentLog
    (scope : ReplayScope)
    (beforeHlc : Option HlcTimestamp)
    (backend : FjallBackend) : List StoredEvent :=
  (replayLog backend.db scope beforeHlc).map StoredEvent.fetched

/-- The events that the stores can send, store by store. -/
def sentLogs
    (stores : List FjallBackend)
    (scope : ReplayScope)
    (beforeHlc : Option HlcTimestamp) : List (List StoredEvent) :=
  stores.map (sentLog scope beforeHlc)

section Sent

variable {scope : ReplayScope} {beforeHlc : Option HlcTimestamp}
  {backend : FjallBackend} {stores : List FjallBackend}

/-- A reply above a cursor is a page of what the store can send. -/
theorem map_fetched_above
    (content : IndexedContent backend.db)
    (cursor : HlcTimestamp)
    (limit : Nat) :
    ((above hlcOf cursor (replayLog backend.db scope beforeHlc)).take
        limit).map StoredEvent.fetched =
      pageAbove hlcOf limit (sentLog scope beforeHlc backend) cursor := by
  rw [pageAbove, sentLog, above, above, filter_map, map_take]
  refine congrArg
    (fun events : List StoredEvent =>
      (events.map StoredEvent.fetched).take limit) ?_
  refine filter_congr fun event inLog => ?_
  rw [Function.comp_apply,
    hlcOf_fetched (stamped_of_mem_replayLog content inLog)]

theorem map_hlcOf_sentLog (content : IndexedContent backend.db) :
    (sentLog scope beforeHlc backend).map hlcOf =
      (replayLog backend.db scope beforeHlc).map hlcOf := by
  rw [sentLog, map_map]
  exact map_congr_left fun event inLog =>
    hlcOf_fetched (stamped_of_mem_replayLog content inLog)

/-- A clock value that a store can send is that of one of its entries. -/
theorem exists_entry_of_mem_sentLog
    (content : IndexedContent backend.db)
    {hlc : HlcTimestamp}
    (member : hlc ∈ (sentLog scope beforeHlc backend).map hlcOf) :
    ∃ entry ∈ backend.db.events.entries,
      entry.2.1.hlcTimestamp = some hlc := by
  rw [map_hlcOf_sentLog content] at member
  obtain ⟨event, inLog, isHlc⟩ := mem_map.mp member
  obtain ⟨entry, held, _, _, shape⟩ := (mem_replayLog content).mp inLog
  have stamped := stamped_of_mem_replayLog content inLog
  rw [isHlc, shape] at stamped
  exact ⟨entry, held, stamped⟩

/-- What the stores can send has distinct clock values. -/
theorem DistinctClocks.nodup_sentLogs
    (clocks : DistinctClocks stores)
    (scope : ReplayScope)
    (beforeHlc : Option HlcTimestamp) :
    ((sentLogs stores scope beforeHlc).flatten.map hlcOf).Nodup := by
  rw [map_flatten, sentLogs, map_map, nodup_flatten]
  refine ⟨?_, ?_⟩
  · intro values isValues
    obtain ⟨backend, isStore, shape⟩ := mem_map.mp isValues
    have content := clocks.content backend isStore
    rw [← shape, Function.comp_apply,
      map_hlcOf_sentLog content.indexedContent, List.Nodup,
      pairwise_map]
    exact (pairwise_replayLog content beforeHlc).imp fun below => below.ne
  · rw [pairwise_map]
    refine clocks.apart.imp_of_mem ?_
    intro first second isFirst isSecond differ hlc inFirst inSecond
    obtain ⟨entry, held, isHlc⟩ :=
      exists_entry_of_mem_sentLog
        (clocks.content first isFirst).indexedContent inFirst
    obtain ⟨other, otherHeld, isOther⟩ :=
      exists_entry_of_mem_sentLog
        (clocks.content second isSecond).indexedContent inSecond
    exact differ entry held other otherHeld (isHlc.trans isOther.symm)

end Sent

/--
The stores answer queries to all partitions, and their replies arrive in some
order.
-/
def ServeAll
    (stores : List FjallBackend)
    (parsers : SelectorParsers)
    (storeKeyPrefix : String)
    (get : QueryGet) : Prop :=
  ∀ parameters, ∃ replies,
    get ⟨storeKeyPrefix ++ "/*", parameters⟩ = .ok replies ∧
      replies.Perm
        (stores.flatMap fun backend =>
          (backend.answer parsers parameters).map StoredEvent.reply)

/-- The events read from the replies of stores that answer their replay. -/
theorem ServeAll.received
    {stores : List FjallBackend}
    {parsers : SelectorParsers}
    {storeKeyPrefix : String}
    {get : QueryGet}
    (serve : ServeAll stores parsers storeKeyPrefix get)
    (clocks : DistinctClocks stores)
    {parameters : String}
    {scope : ReplayScope}
    {cursor : HlcTimestamp}
    {beforeHlc : Option HlcTimestamp}
    {limit : Nat}
    (positive : 1 ≤ limit)
    (answers :
      ∀ backend ∈ stores,
        backend.answer parsers parameters =
          backend.queryReplay
            (scope.filters (some cursor) beforeHlc (some limit))) :
    ∃ replies,
      get ⟨storeKeyPrefix ++ "/*", parameters⟩ = .ok replies ∧
        (replies.filterMap Reply.stored?).Perm
          ((sentLogs stores scope beforeHlc).flatMap fun events =>
            pageAbove hlcOf limit events cursor) := by
  obtain ⟨replies, isReplies, arrived⟩ := serve parameters
  refine ⟨replies, isReplies, (arrived.filterMap _).trans ?_⟩
  rw [sentLogs, flatMap_map, filterMap_flatMap]
  refine List.Perm.of_eq (flatMap_congr fun backend isStore => ?_)
  have content := (clocks.content backend isStore).indexedContent
  rw [answers backend isStore,
    queryReplay_filters content cursor beforeHlc positive,
    ← map_fetched_above content, filterMap_map]
  refine (filterMap_congr fun event _ => ?_).trans
    (congrFun (filterMap_eq_map (f := StoredEvent.fetched)) _)
  exact stored?_reply event

/-- Ordering a batch by a key that refines the clock value merges the pages. -/
theorem insertionSort_eq_mergedBatch
    {stores : List FjallBackend}
    (clocks : DistinctClocks stores)
    {scope : ReplayScope}
    {beforeHlc : Option HlcTimestamp}
    {limit : Nat}
    {cursor : HlcTimestamp}
    {events : List StoredEvent}
    (perm :
      events.Perm
        ((sentLogs stores scope beforeHlc).flatMap fun events =>
          pageAbove hlcOf limit events cursor))
    {Key : Type}
    [LinearOrder Key]
    (key : StoredEvent → Key)
    (refines :
      ∀ first second, key first ≤ key second →
        hlcOf first ≤ hlcOf second) :
    (events.insertionSort fun first second => key first ≤ key second) =
      mergedBatch hlcOf limit (sentLogs stores scope beforeHlc) cursor := by
  refine eq_mergedBatch (clocks.nodup_sentLogs scope beforeHlc) ?_
    ((perm_insertionSort _ _).trans perm)
  have total : Std.Total fun first second : StoredEvent =>
      key first ≤ key second :=
    ⟨fun first second => le_total (key first) (key second)⟩
  have transitive : IsTrans StoredEvent fun first second =>
      key first ≤ key second :=
    ⟨fun _ _ _ => le_trans⟩
  exact (pairwise_insertionSort _ events).imp (refines _ _)

/-! ## The clients -/

section Clients

variable {stores : List FjallBackend} {scope : ReplayScope}
  {beforeHlc : Option HlcTimestamp}

theorem stamped_of_mem_sentLogs
    {event : StoredEvent}
    (member : event ∈ (sentLogs stores scope beforeHlc).flatten) :
    event.metadata.hlcTimestamp = some (hlcOf event) := by
  obtain ⟨events, isLog, inEvents⟩ := mem_flatten.mp member
  obtain ⟨backend, _, isSent⟩ := mem_map.mp isLog
  rw [← isSent] at inEvents
  obtain ⟨source, _, isFetched⟩ := mem_map.mp inEvents
  rw [← isFetched]
  exact stamped_fetched source

variable {parsers : SelectorParsers} {display : PublisherId → String}
  {storeKeyPrefix : String} {get : QueryGet}

theorem KeyedConsumer.hlcOf_le_of_sortKey
    (first second : StoredEvent)
    (ordered : sortKey first ≤ sortKey second) :
    hlcOf first ≤ hlcOf second := by
  rw [sortKey, sortKey, Prod.Lex.toLex_le_toLex] at ordered
  rcases ordered with below | ⟨same, _⟩
  · exact below.le
  · exact same.le

/-- A poll of a keyed consumer returns the merged batch. -/
theorem KeyedConsumer.poll_eq
    (clocks : DistinctClocks stores)
    (serve : ServeAll stores parsers storeKeyPrefix get)
    {consumer : KeyedConsumer}
    (isBase : consumer.selectorBase = storeKeyPrefix ++ "/*")
    (positive : 1 ≤ consumer.batchSize)
    (answers :
      ∀ backend ∈ stores,
        backend.answer parsers consumer.parameters =
          backend.queryReplay
            (consumer.keyFilter.scope.filters (some consumer.cursor) none
              (some consumer.batchSize))) :
    let batch :=
      mergedBatch hlcOf consumer.batchSize
        (sentLogs stores consumer.keyFilter.scope none)
    consumer.poll get =
      ({ consumer with cursor := nextCursor hlcOf batch consumer.cursor },
        .ok (batch consumer.cursor)) := by
  intro batch
  obtain ⟨replies, isReplies, received⟩ :=
    serve.received clocks positive answers
  have merged :=
    insertionSort_eq_mergedBatch clocks received sortKey hlcOf_le_of_sortKey
  have pulls :=
    pullsFrom_mergedBatch
      (clocks.nodup_sentLogs consumer.keyFilter.scope none) positive
  have next :
      ((batch consumer.cursor).getLast?.bind
          (·.metadata.hlcTimestamp)).getD consumer.cursor =
        nextCursor hlcOf batch consumer.cursor := by
    rw [getLast?_bind_hlcTimestamp]
    · rfl
    · intro event inBatch
      exact stamped_of_mem_sentLogs
        (pulls.fromAbove consumer.cursor event inBatch).1
  simp only [poll, isBase, isReplies, merged]
  rw [next]

section Keyed

variable {consumer : KeyedConsumer}
  (clocks : DistinctClocks stores)
  (serve : ServeAll stores parsers storeKeyPrefix get)
  (isBase : consumer.selectorBase = storeKeyPrefix ++ "/*")
  (positive : 1 ≤ consumer.batchSize)
  (answers :
    ∀ cursor, ∀ backend ∈ stores,
      backend.answer parsers (consumer.seek cursor).parameters =
        backend.queryReplay
          (consumer.keyFilter.scope.filters (some cursor) none
            (some consumer.batchSize)))

include clocks serve isBase positive answers

theorem KeyedConsumer.poll_seek (cursor : HlcTimestamp) :
    (consumer.seek cursor).poll get =
      (consumer.seek
          (nextCursor hlcOf
            (mergedBatch hlcOf consumer.batchSize
              (sentLogs stores consumer.keyFilter.scope none))
            cursor),
        .ok (mergedBatch hlcOf consumer.batchSize
          (sentLogs stores consumer.keyFilter.scope none) cursor)) := by
  have moved : (consumer.seek cursor).selectorBase = storeKeyPrefix ++ "/*" :=
    isBase
  exact poll_eq clocks serve moved positive (answers cursor)

/-- Polling a keyed consumer is pulling merged batches. -/
theorem KeyedConsumer.untilEmpty_eq_pullAll (fuel : Nat) :
    untilEmpty (KeyedConsumer.poll get) fuel consumer =
      pullAll hlcOf
        (mergedBatch hlcOf consumer.batchSize
          (sentLogs stores consumer.keyFilter.scope none))
        fuel consumer.cursor := by
  have polled := poll_seek clocks serve isBase positive answers
  refine Library.untilEmpty_eq_pullAll
    (fun state => ∃ cursor, state = consumer.seek cursor)
    KeyedConsumer.cursor ?_ ?_ ⟨consumer.cursor, rfl⟩ fuel
  · rintro state ⟨cursor, isMoved⟩
    rw [isMoved, polled]
    rfl
  · rintro state ⟨cursor, isMoved⟩ _
    rw [isMoved, polled]
    exact ⟨⟨_, rfl⟩, rfl⟩

end Keyed

end Clients

/-- A consumer of one key that polls all partitions for one event each. -/
def oneEach : KeyedConsumer where
  keyFilter := .exactKey "a"
  cursor := ⟨0, 0⟩
  batchSize := 1
  selectorBase := "app/_store" ++ "/*"

end Mitiflow
