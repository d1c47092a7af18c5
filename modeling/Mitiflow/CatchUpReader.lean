import Mitiflow.GapDetector

namespace Mitiflow

open Library

/-!
# The catch-up reader

A subscriber that fell behind reads events back from the stores in batches.
The reader keeps its own cursor per publisher and partition, asks for one
batch per cursor, drops replies at or below the cursor and hands the rest over
ordered by sequence.

What the session returns for a query is a parameter: any replies, in any
order, from any number of stores.
-/

/-- The settings of the offload cycle that the reader uses, in milliseconds. -/
structure OffloadConfig where
  catchUpBatchSize : Nat := 500
  minBatchSize : Nat := 1000
  maxBatchSize : Nat := 100000
  targetBatchDuration : Nat := 100
  deriving Repr, DecidableEq

/--
A query `{store_key_prefix}/{partition}?{parameters}`.  The store of a
partition answers the queries that name it.
-/
structure Selector where
  storeKeyPrefix : String
  partition : U32
  parameters : String
  deriving Repr, DecidableEq

/-- A reply: a sample, whose attachment may be unreadable, or an error. -/
inductive Reply where
  | sample
      (attachment : Option EventMeta)
      (keyExpr : String)
      (payload : Bytes)
  | failure (message : String)
  deriving Repr, DecidableEq

/-- What the session's `get` yields. -/
abbrev Get := Selector → Except String (List Reply)

def rawEvent (metadata : EventMeta) (keyExpr : String) (payload : Bytes) :
    RawEvent where
  id := metadata.eventId
  seq := metadata.seq
  publisherId := metadata.pubId
  keyExpr := keyExpr
  payload := payload
  timestamp := metadata.timestamp

/-- The event a reply carries, if it can be read. -/
def Reply.event? : Reply → Option RawEvent
  | .sample (some metadata) keyExpr payload =>
    some (rawEvent metadata keyExpr payload)
  | .sample none _ _ => none
  | .failure _ => none

namespace RawEvent

def cursorKey (raw : RawEvent) : CursorKey :=
  (raw.publisherId, extractPartition raw.keyExpr)

def position (raw : RawEvent) : Nat :=
  raw.seq.val

end RawEvent

/-- The reader's state. -/
structure CatchUpReader where
  storeKeyPrefix : String
  cursors : Cursors CursorKey
  batchSize : Nat
  config : OffloadConfig
  /-- Partitions to ask when nothing is tracked yet. -/
  partitions : List U32

/-- What one query of a batch asks for. -/
structure CatchUpQuery where
  partition : U32
  publisher : Option PublisherId
  afterSeq : Nat
  deriving Repr, DecidableEq

namespace CatchUpReader

section Batch

variable (display : PublisherId → String) (get : Get)

/-- The selector of one query; `display` renders a publisher identifier. -/
def selector (reader : CatchUpReader) (query : CatchUpQuery) : Selector where
  storeKeyPrefix := reader.storeKeyPrefix
  partition := query.partition
  parameters :=
    match query.publisher with
    | some publisher =>
      "publisher_id=" ++ display publisher ++ "&after_seq=" ++
        toString query.afterSeq ++ "&limit=" ++ toString reader.batchSize
    | none =>
      "after_seq=" ++ toString query.afterSeq ++ "&limit=" ++
        toString reader.batchSize

def received (reader : CatchUpReader) (query : CatchUpQuery) :
    List RawEvent :=
  match get (reader.selector display query) with
  | .ok replies => replies.filterMap Reply.event?
  | .error _ => []

/--
Issue one query: every reply above the cursor of its own publisher and
partition is kept and moves that cursor.
-/
def queryPartition
    (progress : CatchUpReader × List RawEvent)
    (query : CatchUpQuery) : CatchUpReader × List RawEvent :=
  let (cursors, events) :=
    letThrough RawEvent.cursorKey RawEvent.position
      (progress.1.cursors, progress.2)
      (progress.1.received display get query)
  ({ progress.1 with cursors := cursors }, events)

/--
The queries of one batch.  `snapshot` lists the cursor map in the order it is
iterated; without cursors every explicit partition is asked from its start.
-/
def queries
    (reader : CatchUpReader)
    (snapshot : List (CursorKey × Nat)) : List CatchUpQuery :=
  match snapshot with
  | [] => reader.partitions.map fun partition => ⟨partition, none, 0⟩
  | _ => snapshot.map fun entry => ⟨entry.1.2, some entry.1.1, entry.2⟩

/-- The next batch, ordered by sequence, and the reader with moved cursors. -/
def nextBatch
    (reader : CatchUpReader)
    (snapshot : List (CursorKey × Nat)) : CatchUpReader × List RawEvent :=
  let (advanced, events) :=
    (reader.queries snapshot).foldl (queryPartition display get) (reader, [])
  (advanced,
    events.insertionSort fun first second => first.position ≤ second.position)

/-- Adaptive batch sizing: double when fast, halve when slow. -/
def adjustBatchSize (reader : CatchUpReader) (batchDuration : Nat) :
    CatchUpReader :=
  if batchDuration < reader.config.targetBatchDuration / 2 then
    { reader with
      batchSize := min (reader.batchSize * 2) reader.config.maxBatchSize }
  else if batchDuration > reader.config.targetBatchDuration * 2 then
    { reader with
      batchSize := max (reader.batchSize / 2) reader.config.minBatchSize }
  else
    reader

variable {display get}

@[simp]
theorem cursors_adjustBatchSize
    (reader : CatchUpReader)
    (batchDuration : Nat) :
    (reader.adjustBatchSize batchDuration).cursors = reader.cursors := by
  unfold adjustBatchSize
  split_ifs <;> rfl

/-- Issuing queries one after the other filters all their replies in turn. -/
theorem foldl_queryPartition
    (reader : CatchUpReader)
    (events : List RawEvent)
    (queries : List CatchUpQuery) :
    queries.foldl (queryPartition display get) (reader, events) =
      let filtered :=
        letThrough RawEvent.cursorKey RawEvent.position (reader.cursors, events)
          (queries.flatMap (reader.received display get))
      ({ reader with cursors := filtered.1 }, filtered.2) := by
  induction queries generalizing reader events with
  | nil =>
    rfl
  | cons query rest inductionHypothesis =>
    rw [List.foldl_cons, List.flatMap_cons]
    simp only [queryPartition, inductionHypothesis]
    simp only [letThrough, List.foldl_append]
    rfl

/-- The unsorted events of a batch, with the cursors they lead to. -/
def filteredReplies
    (display : PublisherId → String)
    (get : Get)
    (reader : CatchUpReader)
    (snapshot : List (CursorKey × Nat)) :
    Cursors CursorKey × List RawEvent :=
  letThrough RawEvent.cursorKey RawEvent.position (reader.cursors, [])
    ((reader.queries snapshot).flatMap (reader.received display get))

theorem nextBatch_eq
    (reader : CatchUpReader)
    (snapshot : List (CursorKey × Nat)) :
    reader.nextBatch display get snapshot =
      let filtered := reader.filteredReplies display get snapshot
      ({ reader with cursors := filtered.1 },
        filtered.2.insertionSort
          fun first second => first.position ≤ second.position) := by
  simp only [nextBatch, foldl_queryPartition, filteredReplies]

theorem mem_nextBatch
    {reader : CatchUpReader}
    {snapshot : List (CursorKey × Nat)}
    {raw : RawEvent} :
    raw ∈ (reader.nextBatch display get snapshot).2 ↔
      raw ∈ (reader.filteredReplies display get snapshot).2 := by
  rw [nextBatch_eq]
  exact (List.perm_insertionSort _ _).mem_iff

/--
A batch ascends from the reader's cursors and leads to its new cursors,
whatever was replied.
-/
theorem nextBatch_spec
    (reader : CatchUpReader)
    (snapshot : List (CursorKey × Nat)) :
    Ascends RawEvent.cursorKey RawEvent.position reader.cursors
        (reader.nextBatch display get snapshot).2 ∧
      (reader.nextBatch display get snapshot).1.cursors =
        advanceAll RawEvent.cursorKey RawEvent.position reader.cursors
          (reader.nextBatch display get snapshot).2 := by
  obtain ⟨admitted, shape, ascends⟩ :=
    @letThrough_spec _ _ _ RawEvent.cursorKey RawEvent.position
      reader.cursors []
      ((reader.queries snapshot).flatMap (reader.received display get))
  rw [List.nil_append] at shape
  rw [nextBatch_eq]
  simp only [filteredReplies, shape]
  have sorted :=
    List.perm_insertionSort
      (fun first second : RawEvent => first.position ≤ second.position)
      admitted
  refine ⟨ascends.perm sorted ?_, (advanceAll_perm _ sorted).symm⟩
  exact List.pairwise_insertionSort _ admitted

end Batch

end CatchUpReader

end Mitiflow
