import Mitiflow.Library.BigEndian
import Mitiflow.Library.OrderedMap
import Mitiflow.StoreSequenceState
import Mitiflow.Types

namespace Mitiflow

open Library List Function

/-!
# The storage backend

The backend of one partition keeps events in an ordered keyspace, a replay
index ordered by clock value, two further keyspaces that it only writes, and
an in-memory tracking state per publisher.  `store` and `store_batch` are
split where the source splits them: everything before the batch commit, which
already updates the tracking states, and the commit itself, which may fail.

Keyspace keys are compared in the source as big-endian bytes; here they are
records ordered lexicographically, which is the same order.
-/

/-- Primary key of an event: publisher first, then sequence. -/
@[ext]
structure EventKey where
  publisherId : PublisherId
  seq : U64
  deriving Repr, DecidableEq

namespace EventKey

def sortKey (key : EventKey) : PublisherId ×ₗ U64 :=
  toLex (key.publisherId, key.seq)

theorem sortKey_injective : Function.Injective sortKey := by
  rintro ⟨publisher, seq⟩ ⟨publisher', seq'⟩ same
  simpa [sortKey] using same

instance : LinearOrder EventKey :=
  LinearOrder.lift' sortKey sortKey_injective

theorem seq_lt_of_lt
    {first second : EventKey}
    (ordered : first < second)
    (samePublisher : first.publisherId = second.publisherId) :
    first.seq < second.seq := by
  have lexOrdered : first.sortKey < second.sortKey := ordered
  rw [sortKey, sortKey, Prod.Lex.toLex_lt_toLex] at lexOrdered
  rcases lexOrdered with publisherBelow | ⟨_, seqBelow⟩
  · exact absurd samePublisher (ne_of_lt publisherBelow)
  · exact seqBelow

end EventKey

/-- Replay index key: clock value, then publisher, then sequence. -/
structure ReplayKey where
  hlc : HlcTimestamp
  publisherId : PublisherId
  seq : U64
  deriving Repr, DecidableEq

namespace ReplayKey

def sortKey (key : ReplayKey) : HlcTimestamp ×ₗ PublisherId ×ₗ U64 :=
  toLex (key.hlc, toLex (key.publisherId, key.seq))

theorem sortKey_injective : Function.Injective sortKey := by
  rintro ⟨hlc, publisher, seq⟩ ⟨hlc', publisher', seq'⟩ same
  simpa [sortKey] using same

instance : LinearOrder ReplayKey :=
  LinearOrder.lift' sortKey sortKey_injective

end ReplayKey

def EventMetadata.eventKey (metadata : EventMetadata) : EventKey where
  publisherId := metadata.publisherId
  seq := metadata.seq

/-- Event key encoding: 16 bytes of publisher and 8 bytes of sequence. -/
def encodeEventKey (key : EventKey) : Bytes :=
  bigEndian 16 key.publisherId.val ++ bigEndian 8 key.seq.val

/-- The keyspaces of one partition that event storage uses. -/
structure Database where
  events : OrderedMap EventKey (EventMetadata × Bytes) := .empty
  /-- Committed sequence per publisher, written and never read back. -/
  metadata : PublisherId → Option Nat := fun _ => none
  /-- Key expression to event key, written and never read back. -/
  keys : Bytes → Option EventKey := fun _ => none
  replay : OrderedMap ReplayKey EventKey := .empty

/-- One entry of an atomic write batch. -/
inductive WriteOp where
  | insertEvent (key : EventKey) (metadata : EventMetadata) (payload : Bytes)
  | insertKey (key : Bytes) (target : EventKey)
  | insertReplay (key : ReplayKey) (target : EventKey)
  | insertCommitted (publisher : PublisherId) (committed : Nat)
  | removeEvent (key : EventKey)
  | removeKey (key : Bytes)
  | removeReplay (key : ReplayKey)
  deriving Repr, DecidableEq

namespace Database

def apply (db : Database) : WriteOp → Database
  | .insertEvent key metadata payload =>
    { db with events := db.events.insert key (metadata, payload) }
  | .insertKey key target =>
    { db with keys := update db.keys key (some target) }
  | .insertReplay key target =>
    { db with replay := db.replay.insert key target }
  | .insertCommitted publisher committed =>
    { db with
      metadata := update db.metadata publisher (some committed) }
  | .removeEvent key =>
    { db with events := db.events.erase key }
  | .removeKey key =>
    { db with keys := update db.keys key none }
  | .removeReplay key =>
    { db with replay := db.replay.erase key }

def commit (db : Database) (batch : List WriteOp) : Database :=
  batch.foldl apply db

def holds (db : Database) (key : EventKey) : Bool :=
  (db.events.get? key).isSome

end Database

/-- Tracking states by publisher; absent publishers have no entry. -/
abbrev PublisherStates := PublisherId → Option PublisherSeqState

/-- The backend of one partition. -/
structure FjallBackend where
  db : Database
  partition : U32
  publisherStates : PublisherStates

/-- The writes of one event, before the committed sequence is added. -/
def eventWrites (event : StoredEvent) : List WriteOp :=
  let eventKey := event.metadata.eventKey
  [.insertEvent eventKey event.metadata event.payload,
    .insertKey event.key.toUTF8.toList eventKey] ++
  match event.metadata.hlcTimestamp with
  | some hlc =>
    [.insertReplay ⟨hlc, eventKey.publisherId, eventKey.seq⟩ eventKey]
  | none => []

/--
Update the tracking state of one publisher with the sequences it stores,
advancing its committed sequence once, after all of them.
-/
def trackSeqs
    (states : PublisherStates)
    (publisher : PublisherId)
    (seqs : List Nat) : PublisherSeqState :=
  (seqs.foldl PublisherSeqState.recordSeq
    ((states publisher).getD {})).advanceCommitted

/-- Sequences of one publisher among some events, in order. -/
def seqsOf (publisher : PublisherId) (events : List StoredEvent) : List Nat :=
  (events.filter (·.metadata.publisherId = publisher)).map
    (·.metadata.seq.val)

/-- Publishers among some events, each listed once. -/
def publishersOf (events : List StoredEvent) : List PublisherId :=
  (events.map (·.metadata.publisherId)).dedup

namespace FjallBackend

/-- The part of `store` before its commit: updated states and write batch. -/
def beginStore
    (backend : FjallBackend)
    (event : StoredEvent) : FjallBackend × List WriteOp :=
  let publisher := event.metadata.publisherId
  let tracked :=
    trackSeqs backend.publisherStates publisher [event.metadata.seq.val]
  ({ backend with
      publisherStates :=
        update backend.publisherStates publisher (some tracked) },
    eventWrites event ++ [.insertCommitted publisher tracked.committedSeq])

/-- Update the state of one publisher of a batch. -/
def trackPublisher
    (events : List StoredEvent)
    (progress : FjallBackend × List WriteOp)
    (publisher : PublisherId) : FjallBackend × List WriteOp :=
  let tracked :=
    trackSeqs progress.1.publisherStates publisher (seqsOf publisher events)
  ({ progress.1 with
      publisherStates :=
        update progress.1.publisherStates publisher (some tracked) },
    progress.2 ++ [.insertCommitted publisher tracked.committedSeq])

/-- The part of `store_batch` before its commit. -/
def beginStoreBatch
    (backend : FjallBackend)
    (events : List StoredEvent) : FjallBackend × List WriteOp :=
  (publishersOf events).foldl (trackPublisher events)
    (backend, events.flatMap eventWrites)

/-- Commit a write batch; `outcome` is the storage engine's answer. -/
def commitBatch
    (backend : FjallBackend)
    (batch : List WriteOp)
    (outcome : Except String Unit)
    (failure : String) : FjallBackend × Except Error Unit :=
  match outcome with
  | .ok () =>
    ({ backend with db := backend.db.commit batch }, .ok ())
  | .error reason =>
    (backend, .error (.storeError (failure ++ reason)))

def store
    (backend : FjallBackend)
    (event : StoredEvent)
    (outcome : Except String Unit) : FjallBackend × Except Error Unit :=
  let (tracked, batch) := backend.beginStore event
  tracked.commitBatch batch outcome "batch commit failed: "

def storeBatch
    (backend : FjallBackend)
    (events : List StoredEvent)
    (outcome : Except String Unit) : FjallBackend × Except Error Unit :=
  match events with
  | [] => (backend, .ok ())
  | _ =>
    let (tracked, batch) := backend.beginStoreBatch events
    tracked.commitBatch batch outcome "batch commit failed: "

/-- Durability progress of every known publisher. -/
def publisherWatermarks
    (backend : FjallBackend)
    (publisher : PublisherId) : Option PublisherWatermark :=
  (backend.publisherStates publisher).map PublisherSeqState.watermark

end FjallBackend

/-- The watermark the store broadcasts for its partition. -/
structure CommitWatermark where
  partition : U32
  publishers : PublisherId → Option PublisherWatermark

/-- Check one publisher's sequence; unknown publishers are not durable. -/
def CommitWatermark.isDurable
    (watermark : CommitWatermark)
    (publisher : PublisherId)
    (seq : Nat) : Bool :=
  match watermark.publishers publisher with
  | some progress => progress.isDurable seq
  | none => false

/-- The watermark broadcast in the current state of a backend. -/
def FjallBackend.commitWatermark (backend : FjallBackend) :
    CommitWatermark where
  partition := backend.partition
  publishers := backend.publisherWatermarks

/-- What `open` asks of the storage engine, in order. -/
inductive OpenStep where
  | database
  | events
  | metadata
  | keys
  | replay
  | offsets
  deriving Repr, DecidableEq

/-- The message an unsuccessful step is reported with. -/
def OpenStep.failure : OpenStep → String
  | .database => "failed to open fjall database: "
  | .events => "failed to open events keyspace: "
  | .metadata => "failed to open metadata keyspace: "
  | .keys => "failed to open keys keyspace: "
  | .replay => "failed to open replay keyspace: "
  | .offsets => "failed to open offsets keyspace: "

/-- One step of `open`, failing with its own message. -/
def OpenStep.run
    (outcome : OpenStep → Except String Unit)
    (step : OpenStep) : Except Error Unit :=
  match outcome step with
  | .ok () => .ok ()
  | .error reason => .error (.storeError (step.failure ++ reason))

def scanEntry (states : PublisherStates) (key : EventKey) : PublisherStates :=
  update states key.publisherId
    (some (((states key.publisherId).getD {}).scanSeq key.seq.val))

/-- Tracking states rebuilt from the events keyspace. -/
def rebuildStates (db : Database) : PublisherStates :=
  let scanned :=
    (db.events.entries.map Prod.fst).foldl scanEntry (fun _ => none)
  fun publisher =>
    (scanned publisher).map PublisherSeqState.rebuildCommitted

namespace FjallBackend

/-- The backend obtained once every keyspace is open. -/
def rebuild (db : Database) (partition : U32) : FjallBackend where
  db := db
  partition := partition
  publisherStates := rebuildStates db

/-- Open a database; an empty one gives a freshly created backend. -/
def openDatabase
    (db : Database)
    (partition : U32)
    (outcome : OpenStep → Except String Unit) :
    Except Error FjallBackend := do
  OpenStep.run outcome .database
  OpenStep.run outcome .events
  OpenStep.run outcome .metadata
  OpenStep.run outcome .keys
  OpenStep.run outcome .replay
  OpenStep.run outcome .offsets
  return rebuild db partition

end FjallBackend

/-! ## Effect of a write batch on the keyspaces -/

namespace Database

@[simp]
theorem commit_nil (db : Database) : db.commit [] = db :=
  rfl

@[simp]
theorem commit_append (db : Database) (first second : List WriteOp) :
    db.commit (first ++ second) = (db.commit first).commit second := by
  simp [commit]

/-- Every stored value and replay entry agrees with the key it is under. -/
structure WellFormed (db : Database) : Prop where
  events :
    ∀ entry ∈ db.events.entries, entry.2.1.eventKey = entry.1
  replay :
    ∀ entry ∈ db.replay.entries,
      entry.2 = ⟨entry.1.publisherId, entry.1.seq⟩

end Database

/-- A write that respects the agreement of keys and values. -/
def WriteOp.WellFormed : WriteOp → Prop
  | .insertEvent key metadata _ => metadata.eventKey = key
  | .insertReplay key target => target = ⟨key.publisherId, key.seq⟩
  | _ => True

namespace Database

theorem wellFormed_empty : WellFormed {} where
  events := by
    intro entry member
    cases member
  replay := by
    intro entry member
    cases member

theorem WellFormed.apply
    {db : Database}
    (wellFormed : WellFormed db)
    {op : WriteOp}
    (opWellFormed : op.WellFormed) :
    WellFormed (db.apply op) := by
  cases op with
  | insertEvent key metadata payload =>
    refine ⟨?_, wellFormed.replay⟩
    intro entry member
    rcases OrderedMap.mem_of_mem_insertEntry member with isNew | isOld
    · rw [isNew]
      exact opWellFormed
    · exact wellFormed.events entry isOld
  | insertReplay key target =>
    refine ⟨wellFormed.events, ?_⟩
    intro entry member
    rcases OrderedMap.mem_of_mem_insertEntry member with isNew | isOld
    · rw [isNew]
      exact opWellFormed
    · exact wellFormed.replay entry isOld
  | removeEvent key =>
    refine ⟨?_, wellFormed.replay⟩
    intro entry member
    exact wellFormed.events entry (mem_filter.mp member).1
  | removeReplay key =>
    refine ⟨wellFormed.events, ?_⟩
    intro entry member
    exact wellFormed.replay entry (mem_filter.mp member).1
  | insertKey key target =>
    exact ⟨wellFormed.events, wellFormed.replay⟩
  | insertCommitted publisher committed =>
    exact ⟨wellFormed.events, wellFormed.replay⟩
  | removeKey key =>
    exact ⟨wellFormed.events, wellFormed.replay⟩

theorem WellFormed.commit
    {db : Database}
    (wellFormed : WellFormed db)
    {batch : List WriteOp}
    (batchWellFormed : ∀ op ∈ batch, op.WellFormed) :
    WellFormed (db.commit batch) :=
  List.foldlRecOn batch Database.apply wellFormed
    (fun _ before op member => before.apply (batchWellFormed op member))

theorem holds_apply (db : Database) (op : WriteOp) (key : EventKey) :
    (db.apply op).holds key = true ↔
      match op with
      | .insertEvent inserted _ _ => key = inserted ∨ db.holds key = true
      | .removeEvent removed => key ≠ removed ∧ db.holds key = true
      | _ => db.holds key = true := by
  cases op with
  | insertEvent inserted metadata payload =>
    by_cases same : key = inserted
    · simp [holds, apply, OrderedMap.get?_insert, same]
    · simp [holds, apply, OrderedMap.get?_insert, same]
  | removeEvent removed =>
    by_cases same : key = removed
    · simp [holds, apply, OrderedMap.get?_erase, same]
    · simp [holds, apply, OrderedMap.get?_erase, same]
  | _ =>
    rfl

theorem holds_iff_mem (db : Database) (key : EventKey) :
    db.holds key = true ↔
      ∃ value, (key, value) ∈ db.events.entries := by
  rw [holds, Option.isSome_iff_exists]
  simp only [OrderedMap.get?_eq_some]

end Database

theorem eventWrites_wellFormed
    (event : StoredEvent)
    {op : WriteOp}
    (member : op ∈ eventWrites event) :
    op.WellFormed := by
  unfold eventWrites at member
  cases hlc : event.metadata.hlcTimestamp with
  | none =>
    grind [WriteOp.WellFormed]
  | some value =>
    grind [WriteOp.WellFormed]

namespace Database

/-- The writes of one event make exactly that event present. -/
theorem holds_commit_eventWrites
    (db : Database)
    (event : StoredEvent)
    (key : EventKey) :
    (db.commit (eventWrites event)).holds key = true ↔
      key = event.metadata.eventKey ∨ db.holds key = true := by
  unfold eventWrites
  cases event.metadata.hlcTimestamp with
  | none =>
    simp [commit, holds_apply]
  | some hlc =>
    simp [commit, holds_apply]

theorem holds_commit_flatMap
    (db : Database)
    (events : List StoredEvent)
    (key : EventKey) :
    (db.commit (events.flatMap eventWrites)).holds key = true ↔
      (∃ event ∈ events, event.metadata.eventKey = key) ∨
        db.holds key = true := by
  induction events generalizing db with
  | nil =>
    simp
  | cons event rest inductionHypothesis =>
    grind [commit_append, holds_commit_eventWrites]

theorem commit_onlyCommitted
    (db : Database)
    {batch : List WriteOp}
    (onlyCommitted :
      ∀ op ∈ batch, ∃ publisher committed,
        op = .insertCommitted publisher committed) :
    (db.commit batch).events = db.events ∧
      (db.commit batch).replay = db.replay := by
  induction batch generalizing db with
  | nil =>
    exact ⟨rfl, rfl⟩
  | cons op rest inductionHypothesis =>
    obtain ⟨publisher, committed, isCommitted⟩ := onlyCommitted op (by simp)
    subst isCommitted
    exact inductionHypothesis _
      (fun later member => onlyCommitted later (by simp [member]))

end Database

/-! ## Effect of a store on the tracking states -/

theorem mem_seqsOf
    {publisher : PublisherId}
    {events : List StoredEvent}
    {seq : Nat} :
    seq ∈ seqsOf publisher events ↔
      ∃ event ∈ events,
        event.metadata.publisherId = publisher ∧
          event.metadata.seq.val = seq := by
  simp [seqsOf, and_assoc]

theorem mem_publishersOf
    {publisher : PublisherId}
    {events : List StoredEvent} :
    publisher ∈ publishersOf events ↔ seqsOf publisher events ≠ [] := by
  simp [publishersOf, seqsOf, filter_eq_nil_iff]

namespace FjallBackend

/-- Folding over distinct publishers updates each of them once. -/
theorem publisherStates_foldl_trackPublisher
    (events : List StoredEvent)
    {publishers : List PublisherId}
    (distinct : publishers.Nodup)
    (progress : FjallBackend × List WriteOp)
    (publisher : PublisherId) :
    (publishers.foldl (trackPublisher events) progress).1.publisherStates
        publisher =
      if publisher ∈ publishers then
        some (trackSeqs progress.1.publisherStates publisher
          (seqsOf publisher events))
      else
        progress.1.publisherStates publisher := by
  induction publishers generalizing progress with
  | nil =>
    simp
  | cons first rest inductionHypothesis =>
    obtain ⟨firstFresh, restDistinct⟩ := nodup_cons.mp distinct
    rw [foldl_cons, inductionHypothesis restDistinct]
    by_cases isFirst : publisher = first
    · subst isFirst
      simp [firstFresh, trackPublisher]
    · simp [isFirst, trackPublisher, trackSeqs]

/-- The fold only appends committed sequences and keeps the database. -/
theorem foldl_trackPublisher
    (events : List StoredEvent)
    (publishers : List PublisherId)
    (progress : FjallBackend × List WriteOp) :
    let final := publishers.foldl (trackPublisher events) progress
    final.1.db = progress.1.db ∧
      final.1.partition = progress.1.partition ∧
      ∃ committedWrites,
        final.2 = progress.2 ++ committedWrites ∧
          ∀ op ∈ committedWrites, ∃ publisher committed,
            op = .insertCommitted publisher committed := by
  induction publishers generalizing progress with
  | nil =>
    exact ⟨rfl, rfl, [], by simp⟩
  | cons first rest inductionHypothesis =>
    obtain ⟨sameDb, samePartition, later, batchShape, onlyCommitted⟩ :=
      inductionHypothesis (trackPublisher events progress first)
    refine ⟨sameDb, samePartition, _ :: later,
      batchShape.trans (append_assoc _ [_] later), ?_⟩
    intro op member
    rcases mem_cons.mp member with isFirst | inLater
    · exact ⟨_, _, isFirst⟩
    · exact onlyCommitted op inLater

section

variable (backend : FjallBackend)

/-- Storing one event prepares the same batch as a batch of one. -/
theorem beginStoreBatch_singleton
    (event : StoredEvent) :
    backend.beginStoreBatch [event] = backend.beginStore event := by
  simp [beginStoreBatch, beginStore, publishersOf, trackPublisher, seqsOf]

section

variable (events : List StoredEvent)

include events

/-- Tracking states after the part of `store_batch` before its commit. -/
theorem publisherStates_beginStoreBatch
    (publisher : PublisherId) :
    (backend.beginStoreBatch events).1.publisherStates publisher =
      if seqsOf publisher events = [] then
        backend.publisherStates publisher
      else
        some (trackSeqs backend.publisherStates publisher
          (seqsOf publisher events)) := by
  have distinct : (publishersOf events).Nodup := nodup_dedup _
  rw [beginStoreBatch, publisherStates_foldl_trackPublisher events distinct]
  by_cases silent : seqsOf publisher events = []
  · simp [mem_publishersOf, silent]
  · simp [mem_publishersOf, silent]

@[simp]
theorem db_beginStoreBatch :
    (backend.beginStoreBatch events).1.db = backend.db :=
  (foldl_trackPublisher events _ _).1

@[simp]
theorem partition_beginStoreBatch :
    (backend.beginStoreBatch events).1.partition = backend.partition :=
  (foldl_trackPublisher events _ _).2.1

/-- The prepared batch is the events' writes and then committed sequences. -/
theorem batch_beginStoreBatch :
    ∃ committedWrites,
      (backend.beginStoreBatch events).2 =
          events.flatMap eventWrites ++ committedWrites ∧
        ∀ op ∈ committedWrites, ∃ publisher committed,
          op = .insertCommitted publisher committed :=
  (foldl_trackPublisher events _ _).2.2

/-- Committing a prepared batch makes exactly its events present. -/
theorem holds_commit_beginStoreBatch
    (db : Database)
    (key : EventKey) :
    (db.commit (backend.beginStoreBatch events).2).holds key = true ↔
      (∃ event ∈ events, event.metadata.eventKey = key) ∨
        db.holds key = true := by
  obtain ⟨committedWrites, batchShape, onlyCommitted⟩ :=
    backend.batch_beginStoreBatch events
  rw [batchShape, Database.commit_append, ← db.holds_commit_flatMap]
  simp only [Database.holds, (Database.commit_onlyCommitted _ onlyCommitted).1]

theorem beginStoreBatch_wellFormed
    {op : WriteOp}
    (member : op ∈ (backend.beginStoreBatch events).2) :
    op.WellFormed := by
  obtain ⟨committedWrites, batchShape, onlyCommitted⟩ :=
    backend.batch_beginStoreBatch events
  rw [batchShape, mem_append] at member
  rcases member with inEvents | inCommitted
  · obtain ⟨event, _, written⟩ := mem_flatMap.mp inEvents
    exact eventWrites_wellFormed event written
  · obtain ⟨publisher, committed, isCommitted⟩ := onlyCommitted op inCommitted
    subst isCommitted
    trivial

end

end

end FjallBackend

end Mitiflow
