import Mitiflow.CatchUpProgress
import Mitiflow.OffsetStore
import Mitiflow.ReplayPaging

namespace Mitiflow

open Library List

/-!
# Polling the stores over the network

A keyed consumer, and a replayer without a local backend, send one query to
the stores of all partitions, or of one, and merge the replies.  Both ask for
the events above a single clock value, with a limit that every store applies
to its own reply.

What the session returns for a query is a parameter here.
-/

/-- A query `{base}?{parameters}`. -/
structure QuerySelector where
  base : String
  parameters : String
  deriving Repr, DecidableEq

/-- What the session's `get` yields. -/
abbrev QueryGet := QuerySelector → Except String (List Reply)

/-- The clock value of an attachment, or one made from its timestamp. -/
def EventMeta.hlc (metadata : EventMeta) : HlcTimestamp :=
  match metadata.hlcPhysicalNs, metadata.hlcLogical with
  | some physicalNs, some logical => ⟨physicalNs, logical⟩
  | _, _ => ⟨unixNanos metadata.timestamp, 0⟩

/-- The stored event a reply carries, if it can be read. -/
def Reply.stored? : Reply → Option StoredEvent
  | .sample (some metadata) keyExpr payload =>
    some
      { key := keyExpr
        payload := payload
        metadata :=
          { seq := metadata.seq
            publisherId := metadata.pubId
            eventId := metadata.eventId
            timestamp := metadata.timestamp
            keyExpr := keyExpr
            key := extractKey keyExpr
            hlcTimestamp := some metadata.hlc } }
  | .sample none _ _ => none
  | .failure _ => none

/-! ## The keyed consumer -/

namespace KeyFilter

/-- The filter as a selector parameter. -/
def toSelectorParam : KeyFilter → String
  | .exactKey key => "key=" ++ key
  | .keyPrefix leading => "key_prefix=" ++ leading

/-- The events the filter selects. -/
def scope : KeyFilter → ReplayScope
  | .exactKey key => .key key
  | .keyPrefix leading => .keyPrefix leading

end KeyFilter

/-- A pull-based consumer of the events of some keys. -/
structure KeyedConsumer where
  keyFilter : KeyFilter
  cursor : HlcTimestamp
  batchSize : Nat
  selectorBase : String
  deriving Repr, DecidableEq

/-- The settings of a keyed consumer under construction. -/
structure KeyedConsumerBuilder where
  keyFilter : Option KeyFilter := none
  partition : Option U32 := none
  batchSize : Nat := 500
  deriving Repr, DecidableEq

namespace KeyedConsumerBuilder

def withKeyPrefix (builder : KeyedConsumerBuilder) (leading : String) :
    KeyedConsumerBuilder :=
  { builder with keyFilter := some (.keyPrefix leading) }

def withPartition (builder : KeyedConsumerBuilder) (partition : U32) :
    KeyedConsumerBuilder :=
  { builder with partition := some partition }

/-- Build the consumer, which needs a key filter. -/
def build
    (builder : KeyedConsumerBuilder)
    (storeKeyPrefix : String) : Except Error KeyedConsumer :=
  match builder.keyFilter with
  | none =>
    .error
      (.invalidConfig "KeyedConsumer requires key() or key_prefix()")
  | some keyFilter =>
    .ok
      { keyFilter := keyFilter
        cursor := ⟨0, 0⟩
        batchSize := builder.batchSize
        selectorBase :=
          match builder.partition with
          | some partition =>
            storeKeyPrefix ++ "/" ++ toString partition.val
          | none => storeKeyPrefix ++ "/*" }

end KeyedConsumerBuilder

namespace KeyedConsumer

def parameters (consumer : KeyedConsumer) : String :=
  consumer.keyFilter.toSelectorParam ++ "&after_hlc=" ++
    toString consumer.cursor.physicalNs.val ++ ":" ++
    toString consumer.cursor.logical.val ++ "&limit=" ++
    toString consumer.batchSize

/-- The order of a batch: by clock value, then by sequence. -/
def sortKey (event : StoredEvent) : HlcTimestamp ×ₗ U64 :=
  toLex (hlcOf event, event.metadata.seq)

def poll
    (get : QueryGet)
    (consumer : KeyedConsumer) :
    KeyedConsumer × Except Error (List StoredEvent) :=
  match get ⟨consumer.selectorBase, consumer.parameters⟩ with
  | .error message => (consumer, .error (.zenoh message))
  | .ok replies =>
    let events :=
      (replies.filterMap Reply.stored?).insertionSort
        fun first second => sortKey first ≤ sortKey second
    ({ consumer with
        cursor :=
          (events.getLast?.bind (·.metadata.hlcTimestamp)).getD
            consumer.cursor },
      .ok events)

def seek (consumer : KeyedConsumer) (hlc : HlcTimestamp) : KeyedConsumer :=
  { consumer with cursor := hlc }

end KeyedConsumer

/-! ## The replayer without a local backend -/

namespace ReplayScope

/-- The stores that a scope is asked of. -/
def selectorBase (storeKeyPrefix : String) : ReplayScope → String
  | .partition number => storeKeyPrefix ++ "/" ++ toString number.val
  | .all | .key _ | .keyPrefix _ | .publisher _ => storeKeyPrefix ++ "/*"

/-- The parameter of a scope; `display` renders a publisher identifier. -/
def parameter (display : PublisherId → String) : ReplayScope → String
  | .key exactKey => "&key=" ++ exactKey
  | .keyPrefix leading => "&key_prefix=" ++ leading
  | .publisher wanted => "&publisher_id=" ++ display wanted
  | .all | .partition _ => ""

end ReplayScope

namespace EventReplayer

/-- The upper clock bound, if there is one. -/
def beforeParameter : Option HlcTimestamp → String
  | some before =>
    "&before_hlc=" ++ toString before.physicalNs.val ++ ":" ++
      toString before.logical.val
  | none => ""

def parameters
    (display : PublisherId → String)
    (replayer : EventReplayer)
    (limit : Nat)
    (beforeHlc : Option HlcTimestamp) : String :=
  "after_hlc=" ++ toString replayer.cursor.physicalNs.val ++ ":" ++
    toString replayer.cursor.logical.val ++ "&limit=" ++ toString limit ++
    replayer.scope.parameter display ++ beforeParameter beforeHlc

end EventReplayer

/-! ## The selectors, read back -/

/-- The part of a selector that a key filter writes. -/
def KeyFilter.part : KeyFilter → Parameter × List Char
  | .exactKey key => (.key, key.toList)
  | .keyPrefix leading => (.keyPrefix, leading.toList)

end Mitiflow
