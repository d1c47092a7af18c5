import Mitiflow.Attachment
import Mitiflow.StoreWatermark

namespace Mitiflow

open Library

/-!
# The event publisher

A publisher numbers its events per partition.  Every publish call routes to a
partition, allocates the next sequence there, encodes the payload, caches the
sample and puts it on the transport; durable calls then wait for a watermark.
The codec's answer, the transport's answer and the watermarks that arrive
while a call waits are inputs of the call.

The eleven publish operations differ in routing, in whether they encode and
in whether they wait.  They are members of one definition, `publishVia`.
-/

/-- The configuration the publish path reads. -/
structure PublisherConfig where
  keyPrefix : String
  numPartitions : U32
  cacheSize : Nat
  /-- Requested latency of durability confirmation, in milliseconds. -/
  durableUrgency : Nat
  deriving Repr, DecidableEq

/-- A sample kept for recovery queries. -/
structure CachedSample where
  seq : U64
  keyExpr : String
  payload : Bytes
  attachment : EventMeta
  deriving Repr, DecidableEq

/-- Acknowledgement of a successful publish. -/
structure PublishReceipt where
  eventId : EventId
  seq : U64
  publisherId : PublisherId
  partition : U32
  timestamp : DateTime
  deriving Repr, DecidableEq

/-- The state of a publisher; defaults are those of a new one. -/
structure EventPublisher where
  publisherId : PublisherId
  config : PublisherConfig
  cache : List CachedSample := []
  partitionSeqs : U32 → Option U64 := fun _ => none
  roundRobin : U64 := 0

/-- A sample accepted by the transport. -/
structure Put where
  partition : U32
  keyExpr : String
  payload : Bytes
  attachment : EventMeta
  deriving Repr, DecidableEq

/-- What a waiting durable publish can receive from the watermark channel. -/
inductive WatermarkSignal where
  | watermark (watermark : CommitWatermark)
  | lagged
  | closed

/-- How a call chooses its partition and key expression. -/
inductive Route where
  | roundRobin
  | explicit (keyExpr : String)
  | keyed (key : String)
  deriving Repr, DecidableEq

/-- An event to publish, with the codec's answer for its payload. -/
structure Outgoing where
  payload : Except Error Bytes
  id : EventId
  timestamp : DateTime

/-- Raw bytes skip the codec; their identity and time are drawn by the call. -/
def Outgoing.rawBytes (bytes : Bytes) (id : EventId) (timestamp : DateTime) :
    Outgoing where
  payload := .ok bytes
  id := id
  timestamp := timestamp

/-- The transport's answer to a put and the signals that follow it. -/
structure Transport where
  put : Except String Unit
  signals : List WatermarkSignal := []

/-- The effect of one publish call. -/
structure PublishStep where
  publisher : EventPublisher
  put : Option Put
  result : Except Error PublishReceipt

/-- Partition of a key: its hash modulo the partition count, which panics for
zero partitions. -/
def partitionFor
    (hash : String → U64)
    (key : String)
    (numPartitions : U32) : Option U32 :=
  if numPartitions = 0 then
    none
  else
    some (Fin.ofNat (2 ^ 32) ((hash key).val % numPartitions.val))

/-- The partition the round-robin counter points at. -/
def roundRobinPartition (config : PublisherConfig) (counter : U64) : U32 :=
  Fin.ofNat (2 ^ 32) (counter.val % max config.numPartitions.val 1)

namespace EventPublisher

/-- Urgency of durable publishes, kept below the no-urgency sentinel. -/
def urgencyMs (publisher : EventPublisher) : Nat :=
  min publisher.config.durableUrgency (noUrgency - 1)

def assignPartition (publisher : EventPublisher) : U32 × EventPublisher :=
  (roundRobinPartition publisher.config publisher.roundRobin,
    { publisher with roundRobin := publisher.roundRobin + 1 })

/-- Allocate the next sequence of a partition. -/
def nextSeqFor (publisher : EventPublisher) (partition : U32) :
    U64 × EventPublisher :=
  match publisher.partitionSeqs partition with
  | some seq =>
    (seq,
      { publisher with
        partitionSeqs :=
          Function.update publisher.partitionSeqs partition
            (some (seq + 1)) })
  | none =>
    (0,
      { publisher with
        partitionSeqs :=
          Function.update publisher.partitionSeqs partition (some 1) })

/-- Insert into the bounded cache, evicting the oldest sample if full. -/
def cacheSample (publisher : EventPublisher) (sample : CachedSample) :
    EventPublisher :=
  if publisher.config.cacheSize > 0 then
    let kept :=
      if publisher.cache.length ≥ publisher.config.cacheSize then
        publisher.cache.drop 1
      else
        publisher.cache
    { publisher with cache := kept ++ [sample] }
  else
    publisher

/-- Wait until a watermark covers the sequence, or the signals run out. -/
def waitForWatermark
    (publisher : EventPublisher)
    (partition : U32)
    (seq : U64) : List WatermarkSignal → Except Error Unit
  | [] => .error (.durabilityTimeout seq.val)
  | .watermark watermark :: rest =>
    if watermark.partition = partition ∧
        watermark.isDurable publisher.publisherId seq.val = true then
      .ok ()
    else
      publisher.waitForWatermark partition seq rest
  | .lagged :: rest => publisher.waitForWatermark partition seq rest
  | .closed :: _ => .error .channelClosed

/-- The part of a publish call after its sequence is allocated. -/
def deliver
    (publisher : EventPublisher)
    (partition : U32)
    (seq : U64)
    (keyExpr : String)
    (durable : Bool)
    (outgoing : Outgoing)
    (transport : Transport) : PublishStep :=
  match outgoing.payload with
  | .error failure => ⟨publisher, none, .error failure⟩
  | .ok payload =>
    let attachment : EventMeta :=
      { seq := seq
        pubId := publisher.publisherId
        eventId := outgoing.id
        timestamp := outgoing.timestamp
        urgencyMs := if durable then publisher.urgencyMs else noUrgency
        hlcPhysicalNs := none
        hlcLogical := none }
    let cached := publisher.cacheSample ⟨seq, keyExpr, payload, attachment⟩
    match transport.put with
    | .error reason => ⟨cached, none, .error (.zenoh reason)⟩
    | .ok () =>
      let confirmed :=
        if durable then
          publisher.waitForWatermark partition seq transport.signals
        else
          .ok ()
      ⟨cached, some ⟨partition, keyExpr, payload, attachment⟩,
        confirmed.map fun _ =>
          ⟨outgoing.id, seq, publisher.publisherId, partition,
            outgoing.timestamp⟩⟩

/--
One publish call.  A rejected key leaves the publisher alone; any other call
allocates a sequence first and can still fail after that.
-/
def publishVia
    (hash : String → U64)
    (publisher : EventPublisher)
    (route : Route)
    (durable : Bool)
    (outgoing : Outgoing)
    (transport : Transport) : Option PublishStep :=
  match route with
  | .roundRobin =>
    let (partition, assigned) := publisher.assignPartition
    let (seq, allocated) := assigned.nextSeqFor partition
    some (allocated.deliver partition seq
      (eventKeyExpr publisher.config.keyPrefix partition seq)
      durable outgoing transport)
  | .explicit keyExpr =>
    let partition := extractPartition keyExpr
    let (seq, allocated) := publisher.nextSeqFor partition
    some (allocated.deliver partition seq keyExpr durable outgoing transport)
  | .keyed key =>
    match validateKey key with
    | .error failure => some ⟨publisher, none, .error failure⟩
    | .ok () =>
      match partitionFor hash key publisher.config.numPartitions with
      | none => none
      | some partition =>
        let (seq, allocated) := publisher.nextSeqFor partition
        some (allocated.deliver partition seq
          (keyedEventKeyExpr publisher.config.keyPrefix partition key
            seq)
          durable outgoing transport)

section Operations

variable (hash : String → U64) (publisher : EventPublisher)
  (transport : Transport)

def publish (event : Outgoing) : Option PublishStep :=
  publisher.publishVia hash .roundRobin false event transport

def publishTo (keyExpr : String) (event : Outgoing) : Option PublishStep :=
  publisher.publishVia hash (.explicit keyExpr) false event transport

def publishDurable (event : Outgoing) : Option PublishStep :=
  publisher.publishVia hash .roundRobin true event transport

def publishBytes (bytes : Bytes) (id : EventId) (timestamp : DateTime) :
    Option PublishStep :=
  publisher.publishVia hash .roundRobin false (.rawBytes bytes id timestamp)
    transport

def publishBytesTo
    (keyExpr : String)
    (bytes : Bytes)
    (id : EventId)
    (timestamp : DateTime) : Option PublishStep :=
  publisher.publishVia hash (.explicit keyExpr) false
    (.rawBytes bytes id timestamp) transport

def publishBytesDurable
    (bytes : Bytes)
    (id : EventId)
    (timestamp : DateTime) : Option PublishStep :=
  publisher.publishVia hash .roundRobin true (.rawBytes bytes id timestamp)
    transport

def publishBytesDurableTo
    (keyExpr : String)
    (bytes : Bytes)
    (id : EventId)
    (timestamp : DateTime) : Option PublishStep :=
  publisher.publishVia hash (.explicit keyExpr) true
    (.rawBytes bytes id timestamp) transport

def publishKeyed (key : String) (event : Outgoing) : Option PublishStep :=
  publisher.publishVia hash (.keyed key) false event transport

def publishBytesKeyed
    (key : String)
    (bytes : Bytes)
    (id : EventId)
    (timestamp : DateTime) : Option PublishStep :=
  publisher.publishVia hash (.keyed key) false (.rawBytes bytes id timestamp)
    transport

def publishKeyedDurable (key : String) (event : Outgoing) :
    Option PublishStep :=
  publisher.publishVia hash (.keyed key) true event transport

def publishBytesKeyedDurable
    (key : String)
    (bytes : Bytes)
    (id : EventId)
    (timestamp : DateTime) : Option PublishStep :=
  publisher.publishVia hash (.keyed key) true (.rawBytes bytes id timestamp)
    transport

end Operations

end EventPublisher

/-- One call of a publish operation, with everything it is given. -/
inductive PublishCall where
  | publish (event : Outgoing) (transport : Transport)
  | publishTo (keyExpr : String) (event : Outgoing) (transport : Transport)
  | publishDurable (event : Outgoing) (transport : Transport)
  | publishBytes (bytes : Bytes) (id : EventId) (timestamp : DateTime)
      (transport : Transport)
  | publishBytesTo (keyExpr : String) (bytes : Bytes) (id : EventId)
      (timestamp : DateTime) (transport : Transport)
  | publishBytesDurable (bytes : Bytes) (id : EventId) (timestamp : DateTime)
      (transport : Transport)
  | publishBytesDurableTo (keyExpr : String) (bytes : Bytes) (id : EventId)
      (timestamp : DateTime) (transport : Transport)
  | publishKeyed (key : String) (event : Outgoing) (transport : Transport)
  | publishBytesKeyed (key : String) (bytes : Bytes) (id : EventId)
      (timestamp : DateTime) (transport : Transport)
  | publishKeyedDurable (key : String) (event : Outgoing)
      (transport : Transport)
  | publishBytesKeyedDurable (key : String) (bytes : Bytes) (id : EventId)
      (timestamp : DateTime) (transport : Transport)

/-- Make one call; `none` when it panics. -/
def EventPublisher.perform
    (hash : String → U64)
    (publisher : EventPublisher) : PublishCall → Option PublishStep
  | .publish event transport => publisher.publish hash transport event
  | .publishTo keyExpr event transport =>
    publisher.publishTo hash transport keyExpr event
  | .publishDurable event transport =>
    publisher.publishDurable hash transport event
  | .publishBytes bytes id timestamp transport =>
    publisher.publishBytes hash transport bytes id timestamp
  | .publishBytesTo keyExpr bytes id timestamp transport =>
    publisher.publishBytesTo hash transport keyExpr bytes id timestamp
  | .publishBytesDurable bytes id timestamp transport =>
    publisher.publishBytesDurable hash transport bytes id timestamp
  | .publishBytesDurableTo keyExpr bytes id timestamp transport =>
    publisher.publishBytesDurableTo hash transport keyExpr bytes id timestamp
  | .publishKeyed key event transport =>
    publisher.publishKeyed hash transport key event
  | .publishBytesKeyed key bytes id timestamp transport =>
    publisher.publishBytesKeyed hash transport key bytes id timestamp
  | .publishKeyedDurable key event transport =>
    publisher.publishKeyedDurable hash transport key event
  | .publishBytesKeyedDurable key bytes id timestamp transport =>
    publisher.publishBytesKeyedDurable hash transport key bytes id timestamp

namespace PublishCall

def route : PublishCall → Route
  | .publish .. | .publishDurable .. => .roundRobin
  | .publishBytes .. | .publishBytesDurable .. => .roundRobin
  | .publishTo keyExpr .. => .explicit keyExpr
  | .publishBytesTo keyExpr .. => .explicit keyExpr
  | .publishBytesDurableTo keyExpr .. => .explicit keyExpr
  | .publishKeyed key .. | .publishKeyedDurable key .. => .keyed key
  | .publishBytesKeyed key .. => .keyed key
  | .publishBytesKeyedDurable key .. => .keyed key

def durable : PublishCall → Bool
  | .publishDurable .. | .publishBytesDurable .. => true
  | .publishBytesDurableTo .. | .publishKeyedDurable .. => true
  | .publishBytesKeyedDurable .. => true
  | _ => false

def outgoing : PublishCall → Outgoing
  | .publish event _ | .publishTo _ event _ => event
  | .publishDurable event _ | .publishKeyed _ event _ => event
  | .publishKeyedDurable _ event _ => event
  | .publishBytes bytes id timestamp _ => .rawBytes bytes id timestamp
  | .publishBytesTo _ bytes id timestamp _ => .rawBytes bytes id timestamp
  | .publishBytesDurable bytes id timestamp _ => .rawBytes bytes id timestamp
  | .publishBytesDurableTo _ bytes id timestamp _ =>
    .rawBytes bytes id timestamp
  | .publishBytesKeyed _ bytes id timestamp _ => .rawBytes bytes id timestamp
  | .publishBytesKeyedDurable _ bytes id timestamp _ =>
    .rawBytes bytes id timestamp

def transport : PublishCall → Transport
  | .publish _ transport | .publishTo _ _ transport => transport
  | .publishDurable _ transport | .publishKeyed _ _ transport => transport
  | .publishKeyedDurable _ _ transport => transport
  | .publishBytes _ _ _ transport => transport
  | .publishBytesTo _ _ _ _ transport => transport
  | .publishBytesDurable _ _ _ transport => transport
  | .publishBytesDurableTo _ _ _ _ transport => transport
  | .publishBytesKeyed _ _ _ _ transport => transport
  | .publishBytesKeyedDurable _ _ _ _ transport => transport

end PublishCall

/-- Every operation is the common definition at its own parameters. -/
theorem EventPublisher.perform_eq
    (hash : String → U64)
    (publisher : EventPublisher)
    (call : PublishCall) :
    publisher.perform hash call =
      publisher.publishVia hash call.route call.durable call.outgoing
        call.transport := by
  cases call <;> rfl

end Mitiflow
