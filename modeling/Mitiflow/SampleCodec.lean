import Mitiflow.Library.BigEndian
import Mitiflow.Offload
import Mitiflow.Publisher

namespace Mitiflow

open Library

/-!
# Samples on the wire

The metadata of an event travels in an attachment of fixed size.  The store
and the subscriber decode a sample separately; both pass over samples that are
not puts, internal keys, and attachments that do not decode.
-/

/-! ## Attachments -/

/-- The size of an attachment: sequence, publisher, event, time, urgency. -/
def attachmentSize : Nat := 8 + 16 + 16 + 8 + 2

/-- With the clock of a store reply. -/
def extendedAttachmentSize : Nat := attachmentSize + 12

/-- The nanoseconds of an instant, if a signed 64-bit number holds them. -/
def timestampNanosOpt (timestamp : DateTime) : Option Int :=
  if -2 ^ 63 ≤ timestamp ∧ timestamp < 2 ^ 63 then some timestamp else none

/-- The two's complement of a signed 64-bit number. -/
def i64Bits (value : Int) : Nat :=
  (value % 2 ^ 64).toNat

/-- The signed number that 64 bits stand for. -/
def i64OfBits (bits : Nat) : Int :=
  if bits < 2 ^ 63 then bits else bits - 2 ^ 64

def encodeMetadata
    (pubId : PublisherId)
    (seq : U64)
    (eventId : EventId)
    (timestamp : DateTime)
    (urgencyMs : Nat) : Bytes :=
  bigEndian 8 seq.val ++
    (bigEndian 16 pubId.val ++
      (bigEndian 16 eventId.val ++
        (bigEndian 8 (i64Bits ((timestampNanosOpt timestamp).getD 0)) ++
          bigEndian 2 urgencyMs)))

/-- The number written in some bytes of an attachment. -/
def readField (bytes : Bytes) (offset width : Nat) : Nat :=
  fromBigEndian ((bytes.drop offset).take width)

/-- Decode an attachment; the error is the message of an invalid one. -/
def decodeMetadata (bytes : Bytes) : Except String EventMeta :=
  if bytes.length ≠ attachmentSize ∧
      bytes.length ≠ extendedAttachmentSize then
    .error ("expected " ++ toString attachmentSize ++ " or " ++
      toString extendedAttachmentSize ++ " bytes, got " ++
      toString bytes.length)
  else
    .ok
      { seq := Fin.ofNat (2 ^ 64) (readField bytes 0 8)
        pubId := Fin.ofNat (2 ^ 128) (readField bytes 8 16)
        eventId := Fin.ofNat (2 ^ 128) (readField bytes 24 16)
        timestamp := i64OfBits (readField bytes 40 8)
        urgencyMs := readField bytes 48 2
        hlcPhysicalNs :=
          if bytes.length = extendedAttachmentSize then
            some (Fin.ofNat (2 ^ 64) (readField bytes 50 8))
          else
            none
        hlcLogical :=
          if bytes.length = extendedAttachmentSize then
            some (Fin.ofNat (2 ^ 32) (readField bytes 58 4))
          else
            none }

theorem i64OfBits_i64Bits
    {value : Int}
    (fits : -2 ^ 63 ≤ value ∧ value < 2 ^ 63) :
    i64OfBits (i64Bits value) = value := by
  unfold i64OfBits i64Bits
  split <;> omega

theorem timestampNanosOpt_fits (timestamp : DateTime) :
    -2 ^ 63 ≤ (timestampNanosOpt timestamp).getD 0 ∧
      (timestampNanosOpt timestamp).getD 0 < 2 ^ 63 := by
  unfold timestampNanosOpt
  split
  · assumption
  · decide

theorem readField_first (width value : Nat) (rest : Bytes) :
    readField (bigEndian width value ++ rest) 0 width =
      value % 256 ^ width := by
  rw [readField, List.drop_zero,
    List.take_left' (length_bigEndian width value), fromBigEndian_bigEndian]

theorem readField_later
    (skipped value : Nat)
    (rest : Bytes)
    (offset width : Nat) :
    readField (bigEndian skipped value ++ rest) (skipped + offset) width =
      readField rest offset width := by
  rw [readField, List.drop_append, length_bigEndian,
    List.drop_of_length_le (by simp), Nat.add_sub_cancel_left,
    List.nil_append, readField]

/-- An attachment decodes to what was encoded; an instant that does not fit
is read as the epoch. -/
theorem decodeMetadata_encodeMetadata
    (pubId : PublisherId)
    (seq : U64)
    (eventId : EventId)
    (timestamp : DateTime)
    (urgencyMs : Nat) :
    decodeMetadata (encodeMetadata pubId seq eventId timestamp urgencyMs) =
      .ok
        { seq := seq
          pubId := pubId
          eventId := eventId
          timestamp := (timestampNanosOpt timestamp).getD 0
          urgencyMs := urgencyMs % 2 ^ 16
          hlcPhysicalNs := none
          hlcLogical := none } := by
  let nanos := (timestampNanosOpt timestamp).getD 0
  let last := bigEndian 2 urgencyMs
  let afterEvent := bigEndian 8 (i64Bits nanos) ++ last
  let afterPublisher := bigEndian 16 eventId.val ++ afterEvent
  let afterSeq := bigEndian 16 pubId.val ++ afterPublisher
  let bytes := bigEndian 8 seq.val ++ afterSeq
  have length : bytes.length = attachmentSize := by
    simp [bytes, afterSeq, afterPublisher, afterEvent, last, attachmentSize]
  have isSeq : Fin.ofNat (2 ^ 64) (readField bytes 0 8) = seq := by
    rw [readField_first, Nat.mod_eq_of_lt (by exact seq.isLt)]
    exact Fin.ext (Nat.mod_eq_of_lt seq.isLt)
  have isPublisher : Fin.ofNat (2 ^ 128) (readField bytes 8 16) = pubId := by
    rw [readField_later 8 _ afterSeq 0 16, readField_first,
      Nat.mod_eq_of_lt (by exact pubId.isLt)]
    exact Fin.ext (Nat.mod_eq_of_lt pubId.isLt)
  have isEvent : Fin.ofNat (2 ^ 128) (readField bytes 24 16) = eventId := by
    rw [readField_later 8 _ afterSeq 16 16,
      readField_later 16 _ afterPublisher 0 16, readField_first,
      Nat.mod_eq_of_lt (by exact eventId.isLt)]
    exact Fin.ext (Nat.mod_eq_of_lt eventId.isLt)
  have isTimestamp : i64OfBits (readField bytes 40 8) = nanos := by
    have fits : i64Bits nanos < 256 ^ 8 := by
      unfold i64Bits
      omega
    rw [readField_later 8 _ afterSeq 32 8,
      readField_later 16 _ afterPublisher 16 8,
      readField_later 16 _ afterEvent 0 8, readField_first,
      Nat.mod_eq_of_lt fits]
    exact i64OfBits_i64Bits (timestampNanosOpt_fits timestamp)
  have isUrgency : readField bytes 48 2 = urgencyMs % 2 ^ 16 := by
    rw [readField_later 8 _ afterSeq 40 2,
      readField_later 16 _ afterPublisher 24 2,
      readField_later 16 _ afterEvent 8 2, readField_later 8 _ last 0 2]
    have onlyField := readField_first 2 urgencyMs []
    rw [List.append_nil] at onlyField
    exact onlyField
  have notExtended : bytes.length ≠ extendedAttachmentSize := by
    rw [length]
    decide
  change decodeMetadata bytes = _
  rw [decodeMetadata, if_neg fun invalid => invalid.1 length, isSeq,
    isPublisher, isEvent, isTimestamp, isUrgency, if_neg notExtended,
    if_neg notExtended]

/-! ## Samples -/

/-- A sample of the transport, with the physical time of its clock. -/
structure Sample where
  kind : SampleKind
  keyExpr : String
  payload : Bytes
  attachment : Option Bytes
  timestamp : Option U64
  deriving Repr, DecidableEq

/-- What the store makes of a sample. -/
structure StoreSample where
  request : StoredEvent
  urgencyMs : Nat
  timestampNanos : Int
  deriving Repr, DecidableEq

def EventStore.decodeSample (sample : Sample) : Option StoreSample :=
  if sample.kind ≠ .put then
    none
  else if Text.contains sample.keyExpr.toList "/_".toList then
    none
  else
    match sample.attachment with
    | none => none
    | some attachment =>
      match decodeMetadata attachment with
      | .error _ => none
      | .ok metadata =>
        some
          { request :=
              { key := sample.keyExpr
                payload := sample.payload
                metadata :=
                  { seq := metadata.seq
                    publisherId := metadata.pubId
                    eventId := metadata.eventId
                    timestamp := metadata.timestamp
                    keyExpr := sample.keyExpr
                    key := extractKey sample.keyExpr
                    hlcTimestamp :=
                      sample.timestamp.map fun physicalNs =>
                        ⟨physicalNs, 0⟩ } }
            urgencyMs := metadata.urgencyMs
            timestampNanos :=
              (timestampNanosOpt metadata.timestamp).getD (2 ^ 63 - 1) }

def EventSubscriber.decodeSample (sample : Sample) : Option DecodedSample :=
  if sample.kind ≠ .put then
    none
  else if Text.contains sample.keyExpr.toList "/_".toList then
    none
  else
    match sample.attachment with
    | none => none
    | some attachment =>
      match decodeMetadata attachment with
      | .error _ => none
      | .ok metadata => some ⟨metadata, sample.keyExpr, sample.payload⟩

/-- Both sides accept a sample on a key that is not internal. -/
theorem decodeSample_isSome
    {sample : Sample}
    (isPut : sample.kind = .put)
    (external : ¬ "/_".toList <:+: sample.keyExpr.toList)
    {attachment : Bytes}
    (attached : sample.attachment = some attachment)
    {metadata : EventMeta}
    (decoded : decodeMetadata attachment = .ok metadata) :
    (EventStore.decodeSample sample).isSome ∧
      (EventSubscriber.decodeSample sample).isSome := by
  have notInternal :
      Text.contains sample.keyExpr.toList "/_".toList = false :=
    decide_eq_false external
  constructor
  · rw [EventStore.decodeSample, if_neg (not_not.mpr isPut), notInternal,
      if_neg Bool.false_ne_true, attached]
    simp only [decoded, Option.isSome_some]
  · rw [EventSubscriber.decodeSample, if_neg (not_not.mpr isPut),
      notInternal, if_neg Bool.false_ne_true, attached]
    simp only [decoded, Option.isSome_some]

def Put.sample (put : Put) (timestamp : Option U64) : Sample where
  kind := .put
  keyExpr := put.keyExpr
  payload := put.payload
  attachment :=
    some (encodeMetadata put.attachment.pubId put.attachment.seq
      put.attachment.eventId put.attachment.timestamp
      put.attachment.urgencyMs)
  timestamp := timestamp

/-- A put on a key that is not internal is accepted by both sides. -/
theorem Put.visible
    {put : Put}
    (external : ¬ "/_".toList <:+: put.keyExpr.toList)
    (timestamp : Option U64) :
    (EventStore.decodeSample (put.sample timestamp)).isSome ∧
      (EventSubscriber.decodeSample (put.sample timestamp)).isSome :=
  decodeSample_isSome rfl external rfl (decodeMetadata_encodeMetadata _ _ _ _ _)

end Mitiflow
