import Mathlib

namespace Mitiflow

/-!
# Shared data types

Identifiers, clocks, event metadata and errors used by the store, the
publisher and the subscriber.  Fixed-width integers that are only compared are
bounded by their type; identifiers are 128-bit numbers, whose order is the
order of their big-endian bytes.
-/

/-- An unsigned 64-bit integer. -/
abbrev U64 := Fin (2 ^ 64)

/-- An unsigned 32-bit integer. -/
abbrev U32 := Fin (2 ^ 32)

instance instNeZeroU64 : NeZero (2 ^ 64) :=
  ⟨pow_ne_zero 64 two_ne_zero⟩

instance instNeZeroU32 : NeZero (2 ^ 32) :=
  ⟨pow_ne_zero 32 two_ne_zero⟩

instance instLawfulBEqU32 : LawfulBEq U32 :=
  inferInstance

def u64Max : Nat := 2 ^ 64 - 1

def u32Max : Nat := 2 ^ 32 - 1

/-- Unique identity of a publisher, a UUID. -/
abbrev PublisherId := Fin (2 ^ 128)

/-- Unique identity of an event, a UUID. -/
abbrev EventId := Fin (2 ^ 128)

instance instNeZeroUuid : NeZero (2 ^ 128) :=
  ⟨pow_ne_zero 128 two_ne_zero⟩

/-- Raw bytes of a payload or of a storage key. -/
abbrev Bytes := List UInt8

/-- A wall-clock instant in nanoseconds since the epoch. -/
abbrev DateTime := Int

/-- Errors reported by the modelled operations. -/
inductive Error where
  | zenoh (message : String)
  | serialization (message : String)
  | durabilityTimeout (seq : Nat)
  | storeError (message : String)
  | channelClosed
  | invalidConfig (message : String)
  | staleFencedCommit (group : String) (commitGen storedGen : U64)
  | endOfReplay
  | offsetNotFound (groupId : String)
  | invalidKey (message : String)
  | offloadFailed (message : String)
  | gapRecoveryFailed (publisherId : PublisherId) (missed : Nat × Nat)
  deriving Repr, DecidableEq

/-- A hybrid logical clock timestamp, compared by physical time first. -/
structure HlcTimestamp where
  physicalNs : U64
  logical : U32
  deriving Repr, DecidableEq

namespace HlcTimestamp

/-- The sort key of a clock value. -/
def sortKey (hlc : HlcTimestamp) : U64 ×ₗ U32 :=
  toLex (hlc.physicalNs, hlc.logical)

theorem sortKey_injective : Function.Injective sortKey := by
  rintro ⟨physical, logical⟩ ⟨physical', logical'⟩ same
  simpa [sortKey] using same

instance : LinearOrder HlcTimestamp :=
  LinearOrder.lift' sortKey sortKey_injective

end HlcTimestamp

/-- Metadata associated with a stored event. -/
structure EventMetadata where
  seq : U64
  publisherId : PublisherId
  eventId : EventId
  timestamp : DateTime
  keyExpr : String
  /-- The application key, absent for unkeyed events. -/
  key : Option String
  hlcTimestamp : Option HlcTimestamp
  deriving Repr, DecidableEq

/-- An event as returned by the storage backend. -/
structure StoredEvent where
  key : String
  payload : Bytes
  metadata : EventMetadata
  deriving Repr, DecidableEq

/-- Per-event metadata carried by a transport attachment. -/
structure EventMeta where
  seq : U64
  pubId : PublisherId
  eventId : EventId
  timestamp : DateTime
  urgencyMs : Nat
  hlcPhysicalNs : Option U64
  hlcLogical : Option U32
  deriving Repr, DecidableEq

/-- Sentinel: no urgency, the store uses its default watermark interval. -/
def noUrgency : Nat := 2 ^ 16 - 1

/-- The kind of a transport sample. -/
inductive SampleKind where
  | put
  | delete
  deriving Repr, DecidableEq

/-- An event as delivered to the application, payload still encoded. -/
structure RawEvent where
  id : EventId
  seq : U64
  publisherId : PublisherId
  keyExpr : String
  payload : Bytes
  timestamp : DateTime
  deriving Repr, DecidableEq

end Mitiflow
