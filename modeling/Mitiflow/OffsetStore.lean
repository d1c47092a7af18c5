import Mitiflow.Library.BigEndian
import Mitiflow.Library.FencedRegisters
import Mitiflow.Library.OrderedMap
import Mitiflow.Types

namespace Mitiflow

open Library List

/-!
# The offsets keyspace

Consumer groups store their progress in one keyspace of byte strings.  A group
commit writes one record per publisher under the hash of the group id and the
publisher, a keyed commit one record under the hashes of the key filter and of
the group id; records carry the generation of the committer, and a commit
older than a record it would replace is refused as a whole.

The model works on the bytes.  Over it stands a pair of fenced register files,
one per kind of record, indexed by the hashes; the keyspace represents them
and every operation acts on the registers alone.
-/

/-- FNV-1a over 64 bits. -/
def fnv1a (bytes : Bytes) : U64 :=
  bytes.foldl
    (fun hash byte =>
      Fin.ofNat (2 ^ 64) (Nat.xor hash.val byte.toNat * 0x100000001b3))
    0xcbf29ce484222325

/-- The bytes of a text. -/
def utf8Bytes (text : String) : Bytes :=
  text.toList.flatMap String.utf8EncodeChar

/-- The hash of a group id; the source calls it xxhash. -/
def xxhashGroup (groupId : String) : U64 :=
  fnv1a (utf8Bytes groupId)

/-- Distinguishes exact-key from prefix-key filtering. -/
inductive KeyFilter where
  | exactKey (key : String)
  | keyPrefix (leading : String)
  deriving Repr, DecidableEq

def KeyFilter.hash : KeyFilter → U64
  | .exactKey key => fnv1a (utf8Bytes ("exact:" ++ key))
  | .keyPrefix leading => fnv1a (utf8Bytes ("prefix:" ++ leading))

/--
An offset commit of a consumer group, as far as the store reads it.  The
source iterates a hash map of offsets; its order only decides which of several
stale publishers an error reports.
-/
structure GroupCommit where
  groupId : String
  offsets : OrderedMap PublisherId U64
  generation : U64
  timestamp : DateTime

/-- An offset commit of a key-scoped consumer, as far as the store reads it. -/
structure KeyedOffsetCommit where
  groupId : String
  keyFilter : KeyFilter
  lastHlc : HlcTimestamp
  generation : U64
  timestamp : DateTime
  deriving Repr, DecidableEq

abbrev OffsetKeyspace := OrderedMap Bytes Bytes

/-- How the storage engine answers the reads and the write of one commit. -/
structure EngineAnswers where
  read : Bytes → Except String Unit := fun _ => .ok ()
  write : Except String Unit := .ok ()

/-! ## Record encodings -/

/-- Milliseconds since the epoch, cast to 64 bits. -/
def timestampMillis (timestamp : DateTime) : Nat :=
  (timestamp / 1000000 % 2 ^ 64).toNat

/-- The record key of a hashed group and a publisher. -/
def offsetSlotKey (groupHash : U64) (publisher : PublisherId) : Bytes :=
  bigEndian 8 groupHash.val ++ bigEndian 16 publisher.val

/-- Offset key: 8 bytes of group hash, 16 bytes of publisher. -/
def offsetKey (groupId : String) (publisher : PublisherId) : Bytes :=
  offsetSlotKey (xxhashGroup groupId) publisher

/-- Offset value: sequence, generation and time, 8 bytes each. -/
def encodeOffsetValue
    (seq generation : U64)
    (timestamp : DateTime) : Bytes :=
  bigEndian 8 seq.val ++ bigEndian 8 generation.val ++
    bigEndian 8 (timestampMillis timestamp)

/-- The sequence and the generation of an offset value. -/
def decodeOffsetValue (value : Bytes) : Option (U64 × U64) :=
  if value.length < 16 then
    none
  else
    some (Fin.ofNat (2 ^ 64) (fromBigEndian (value.take 8)),
      Fin.ofNat (2 ^ 64) (fromBigEndian ((value.drop 8).take 8)))

/-- The record key of a hashed filter and a hashed group. -/
def keyedSlotKey (filterHash groupHash : U64) : Bytes :=
  bigEndian 8 filterHash.val ++ bigEndian 8 groupHash.val

/-- Keyed offset key: 8 bytes of filter hash, 8 bytes of group hash. -/
def keyedOffsetKey (groupId : String) (keyFilterHash : U64) : Bytes :=
  keyedSlotKey keyFilterHash (xxhashGroup groupId)

/-- Keyed offset value: clock value, generation and time. -/
def encodeKeyedOffsetValue
    (hlc : HlcTimestamp)
    (generation : U64)
    (timestamp : DateTime) : Bytes :=
  bigEndian 8 hlc.physicalNs.val ++ bigEndian 4 hlc.logical.val ++
    bigEndian 8 generation.val ++ bigEndian 8 (timestampMillis timestamp)

/-- The clock value and the generation of a keyed offset value. -/
def decodeKeyedOffsetValue (value : Bytes) : Option (HlcTimestamp × U64) :=
  if value.length < 20 then
    none
  else
    some
      (⟨Fin.ofNat (2 ^ 64) (fromBigEndian (value.take 8)),
          Fin.ofNat (2 ^ 32) (fromBigEndian ((value.drop 8).take 4))⟩,
        Fin.ofNat (2 ^ 64) (fromBigEndian ((value.drop 12).take 8)))

/-! ## Operations -/

/-- Reject a generation below the stored one, if a record is stored. -/
def checkFence
    (group : String)
    (commitGen : U64) : Option U64 → Except Error Unit
  | some storedGen =>
    if commitGen < storedGen then
      .error (.staleFencedCommit group commitGen storedGen)
    else
      .ok ()
  | none => .ok ()

def GroupCommit.record
    (commit : GroupCommit)
    (offset : PublisherId × U64) : Bytes × Bytes :=
  (offsetKey commit.groupId offset.1,
    encodeOffsetValue offset.2 commit.generation commit.timestamp)

/-- Read one record, check its generation and prepare its replacement. -/
def fencedInsert
    (offsets : OffsetKeyspace)
    (answers : EngineAnswers)
    (commit : GroupCommit)
    (offset : PublisherId × U64) : Except Error (Bytes × Bytes) :=
  let key := offsetKey commit.groupId offset.1
  match answers.read key with
  | .error reason => .error (.storeError ("offset read failed: " ++ reason))
  | .ok () =>
    (checkFence commit.groupId commit.generation
      (((offsets.get? key).bind decodeOffsetValue).map Prod.snd)).map
        fun _ => commit.record offset

/-- The loop of a group commit over its offsets. -/
def fencedBatch
    (offsets : OffsetKeyspace)
    (answers : EngineAnswers)
    (commit : GroupCommit) :
    List (PublisherId × U64) → Except Error (List (Bytes × Bytes))
  | [] => .ok []
  | offset :: rest =>
    match fencedInsert offsets answers commit offset with
    | .error failure => .error failure
    | .ok entry =>
      match fencedBatch offsets answers commit rest with
      | .error failure => .error failure
      | .ok batch => .ok (entry :: batch)

def insertBatch
    (offsets : OffsetKeyspace)
    (batch : List (Bytes × Bytes)) : OffsetKeyspace :=
  batch.foldl (fun keyspace entry => keyspace.insert entry.1 entry.2) offsets

/-- The atomic write that ends a group commit. -/
def writeBatch
    (offsets : OffsetKeyspace)
    (answers : EngineAnswers)
    (batch : List (Bytes × Bytes)) : OffsetKeyspace × Except Error Unit :=
  match answers.write with
  | .error reason =>
    (offsets, .error (.storeError ("offset commit failed: " ++ reason)))
  | .ok () => (insertBatch offsets batch, .ok ())

/-- Persist a group commit unless a record has a higher generation. -/
def commitOffsets
    (offsets : OffsetKeyspace)
    (commit : GroupCommit)
    (answers : EngineAnswers) : OffsetKeyspace × Except Error Unit :=
  match fencedBatch offsets answers commit commit.offsets.entries with
  | .error failure => (offsets, .error failure)
  | .ok batch => writeBatch offsets answers batch

/-- Collect one scanned record; shorter keys are keyed offsets. -/
def scanOffset
    (result : OrderedMap PublisherId U64)
    (entry : Bytes × Bytes) : OrderedMap PublisherId U64 :=
  if entry.1.length < 24 then
    result
  else
    match decodeOffsetValue entry.2 with
    | none => result
    | some (seq, _) =>
      result.insert
        (Fin.ofNat (2 ^ 128)
          (fromBigEndian ((entry.1.drop 8).take 16))) seq

/-- All committed offsets of a group; `scan` is the engine's answer. -/
def fetchOffsets
    (offsets : OffsetKeyspace)
    (groupId : String)
    (scan : Except String Unit) :
    Except Error (OrderedMap PublisherId U64) :=
  match scan with
  | .error reason => .error (.storeError ("offset scan failed: " ++ reason))
  | .ok () =>
    let leading := bigEndian 8 (xxhashGroup groupId).val
    .ok ((offsets.entries.filter
      (fun entry => decide (leading <+: entry.1))).foldl scanOffset .empty)

/-- Read and check the record of a keyed commit. -/
def keyedFence
    (offsets : OffsetKeyspace)
    (commit : KeyedOffsetCommit)
    (answers : EngineAnswers) : Except Error Unit :=
  let key := keyedOffsetKey commit.groupId commit.keyFilter.hash
  match answers.read key with
  | .error reason =>
    .error (.storeError ("keyed offset read failed: " ++ reason))
  | .ok () =>
    checkFence commit.groupId commit.generation
      (((offsets.get? key).bind decodeKeyedOffsetValue).map Prod.snd)

/-- The insert that ends a keyed commit. -/
def keyedWrite
    (offsets : OffsetKeyspace)
    (commit : KeyedOffsetCommit)
    (answers : EngineAnswers) : OffsetKeyspace × Except Error Unit :=
  match answers.write with
  | .error reason =>
    (offsets,
      .error (.storeError ("keyed offset commit failed: " ++ reason)))
  | .ok () =>
    (offsets.insert (keyedOffsetKey commit.groupId commit.keyFilter.hash)
        (encodeKeyedOffsetValue commit.lastHlc commit.generation
          commit.timestamp),
      .ok ())

/-- Persist a keyed commit unless its record has a higher generation. -/
def commitKeyedOffset
    (offsets : OffsetKeyspace)
    (commit : KeyedOffsetCommit)
    (answers : EngineAnswers) : OffsetKeyspace × Except Error Unit :=
  match keyedFence offsets commit answers with
  | .error failure => (offsets, .error failure)
  | .ok () => keyedWrite offsets commit answers

/-- The committed clock value of a group and key filter. -/
def fetchKeyedOffset
    (offsets : OffsetKeyspace)
    (groupId : String)
    (keyFilterHash : U64)
    (read : Except String Unit) : Except Error (Option HlcTimestamp) :=
  match read with
  | .error reason =>
    .error (.storeError ("keyed offset read failed: " ++ reason))
  | .ok () =>
    .ok (((offsets.get? (keyedOffsetKey groupId keyFilterHash)).bind
      decodeKeyedOffsetValue).map Prod.fst)

/-! ## Encodings are unambiguous -/

theorem decodeOffsetValue_encode
    (seq generation : U64)
    (timestamp : DateTime) :
    decodeOffsetValue (encodeOffsetValue seq generation timestamp) =
      some (seq, generation) := by
  have firstPart :
      (encodeOffsetValue seq generation timestamp).take 8 =
        bigEndian 8 seq.val := by
    rw [encodeOffsetValue, append_assoc]
    exact take_left' (length_bigEndian 8 _)
  have secondPart :
      ((encodeOffsetValue seq generation timestamp).drop 8).take 8 =
        bigEndian 8 generation.val := by
    rw [encodeOffsetValue, append_assoc,
      drop_left' (length_bigEndian 8 _)]
    exact take_left' (length_bigEndian 8 _)
  have long :
      ¬(encodeOffsetValue seq generation timestamp).length < 16 := by
    simp [encodeOffsetValue]
  rw [decodeOffsetValue, if_neg long, firstPart, secondPart,
    ofNat_fromBigEndian (by norm_num), ofNat_fromBigEndian (by norm_num)]

theorem decodeKeyedOffsetValue_encode
    (hlc : HlcTimestamp)
    (generation : U64)
    (timestamp : DateTime) :
    decodeKeyedOffsetValue (encodeKeyedOffsetValue hlc generation timestamp) =
      some (hlc, generation) := by
  have firstPart :
      (encodeKeyedOffsetValue hlc generation timestamp).take 8 =
        bigEndian 8 hlc.physicalNs.val := by
    rw [encodeKeyedOffsetValue, append_assoc, append_assoc]
    exact take_left' (length_bigEndian 8 _)
  have secondPart :
      ((encodeKeyedOffsetValue hlc generation timestamp).drop 8).take 4 =
        bigEndian 4 hlc.logical.val := by
    rw [encodeKeyedOffsetValue, append_assoc, append_assoc,
      drop_left' (length_bigEndian 8 _)]
    exact take_left' (length_bigEndian 4 _)
  have thirdPart :
      ((encodeKeyedOffsetValue hlc generation timestamp).drop 12).take 8 =
        bigEndian 8 generation.val := by
    rw [encodeKeyedOffsetValue, append_assoc, drop_left' (by simp)]
    exact take_left' (length_bigEndian 8 _)
  have long :
      ¬(encodeKeyedOffsetValue hlc generation timestamp).length < 20 := by
    simp [encodeKeyedOffsetValue]
  rw [decodeKeyedOffsetValue, if_neg long, firstPart, secondPart, thirdPart,
    ofNat_fromBigEndian (by norm_num), ofNat_fromBigEndian (by norm_num),
    ofNat_fromBigEndian (by norm_num)]

@[simp]
theorem length_offsetSlotKey (groupHash : U64) (publisher : PublisherId) :
    (offsetSlotKey groupHash publisher).length = 24 := by
  simp [offsetSlotKey]

@[simp]
theorem length_keyedSlotKey (filterHash groupHash : U64) :
    (keyedSlotKey filterHash groupHash).length = 16 := by
  simp [keyedSlotKey]

theorem offsetSlotKey_inj
    {firstHash secondHash : U64}
    {first second : PublisherId} :
    offsetSlotKey firstHash first = offsetSlotKey secondHash second ↔
      firstHash = secondHash ∧ first = second := by
  constructor
  · intro same
    obtain ⟨sameHash, samePublisher⟩ := append_inj same (by simp)
    exact ⟨bigEndian_inj (by norm_num) sameHash,
      bigEndian_inj (by norm_num) samePublisher⟩
  · rintro ⟨sameHash, samePublisher⟩
    rw [sameHash, samePublisher]

theorem keyedSlotKey_inj
    {firstFilter secondFilter firstGroup secondGroup : U64} :
    keyedSlotKey firstFilter firstGroup =
        keyedSlotKey secondFilter secondGroup ↔
      firstFilter = secondFilter ∧ firstGroup = secondGroup := by
  constructor
  · intro same
    obtain ⟨sameFilter, sameGroup⟩ := append_inj same (by simp)
    exact ⟨bigEndian_inj (by norm_num) sameFilter,
      bigEndian_inj (by norm_num) sameGroup⟩
  · rintro ⟨sameFilter, sameGroup⟩
    rw [sameFilter, sameGroup]

/-- The two kinds of keys have different lengths. -/
theorem offsetSlotKey_ne_keyedSlotKey
    (groupHash : U64)
    (publisher : PublisherId)
    (filterHash keyedGroup : U64) :
    offsetSlotKey groupHash publisher ≠ keyedSlotKey filterHash keyedGroup := by
  intro same
  have sameLength := congrArg List.length same
  simp at sameLength

end Mitiflow
