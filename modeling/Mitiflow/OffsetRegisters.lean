import Mitiflow.OffsetStore

namespace Mitiflow

open Library List Function

/-!
# The offsets keyspace as two fenced register files

The abstract view of the keyspace: for every hashed group and publisher the
last committed sequence, for every hashed filter and group the last committed
clock value, each with the generation of its committer.  A group commit is a
fenced write of the first file and a keyed commit one of the second.  The
byte keyspace represents the two files, the operations preserve that, and the
fetches read it.
-/

/-- The abstract state of the offsets keyspace. -/
structure OffsetRegisters where
  /-- Sequences by hashed group and publisher. -/
  offsets : Registers (U64 × PublisherId) U64 U64 := .blank
  /-- Clock values by hashed key filter and hashed group. -/
  keyed : Registers (U64 × U64) HlcTimestamp U64 := .blank

/-- A keyspace holds exactly the records of the two register files. -/
structure Represents
    (keyspace : OffsetKeyspace)
    (registers : OffsetRegisters) : Prop where
  offsets :
    ∀ groupHash publisher,
      (keyspace.get? (offsetSlotKey groupHash publisher)).bind
          decodeOffsetValue =
        registers.offsets (groupHash, publisher)
  keyed :
    ∀ filterHash groupHash,
      (keyspace.get? (keyedSlotKey filterHash groupHash)).bind
          decodeKeyedOffsetValue =
        registers.keyed (filterHash, groupHash)
  keys :
    ∀ entry ∈ keyspace.entries,
      (∃ groupHash publisher, entry.1 = offsetSlotKey groupHash publisher) ∨
        ∃ filterHash groupHash, entry.1 = keyedSlotKey filterHash groupHash

theorem represents_empty : Represents .empty {} where
  offsets := fun _ _ => rfl
  keyed := fun _ _ => rfl
  keys := by
    intro entry member
    cases member

/-- A group commit as a fenced write. -/
def GroupCommit.write
    (commit : GroupCommit)
    (answers : EngineAnswers) :
    FencedWrite (U64 × PublisherId) U64 U64 where
  generation := commit.generation
  updates := commit.offsets.entries.map fun offset =>
    ((xxhashGroup commit.groupId, offset.1), offset.2)
  sound :=
    commit.offsets.entries.all (fun offset =>
      (answers.read (offsetKey commit.groupId offset.1)).isOk) &&
    answers.write.isOk

/-- A keyed commit as a fenced write. -/
def KeyedOffsetCommit.write
    (commit : KeyedOffsetCommit)
    (answers : EngineAnswers) :
    FencedWrite (U64 × U64) HlcTimestamp U64 where
  generation := commit.generation
  updates :=
    [((commit.keyFilter.hash, xxhashGroup commit.groupId), commit.lastHlc)]
  sound :=
    (answers.read
      (keyedOffsetKey commit.groupId commit.keyFilter.hash)).isOk &&
    answers.write.isOk

namespace Represents

variable {keyspace : OffsetKeyspace} {registers : OffsetRegisters}

/-- Inserting a record writes the register of its slot and no other. -/
theorem decoded_insert
    {Slot Record : Type}
    [DecidableEq Slot]
    {slotKey : Slot → Bytes}
    (distinct : Function.Injective slotKey)
    {decode : Bytes → Option Record}
    {file : Slot → Option Record}
    (held : ∀ slot, (keyspace.get? (slotKey slot)).bind decode = file slot)
    (written other : Slot)
    (value : Bytes) :
    ((keyspace.insert (slotKey written) value).get? (slotKey other)).bind
        decode =
      update file written (decode value) other := by
  rw [OrderedMap.get?_insert]
  by_cases sameSlot : other = written
  · rw [sameSlot, if_pos rfl, update_self, Option.bind_some]
  · rw [if_neg (distinct.ne sameSlot), update_of_ne sameSlot, held]

section

variable (represents : Represents keyspace registers)

include represents

/-- Inserting an offset record writes one register of the first file. -/
theorem insertOffset
    (groupHash : U64)
    (publisher : PublisherId)
    (seq generation : U64)
    (timestamp : DateTime) :
    Represents
      (keyspace.insert (offsetSlotKey groupHash publisher)
        (encodeOffsetValue seq generation timestamp))
      { registers with
        offsets :=
          update registers.offsets (groupHash, publisher)
            (some (seq, generation)) } where
  offsets := by
    intro otherHash other
    rw [← decodeOffsetValue_encode seq generation timestamp]
    exact decoded_insert
      (fun _ _ same => Prod.ext_iff.mpr (offsetSlotKey_inj.mp same))
      (fun slot => represents.offsets slot.1 slot.2) (groupHash, publisher)
      (otherHash, other) _
  keyed := by
    grind [OrderedMap.get?_insert, represents.keyed,
      offsetSlotKey_ne_keyedSlotKey]
  keys := by
    intro entry member
    rcases OrderedMap.mem_of_mem_insertEntry member with isNew | isOld
    · rw [isNew]
      exact Or.inl ⟨groupHash, publisher, rfl⟩
    · exact represents.keys entry isOld

/-- Inserting a keyed record writes one register of the second file. -/
theorem insertKeyed
    (filterHash groupHash : U64)
    (hlc : HlcTimestamp)
    (generation : U64)
    (timestamp : DateTime) :
    Represents
      (keyspace.insert (keyedSlotKey filterHash groupHash)
        (encodeKeyedOffsetValue hlc generation timestamp))
      { registers with
        keyed :=
          update registers.keyed (filterHash, groupHash)
            (some (hlc, generation)) } where
  offsets := by
    grind [OrderedMap.get?_insert, represents.offsets,
      offsetSlotKey_ne_keyedSlotKey]
  keyed := by
    intro otherFilter otherGroup
    rw [← decodeKeyedOffsetValue_encode hlc generation timestamp]
    exact decoded_insert
      (fun _ _ same => Prod.ext_iff.mpr (keyedSlotKey_inj.mp same))
      (fun slot => represents.keyed slot.1 slot.2) (filterHash, groupHash)
      (otherFilter, otherGroup) _
  keys := by
    intro entry member
    rcases OrderedMap.mem_of_mem_insertEntry member with isNew | isOld
    · rw [isNew]
      exact Or.inr ⟨filterHash, groupHash, rfl⟩
    · exact represents.keys entry isOld

/-- Inserting the batch of a group commit puts its write. -/
theorem insertBatch
    (commit : GroupCommit)
    (answers : EngineAnswers) :
    Represents
      (insertBatch keyspace (commit.offsets.entries.map commit.record))
      { registers with
        offsets := registers.offsets.put (commit.write answers) } := by
  unfold Mitiflow.insertBatch Registers.put GroupCommit.write
  rw [foldl_map, foldl_map]
  induction commit.offsets.entries generalizing keyspace registers with
  | nil =>
    exact represents
  | cons offset rest inductionHypothesis =>
    exact inductionHypothesis
      (represents.insertOffset (xxhashGroup commit.groupId) offset.1
        offset.2 commit.generation commit.timestamp)

end

end Represents

theorem isOk_iff {Failure Value : Type} {result : Except Failure Value} :
    result.isOk = true ↔ ∃ value, result = .ok value := by
  cases result with
  | error failure =>
    simp [Except.isOk, Except.toBool]
  | ok value =>
    simp [Except.isOk, Except.toBool]

/-- The fence lets a commit pass that is not older than the record. -/
theorem checkFence_eq_ok_iff
    {Value : Type}
    {group : String}
    {commitGen : U64}
    {record : Option (Value × U64)} :
    checkFence group commitGen (record.map Prod.snd) = .ok () ↔
      ∀ stored, record = some stored → stored.2 ≤ commitGen := by
  cases record with
  | none =>
    simp [checkFence]
  | some stored =>
    by_cases stale : commitGen < stored.2
    · simp [checkFence, stale]
    · simp [checkFence, stale, not_lt.mp stale]

variable {offsets : OffsetKeyspace} {answers : EngineAnswers}
  {commit : GroupCommit} {groupHash : U64}

/-- A round of a group commit's loop succeeds with the offset's record. -/
theorem fencedInsert_eq_ok_iff
    {offset : PublisherId × U64}
    {entry : Bytes × Bytes} :
    fencedInsert offsets answers commit offset = .ok entry ↔
      (answers.read (offsetKey commit.groupId offset.1)).isOk = true ∧
        (∀ stored,
          (offsets.get? (offsetKey commit.groupId offset.1)).bind
              decodeOffsetValue =
            some stored →
          stored.2 ≤ commit.generation) ∧
        entry = commit.record offset := by
  rw [← checkFence_eq_ok_iff, isOk_iff]
  cases read : answers.read (offsetKey commit.groupId offset.1) with
  | error reason =>
    simp [fencedInsert, read]
  | ok done =>
    simp only [fencedInsert, read]
    cases checkFence commit.groupId commit.generation
        (((offsets.get? (offsetKey commit.groupId offset.1)).bind
          decodeOffsetValue).map Prod.snd) with
    | error failure =>
      simp [Except.map]
    | ok passed =>
      simp [Except.map, eq_comm]

theorem fencedBatch_eq_ok
    {list : List (PublisherId × U64)}
    (passed :
      ∀ offset ∈ list,
        fencedInsert offsets answers commit offset =
          .ok (commit.record offset)) :
    fencedBatch offsets answers commit list =
      .ok (list.map commit.record) := by
  induction list with
  | nil =>
    rfl
  | cons offset rest inductionHypothesis =>
    grind [fencedBatch]

theorem fencedBatch_eq_error
    {list : List (PublisherId × U64)}
    {offset : PublisherId × U64}
    (member : offset ∈ list)
    (failed :
      fencedInsert offsets answers commit offset ≠
        .ok (commit.record offset)) :
    ∃ failure, fencedBatch offsets answers commit list = .error failure := by
  induction list with
  | nil =>
    cases member
  | cons first rest inductionHypothesis =>
    cases round : fencedInsert offsets answers commit first with
    | error failure =>
      exact ⟨failure, by simp [fencedBatch, round]⟩
    | ok entry =>
      grind [fencedBatch, fencedInsert_eq_ok_iff]

namespace Represents

variable {keyspace : OffsetKeyspace} {registers : OffsetRegisters}

section

variable (represents : Represents keyspace registers)

include represents

/-- The registers accept a group commit when its loop and write succeed. -/
theorem accepts_write_iff
    {commit : GroupCommit}
    {answers : EngineAnswers} :
    registers.offsets.accepts (commit.write answers) = true ↔
      (∀ offset ∈ commit.offsets.entries,
        fencedInsert keyspace answers commit offset =
          .ok (commit.record offset)) ∧
        answers.write.isOk = true := by
  rw [Registers.accepts_iff]
  simp only [fencedInsert_eq_ok_iff, offsetKey, represents.offsets,
    GroupCommit.write, FencedWrite.names, Bool.and_eq_true, all_eq_true,
    map_map, mem_map, comp_apply, forall_exists_index,
    and_imp, forall_apply_eq_imp_iff₂, and_true]
  constructor
  · rintro ⟨⟨reads, written⟩, fresh⟩
    exact ⟨fun offset member => ⟨reads offset member, fresh offset member⟩,
      written⟩
  · grind

/-- A group commit acts on the registers as its fenced write. -/
theorem commitOffsets
    (commit : GroupCommit)
    (answers : EngineAnswers) :
    Represents (commitOffsets keyspace commit answers).1
        { registers with
          offsets := registers.offsets.perform (commit.write answers) } ∧
      (commitOffsets keyspace commit answers).2.isOk =
        registers.offsets.accepts (commit.write answers) ∧
      (registers.offsets.accepts (commit.write answers) = false →
        (commitOffsets keyspace commit answers).1 = keyspace) := by
  by_cases accepted : registers.offsets.accepts (commit.write answers) = true
  · obtain ⟨rounds, written⟩ := represents.accepts_write_iff.mp accepted
    obtain ⟨done, isOk⟩ := isOk_iff.mp written
    have outcome :
        Mitiflow.commitOffsets keyspace commit answers =
          (Mitiflow.insertBatch keyspace
            (commit.offsets.entries.map commit.record), .ok ()) := by
      simp [Mitiflow.commitOffsets, fencedBatch_eq_ok rounds, writeBatch, isOk]
    rw [outcome, accepted]
    refine ⟨?_, rfl, by simp⟩
    simp only [Registers.perform, accepted, ↓reduceIte]
    exact represents.insertBatch commit answers
  · have outcome :
        ∃ failure,
          Mitiflow.commitOffsets keyspace commit answers =
            (keyspace, .error failure) := by
      rw [represents.accepts_write_iff, not_and_or] at accepted
      by_cases rounds :
          ∀ offset ∈ commit.offsets.entries,
            fencedInsert keyspace answers commit offset =
              .ok (commit.record offset)
      · have failed := accepted.resolve_left (not_not.mpr rounds)
        cases write : answers.write with
        | ok done =>
          exact absurd (isOk_iff.mpr ⟨done, write⟩) failed
        | error reason =>
          exact ⟨.storeError ("offset commit failed: " ++ reason),
            by simp [Mitiflow.commitOffsets, fencedBatch_eq_ok rounds,
              writeBatch, write]⟩
      · simp only [not_forall] at rounds
        obtain ⟨offset, member, failed⟩ := rounds
        obtain ⟨failure, batch⟩ := fencedBatch_eq_error member failed
        exact ⟨failure, by simp [Mitiflow.commitOffsets, batch]⟩
    obtain ⟨failure, outcome⟩ := outcome
    rw [Bool.not_eq_true] at accepted
    rw [outcome, accepted, Registers.perform_of_rejected accepted]
    exact ⟨represents, rfl, fun _ => rfl⟩

/-- The registers accept a keyed commit when its check and write succeed. -/
theorem accepts_keyedWrite_iff
    {commit : KeyedOffsetCommit}
    {answers : EngineAnswers} :
    registers.keyed.accepts (commit.write answers) = true ↔
      keyedFence keyspace commit answers = .ok () ∧
        answers.write.isOk = true := by
  have fence_iff :
      keyedFence keyspace commit answers = .ok () ↔
        (answers.read
            (keyedOffsetKey commit.groupId commit.keyFilter.hash)).isOk =
          true ∧
        ∀ stored,
          registers.keyed
              (commit.keyFilter.hash, xxhashGroup commit.groupId) =
            some stored →
          stored.2 ≤ commit.generation := by
    rw [← represents.keyed, isOk_iff]
    cases read :
        answers.read (keyedOffsetKey commit.groupId commit.keyFilter.hash) with
    | error reason =>
      simp [keyedFence, read]
    | ok done =>
      simp only [keyedFence, read, checkFence_eq_ok_iff]
      simp [keyedOffsetKey]
  rw [Registers.accepts_iff, fence_iff]
  simp only [KeyedOffsetCommit.write, FencedWrite.names, Bool.and_eq_true,
    map_cons, map_nil, mem_singleton, forall_eq]
  constructor
  · rintro ⟨⟨read, written⟩, fresh⟩
    exact ⟨⟨read, fresh⟩, written⟩
  · rintro ⟨⟨read, fresh⟩, written⟩
    exact ⟨⟨read, written⟩, fresh⟩

/-- A keyed commit acts on the registers as its fenced write. -/
theorem commitKeyedOffset
    (commit : KeyedOffsetCommit)
    (answers : EngineAnswers) :
    Represents (commitKeyedOffset keyspace commit answers).1
        { registers with
          keyed := registers.keyed.perform (commit.write answers) } ∧
      (commitKeyedOffset keyspace commit answers).2.isOk =
        registers.keyed.accepts (commit.write answers) ∧
      (registers.keyed.accepts (commit.write answers) = false →
        (commitKeyedOffset keyspace commit answers).1 = keyspace) := by
  by_cases accepted : registers.keyed.accepts (commit.write answers) = true
  · obtain ⟨fence, written⟩ := represents.accepts_keyedWrite_iff.mp accepted
    obtain ⟨done, isOk⟩ := isOk_iff.mp written
    rw [accepted]
    simp only [Mitiflow.commitKeyedOffset, fence, keyedWrite, isOk,
      Registers.perform, accepted, ↓reduceIte]
    exact ⟨represents.insertKeyed commit.keyFilter.hash
      (xxhashGroup commit.groupId) commit.lastHlc commit.generation
      commit.timestamp, rfl, by simp⟩
  · have outcome :
        ∃ failure,
          Mitiflow.commitKeyedOffset keyspace commit answers =
            (keyspace, .error failure) := by
      rw [represents.accepts_keyedWrite_iff, not_and_or] at accepted
      cases fence : keyedFence keyspace commit answers with
      | error failure =>
        exact ⟨failure, by simp [Mitiflow.commitKeyedOffset, fence]⟩
      | ok passed =>
        have failed := accepted.resolve_left (not_not.mpr fence)
        cases write : answers.write with
        | ok done =>
          exact absurd (isOk_iff.mpr ⟨done, write⟩) failed
        | error reason =>
          exact ⟨.storeError ("keyed offset commit failed: " ++ reason),
            by simp [Mitiflow.commitKeyedOffset, fence, keyedWrite, write]⟩
    obtain ⟨failure, outcome⟩ := outcome
    rw [Bool.not_eq_true] at accepted
    rw [outcome, accepted, Registers.perform_of_rejected accepted]
    exact ⟨represents, rfl, fun _ => rfl⟩

theorem fetchKeyedOffset
    (groupId : String)
    (filterHash : U64) :
    fetchKeyedOffset keyspace groupId filterHash (.ok ()) =
      .ok ((registers.keyed (filterHash, xxhashGroup groupId)).map
        Prod.fst) := by
  rw [← represents.keyed]
  rfl

end

end Represents

/-- A key that a group's scan keeps carries the hash of the group. -/
theorem groupHash_of_scanned
    {otherHash : U64}
    {publisher : PublisherId}
    (scanned :
      bigEndian 8 groupHash.val <+: offsetSlotKey otherHash publisher) :
    otherHash = groupHash := by
  have sameHash :
      bigEndian 8 groupHash.val = bigEndian 8 otherHash.val := by
    have cut := prefix_iff_eq_take.mp scanned
    rw [cut, length_bigEndian, offsetSlotKey]
    exact take_left' (length_bigEndian 8 _)
  exact (bigEndian_inj (by norm_num) sameHash).symm

/-- Collecting an offset record binds its publisher, if its value decodes. -/
theorem scanOffset_offset
    (result : OrderedMap PublisherId U64)
    {entry : Bytes × Bytes}
    {publisher : PublisherId}
    (isOffset : entry.1 = offsetSlotKey groupHash publisher) :
    scanOffset result entry =
      ((decodeOffsetValue entry.2).map
        fun stored => result.insert publisher stored.1).getD result := by
  have long : ¬entry.1.length < 24 := by
    simp [isOffset]
  have decoded :
      Fin.ofNat (2 ^ 128) (fromBigEndian ((entry.1.drop 8).take 16)) =
        publisher := by
    rw [isOffset, offsetSlotKey, drop_left' (length_bigEndian 8 _),
      take_of_length_le (by simp), ofNat_fromBigEndian (by norm_num)]
  rw [scanOffset, if_neg long, decoded]
  cases decodeOffsetValue entry.2 with
  | none =>
    rfl
  | some stored =>
    rfl

/--
A scan of distinct record keys under a group's hash collects the sequence of
each publisher found.
-/
theorem get?_foldl_scanOffset
    {entries : List (Bytes × Bytes)}
    (distinct : (entries.map Prod.fst).Nodup)
    (scanned : ∀ entry ∈ entries, bigEndian 8 groupHash.val <+: entry.1)
    (keys :
      ∀ entry ∈ entries,
        (∃ otherHash publisher,
            entry.1 = offsetSlotKey otherHash publisher) ∨
          ∃ filterHash otherHash, entry.1 = keyedSlotKey filterHash otherHash)
    (publisher : PublisherId) :
    (entries.foldl scanOffset .empty).get? publisher =
      ((entries.find?
        (fun entry => entry.1 = offsetSlotKey groupHash publisher)).bind
          fun entry => (decodeOffsetValue entry.2).map Prod.fst) := by
  induction entries using List.reverseRecOn with
  | nil =>
    rfl
  | append_singleton earlier entry inductionHypothesis =>
    rw [map_append, nodup_append] at distinct
    have collected := inductionHypothesis distinct.1
      (fun other member => scanned other (mem_append_left _ member))
      (fun other member => keys other (mem_append_left _ member))
    rw [foldl_append, foldl_cons, foldl_nil,
      List.find?_append, List.find?_singleton]
    rcases keys entry (by simp) with
      ⟨otherHash, other, isOffset⟩ | ⟨filterHash, otherHash, isKeyed⟩
    · have underHash := scanned entry (by simp)
      rw [isOffset] at underHash
      have sameHash := groupHash_of_scanned underHash
      subst sameHash
      rw [scanOffset_offset _ isOffset]
      by_cases samePublisher : other = publisher
      · subst samePublisher
        have absent :
            earlier.find?
                (fun entry => entry.1 = offsetSlotKey otherHash other) =
              none := by
          rw [List.find?_eq_none]
          intro earlierEntry member sameKey
          exact distinct.2.2 earlierEntry.1 (mem_map_of_mem member)
            entry.1 (by simp)
            ((of_decide_eq_true sameKey).trans isOffset.symm)
        rw [absent] at collected
        cases value : decodeOffsetValue entry.2 with
        | none =>
          simp [value, collected, absent, isOffset]
        | some stored =>
          simp [value, absent, isOffset, OrderedMap.get?_insert]
      · have otherKey : entry.1 ≠ offsetSlotKey otherHash publisher := by
          rw [isOffset]
          intro sameKey
          exact samePublisher (offsetSlotKey_inj.mp sameKey).2
        cases decodeOffsetValue entry.2 with
        | none =>
          simp [collected, otherKey]
        | some stored =>
          simp [collected, otherKey, OrderedMap.get?_insert,
            Ne.symm samePublisher]
    · have short : entry.1.length < 24 := by
        simp [isKeyed]
      have otherKey : entry.1 ≠ offsetSlotKey groupHash publisher := by
        rw [isKeyed]
        exact (offsetSlotKey_ne_keyedSlotKey _ _ _ _).symm
      simp [scanOffset, short, collected, otherKey]

/-- A fetch of a group reads the registers under its hash. -/
theorem Represents.fetchOffsets
    {keyspace : OffsetKeyspace}
    {registers : OffsetRegisters}
    (represents : Represents keyspace registers)
    (groupId : String) :
    ∃ fetched,
      fetchOffsets keyspace groupId (.ok ()) = .ok fetched ∧
        ∀ publisher,
          fetched.get? publisher =
            (registers.offsets (xxhashGroup groupId, publisher)).map
              Prod.fst := by
  refine ⟨_, rfl, ?_⟩
  intro publisher
  have scanned :
      bigEndian 8 (xxhashGroup groupId).val <+:
        offsetSlotKey (xxhashGroup groupId) publisher :=
    prefix_append _ _
  have distinct :
      ((keyspace.entries.filter fun entry =>
        decide (bigEndian 8 (xxhashGroup groupId).val <+: entry.1)).map
          Prod.fst).Nodup :=
    keyspace.keys_nodup.sublist (filter_sublist.map _)
  rw [get?_foldl_scanOffset distinct
    (fun entry member => of_decide_eq_true (mem_filter.mp member).2)
    (fun entry member => represents.keys entry (mem_filter.mp member).1),
    ← represents.offsets, OrderedMap.get?, List.find?_filter]
  have sameSearch :
      (fun entry : Bytes × Bytes =>
        decide
          (decide (bigEndian 8 (xxhashGroup groupId).val <+: entry.1) = true ∧
            decide (entry.1 = offsetSlotKey (xxhashGroup groupId) publisher) =
              true)) =
      fun entry =>
        decide (entry.1 = offsetSlotKey (xxhashGroup groupId) publisher) := by
    funext entry
    by_cases isSlot : entry.1 = offsetSlotKey (xxhashGroup groupId) publisher
    · simp [isSlot, scanned]
    · simp [isSlot]
  -- The lookup decides key equality through the order of byte strings.
  rw [sameSearch, Option.map_bind, Option.bind_map]
  congr!

end Mitiflow
