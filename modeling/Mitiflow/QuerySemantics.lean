import Mitiflow.ReplayIndex

namespace Mitiflow

open Library List

/-!
# What the two queries return

`query` scans the events keyspace, or one publisher's range of it, and
`query_replay` scans the replay index and looks the events up.  Both are
compared here with a plain description: the stored events that meet every
filter, in the order of their keys, up to the limit.

The keyspaces are ordered by the bytes of their keys; the orders of the records
that stand for them are those orders.
-/

/-! ## Keys as bytes -/

/-- Read an event key; a longer key is cut. -/
def decodeEventKey (bytes : Bytes) : Option EventKey :=
  if bytes.length < 24 then
    none
  else
    some
      { publisherId := Fin.ofNat (2 ^ 128) (fromBigEndian (bytes.take 16))
        seq := Fin.ofNat (2 ^ 64) (fromBigEndian ((bytes.drop 16).take 8)) }

/-- Replay key encoding: 8 and 4 bytes of clock, then an event key. -/
def encodeReplayKey (key : ReplayKey) : Bytes :=
  bigEndian 8 key.hlc.physicalNs.val ++
    (bigEndian 4 key.hlc.logical.val ++
      encodeEventKey ⟨key.publisherId, key.seq⟩)

/-- Read a replay key; a longer key is cut. -/
def decodeReplayKey (bytes : Bytes) : Option ReplayKey :=
  if bytes.length < 36 then
    none
  else
    (decodeEventKey (bytes.drop 12)).map fun key =>
      { hlc :=
          { physicalNs :=
              Fin.ofNat (2 ^ 64) (fromBigEndian (bytes.take 8))
            logical :=
              Fin.ofNat (2 ^ 32) (fromBigEndian ((bytes.drop 8).take 4)) }
        publisherId := key.publisherId
        seq := key.seq }

@[simp]
theorem length_encodeEventKey (key : EventKey) :
    (encodeEventKey key).length = 24 := by
  simp [encodeEventKey]

theorem decodeEventKey_encode (key : EventKey) :
    decodeEventKey (encodeEventKey key) = some key := by
  have publisherPart :
      (encodeEventKey key).take 16 = bigEndian 16 key.publisherId.val :=
    take_left' (length_bigEndian 16 _)
  have seqPart :
      ((encodeEventKey key).drop 16).take 8 = bigEndian 8 key.seq.val := by
    rw [encodeEventKey, drop_left' (length_bigEndian 16 _)]
    exact take_of_length_le (length_bigEndian 8 _).le
  rw [decodeEventKey, if_neg (by simp), publisherPart, seqPart,
    ofNat_fromBigEndian (by norm_num), ofNat_fromBigEndian (by norm_num)]

theorem decodeReplayKey_encode (key : ReplayKey) :
    decodeReplayKey (encodeReplayKey key) = some key := by
  have physicalPart :
      (encodeReplayKey key).take 8 = bigEndian 8 key.hlc.physicalNs.val :=
    take_left' (length_bigEndian 8 _)
  have logicalPart :
      ((encodeReplayKey key).drop 8).take 4 =
        bigEndian 4 key.hlc.logical.val := by
    rw [encodeReplayKey, drop_left' (length_bigEndian 8 _)]
    exact take_left' (length_bigEndian 4 _)
  have eventPart :
      (encodeReplayKey key).drop 12 =
        encodeEventKey ⟨key.publisherId, key.seq⟩ := by
    rw [encodeReplayKey, ← append_assoc]
    exact drop_left' (by simp)
  rw [decodeReplayKey, if_neg (by simp [encodeReplayKey]), physicalPart,
    logicalPart, eventPart, decodeEventKey_encode, Option.map_some,
    ofNat_fromBigEndian (by norm_num), ofNat_fromBigEndian (by norm_num)]

/-- Event keys are ordered as their bytes are. -/
theorem encodeEventKey_lt_iff {first second : EventKey} :
    encodeEventKey first < encodeEventKey second ↔ first < second := by
  have samePublisher :
      bigEndian 16 first.publisherId.val =
          bigEndian 16 second.publisherId.val ↔
        first.publisherId = second.publisherId :=
    ⟨bigEndian_inj (by norm_num), fun same => by rw [same]⟩
  change _ ↔ first.sortKey < second.sortKey
  rw [encodeEventKey, encodeEventKey, append_lt_append_iff (by simp),
    bigEndian_lt_iff (by norm_num), bigEndian_lt_iff (by norm_num),
    samePublisher, EventKey.sortKey, EventKey.sortKey,
    Prod.Lex.toLex_lt_toLex]

/-- Replay keys are ordered as their bytes are. -/
theorem encodeReplayKey_lt_iff {first second : ReplayKey} :
    encodeReplayKey first < encodeReplayKey second ↔ first < second := by
  have samePhysical :
      bigEndian 8 first.hlc.physicalNs.val =
          bigEndian 8 second.hlc.physicalNs.val ↔
        first.hlc.physicalNs = second.hlc.physicalNs :=
    ⟨bigEndian_inj (by norm_num), fun same => by rw [same]⟩
  have sameLogical :
      bigEndian 4 first.hlc.logical.val =
          bigEndian 4 second.hlc.logical.val ↔
        first.hlc.logical = second.hlc.logical :=
    ⟨bigEndian_inj (by norm_num), fun same => by rw [same]⟩
  have sameClock :
      first.hlc = second.hlc ↔
        first.hlc.physicalNs = second.hlc.physicalNs ∧
          first.hlc.logical = second.hlc.logical := by
    rw [← HlcTimestamp.mk.injEq]
  have clockBelow :
      first.hlc < second.hlc ↔
        first.hlc.physicalNs < second.hlc.physicalNs ∨
          first.hlc.physicalNs = second.hlc.physicalNs ∧
            first.hlc.logical < second.hlc.logical := by
    change first.hlc.sortKey < second.hlc.sortKey ↔ _
    rw [HlcTimestamp.sortKey, HlcTimestamp.sortKey, Prod.Lex.toLex_lt_toLex]
  have keyBelow :
      first < second ↔
        first.hlc < second.hlc ∨
          first.hlc = second.hlc ∧
            (⟨first.publisherId, first.seq⟩ : EventKey) <
              ⟨second.publisherId, second.seq⟩ := by
    change first.sortKey < second.sortKey ↔ _
    rw [ReplayKey.sortKey, ReplayKey.sortKey, Prod.Lex.toLex_lt_toLex]
    rfl
  rw [encodeReplayKey, encodeReplayKey, append_lt_append_iff (by simp),
    append_lt_append_iff (by simp), bigEndian_lt_iff (by norm_num),
    bigEndian_lt_iff (by norm_num), samePhysical, sameLogical,
    encodeEventKey_lt_iff, keyBelow, clockBelow, sameClock]
  tauto

/-! ## Values as bytes -/

section Values

variable
  (toVec : EventMetadata → Bytes)
  (fromSlice : Bytes → Except String EventMetadata)

/-- The length of the metadata in four bytes, the least significant first,
then the metadata and the payload. -/
def encodeEventValue (metadata : EventMetadata) (payload : Bytes) : Bytes :=
  (bigEndian 4 (toVec metadata).length).reverse ++
    (toVec metadata ++ payload)

def decodeEventValue (value : Bytes) :
    Except Error (EventMetadata × Bytes) :=
  if value.length < 4 then
    .error (.storeError "corrupted event value: too short")
  else
    let metaLen := fromBigEndian (value.take 4).reverse
    if value.length < 4 + metaLen then
      .error (.storeError "corrupted event value: metadata truncated")
    else
      match fromSlice ((value.drop 4).take metaLen) with
      | .error reason =>
        .error (.storeError ("invalid metadata JSON: " ++ reason))
      | .ok metadata => .ok (metadata, value.drop (4 + metaLen))

theorem decodeEventValue_encode
    {metadata : EventMetadata}
    (roundTrips : fromSlice (toVec metadata) = .ok metadata)
    (short : (toVec metadata).length < 2 ^ 32)
    (payload : Bytes) :
    decodeEventValue fromSlice (encodeEventValue toVec metadata payload) =
      .ok (metadata, payload) := by
  have prefixLength :
      (bigEndian 4 (toVec metadata).length).reverse.length = 4 := by
    simp
  have metaLen :
      fromBigEndian
          ((encodeEventValue toVec metadata payload).take 4).reverse =
        (toVec metadata).length := by
    rw [encodeEventValue, take_left' prefixLength, reverse_reverse]
    exact fromBigEndian_of_lt short
  have metaPart :
      ((encodeEventValue toVec metadata payload).drop 4).take
          (toVec metadata).length =
        toVec metadata := by
    rw [encodeEventValue, drop_left' prefixLength, take_left]
  have payloadPart :
      (encodeEventValue toVec metadata payload).drop
          (4 + (toVec metadata).length) =
        payload := by
    rw [encodeEventValue, ← append_assoc]
    exact drop_left' (by simp)
  have long :
      ¬(encodeEventValue toVec metadata payload).length <
        4 + (toVec metadata).length := by
    simp [encodeEventValue]
  rw [decodeEventValue, if_neg (by omega), metaLen, if_neg long, metaPart,
    roundTrips, payloadPart]

/-- Keys are told apart, read back and ordered by their bytes, and values are
read back. -/
theorem storage_encodings :
    (encodeEventKey.Injective ∧ encodeReplayKey.Injective) ∧
      ((∀ key, decodeEventKey (encodeEventKey key) = some key) ∧
        ∀ key, decodeReplayKey (encodeReplayKey key) = some key) ∧
      ((∀ first second,
          encodeEventKey first < encodeEventKey second ↔ first < second) ∧
        ∀ first second,
          encodeReplayKey first < encodeReplayKey second ↔
            first < second) ∧
      ∀ metadata payload,
        fromSlice (toVec metadata) = .ok metadata →
        (toVec metadata).length < 2 ^ 32 →
          decodeEventValue fromSlice
              (encodeEventValue toVec metadata payload) =
            .ok (metadata, payload) := by
  refine ⟨⟨fun first second same => ?_, fun first second same => ?_⟩,
    ⟨decodeEventKey_encode, decodeReplayKey_encode⟩,
    ⟨fun _ _ => encodeEventKey_lt_iff, fun _ _ => encodeReplayKey_lt_iff⟩,
    fun _ payload roundTrips short =>
      decodeEventValue_encode toVec fromSlice roundTrips short payload⟩
  · have decoded := congrArg decodeEventKey same
    rw [decodeEventKey_encode, decodeEventKey_encode] at decoded
    exact Option.some.inj decoded
  · have decoded := congrArg decodeReplayKey same
    rw [decodeReplayKey_encode, decodeReplayKey_encode] at decoded
    exact Option.some.inj decoded

end Values

/-! ## The events keyspace -/

/-- Whether a value lies strictly between two optional bounds. -/
def within [LT α] [DecidableLT α] (lower upper : Option α) (value : α) :
    Bool :=
  lower.all (· < value) && upper.all (value < ·)

theorem within_eq
    [LinearOrder α]
    (lower upper : Option α)
    (value : α) :
    within lower upper value =
      (!atOrBelow lower value && !atOrAbove upper value) := by
  cases lower with
  | none =>
    cases upper with
    | none =>
      rfl
    | some above =>
      simp [within, atOrBelow, atOrAbove, ← not_le]
  | some below =>
    cases upper with
    | none =>
      simp [within, atOrBelow, atOrAbove, ← not_le]
    | some above =>
      simp [within, atOrBelow, atOrAbove, ← not_le]

def QueryFilters.inTime (filters : QueryFilters) (entry : EventEntry) :
    Bool :=
  within filters.afterTime filters.beforeTime entry.2.1.timestamp

def QueryFilters.selects (filters : QueryFilters) (entry : EventEntry) :
    Bool :=
  filters.publisherId.all (entry.1.publisherId = ·) &&
    within filters.afterSeq filters.beforeSeq entry.1.seq &&
    filters.inTime entry

/-- The stored events that meet all filters, in key order. -/
def FjallBackend.selected
    (backend : FjallBackend)
    (filters : QueryFilters) : List StoredEvent :=
  (backend.db.events.entries.filter filters.selects).map EventEntry.returned

namespace QueryFilters

/-- What the loop checks itself. -/
def checks (filters : QueryFilters) (entry : EventEntry) : Bool :=
  (filters.publisherId.isSome ||
      within filters.afterSeq filters.beforeSeq entry.1.seq) &&
    filters.inTime entry

theorem visit_eq (filters : QueryFilters) (entry : EventEntry) :
    filters.visit entry =
      if filters.checks entry then .take entry.returned else .skip := by
  unfold QueryFilters.visit checks inTime
  rw [within_eq, within_eq]
  cases filters.publisherId with
  | none =>
    grind [EventEntry.returned]
  | some publisher =>
    cases atOrBelow filters.afterTime entry.2.1.timestamp <;>
    cases atOrAbove filters.beforeTime entry.2.1.timestamp <;>
    rfl

theorem collected_visit
    (filters : QueryFilters)
    (entries : List EventEntry) :
    collected filters.visit entries =
      (entries.filter filters.checks).map EventEntry.returned := by
  induction entries with
  | nil =>
    rfl
  | cons entry rest inductionHypothesis =>
    grind [collected, visit_eq]

/-- The lower end of a publisher's range, unless it overflows. -/
theorem lowerEnd_le_iff
    {afterSeq : Option U64}
    (noOverflow : afterSeq.map Fin.val ≠ some u64Max)
    (seq : U64) :
    (afterSeq.map (· + 1)).getD 0 ≤ seq ↔ afterSeq.all (· < seq) = true := by
  cases afterSeq with
  | none =>
    simp
  | some after =>
    have below : after.val + 1 < 2 ^ 64 := by
      have notMax : after.val ≠ u64Max := by simpa using noOverflow
      have bound := after.isLt
      unfold u64Max at notMax
      omega
    have successor : (after + 1).val = after.val + 1 := by
      rw [Fin.val_add]
      exact Nat.mod_eq_of_lt below
    rw [Option.map_some, Option.getD_some, Option.all_some,
      decide_eq_true_eq, Fin.le_def, successor, Fin.lt_def,
      Nat.succ_le_iff]

/-- The upper end of a publisher's range, which is never below zero. -/
theorem le_upperEnd_iff
    (beforeSeq : Option U64)
    (seq : U64) :
    seq ≤ (beforeSeq.map fun before =>
        Fin.ofNat (2 ^ 64) (before.val - 1)).getD (Fin.last _) ↔
      beforeSeq.all (seq < ·) = true ∨ beforeSeq = some 0 ∧ seq = 0 := by
  cases beforeSeq with
  | none =>
    exact iff_of_true (Fin.le_last seq) (Or.inl rfl)
  | some before =>
    grind

end QueryFilters

variable {publisher : PublisherId}

theorem EventKey.between_iff
    {lower upper : U64}
    {key : EventKey} :
    (⟨publisher, lower⟩ ≤ key ∧ key ≤ ⟨publisher, upper⟩) ↔
      key.publisherId = publisher ∧ lower ≤ key.seq ∧ key.seq ≤ upper := by
  change (sortKey ⟨publisher, lower⟩ ≤ key.sortKey ∧
    key.sortKey ≤ sortKey ⟨publisher, upper⟩) ↔ _
  simp only [sortKey, Prod.Lex.toLex_le_toLex]
  constructor
  · grind
  · rintro ⟨same, aboveSeq, belowSeq⟩
    exact ⟨Or.inr ⟨same.symm, aboveSeq⟩, Or.inr ⟨same, belowSeq⟩⟩

/--
A query for one publisher whose upper bound is zero and which has no lower
bound finds the first event of that publisher.
-/
def QueryFilters.FindsZero
    (filters : QueryFilters)
    (backend : FjallBackend) : Prop :=
  ∃ publisher,
    filters.publisherId = some publisher ∧
      filters.afterSeq = none ∧
      filters.beforeSeq = some 0 ∧
      ∃ entry ∈ backend.db.events.entries,
        entry.1 = ⟨publisher, 0⟩ ∧ filters.inTime entry = true

/-- Whether a key lies in the range that is scanned for a publisher. -/
def QueryFilters.inRange
    (filters : QueryFilters)
    (publisher : PublisherId)
    (entry : EventEntry) : Bool :=
  ⟨publisher, (filters.afterSeq.map (· + 1)).getD 0⟩ ≤ entry.1 &&
    entry.1 ≤ ⟨publisher, (filters.beforeSeq.map fun seq =>
      Fin.ofNat (2 ^ 64) (seq.val - 1)).getD (Fin.last _)⟩

variable {filters : QueryFilters}

/-- What one publisher's range holds, once the loop has checked it. -/
theorem QueryFilters.inRange_checks_iff
    (isPublisher : filters.publisherId = some publisher)
    (noOverflow : filters.afterSeq.map Fin.val ≠ some u64Max)
    (entry : EventEntry) :
    (filters.checks entry && filters.inRange publisher entry) = true ↔
    filters.selects entry = true ∨
      filters.beforeSeq = some 0 ∧
        filters.afterSeq = none ∧
        entry.1 = ⟨publisher, 0⟩ ∧
        filters.inTime entry = true := by
  have between := @EventKey.between_iff publisher
    ((filters.afterSeq.map (· + 1)).getD 0)
    ((filters.beforeSeq.map fun seq =>
      Fin.ofNat (2 ^ 64) (seq.val - 1)).getD (Fin.last _)) entry.1
  rw [lowerEnd_le_iff noOverflow, le_upperEnd_iff] at between
  have isFirst :
      entry.1 = ⟨publisher, 0⟩ ↔
        entry.1.publisherId = publisher ∧ entry.1.seq = 0 :=
    EventKey.ext_iff
  have aboveZero :
      entry.1.seq = 0 →
        (filters.afterSeq.all (· < entry.1.seq) = true ↔
          filters.afterSeq = none) := by
    intro isZero
    cases filters.afterSeq with
    | none =>
      simp
    | some after =>
      simp [isZero]
  simp only [Bool.and_eq_true, decide_eq_true_eq, inRange, between, checks,
    isPublisher, Option.isSome_some, Bool.true_or, true_and, selects, within,
    Option.all_some, isFirst]
  tauto

namespace FjallBackend

/-- The full scan checks every filter itself. -/
theorem query_all_iff
    (backend : FjallBackend)
    (anyPublisher : filters.publisherId = none) :
    backend.query filters =
        some (upTo filters.limit (backend.selected filters)) ↔
      (filters.limit = some 0 → backend.selected filters = []) := by
  have sameChecks : filters.checks = filters.selects := by
    funext entry
    simp [QueryFilters.checks, QueryFilters.selects, anyPublisher]
  have found :
      collected filters.visit backend.db.events.entries =
        backend.selected filters := by
    rw [QueryFilters.collected_visit, sameChecks, selected]
  simp only [query, anyPublisher, Option.some.injEq]
  rw [← found]
  exact scan_eq_upTo_iff _ _ _

/-- The range scan lets the first event through a bound of zero. -/
theorem query_publisher_iff
    (backend : FjallBackend)
    (isPublisher : filters.publisherId = some publisher)
    (noOverflow : filters.afterSeq.map Fin.val ≠ some u64Max) :
    backend.query filters =
        some (upTo filters.limit (backend.selected filters)) ↔
      (filters.limit = some 0 → backend.selected filters = []) ∧
        ¬ filters.FindsZero backend := by
  have scansRange :
      backend.query filters =
        some (scan filters.limit filters.visit
          (backend.db.events.entries.filter (filters.inRange publisher))
          []) := by
    simp only [query, isPublisher, if_neg noOverflow]
    rfl
  have inRange := QueryFilters.inRange_checks_iff isPublisher noOverflow
  rw [scansRange, Option.some.injEq]
  by_cases zeroBound : filters.beforeSeq = some 0
  · have selectsNone (entry : EventEntry) :
        filters.selects entry = false := by
      simp [QueryFilters.selects, within, zeroBound]
    have nothing : backend.selected filters = [] := by
      simp [selected, selectsNone]
    rw [nothing, upTo_nil, scan_eq_nil_iff, QueryFilters.collected_visit,
      map_eq_nil_iff, filter_filter, filter_eq_nil_iff]
    constructor
    · intro unfound
      refine ⟨fun _ => rfl, ?_⟩
      rintro ⟨other, isOther, noLower, -, entry, member, found⟩
      cases isPublisher.symm.trans isOther
      exact unfound entry member
        ((inRange entry).mpr (Or.inr ⟨zeroBound, noLower, found⟩))
    · rintro ⟨-, unfound⟩ entry member isTaken
      rcases (inRange entry).mp isTaken with
        isSelected | ⟨-, noLower, found⟩
      · cases (selectsNone entry).symm.trans isSelected
      · exact unfound
          ⟨publisher, isPublisher, noLower, zeroBound, entry, member, found⟩
  · have neverFinds : ¬ filters.FindsZero backend := by
      rintro ⟨-, -, -, isZero, -⟩
      exact zeroBound isZero
    have found :
        collected filters.visit
            (backend.db.events.entries.filter (filters.inRange publisher)) =
          backend.selected filters := by
      rw [QueryFilters.collected_visit, filter_filter, selected]
      refine congrArg (List.map EventEntry.returned)
        (filter_congr fun entry _ => Bool.eq_iff_iff.mpr ?_)
      exact (inRange entry).trans (or_iff_left fun first => zeroBound first.1)
    rw [← found, scan_eq_upTo_iff]
    exact (and_iff_left neverFinds).symm

/--
A query returns the stored events that meet all of its filters, in key order
and up to its limit, exactly if it has no publisher together with the largest
lower bound, no limit of zero while events match, and does not find the first
event of its publisher below an upper bound of zero.
-/
theorem query_eq_selected_iff
    (backend : FjallBackend)
    (filters : QueryFilters) :
    backend.query filters =
        some (upTo filters.limit (backend.selected filters)) ↔
      (filters.publisherId.isSome = true →
          filters.afterSeq.map Fin.val ≠ some u64Max) ∧
        (filters.limit = some 0 → backend.selected filters = []) ∧
        ¬ filters.FindsZero backend := by
  cases isPublisher : filters.publisherId with
  | none =>
    have neverFinds : ¬ filters.FindsZero backend := by
      rintro ⟨publisher, isSome, -⟩
      cases isPublisher.symm.trans isSome
    rw [query_all_iff backend isPublisher]
    simp [neverFinds]
  | some publisher =>
    by_cases overflows : filters.afterSeq.map Fin.val = some u64Max
    · have panics : backend.query filters = none := by
        simp only [query, isPublisher, if_pos overflows]
      rw [panics]
      exact iff_of_false (by simp) fun conditions => conditions.1 rfl overflows
    · rw [query_publisher_iff backend isPublisher overflows]
      exact (and_iff_right fun _ => overflows).symm

/--
One stored event: a limit of zero returns it, an upper bound of zero returns
it to its publisher, and the largest lower bound ends the query.
-/
theorem query_extreme_bounds :
    let backend := afterActions 0 [.store (.store (plainEvent 7 0))]
    (backend.query { limit := some 0 } = some [plainEvent 7 0] ∧
        upTo (some 0) (backend.selected { limit := some 0 }) = []) ∧
      (backend.query { publisherId := some 7, beforeSeq := some 0 } =
          some [plainEvent 7 0] ∧
        backend.selected { publisherId := some 7, beforeSeq := some 0 } =
          []) ∧
      backend.query { publisherId := some 7, afterSeq := some (Fin.last _) } =
        none := by
  refine ⟨⟨?_, ?_⟩, ⟨?_, ?_⟩, ?_⟩ <;> decide

end FjallBackend

/-! ## The replay index -/

/-- The index entries are exactly those of the events with a clock value. -/
def Database.ReplayExact (db : Database) : Prop :=
  ∀ index,
    index ∈ db.replay.entries ↔
      ∃ entry ∈ db.events.entries, ∃ hlc,
        entry.2.1.hlcTimestamp = some hlc ∧ index = replayEntry hlc entry.1

/-- The stored events with a clock value, each with its replay key. -/
def Database.stamped (db : Database) : List (ReplayKey × EventEntry) :=
  db.events.entries.filterMap fun entry =>
    (EventEntry.replayKey? entry).map fun key => (key, entry)

def ReplayFilters.selects
    (filters : ReplayFilters)
    (item : ReplayKey × EventEntry) : Bool :=
  within filters.afterHlc filters.beforeHlc item.1.hlc &&
    filters.publisherId.all (item.1.publisherId = ·) &&
    match filters.key with
    | some exact => item.2.2.1.key = some exact
    | none =>
      filters.keyPrefix.all fun leading =>
        item.2.2.1.key.any fun key => leading.toList.isPrefixOf key.toList

theorem ReplayFilters.selects_eq
    (filters : ReplayFilters)
    (item : ReplayKey × EventEntry) :
    filters.selects item =
      ((!atOrBelow filters.afterHlc item.1.hlc &&
          !atOrAbove filters.beforeHlc item.1.hlc) &&
        filters.matchesPublisher item.1.publisherId &&
        filters.matchesKey item.2.2.1.key) := by
  have samePublisher :
      filters.publisherId.all (item.1.publisherId = ·) =
        filters.matchesPublisher item.1.publisherId := by
    unfold matchesPublisher
    cases filters.publisherId with
    | none =>
      rfl
    | some wanted =>
      rfl
  unfold selects matchesKey
  rw [within_eq, samePublisher]
  cases filters.key with
  | some exact =>
    rfl
  | none =>
    grind

namespace Database

variable {db : Database}

theorem mem_stamped {item : ReplayKey × EventEntry} :
    item ∈ db.stamped ↔
      item.2 ∈ db.events.entries ∧ item.2.replayKey? = some item.1 := by
  rw [stamped, mem_filterMap]
  constructor
  · rintro ⟨entry, member, isItem⟩
    obtain ⟨key, isKey, rfl⟩ := Option.map_eq_some_iff.mp isItem
    exact ⟨member, isKey⟩
  · rintro ⟨member, isKey⟩
    exact ⟨item.2, member, by rw [isKey]; rfl⟩

theorem nodup_stamped (db : Database) : db.stamped.Nodup := by
  refine (OrderedMap.nodup_of_ascending db.events.sorted).filterMap ?_
  intro first second item isFirst isSecond
  obtain ⟨_, _, firstShape⟩ := Option.map_eq_some_iff.mp isFirst
  obtain ⟨_, _, secondShape⟩ := Option.map_eq_some_iff.mp isSecond
  exact congrArg Prod.snd (firstShape.trans secondShape.symm)

/-- The event an index entry leads to, with its replay key. -/
def follow (db : Database) (index : ReplayKey × EventKey) :
    Option (ReplayKey × EventEntry) :=
  (db.events.get? index.2).map fun value => (index.1, (index.2, value))

theorem mem_followed {item : ReplayKey × EventEntry} :
    item ∈ db.replay.entries.filterMap db.follow ↔
      (item.1, item.2.1) ∈ db.replay.entries ∧
        item.2 ∈ db.events.entries := by
  rw [mem_filterMap]
  constructor
  · rintro ⟨index, indexed, followed⟩
    obtain ⟨value, found, rfl⟩ := Option.map_eq_some_iff.mp followed
    exact ⟨indexed, OrderedMap.get?_eq_some.mp found⟩
  · rintro ⟨indexed, member⟩
    refine ⟨_, indexed, ?_⟩
    rw [follow, OrderedMap.get?_eq_some.mpr member]
    rfl

/-- An exact index leads to the events with a clock value. -/
theorem ReplayExact.mem_followed_iff
    (exact : db.ReplayExact)
    (item : ReplayKey × EventEntry) :
    item ∈ db.replay.entries.filterMap db.follow ↔ item ∈ db.stamped := by
  rw [mem_followed, mem_stamped, and_comm]
  refine and_congr_right fun member => ?_
  rw [exact, EventEntry.replayKey?, Option.map_eq_some_iff]
  constructor
  · grind [db.events.entry_unique, replayEntry]
  · rintro ⟨hlc, isClock, isKey⟩
    exact ⟨item.2, member, hlc, isClock, by rw [← isKey]; rfl⟩

theorem ascending_followed (db : Database) :
    (db.replay.entries.filterMap db.follow).Pairwise
      fun first second => first.1 < second.1 := by
  rw [pairwise_filterMap]
  refine db.replay.sorted.imp ?_
  intro first second ordered firstItem isFirst secondItem isSecond
  obtain ⟨_, _, rfl⟩ := Option.map_eq_some_iff.mp isFirst
  obtain ⟨_, _, rfl⟩ := Option.map_eq_some_iff.mp isSecond
  exact ordered

/-- What the loop takes from an index entry. -/
theorem value?_visit (filters : ReplayFilters) (index : ReplayKey × EventKey) :
    (filters.visit db index).value? =
      ((db.follow index).filter filters.selects).map
        fun item => EventEntry.returned item.2 := by
  refine Option.ext fun event => ?_
  rw [value?_eq_some_iff, ReplayFilters.visit_eq_take_iff,
    Option.map_eq_some_iff]
  simp only [Option.filter_eq_some_iff, follow, Option.map_eq_some_iff,
    ReplayFilters.selects_eq, Bool.and_eq_true, Bool.not_eq_true']
  constructor
  · grind [EventEntry.returned]
  · grind [EventEntry.returned]

/-- An index in step whose entries agree with their keys is exact. -/
theorem ReplayIndexed.exact
    (indexed : db.ReplayIndexed)
    (wellFormed : db.WellFormed) :
    db.ReplayExact := by
  intro index
  constructor
  · intro member
    have shape := wellFormed.eq_replayEntry member
    rw [shape] at member
    obtain ⟨value, found, isClock⟩ := (indexed _ _).mp member
    exact ⟨_, OrderedMap.get?_eq_some.mp found, _, isClock, shape⟩
  · rintro ⟨entry, member, hlc, isClock, rfl⟩
    exact (indexed _ _).mpr
      ⟨entry.2, OrderedMap.get?_eq_some.mpr member, isClock⟩

end Database

namespace FjallBackend

/--
Over an exact index a replay query returns the events with a clock value that
meet all of its filters, in replay key order and up to its limit.
-/
theorem queryReplay_eq_sorted
    {backend : FjallBackend}
    (exact : backend.db.ReplayExact)
    {filters : ReplayFilters}
    (positive : filters.limit ≠ some 0) :
    backend.queryReplay filters =
      upTo filters.limit
        (((backend.db.stamped.filter filters.selects).mergeSort
            fun first second => first.1 ≤ second.1).map
          fun item => item.2.returned) := by
  have sorted :
      (backend.db.replay.entries.filterMap backend.db.follow).filter
          filters.selects =
        (backend.db.stamped.filter filters.selects).mergeSort
          fun first second => first.1 ≤ second.1 := by
    refine OrderedMap.eq_mergeSort_of_ascending
      (backend.db.ascending_followed.filter _)
      (backend.db.nodup_stamped.filter _) fun item => ?_
    rw [mem_filter, mem_filter, exact.mem_followed_iff]
  have found :
      collected (filters.visit backend.db) backend.db.replay.entries =
        ((backend.db.stamped.filter filters.selects).mergeSort
            fun first second => first.1 ≤ second.1).map
          fun item => item.2.returned := by
    rw [ReplayFilters.collected_visit, ← sorted, filter_filterMap,
      map_filterMap]
    exact filterMap_congr fun index _ =>
      Database.value?_visit filters index
  rw [queryReplay, ← found]
  exact (scan_eq_upTo_iff _ _ _).mpr fun isZero => absurd isZero positive

/-- Two publishers that store in the opposite order of their clocks. -/
theorem queryReplay_eq_sorted_crossed :
    let backend :=
      afterActions 0
        [.store (.store (stampedEvent 7 0 0 (some "a/1") (some ⟨2, 0⟩))),
          .store (.store (stampedEvent 7 1 0 (some "a/2") none)),
          .store (.store (stampedEvent 9 0 0 (some "a/3") (some ⟨1, 0⟩))),
          .store (.store (stampedEvent 9 1 0 (some "b") (some ⟨3, 0⟩)))]
    let filters : ReplayFilters := { keyPrefix := some "a/", limit := some 5 }
    backend.queryReplay filters =
        upTo (some 5)
          (((backend.db.stamped.filter filters.selects).mergeSort
              fun first second => first.1 ≤ second.1).map
            fun item => item.2.returned) ∧
      backend.queryReplay filters =
        [stampedEvent 9 0 0 (some "a/3") (some ⟨1, 0⟩),
          stampedEvent 7 0 0 (some "a/1") (some ⟨2, 0⟩)] := by
  refine ⟨queryReplay_eq_sorted ?_ (by decide), by decide +kernel⟩
  exact (replayIndexed_afterActions (by decide +kernel)).exact
    (wellFormed_afterActions _ _)

end FjallBackend

end Mitiflow
