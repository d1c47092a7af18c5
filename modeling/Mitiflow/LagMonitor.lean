import Mitiflow.GroupFencing
import Mitiflow.KeyExpressions
import Mitiflow.Library.ListedMap

namespace Mitiflow

open Library List Function

/-!
# Consumer group lag

The orchestrator's lag monitor subscribes to the watermarks that stores
broadcast and to the offsets that groups put, keeps the highest number of
each, and reports their difference.  Whether a message reaches it depends on
its key and on how it is sent: a put reaches every subscriber whose key
expression includes its key, a query reaches none.  This module follows the
messages of stores and groups to the monitor and says exactly when its reports
are right.

When an entry was last updated, and the time and staleness of a report, are
left out.
-/

/-! ## Messages -/

/-- A broadcast watermark with its publishers listed. -/
structure WatermarkBroadcast where
  partition : U32
  publishers : OrderedMap PublisherId PublisherWatermark

/-- What a put carries. -/
inductive LagPayload where
  | watermark (broadcast : WatermarkBroadcast)
  | offsets (commit : OffsetCommit)

/-- A put as a subscriber receives it. -/
structure LagSample where
  key : String
  payload : LagPayload

/-- The default key of a store's watermarks. -/
def resolvedWatermarkKey (keyPrefix : String) : String :=
  keyPrefix ++ "/_watermark"

/-- The key of a commit, for a put and for a query. -/
def OffsetCommit.key (keyPrefix : String) (commit : OffsetCommit) : String :=
  keyPrefix ++ "/_offsets/" ++ toString commit.partition.val ++ "/" ++
    commit.groupId

/-- The watermark task puts nothing while it knows no publisher. -/
def WatermarkBroadcast.put?
    (keyPrefix : String)
    (broadcast : WatermarkBroadcast) : Option LagSample :=
  if broadcast.publishers.entries.isEmpty then
    none
  else
    some ⟨resolvedWatermarkKey keyPrefix, .watermark broadcast⟩

/-- How a commit is sent: as a query, or as a put. -/
inductive CommitMode where
  | sync
  | async
  deriving Repr, DecidableEq

/-- What `commit_sync` and `commit_async` put; neither sends empty offsets. -/
def OffsetCommit.put?
    (keyPrefix : String)
    (commit : OffsetCommit) : CommitMode → Option LagSample
  | .sync => none
  | .async =>
    if commit.offsets.entries.isEmpty then
      none
    else
      some ⟨commit.key keyPrefix, .offsets commit⟩

/-! ## The monitor -/

def WatermarkBroadcast.readings (broadcast : WatermarkBroadcast) :
    List ((U32 × PublisherId) × Nat) :=
  broadcast.publishers.entries.map fun entry =>
    ((broadcast.partition, entry.1), entry.2.committedSeq)

def OffsetCommit.readings (commit : OffsetCommit) :
    List ((String × U32 × PublisherId) × Nat) :=
  commit.offsets.entries.map fun entry =>
    ((commit.groupId, commit.partition, entry.1), entry.2)

/-- Lag of a group on one partition. -/
structure LagReport where
  groupId : String
  partition : U32
  publishers : ListedMap PublisherId Nat
  total : Nat

/-- The highest watermarks and committed offsets seen. -/
structure LagMonitor where
  watermarks : ListedMap (U32 × PublisherId) Nat := .empty
  offsets : ListedMap (String × U32 × PublisherId) Nat := .empty

namespace LagMonitor

/-- The watermark task; a payload of another shape is not parsed. -/
def onWatermark (monitor : LagMonitor) : LagPayload → LagMonitor
  | .watermark broadcast =>
    { monitor with
      watermarks := monitor.watermarks.raiseAll broadcast.readings }
  | .offsets _ => monitor

/-- The offset task; a payload of another shape is not parsed. -/
def onOffsets (monitor : LagMonitor) : LagPayload → LagMonitor
  | .offsets commit =>
    { monitor with offsets := monitor.offsets.raiseAll commit.readings }
  | .watermark _ => monitor

/-- A put reaches the tasks whose key expression includes its key. -/
def receive
    (keyPrefix : String)
    (monitor : LagMonitor)
    (sample : LagSample) : LagMonitor :=
  let watched :=
    if keyExprIncludes (keyPrefix ++ "/_watermark/*") sample.key then
      monitor.onWatermark sample.payload
    else
      monitor
  if keyExprIncludes (keyPrefix ++ "/_offsets/**") sample.key then
    watched.onOffsets sample.payload
  else
    watched

def after (keyPrefix : String) (samples : List LagSample) : LagMonitor :=
  samples.foldl (receive keyPrefix) {}

/-- The lag of one publisher, zero if the offset is ahead. -/
def lag
    (monitor : LagMonitor)
    (groupId : String)
    (partition : U32)
    (publisher : PublisherId) : Nat :=
  (monitor.watermarks.get? (partition, publisher)).getD 0 -
    (monitor.offsets.get? (groupId, partition, publisher)).getD 0

/-- The current lag of a group, one report per partition. -/
def getGroupLag (monitor : LagMonitor) (groupId : String) :
    List LagReport :=
  let byPartition :=
    ListedMap.nest (monitor.lag groupId)
      (monitor.offsets.keys.filterMap fun key =>
        if key.1 = groupId then some key.2 else none)
  byPartition.keys.filterMap fun partition =>
    (byPartition.get? partition).map fun publishers =>
      { groupId := groupId
        partition := partition
        publishers := publishers
        total := publishers.values.sum }

def Reports
    (monitor : LagMonitor)
    (groupId : String)
    (partition : U32)
    (publisher : PublisherId)
    (lag : Nat) : Prop :=
  ∃ report ∈ monitor.getGroupLag groupId,
    report.partition = partition ∧
      report.publishers.get? publisher = some lag

theorem reports_iff
    {monitor : LagMonitor}
    {groupId : String}
    {partition : U32}
    {publisher : PublisherId}
    {lag : Nat} :
    monitor.Reports groupId partition publisher lag ↔
      (monitor.offsets.get? (groupId, partition, publisher)).isSome = true ∧
        lag = monitor.lag groupId partition publisher := by
  have known :
      (partition, publisher) ∈
          (monitor.offsets.keys.filterMap fun key =>
            if key.1 = groupId then some key.2 else none) ↔
        (monitor.offsets.get? (groupId, partition, publisher)).isSome =
          true := by
    rw [← monitor.offsets.mem_keys, mem_filterMap]
    constructor
    · grind
    · intro isKey
      exact ⟨_, isKey, if_pos rfl⟩
  have found :=
    ListedMap.get?_nest (monitor.lag groupId)
      (monitor.offsets.keys.filterMap fun key =>
        if key.1 = groupId then some key.2 else none) partition publisher
  simp only [known] at found
  constructor
  · rintro ⟨report, member, isPartition, isLag⟩
    obtain ⟨listed, _, isReport⟩ := mem_filterMap.mp member
    obtain ⟨publishers, isPublishers, rfl⟩ := Option.map_eq_some_iff.mp isReport
    change listed = partition at isPartition
    rw [← isPartition, isPublishers, Option.bind_some, isLag,
      isPartition] at found
    split at found
    · next isKnown =>
        exact ⟨isKnown, Option.some.inj found⟩
    · cases found
  · rintro ⟨isKnown, rfl⟩
    rw [if_pos isKnown] at found
    obtain ⟨publishers, isPublishers, isLag⟩ := Option.bind_eq_some_iff.mp found
    refine ⟨⟨groupId, partition, publishers, publishers.values.sum⟩,
      mem_filterMap.mpr ⟨partition, ?_, ?_⟩, rfl, isLag⟩
    · exact (ListedMap.mem_keys _ _).mpr (by rw [isPublishers]; rfl)
    · rw [isPublishers]
      rfl

end LagMonitor

/-! ## Runs of stores and groups -/

/-- A broadcast, or a commit that reaches the store of its partition. -/
inductive LagEvent where
  | broadcast (watermark : WatermarkBroadcast)
  | commit (mode : CommitMode) (commit : OffsetCommit)
      (timestamp : DateTime) (answers : EngineAnswers)

def LagEvent.put? (keyPrefix : String) : LagEvent → Option LagSample
  | .broadcast watermark => watermark.put? keyPrefix
  | .commit mode sent _ _ => sent.put? keyPrefix mode

/-- The commits that the stores accept, in the order they handle them. -/
def acceptedCommits (stores : U32 → OffsetKeyspace) :
    List LagEvent → List OffsetCommit
  | [] => []
  | .broadcast _ :: rest => acceptedCommits stores rest
  | .commit _ commit timestamp answers :: rest =>
    let (keyspace, result) :=
      commitOffsets (stores commit.partition) (commit.received timestamp)
        answers
    let later :=
      acceptedCommits (update stores commit.partition keyspace)
        rest
    if result.isOk then commit :: later else later

/-- The highest number read under a key, zero if there is none. -/
def highest [DecidableEq Key] (key : Key) (readings : List (Key × Nat)) :
    Nat :=
  ((readings.filter (·.1 = key)).map Prod.snd).foldr max 0

namespace LagRun

def accepted (run : List LagEvent) : List OffsetCommit :=
  acceptedCommits (fun _ => .empty) run

def committed (run : List LagEvent) :
    List ((String × U32 × PublisherId) × Nat) :=
  (accepted run).flatMap OffsetCommit.readings

def broadcasts (run : List LagEvent) : List ((U32 × PublisherId) × Nat) :=
  run.flatMap fun event =>
    match event with
    | .broadcast watermark => watermark.readings
    | .commit .. => []

def asyncOffsets (run : List LagEvent) :
    List ((String × U32 × PublisherId) × Nat) :=
  run.flatMap fun event =>
    match event with
    | .commit .async commit _ _ => commit.readings
    | _ => []

end LagRun

/-! ## Keys -/

theorem keyChunks_append
    (keyPrefix suffix : String)
    (rest : List Char)
    (starts : suffix.toList = '/' :: rest) :
    keyChunks (keyPrefix ++ suffix) =
      keyChunks keyPrefix ++ chunks '/' rest := by
  rw [keyChunks, String.toList_append, starts]
  exact chunks_append _ _

/-- A watermark under its default key does not reach the monitor. -/
theorem watermark_unmatched (keyPrefix : String) :
    keyExprIncludes (keyPrefix ++ "/_watermark/*")
      (resolvedWatermarkKey keyPrefix) = false := by
  have keyShape :
      keyChunks (resolvedWatermarkKey keyPrefix) =
        keyChunks keyPrefix ++ ["_watermark".toList] := by
    rw [resolvedWatermarkKey,
      keyChunks_append keyPrefix "/_watermark" "_watermark".toList rfl]
    rfl
  have patternShape :
      keyChunks (keyPrefix ++ "/_watermark/*") =
        (keyChunks keyPrefix ++ ["_watermark".toList]) ++ [['*']] := by
    rw [keyChunks_append keyPrefix "/_watermark/*" "_watermark/*".toList rfl,
      append_assoc]
    rfl
  rw [Bool.eq_false_iff]
  intro included
  rw [keyExprIncludes, keyShape, patternShape,
    matchesChunks_snoc (by decide)] at included
  obtain ⟨front, last, isKey, _, found⟩ := included
  rw [(append_inj' isKey rfl).1,
    matchesChunks_without_last (by decide) (by decide)] at found
  cases found

/-- A commit put for any group reaches the monitor. -/
theorem offsets_matched (keyPrefix : String) (commit : OffsetCommit) :
    keyExprIncludes (keyPrefix ++ "/_offsets/**") (commit.key keyPrefix) =
      true := by
  have keyText :
      (commit.key keyPrefix).toList =
        keyPrefix.toList ++
          '/' :: ("_offsets".toList ++
            '/' :: ((toString commit.partition.val).toList ++
              '/' :: commit.groupId.toList)) := by
    simp [OffsetCommit.key]
  have keyShape :
      keyChunks (commit.key keyPrefix) =
        (keyChunks keyPrefix ++ ["_offsets".toList]) ++
          chunks '/' ((toString commit.partition.val).toList ++
            '/' :: commit.groupId.toList) := by
    rw [keyChunks, keyText, chunks_append, chunks_append, append_assoc]
    rfl
  have patternShape :
      keyChunks (keyPrefix ++ "/_offsets/**") =
        (keyChunks keyPrefix ++ ["_offsets".toList]) ++ [['*', '*']] := by
    rw [keyChunks_append keyPrefix "/_offsets/**" "_offsets/**".toList rfl,
      append_assoc]
    rfl
  rw [keyExprIncludes, keyShape, patternShape, matchesChunks_snoc_many]
  exact ⟨_, prefix_append _ _, matchesChunks_self _⟩

/-! ## What the monitor knows -/

def LagPayload.offsetReadings :
    LagPayload → List ((String × U32 × PublisherId) × Nat)
  | .offsets commit => commit.readings
  | .watermark _ => []

/-- A sample that a store or a group puts. -/
inductive LagSample.Sent (keyPrefix : String) : LagSample → Prop where
  | watermark (broadcast : WatermarkBroadcast) :
      Sent keyPrefix
        ⟨resolvedWatermarkKey keyPrefix, .watermark broadcast⟩
  | offsets (commit : OffsetCommit) :
      Sent keyPrefix ⟨commit.key keyPrefix, .offsets commit⟩

variable {keyPrefix : String}

theorem LagEvent.sent_of_put?
    {event : LagEvent}
    {sample : LagSample}
    (isPut : event.put? keyPrefix = some sample) :
    sample.Sent keyPrefix := by
  cases event with
  | broadcast watermark =>
    simp only [put?, WatermarkBroadcast.put?, Option.ite_none_left_eq_some,
      Option.some.injEq] at isPut
    rw [← isPut.2]
    exact .watermark watermark
  | commit mode sent timestamp answers =>
    cases mode with
    | sync =>
      cases isPut
    | async =>
      simp only [put?, OffsetCommit.put?, Option.ite_none_left_eq_some,
        Option.some.injEq] at isPut
      rw [← isPut.2]
      exact .offsets sent

namespace LagMonitor

/-- Of what is sent, the monitor takes in the offsets alone. -/
theorem receive_sent
    (monitor : LagMonitor)
    {sample : LagSample}
    (sent : sample.Sent keyPrefix) :
    monitor.receive keyPrefix sample =
      { monitor with
        offsets :=
          monitor.offsets.raiseAll sample.payload.offsetReadings } := by
  cases sent with
  | watermark broadcast =>
    simp only [receive, watermark_unmatched, Bool.false_eq_true, if_false,
      onOffsets, ite_self]
    rfl
  | offsets commit =>
    simp only [receive, offsets_matched, if_true, onWatermark, ite_self]
    rfl

/-- Once everything sent is processed, the monitor has no watermark. -/
theorem after_sent
    {samples : List LagSample}
    (sent : ∀ sample ∈ samples, sample.Sent keyPrefix) :
    after keyPrefix samples =
      { offsets :=
          ListedMap.empty.raiseAll
            (samples.flatMap (·.payload.offsetReadings)) } := by
  induction samples using List.reverseRecOn with
  | nil =>
    rfl
  | append_singleton earlier sample inductionHypothesis =>
    grind [after, ListedMap.raiseAll, receive_sent]

end LagMonitor

namespace LagRun

/-- The offsets that are put are those of `commit_async`. -/
theorem offsetReadings_puts (keyPrefix : String) (run : List LagEvent) :
    (run.filterMap (LagEvent.put? keyPrefix)).flatMap
        (·.payload.offsetReadings) =
      asyncOffsets run := by
  rw [filterMap_eq_flatMap_toList, flatMap_assoc, asyncOffsets]
  refine flatMap_congr fun event _ => ?_
  cases event with
  | broadcast watermark =>
    simp only [LagEvent.put?, WatermarkBroadcast.put?]
    split <;> rfl
  | commit mode sent timestamp answers =>
    cases mode with
    | sync =>
      rfl
    | async =>
      grind [LagEvent.put?, OffsetCommit.put?, OffsetCommit.readings,
        LagPayload.offsetReadings]

/-- A group has an accepted commit for a publisher on a partition. -/
def HasCommitted
    (run : List LagEvent)
    (groupId : String)
    (partition : U32)
    (publisher : PublisherId) : Prop :=
  (groupId, partition, publisher) ∈ (committed run).map Prod.fst

/-- The difference of the highest watermark and the highest offset. -/
def exactLag
    (run : List LagEvent)
    (groupId : String)
    (partition : U32)
    (publisher : PublisherId) : Nat :=
  highest (partition, publisher) (broadcasts run) -
    highest (groupId, partition, publisher) (committed run)

/--
In whatever order the monitor processes the puts of a run, its reports on a
group are exact precisely if every publisher the group has committed for was
also in a `commit_async` of the group, and no watermark of it is above the
offsets committed for it.
-/
theorem reports_exact_iff
    (keyPrefix : String)
    (run : List LagEvent)
    (groupId : String) :
    (∀ processed,
        processed.Perm (run.filterMap (LagEvent.put? keyPrefix)) →
        ∀ partition publisher,
          HasCommitted run groupId partition publisher →
          (LagMonitor.after keyPrefix processed).Reports groupId partition
            publisher (exactLag run groupId partition publisher)) ↔
      ∀ partition publisher,
        HasCommitted run groupId partition publisher →
        (groupId, partition, publisher) ∈
            (asyncOffsets run).map Prod.fst ∧
          highest (partition, publisher) (broadcasts run) ≤
            highest (groupId, partition, publisher) (committed run) := by
  have reportsOf
      {processed : List LagSample}
      (order : processed.Perm (run.filterMap (LagEvent.put? keyPrefix)))
      (partition : U32)
      (publisher : PublisherId) :
      (LagMonitor.after keyPrefix processed).Reports groupId partition
          publisher (exactLag run groupId partition publisher) ↔
        (groupId, partition, publisher) ∈
            (asyncOffsets run).map Prod.fst ∧
          highest (partition, publisher) (broadcasts run) ≤
            highest (groupId, partition, publisher) (committed run) := by
    have sent : ∀ sample ∈ processed, sample.Sent keyPrefix := by
      intro sample member
      obtain ⟨event, _, isPut⟩ :=
        mem_filterMap.mp (order.mem_iff.mp member)
      exact event.sent_of_put? isPut
    have sameKeys :
        (groupId, partition, publisher) ∈
            (processed.flatMap (·.payload.offsetReadings)).map Prod.fst ↔
          (groupId, partition, publisher) ∈
            (asyncOffsets run).map Prod.fst := by
      rw [← offsetReadings_puts keyPrefix run]
      exact ((order.flatMap_right _).map _).mem_iff
    rw [LagMonitor.reports_iff, LagMonitor.after_sent sent,
      ListedMap.isSome_get?_raiseAll, sameKeys]
    refine and_congr (or_iff_right (by simp [ListedMap.empty])) ?_
    rw [exactLag, ← Nat.sub_eq_zero_iff_le]
    simp [LagMonitor.lag, ListedMap.empty]
  constructor
  · intro exact partition publisher hasCommitted
    exact (reportsOf (List.Perm.refl _) partition publisher).mp
      (exact _ (List.Perm.refl _) partition publisher hasCommitted)
  · intro conditions processed order partition publisher hasCommitted
    exact (reportsOf order partition publisher).mpr
      (conditions partition publisher hasCommitted)

/-- A store broadcasts sequence 5, and a group commits offset 2. -/
def behind (mode : CommitMode) : List LagEvent :=
  [.broadcast
      { partition := 0
        publishers := OrderedMap.empty.insert 7 ⟨5, []⟩ },
    .commit mode
      { groupId := "g"
        memberId := "m"
        partition := 0
        offsets := OrderedMap.empty.insert 7 2
        generation := 1 }
      0 {}]

/-- The lag of three is reported as zero, or not at all. -/
theorem lag_unseen :
    let monitored := fun mode =>
      LagMonitor.after "events"
        ((behind mode).filterMap (LagEvent.put? "events"))
    (HasCommitted (behind .async) "g" 0 7 ∧
        exactLag (behind .async) "g" 0 7 = 3 ∧
        ¬(monitored .async).Reports "g" 0 7 3 ∧
        (monitored .async).Reports "g" 0 7 0) ∧
      HasCommitted (behind .sync) "g" 0 7 ∧
        (monitored .sync).getGroupLag "g" = [] := by
  intro monitored
  refine ⟨⟨?_, ?_, ?_, ?_⟩, ?_, ?_⟩
  · unfold HasCommitted
    decide +kernel
  · decide +kernel
  · rw [LagMonitor.reports_iff]
    decide +kernel
  · rw [LagMonitor.reports_iff]
    decide +kernel
  · unfold HasCommitted
    decide +kernel
  · rfl

end LagRun

/-! ## Order and repetition -/

section Highest

variable {Key : Type} [DecidableEq Key] {key : Key}

theorem highest_cons (reading : Key × Nat) (readings : List (Key × Nat)) :
    highest key (reading :: readings) =
      if reading.1 = key then
        max reading.2 (highest key readings)
      else
        highest key readings := by
  unfold highest
  by_cases isKey : reading.1 = key
  · simp [isKey]
  · simp [isKey]

theorem highest_le_iff {readings : List (Key × Nat)} {bound : Nat} :
    highest key readings ≤ bound ↔
      ∀ reading ∈ readings, reading.1 = key → reading.2 ≤ bound := by
  induction readings with
  | nil =>
    simp [highest]
  | cons reading rest inductionHypothesis =>
    rw [highest_cons, forall_mem_cons, ← inductionHypothesis]
    by_cases isKey : reading.1 = key
    · simp [isKey]
    · simp [isKey]

theorem highest_congr
    {first second : List (Key × Nat)}
    (same : ∀ reading, reading ∈ first ↔ reading ∈ second) :
    highest key first = highest key second := by
  refine eq_of_forall_ge_iff fun bound => ?_
  rw [highest_le_iff, highest_le_iff]
  exact forall_congr' fun reading => by rw [same]

theorem getD_raiseAll
    (map : ListedMap Key Nat)
    (readings : List (Key × Nat)) :
    ((map.raiseAll readings).get? key).getD 0 =
      max ((map.get? key).getD 0) (highest key readings) := by
  induction readings generalizing map with
  | nil =>
    simp [ListedMap.raiseAll, highest]
  | cons reading rest inductionHypothesis =>
    rw [ListedMap.raiseAll, foldl_cons, ← ListedMap.raiseAll,
      inductionHypothesis, ListedMap.raise, ListedMap.get?_insert,
      highest_cons]
    by_cases isKey : reading.1 = key
    · subst isKey
      rw [update_self, if_pos rfl, Option.getD_some]
      split
      · omega
      · omega
    · rw [update_of_ne (Ne.symm isKey), if_neg isKey]

end Highest

def LagPayload.watermarkReadings :
    LagPayload → List ((U32 × PublisherId) × Nat)
  | .watermark broadcast => broadcast.readings
  | .offsets _ => []

/-- What a report says: its partition, the lag of each publisher, and the
total. -/
def LagReport.content (report : LagReport) :
    U32 × (PublisherId → Option Nat) × Nat :=
  (report.partition, report.publishers.get?, report.total)

namespace LagMonitor

/-- The monitor after its two tasks have handled messages, in the order in
which they took the locks. -/
def handled (payloads : List LagPayload) : LagMonitor :=
  payloads.foldl
    (fun monitor payload => (monitor.onWatermark payload).onOffsets payload)
    {}

theorem handled_eq (payloads : List LagPayload) :
    handled payloads =
      { watermarks :=
          ListedMap.empty.raiseAll
            (payloads.flatMap LagPayload.watermarkReadings)
        offsets :=
          ListedMap.empty.raiseAll
            (payloads.flatMap LagPayload.offsetReadings) } := by
  induction payloads using List.reverseRecOn with
  | nil =>
    rfl
  | append_singleton earlier payload inductionHypothesis =>
    rw [handled, foldl_append, ← handled, inductionHypothesis]
    simp only [flatMap_append, ListedMap.raiseAll, foldl_append]
    cases payload with
    | watermark broadcast =>
      simp [onWatermark, onOffsets, LagPayload.watermarkReadings,
        LagPayload.offsetReadings, ListedMap.raiseAll]
    | offsets commit =>
      simp [onWatermark, onOffsets, LagPayload.watermarkReadings,
        LagPayload.offsetReadings, ListedMap.raiseAll]

theorem lag_handled
    (payloads : List LagPayload)
    (groupId : String)
    (partition : U32)
    (publisher : PublisherId) :
    (handled payloads).lag groupId partition publisher =
      highest (partition, publisher)
          (payloads.flatMap LagPayload.watermarkReadings) -
        highest (groupId, partition, publisher)
          (payloads.flatMap LagPayload.offsetReadings) := by
  simp only [lag, handled_eq, getD_raiseAll]
  simp [ListedMap.empty]

theorem isSome_offsets_handled
    {payloads : List LagPayload}
    {key : String × U32 × PublisherId} :
    ((handled payloads).offsets.get? key).isSome = true ↔
      key ∈ (payloads.flatMap LagPayload.offsetReadings).map Prod.fst := by
  rw [handled_eq, ListedMap.isSome_get?_raiseAll]
  simp [ListedMap.empty]

/-- The reports of a group depend only on its known offsets and lags. -/
theorem perm_getGroupLag
    {first second : LagMonitor}
    {groupId : String}
    (sameKeys : ∀ key,
      (first.offsets.get? key).isSome = true ↔
        (second.offsets.get? key).isSome = true)
    (sameLag : first.lag groupId = second.lag groupId) :
    ((first.getGroupLag groupId).map LagReport.content).Perm
      ((second.getGroupLag groupId).map LagReport.content) := by
  have samePairs (pair : U32 × PublisherId) :
      (pair ∈ first.offsets.keys.filterMap fun key =>
          if key.1 = groupId then some key.2 else none) ↔
        pair ∈ second.offsets.keys.filterMap fun key =>
          if key.1 = groupId then some key.2 else none := by
    simp only [mem_filterMap, ListedMap.mem_keys, sameKeys]
  simp only [getGroupLag, map_filterMap, Option.map_map, sameLag]
  refine ListedMap.perm_filterMap_keys
    (ListedMap.nest_congr (second.lag groupId) samePairs)
    fun partition left right sameLags => ?_
  simp only [comp_apply, LagReport.content, sameLags,
    (ListedMap.perm_values sameLags).sum_eq]

/-- The reports of a group depend only on which messages came, and every lag
is the highest watermark less the highest committed offset. -/
theorem group_lag_confluent
    (first second : List LagPayload)
    (sameMessages : ∀ payload, payload ∈ first ↔ payload ∈ second)
    (groupId : String) :
    (((handled first).getGroupLag groupId).map LagReport.content).Perm
        (((handled second).getGroupLag groupId).map LagReport.content) ∧
      ∀ partition publisher lag,
        (handled first).Reports groupId partition publisher lag ↔
          (groupId, partition, publisher) ∈
              (first.flatMap LagPayload.offsetReadings).map Prod.fst ∧
            lag =
              highest (partition, publisher)
                  (first.flatMap LagPayload.watermarkReadings) -
                highest (groupId, partition, publisher)
                  (first.flatMap LagPayload.offsetReadings) := by
  refine ⟨perm_getGroupLag (fun key => ?_) (funext₂ fun partition publisher =>
    ?_), fun partition publisher lag => ?_⟩
  · simp only [isSome_offsets_handled, mem_map, mem_flatMap,
      sameMessages]
  · rw [lag_handled, lag_handled]
    congr 1
    · exact highest_congr fun reading => by
        simp only [mem_flatMap, sameMessages]
    · exact highest_congr fun reading => by
        simp only [mem_flatMap, sameMessages]
  · rw [reports_iff, isSome_offsets_handled, lag_handled]

theorem group_lag_confluent_redelivered :
    let watermark : LagPayload :=
      .watermark ⟨0, OrderedMap.empty.insert 7 ⟨5, []⟩⟩
    let offsets : LagPayload :=
      .offsets ⟨"g", "m", 0, OrderedMap.empty.insert 7 2, 1⟩
    (handled [watermark, offsets]).Reports "g" 0 7 3 ∧
      (((handled [watermark, offsets]).getGroupLag "g").map
          LagReport.content).Perm
        (((handled [offsets, watermark, watermark]).getGroupLag "g").map
          LagReport.content) := by
  intro watermark offsets
  obtain ⟨perm, reports⟩ :=
    group_lag_confluent [watermark, offsets] [offsets, watermark, watermark]
      (by simp [or_comm]) "g"
  exact ⟨(reports 0 7 3).mpr (by decide +kernel), perm⟩

end LagMonitor

end Mitiflow
