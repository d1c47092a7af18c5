import Mitiflow.OffsetRegisters

namespace Mitiflow

open Library List

/-!
# Histories of offset commits

Sequential histories of both kinds of commits.  The keyspace after a history
represents the register files after the same fenced writes; what a fetch
returns, what a rejected commit leaves alone and how far the fence of single
records protects a whole group are read off there.
-/

/-- One commit made on the offsets keyspace, with the engine's answers. -/
inductive OffsetCall where
  | offsets (commit : GroupCommit) (answers : EngineAnswers)
  | keyed (commit : KeyedOffsetCommit) (answers : EngineAnswers)

namespace OffsetCall

def perform (keyspace : OffsetKeyspace) :
    OffsetCall → OffsetKeyspace × Except Error Unit
  | .offsets commit answers => commitOffsets keyspace commit answers
  | .keyed commit answers => commitKeyedOffset keyspace commit answers

def accepted (keyspace : OffsetKeyspace) (call : OffsetCall) : Bool :=
  (call.perform keyspace).2.isOk

def groupId : OffsetCall → String
  | .offsets commit _ => commit.groupId
  | .keyed commit _ => commit.groupId

def keyFilter? : OffsetCall → Option KeyFilter
  | .offsets _ _ => none
  | .keyed commit _ => some commit.keyFilter

/-- The sequence a call commits for a publisher on behalf of a group. -/
def seqFor (group : String) (publisher : PublisherId) :
    OffsetCall → Option U64
  | .offsets commit _ =>
    if commit.groupId = group then commit.offsets.get? publisher else none
  | .keyed _ _ => none

/-- The clock value a call commits for a key filter on behalf of a group. -/
def hlcFor (group : String) (filter : KeyFilter) :
    OffsetCall → Option HlcTimestamp
  | .offsets _ _ => none
  | .keyed commit _ =>
    if commit.groupId = group ∧ commit.keyFilter = filter then
      some commit.lastHlc
    else
      none

def offsetWrite? :
    OffsetCall → Option (FencedWrite (U64 × PublisherId) U64 U64)
  | .offsets commit answers => some (commit.write answers)
  | .keyed _ _ => none

def keyedWrite? :
    OffsetCall → Option (FencedWrite (U64 × U64) HlcTimestamp U64)
  | .offsets _ _ => none
  | .keyed commit answers => some (commit.write answers)

end OffsetCall

/-- The keyspace after a history of calls on a fresh one. -/
def afterOffsetCalls (calls : List OffsetCall) : OffsetKeyspace :=
  calls.foldl (fun keyspace call => (call.perform keyspace).1) .empty

/-- The calls of a history that succeed, in order. -/
def acceptedCallsFrom (keyspace : OffsetKeyspace) :
    List OffsetCall → List OffsetCall
  | [] => []
  | call :: rest =>
    let later := acceptedCallsFrom (call.perform keyspace).1 rest
    if call.accepted keyspace then call :: later else later

def acceptedCalls (calls : List OffsetCall) : List OffsetCall :=
  acceptedCallsFrom .empty calls

def fetchedSeq
    (keyspace : OffsetKeyspace)
    (group : String)
    (publisher : PublisherId) : Option U64 :=
  (fetchOffsets keyspace group (.ok ())).toOption.bind
    fun fetched => fetched.get? publisher

def fetchedHlc
    (keyspace : OffsetKeyspace)
    (group : String)
    (filter : KeyFilter) : Option HlcTimestamp :=
  (fetchKeyedOffset keyspace group filter.hash (.ok ())).toOption.bind id

def storedGeneration
    (keyspace : OffsetKeyspace)
    (group : String)
    (publisher : PublisherId) : Option U64 :=
  ((keyspace.get? (offsetKey group publisher)).bind
    decodeOffsetValue).map Prod.snd

def storedKeyedGeneration
    (keyspace : OffsetKeyspace)
    (group : String)
    (filter : KeyFilter) : Option U64 :=
  ((keyspace.get? (keyedOffsetKey group filter.hash)).bind
    decodeKeyedOffsetValue).map Prod.snd

/-- The registers after the fenced writes of a history. -/
def registersAfter (calls : List OffsetCall) : OffsetRegisters where
  offsets := Registers.blank.run (calls.filterMap OffsetCall.offsetWrite?)
  keyed := Registers.blank.run (calls.filterMap OffsetCall.keyedWrite?)

theorem afterOffsetCalls_snoc (calls : List OffsetCall) (call : OffsetCall) :
    afterOffsetCalls (calls ++ [call]) =
      (call.perform (afterOffsetCalls calls)).1 := by
  simp [afterOffsetCalls]

variable {keyspace : OffsetKeyspace} {attempt : CommitAttempt} {group : String}

/-- What one call does to a represented keyspace. -/
theorem OffsetCall.perform_refines
    {registers : OffsetRegisters}
    (represents : Represents keyspace registers)
    (call : OffsetCall) :
    Represents (call.perform keyspace).1
        { offsets :=
            registers.offsets.run (call.offsetWrite?.toList)
          keyed := registers.keyed.run (call.keyedWrite?.toList) } ∧
      (call.accepted keyspace = false → (call.perform keyspace).1 = keyspace) ∧
      (∀ write, call.offsetWrite? = some write →
        call.accepted keyspace = registers.offsets.accepts write) ∧
      ∀ write, call.keyedWrite? = some write →
        call.accepted keyspace = registers.keyed.accepts write := by
  cases call with
  | offsets commit answers =>
    grind [keyedWrite?, represents.commitOffsets, perform, Registers.run,
      offsetWrite?, accepted]
  | keyed commit answers =>
    grind [offsetWrite?, represents.commitKeyedOffset, perform, Registers.run,
      keyedWrite?, accepted]

/-- The keyspace after a history represents the registers after it. -/
theorem represents_afterOffsetCalls (calls : List OffsetCall) :
    Represents (afterOffsetCalls calls) (registersAfter calls) := by
  induction calls using List.reverseRecOn with
  | nil =>
    exact represents_empty
  | append_singleton earlier call inductionHypothesis =>
    have next := (call.perform_refines inductionHypothesis).1
    rw [afterOffsetCalls_snoc]
    have grown :
        registersAfter (earlier ++ [call]) =
          { offsets :=
              (registersAfter earlier).offsets.run call.offsetWrite?.toList
            keyed :=
              (registersAfter earlier).keyed.run call.keyedWrite?.toList } := by
      simp only [registersAfter, filterMap_append, Registers.run_append]
      cases call with
      | offsets commit answers =>
        rfl
      | keyed commit answers =>
        rfl
    rw [grown]
    exact next

/-- The writes of the successful calls are the writes the registers accept. -/
theorem writes_acceptedCallsFrom
    {registers : OffsetRegisters}
    (represents : Represents keyspace registers)
    (calls : List OffsetCall) :
    (acceptedCallsFrom keyspace calls).filterMap OffsetCall.offsetWrite? =
        registers.offsets.accepted
          (calls.filterMap OffsetCall.offsetWrite?) ∧
      (acceptedCallsFrom keyspace calls).filterMap OffsetCall.keyedWrite? =
        registers.keyed.accepted
          (calls.filterMap OffsetCall.keyedWrite?) := by
  induction calls generalizing keyspace registers with
  | nil =>
    exact ⟨rfl, rfl⟩
  | cons call rest inductionHypothesis =>
    obtain ⟨next, _, offsetVerdict, keyedVerdict⟩ :=
      call.perform_refines represents
    obtain ⟨laterOffsets, laterKeyed⟩ := inductionHypothesis next
    have shape :
        acceptedCallsFrom keyspace (call :: rest) =
          (if call.accepted keyspace then [call] else []) ++
            acceptedCallsFrom (call.perform keyspace).1 rest := by
      cases verdict : call.accepted keyspace with
      | true =>
        simp [acceptedCallsFrom, verdict]
      | false =>
        simp [acceptedCallsFrom, verdict]
    rw [shape, filterMap_append, filterMap_append, laterOffsets,
      laterKeyed]
    cases call with
    | offsets commit answers =>
      rw [offsetVerdict (commit.write answers) rfl]
      simp only [OffsetCall.offsetWrite?, OffsetCall.keyedWrite?,
        filterMap_cons, Option.toList_some, Option.toList_none,
        Registers.accepted_cons]
      cases registers.offsets.accepts (commit.write answers) with
      | true =>
        exact ⟨rfl, rfl⟩
      | false =>
        exact ⟨rfl, rfl⟩
    | keyed commit answers =>
      rw [keyedVerdict (commit.write answers) rfl]
      simp only [OffsetCall.offsetWrite?, OffsetCall.keyedWrite?,
        filterMap_cons, Option.toList_some, Option.toList_none,
        Registers.accepted_cons]
      cases registers.keyed.accepts (commit.write answers) with
      | true =>
        exact ⟨rfl, rfl⟩
      | false =>
        exact ⟨rfl, rfl⟩

theorem writes_acceptedCalls (calls : List OffsetCall) :
    (acceptedCalls calls).filterMap OffsetCall.offsetWrite? =
        Registers.blank.accepted
          (calls.filterMap OffsetCall.offsetWrite?) ∧
      (acceptedCalls calls).filterMap OffsetCall.keyedWrite? =
        Registers.blank.accepted
          (calls.filterMap OffsetCall.keyedWrite?) :=
  writes_acceptedCallsFrom represents_empty calls

theorem mem_of_mem_acceptedCallsFrom
    {calls : List OffsetCall}
    {call : OffsetCall}
    (member : call ∈ acceptedCallsFrom keyspace calls) :
    call ∈ calls := by
  induction calls generalizing keyspace with
  | nil =>
    cases member
  | cons first rest inductionHypothesis =>
    grind [acceptedCallsFrom]

theorem acceptedCallsFrom_append
    (keyspace : OffsetKeyspace)
    (first second : List OffsetCall) :
    acceptedCallsFrom keyspace (first ++ second) =
      acceptedCallsFrom keyspace first ++
        acceptedCallsFrom
          (first.foldl
            (fun keyspace call => (call.perform keyspace).1) keyspace)
          second := by
  induction first generalizing keyspace with
  | nil =>
    rfl
  | cons call rest inductionHypothesis =>
    grind [acceptedCallsFrom]

theorem acceptedCalls_snoc (calls : List OffsetCall) (call : OffsetCall) :
    acceptedCalls (calls ++ [call]) =
      acceptedCalls calls ++
        if call.accepted (afterOffsetCalls calls) then [call] else [] := by
  rw [acceptedCalls, acceptedCallsFrom_append]
  rfl

theorem lastUpdate_groupWrite
    (commit : GroupCommit)
    (answers : EngineAnswers)
    (groupHash : U64)
    (publisher : PublisherId) :
    Registers.lastUpdate (groupHash, publisher)
        (commit.write answers).updates =
      if xxhashGroup commit.groupId = groupHash then
        commit.offsets.get? publisher
      else
        none := by
  have distinct : ((commit.write answers).updates.map Prod.fst).Nodup := by
    have slots :
        (commit.write answers).updates.map Prod.fst =
          (commit.offsets.entries.map Prod.fst).map
            fun publisher => (xxhashGroup commit.groupId, publisher) := by
      simp [GroupCommit.write]
    rw [slots]
    exact commit.offsets.keys_nodup.map (Prod.mk_right_injective _)
  ext seq
  rw [Registers.lastUpdate_eq_some_iff distinct]
  by_cases sameHash : xxhashGroup commit.groupId = groupHash
  · rw [if_pos sameHash, OrderedMap.get?_eq_some]
    simp [GroupCommit.write, sameHash]
  · rw [if_neg sameHash]
    simp [GroupCommit.write, sameHash]

/-- A fetch returns what the successful commits left for the publisher. -/
theorem fetchedSeq_afterOffsetCalls
    (calls : List OffsetCall)
    (group : String)
    (publisher : PublisherId) :
    fetchedSeq (afterOffsetCalls calls) group publisher =
      (Registers.lastWritten (xxhashGroup group, publisher)
        ((acceptedCalls calls).filterMap OffsetCall.offsetWrite?)).map
          Prod.fst := by
  obtain ⟨fetched, isFetched, values⟩ :=
    (represents_afterOffsetCalls calls).fetchOffsets group
  rw [(writes_acceptedCalls calls).1, ← Registers.run_apply, fetchedSeq,
    isFetched]
  exact values publisher

theorem fetchedHlc_afterOffsetCalls
    (calls : List OffsetCall)
    (group : String)
    (filter : KeyFilter) :
    fetchedHlc (afterOffsetCalls calls) group filter =
      (Registers.lastWritten (filter.hash, xxhashGroup group)
        ((acceptedCalls calls).filterMap OffsetCall.keyedWrite?)).map
          Prod.fst := by
  rw [(writes_acceptedCalls calls).2, ← Registers.run_apply, fetchedHlc,
    (represents_afterOffsetCalls calls).fetchKeyedOffset]
  rfl

section Occurring

variable {groups : List String} {filters : List KeyFilter}
  {calls : List OffsetCall}

/-- The calls only name the listed groups and key filters. -/
def Occurring
    (groups : List String)
    (filters : List KeyFilter)
    (calls : List OffsetCall) : Prop :=
  ∀ call ∈ calls,
    call.groupId ∈ groups ∧ ∀ filter ∈ call.keyFilter?, filter ∈ filters

variable {group : String} {call : OffsetCall}

section

variable
  (groupsDistinct :
    ∀ first ∈ groups, ∀ second ∈ groups,
      xxhashGroup first = xxhashGroup second → first = second)

include groupsDistinct

/-- A group fetches the sequence of its last successful commit. -/
theorem fetchedSeq_eq_lastAccepted
    (occurring : Occurring groups filters calls)
    (isGroup : group ∈ groups)
    (publisher : PublisherId) :
    fetchedSeq (afterOffsetCalls calls) group publisher =
      (acceptedCalls calls).reverse.findSome?
        fun call => call.seqFor group publisher := by
  rw [fetchedSeq_afterOffsetCalls]
  apply Registers.map_lastWritten
  intro call member
  have occurs := (occurring call (mem_of_mem_acceptedCallsFrom member)).1
  cases call with
  | keyed commit answers =>
    rfl
  | offsets commit answers =>
    rw [OffsetCall.offsetWrite?, Option.bind_some, lastUpdate_groupWrite,
      OffsetCall.seqFor]
    by_cases sameGroup : commit.groupId = group
    · rw [if_pos sameGroup, if_pos (congrArg xxhashGroup sameGroup)]
    · have otherHash : xxhashGroup commit.groupId ≠ xxhashGroup group :=
        fun sameHash => sameGroup
          (groupsDistinct commit.groupId occurs group isGroup sameHash)
      rw [if_neg sameGroup, if_neg otherHash]

/-- A group and filter fetch the clock value of their last commit. -/
theorem fetchedHlc_eq_lastAccepted
    (filtersDistinct :
      ∀ first ∈ filters, ∀ second ∈ filters,
        first.hash = second.hash → first = second)
    (occurring : Occurring groups filters calls)
    (isGroup : group ∈ groups)
    {filter : KeyFilter}
    (isFilter : filter ∈ filters) :
    fetchedHlc (afterOffsetCalls calls) group filter =
      (acceptedCalls calls).reverse.findSome?
        fun call => call.hlcFor group filter := by
  rw [fetchedHlc_afterOffsetCalls]
  apply Registers.map_lastWritten
  intro call member
  obtain ⟨groupOccurs, filterOccurs⟩ :=
    occurring call (mem_of_mem_acceptedCallsFrom member)
  cases call with
  | offsets commit answers =>
    rfl
  | keyed commit answers =>
    have sameSlot :
        (commit.keyFilter.hash, xxhashGroup commit.groupId) =
            (filter.hash, xxhashGroup group) ↔
          commit.groupId = group ∧ commit.keyFilter = filter := by
      constructor
      · intro same
        obtain ⟨sameFilter, sameGroup⟩ := Prod.mk.inj same
        exact ⟨groupsDistinct commit.groupId groupOccurs group isGroup
            sameGroup,
          filtersDistinct commit.keyFilter (filterOccurs _ rfl) filter
            isFilter sameFilter⟩
      · rintro ⟨sameGroup, sameFilter⟩
        rw [sameGroup, sameFilter]
    by_cases same : commit.groupId = group ∧ commit.keyFilter = filter
    · simp [OffsetCall.keyedWrite?, KeyedOffsetCommit.write,
        Registers.lastUpdate, OffsetCall.hlcFor, same]
    · grind [OffsetCall.keyedWrite?, KeyedOffsetCommit.write,
        Registers.lastUpdate, OffsetCall.hlcFor]

end

theorem Occurring.of_append
    {earlier later : List OffsetCall}
    (occurring : Occurring groups filters (earlier ++ later)) :
    Occurring groups filters earlier :=
  fun call member => occurring call (mem_append_left _ member)

/-- A call that commits nothing for a query leaves its answer alone. -/
theorem findSome?_acceptedCalls_snoc
    {Answer : Type}
    {answer : OffsetCall → Option Answer}
    (silent : answer call = none)
    (earlier : List OffsetCall) :
    (acceptedCalls (earlier ++ [call])).reverse.findSome? answer =
      (acceptedCalls earlier).reverse.findSome? answer := by
  rw [acceptedCalls_snoc]
  split
  · simp [silent]
  · rw [append_nil]

/-- Stored generations of both kinds never go down along a history. -/
theorem storedGenerations_mono (earlier later : List OffsetCall) :
    (∀ group publisher,
      ∀ generation ∈
        storedGeneration (afterOffsetCalls earlier) group publisher,
        ∃ next ∈
          storedGeneration (afterOffsetCalls (earlier ++ later)) group
            publisher,
          generation ≤ next) ∧
      ∀ group filter,
        ∀ generation ∈
          storedKeyedGeneration (afterOffsetCalls earlier) group filter,
          ∃ next ∈
            storedKeyedGeneration (afterOffsetCalls (earlier ++ later)) group
              filter,
            generation ≤ next := by
  have before := represents_afterOffsetCalls earlier
  have after := represents_afterOffsetCalls (earlier ++ later)
  constructor
  · intro group publisher generation held
    rw [storedGeneration, offsetKey, before.offsets] at held
    rw [storedGeneration, offsetKey, after.offsets]
    apply Registers.NotOlder.exists_le _ held
    simp only [registersAfter, filterMap_append, Registers.run_append]
    exact Registers.notOlder_run _ _ _
  · intro group filter generation held
    rw [storedKeyedGeneration, keyedOffsetKey, before.keyed] at held
    rw [storedKeyedGeneration, keyedOffsetKey, after.keyed]
    apply Registers.NotOlder.exists_le _ held
    simp only [registersAfter, filterMap_append, Registers.run_append]
    exact Registers.notOlder_run _ _ _

theorem OffsetCall.seqFor_eq_none
    (other : call.keyFilter?.isSome = true ∨ call.groupId ≠ group)
    (publisher : PublisherId) :
    call.seqFor group publisher = none := by
  cases call with
  | keyed commit answers =>
    rfl
  | offsets commit answers =>
    have otherGroup : commit.groupId ≠ group :=
      other.resolve_left Bool.false_ne_true
    simp [OffsetCall.seqFor, otherGroup]

theorem OffsetCall.hlcFor_eq_none
    {filter : KeyFilter}
    (other : call.keyFilter? ≠ some filter ∨ call.groupId ≠ group) :
    call.hlcFor group filter = none := by
  cases call with
  | offsets commit answers =>
    rfl
  | keyed commit answers =>
    rcases other with otherFilter | otherGroup
    · grind [OffsetCall.keyFilter?, OffsetCall.hlcFor]
    · have different : commit.groupId ≠ group := otherGroup
      simp [OffsetCall.hlcFor, different]

/--
Sequential histories of commits, where the hashes of the groups that occur
are distinct and so are those of the key filters: a rejected commit changes
nothing, fetches return the last successful commit, stored generations never
go down, and a commit changes what is fetched for its own group and kind only.
-/
theorem offsetStore_serial
    (groups : List String)
    (filters : List KeyFilter)
    (groupsDistinct :
      ∀ first ∈ groups, ∀ second ∈ groups,
        xxhashGroup first = xxhashGroup second → first = second)
    (filtersDistinct :
      ∀ first ∈ filters, ∀ second ∈ filters,
        first.hash = second.hash → first = second)
    (calls : List OffsetCall)
    (occurring : Occurring groups filters calls) :
    (∀ earlier call later,
      calls = earlier ++ call :: later →
      call.accepted (afterOffsetCalls earlier) = false →
      afterOffsetCalls (earlier ++ [call]) = afterOffsetCalls earlier) ∧
    (∀ group ∈ groups, ∀ publisher,
      fetchedSeq (afterOffsetCalls calls) group publisher =
        (acceptedCalls calls).reverse.findSome?
          fun call => call.seqFor group publisher) ∧
    (∀ group ∈ groups, ∀ filter ∈ filters,
      fetchedHlc (afterOffsetCalls calls) group filter =
        (acceptedCalls calls).reverse.findSome?
          fun call => call.hlcFor group filter) ∧
    (∀ earlier later,
      calls = earlier ++ later →
      (∀ group publisher,
        ∀ generation ∈
          storedGeneration (afterOffsetCalls earlier) group publisher,
          ∃ next ∈ storedGeneration (afterOffsetCalls calls) group publisher,
            generation ≤ next) ∧
        ∀ group filter,
          ∀ generation ∈
            storedKeyedGeneration (afterOffsetCalls earlier) group filter,
            ∃ next ∈
              storedKeyedGeneration (afterOffsetCalls calls) group filter,
              generation ≤ next) ∧
    ∀ earlier call later,
      calls = earlier ++ call :: later →
      (∀ group ∈ groups,
        call.keyFilter?.isSome = true ∨ call.groupId ≠ group →
        ∀ publisher,
          fetchedSeq (afterOffsetCalls (earlier ++ [call])) group publisher =
            fetchedSeq (afterOffsetCalls earlier) group publisher) ∧
      ∀ group ∈ groups, ∀ filter ∈ filters,
        call.keyFilter? ≠ some filter ∨ call.groupId ≠ group →
        fetchedHlc (afterOffsetCalls (earlier ++ [call])) group filter =
          fetchedHlc (afterOffsetCalls earlier) group filter := by
  refine ⟨?_, ?_, ?_, ?_, ?_⟩
  · intro earlier call later shape rejected
    rw [afterOffsetCalls_snoc]
    exact (call.perform_refines
      (represents_afterOffsetCalls earlier)).2.1 rejected
  · intro group isGroup publisher
    exact fetchedSeq_eq_lastAccepted groupsDistinct occurring isGroup publisher
  · intro group isGroup filter isFilter
    exact fetchedHlc_eq_lastAccepted groupsDistinct filtersDistinct
      occurring isGroup isFilter
  · intro earlier later shape
    subst shape
    exact storedGenerations_mono earlier later
  · intro earlier call later shape
    have regrouped : calls = (earlier ++ [call]) ++ later := by
      simp [shape]
    subst regrouped
    have upToCall := occurring.of_append
    have upToEarlier := upToCall.of_append
    constructor
    · intro group isGroup other publisher
      rw [fetchedSeq_eq_lastAccepted groupsDistinct upToCall isGroup,
        fetchedSeq_eq_lastAccepted groupsDistinct upToEarlier isGroup]
      exact findSome?_acceptedCalls_snoc
        (OffsetCall.seqFor_eq_none other publisher) earlier
    · intro group isGroup filter isFilter other
      rw [fetchedHlc_eq_lastAccepted groupsDistinct filtersDistinct upToCall
          isGroup isFilter,
        fetchedHlc_eq_lastAccepted groupsDistinct filtersDistinct upToEarlier
          isGroup isFilter]
      exact findSome?_acceptedCalls_snoc (OffsetCall.hlcFor_eq_none other)
        earlier

end Occurring

/-- A commit of one publisher's sequence. -/
def singleCommit
    (group : String)
    (publisher : PublisherId)
    (seq generation : U64) : GroupCommit where
  groupId := group
  offsets := OrderedMap.empty.insert publisher seq
  generation := generation
  timestamp := 0

/--
Two groups and a key filter: the stale second commit of the first group is
rejected, and the fetch returns the sequence of the first one.
-/
theorem offsetStore_serial_staleCommit :
    let calls : List OffsetCall :=
      [.offsets (singleCommit "a" 7 5 2) {},
        .keyed ⟨"a", .exactKey "k", ⟨9, 0⟩, 1, 0⟩ {},
        .offsets (singleCommit "a" 7 8 1) {},
        .offsets (singleCommit "b" 7 3 1) {}]
    fetchedSeq (afterOffsetCalls calls) "a" 7 = some 5 ∧
      fetchedHlc (afterOffsetCalls calls) "a" (.exactKey "k") =
        some ⟨9, 0⟩ := by
  intro calls
  have occurring : Occurring ["a", "b"] [.exactKey "k"] calls := by
    unfold Occurring
    decide
  have serial :=
    offsetStore_serial ["a", "b"] [.exactKey "k"] (by decide) (by decide)
      calls occurring
  have accepted :
      (acceptedCalls calls).reverse.findSome?
          (fun call => call.seqFor "a" 7) = some 5 ∧
        (acceptedCalls calls).reverse.findSome?
          (fun call => call.hlcFor "a" (.exactKey "k")) = some ⟨9, 0⟩ := by
    decide
  exact ⟨(serial.2.1 "a" (by decide) 7).trans accepted.1,
    (serial.2.2.1 "a" (by decide) (.exactKey "k") (by decide)).trans accepted.2⟩

/-! ## How far the fence of single records protects a group -/

/-- A group commit with the engine's answers. -/
abbrev CommitAttempt := GroupCommit × EngineAnswers

def afterCommits (commits : List CommitAttempt) : OffsetKeyspace :=
  afterOffsetCalls
    (commits.map fun attempt => .offsets attempt.1 attempt.2)

def acceptedAfter
    (commits : List CommitAttempt)
    (attempt : CommitAttempt) : Bool :=
  (commitOffsets (afterCommits commits) attempt.1 attempt.2).2.isOk

/--
Once a non-empty commit of the group succeeded, every later non-empty one of
a lower generation is rejected.
-/
def FencesGroup (group : String) (commits : List CommitAttempt) : Prop :=
  ∀ earlier first between second later,
    commits = earlier ++ first :: between ++ second :: later →
    first.1.groupId = group →
    second.1.groupId = group →
    first.1.offsets.entries ≠ [] →
    second.1.offsets.entries ≠ [] →
    acceptedAfter earlier first = true →
    second.1.generation < first.1.generation →
    acceptedAfter (earlier ++ first :: between) second = false

/--
A non-empty commit under the hash of a group for which the engine does its
part.
-/
def CountsFor (group : String) (attempt : CommitAttempt) : Prop :=
  xxhashGroup attempt.1.groupId = xxhashGroup group ∧
    (∀ offset ∈ attempt.1.offsets.entries,
      (attempt.2.read (offsetKey attempt.1.groupId offset.1)).isOk = true) ∧
    attempt.2.write.isOk = true ∧
    attempt.1.offsets.entries ≠ []

/--
Every commit whose generation lies below an earlier one's mentions a publisher
of some earlier commit of a higher generation that itself lay below none.
-/
def LateCommitsMeetRecord
    (group : String)
    (commits : List CommitAttempt) : Prop :=
  ∀ earlier late later,
    commits = earlier ++ late :: later →
    CountsFor group late →
    (∃ older ∈ earlier,
      CountsFor group older ∧ late.1.generation < older.1.generation) →
    ∃ before record after,
      earlier = before ++ record :: after ∧
        CountsFor group record ∧
        (∀ older ∈ before,
          CountsFor group older →
          older.1.generation ≤ record.1.generation) ∧
        (∃ publisher,
          (record.1.offsets.get? publisher).isSome = true ∧
            (late.1.offsets.get? publisher).isSome = true) ∧
        late.1.generation < record.1.generation

def attemptWrite (attempt : CommitAttempt) :
    FencedWrite (U64 × PublisherId) U64 U64 :=
  attempt.1.write attempt.2

theorem offsets_registersAfter (commits : List CommitAttempt) :
    (registersAfter
      (commits.map fun attempt => .offsets attempt.1 attempt.2)).offsets =
      Registers.afterCalls attemptWrite commits := by
  have writes :
      (commits.map fun attempt =>
          OffsetCall.offsets attempt.1 attempt.2).filterMap
            OffsetCall.offsetWrite? =
        commits.map attemptWrite := by
    rw [filterMap_map]
    exact congrFun filterMap_eq_map commits
  rw [registersAfter, writes, Registers.afterCalls]

/-- A commit succeeds exactly when the registers accept its write. -/
theorem acceptedAfter_eq
    (commits : List CommitAttempt)
    (attempt : CommitAttempt) :
    acceptedAfter commits attempt =
      Registers.acceptsAfter attemptWrite commits attempt := by
  have represents :=
    represents_afterOffsetCalls
      (commits.map fun attempt => .offsets attempt.1 attempt.2)
  rw [acceptedAfter, afterCommits,
    (represents.commitOffsets attempt.1 attempt.2).2.1,
    offsets_registersAfter, Registers.acceptsAfter, attemptWrite]

theorem names_attemptWrite
    {slot : U64 × PublisherId} :
    (attemptWrite attempt).names slot ↔
      slot.1 = xxhashGroup attempt.1.groupId ∧
        (attempt.1.offsets.get? slot.2).isSome = true := by
  simp only [attemptWrite, GroupCommit.write, FencedWrite.names,
    map_map, mem_map, Function.comp_apply,
    Option.isSome_iff_exists, OrderedMap.get?_eq_some]
  constructor
  · rintro ⟨offset, member, isSlot⟩
    subst isSlot
    exact ⟨rfl, offset.2, member⟩
  · rintro ⟨sameHash, seq, member⟩
    exact ⟨(slot.2, seq), member, Prod.ext sameHash.symm rfl⟩

/-- The commits under the hash of a group, as a family of fenced writes. -/
theorem effective_attemptWrite_iff :
    Registers.Effective attemptWrite
        (fun attempt =>
          xxhashGroup attempt.1.groupId = xxhashGroup group) attempt ↔
      CountsFor group attempt := by
  simp only [Registers.Effective, CountsFor, attemptWrite, GroupCommit.write,
    Bool.and_eq_true, all_eq_true, and_assoc, ne_eq,
    map_eq_nil_iff]

/-- A successful non-empty commit of a group counts for it. -/
theorem effective_of_accepted
    (isGroup : attempt.1.groupId = group)
    (someOffset : attempt.1.offsets.entries ≠ [])
    {commits : List CommitAttempt}
    (accepted : Registers.acceptsAfter attemptWrite commits attempt = true) :
    Registers.Effective attemptWrite
      (fun attempt => xxhashGroup attempt.1.groupId = xxhashGroup group)
      attempt := by
  refine ⟨congrArg xxhashGroup isGroup,
    (Registers.accepts_iff.mp accepted).1, ?_⟩
  simpa [attemptWrite, GroupCommit.write] using someOffset

theorem shares_attemptWrite_iff
    {first second : CommitAttempt}
    (sameHash :
      xxhashGroup first.1.groupId = xxhashGroup second.1.groupId) :
    (attemptWrite first).Shares (attemptWrite second) ↔
      ∃ publisher,
        (first.1.offsets.get? publisher).isSome = true ∧
          (second.1.offsets.get? publisher).isSome = true := by
  simp only [FencedWrite.Shares, names_attemptWrite]
  constructor
  · rintro ⟨slot, ⟨_, inFirst⟩, _, inSecond⟩
    exact ⟨slot.2, inFirst, inSecond⟩
  · rintro ⟨publisher, inFirst, inSecond⟩
    exact ⟨(xxhashGroup first.1.groupId, publisher), ⟨rfl, inFirst⟩,
      sameHash, inSecond⟩

/-- Late commits meet a record as commits and as fenced writes alike. -/
theorem lateCommitsMeetRecord_iff
    {commits : List CommitAttempt} :
    LateCommitsMeetRecord group commits ↔
      Registers.LateMeetRecord attemptWrite
        (fun attempt => xxhashGroup attempt.1.groupId = xxhashGroup group)
        commits := by
  simp only [LateCommitsMeetRecord, Registers.LateMeetRecord,
    Registers.IsRecord, effective_attemptWrite_iff]
  constructor
  · intro meets earlier late later shape counts someOlder
    obtain ⟨before, record, after, split, recordCounts, isRecord, shares,
      above⟩ := meets earlier late later shape counts someOlder
    exact ⟨before, record, after, split, recordCounts, isRecord,
      (shares_attemptWrite_iff (recordCounts.1.trans counts.1.symm)).mpr
        shares, above⟩
  · intro meets earlier late later shape counts someOlder
    obtain ⟨before, record, after, split, recordCounts, isRecord, shares,
      above⟩ := meets earlier late later shape counts someOlder
    exact ⟨before, record, after, split, recordCounts, isRecord,
      (shares_attemptWrite_iff (recordCounts.1.trans counts.1.symm)).mp
        shares, above⟩

/--
The store-side fence protects a group if every late commit meets a record;
when no other group of the history has the group's hash, only then.
-/
theorem fencesGroup_iff
    (group : String)
    (commits : List CommitAttempt) :
    (LateCommitsMeetRecord group commits → FencesGroup group commits) ∧
      ((∀ attempt ∈ commits,
          xxhashGroup attempt.1.groupId = xxhashGroup group →
          attempt.1.groupId = group) →
        FencesGroup group commits →
        LateCommitsMeetRecord group commits) := by
  have separate :
      ∀ first ∈ commits, ∀ second ∈ commits,
        xxhashGroup second.1.groupId = xxhashGroup group →
        (attemptWrite first).Shares (attemptWrite second) →
        xxhashGroup first.1.groupId = xxhashGroup group := by
    rintro first _ second _ sameHash ⟨slot, inFirst, inSecond⟩
    rw [← (names_attemptWrite.mp inFirst).1,
      (names_attemptWrite.mp inSecond).1, sameHash]
  rw [lateCommitsMeetRecord_iff, ← Registers.fencesFamily_iff separate]
  constructor
  · intro fences earlier first between second later shape firstGroup
      secondGroup firstSome secondSome accepted below
    by_contra notRejected
    rw [Bool.not_eq_false] at notRejected
    rw [acceptedAfter_eq] at accepted notRejected
    have rejected :=
      fences earlier first between second later shape
        (effective_of_accepted firstGroup firstSome accepted)
        (effective_of_accepted secondGroup secondSome notRejected)
        accepted below
    rw [notRejected] at rejected
    cases rejected
  · intro distinct fences earlier first between second later shape
      firstEffective secondEffective accepted below
    rw [← acceptedAfter_eq] at accepted ⊢
    have firstCounts := effective_attemptWrite_iff.mp firstEffective
    have secondCounts := effective_attemptWrite_iff.mp secondEffective
    exact fences earlier first between second later shape
      (distinct first (by simp [shape]) firstCounts.1)
      (distinct second (by simp [shape]) secondCounts.1)
      firstCounts.2.2.2 secondCounts.2.2.2 accepted below

/--
A commit of generation 5 for one publisher does not fence a commit of
generation 3 for another publisher of the same group.
-/
theorem other_publisher_not_fenced :
    let first : CommitAttempt := (singleCommit "g" 1 10 5, {})
    let second : CommitAttempt := (singleCommit "g" 2 20 3, {})
    acceptedAfter [] first = true ∧
      second.1.generation < first.1.generation ∧
      acceptedAfter [first] second = true := by
  decide

end Mitiflow
