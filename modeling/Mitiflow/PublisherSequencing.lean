import Mitiflow.Publisher

namespace Mitiflow

open Library List Function

/-!
# Sequence allocation along publish histories

A sequence is allocated before the payload is encoded and put, so a call that
fails later has used its number up.  The abstract view of a history is the
list of its allocation attempts, each with its partition and whether its
sample reached the transport; the attempts on one partition are numbered from
zero.  The publisher refines this view, and the set of sequences put on a
partition is read off it.
-/

/-- A publisher and everything it has put so far. -/
structure PublisherRun where
  publisher : EventPublisher
  puts : List Put := []

namespace PublisherRun

def step?
    (hash : String → U64)
    (run : PublisherRun)
    (call : PublishCall) : Option PublisherRun :=
  (run.publisher.perform hash call).map fun step =>
    { publisher := step.publisher
      puts := run.puts ++ step.put.toList }

def run? (hash : String → U64) :
    List PublishCall → PublisherRun → Option PublisherRun
  | [], run => some run
  | call :: rest, run => (run.step? hash call).bind (run? hash rest)

end PublisherRun

def putSeqs (partition : U32) (puts : List Put) : Finset Nat :=
  ((puts.filter (·.partition = partition)).map
    (·.attachment.seq.val)).toFinset

/-- Whether a call's payload encodes and its put succeeds. -/
def PublishCall.survives (call : PublishCall) : Bool :=
  match call.outgoing.payload, call.transport.put with
  | .ok _, .ok () => true
  | _, _ => false

/-- One allocation of a sequence, and whether its sample was put. -/
structure Attempt where
  partition : U32
  survived : Bool
  deriving Repr, DecidableEq

/--
The partition a route allocates on.  There is none when the key is rejected
or hashing it panics.
-/
def attemptedPartition
    (hash : String → U64)
    (config : PublisherConfig)
    (counter : U64) : Route → Option U32
  | .roundRobin => some (roundRobinPartition config counter)
  | .explicit keyExpr => some (extractPartition keyExpr)
  | .keyed key =>
    match validateKey key with
    | .error _ => none
    | .ok () => partitionFor hash key config.numPartitions

/-- The round-robin counter after a call. -/
def nextCounter (counter : U64) : Route → U64
  | .roundRobin => counter + 1
  | _ => counter

/-- The attempts of a history, from a given round-robin counter. -/
def attemptsFrom
    (hash : String → U64)
    (config : PublisherConfig) : U64 → List PublishCall → List Attempt
  | _, [] => []
  | counter, call :: rest =>
    ((attemptedPartition hash config counter call.route).map
        fun partition => (⟨partition, call.survives⟩ : Attempt)).toList ++
      attemptsFrom hash config (nextCounter counter call.route) rest

/-- Outcomes of the attempts on one partition, in order. -/
def outcomesOn (partition : U32) (attempts : List Attempt) : List Bool :=
  (attempts.filter (·.partition = partition)).map (·.survived)

theorem outcomesOn_append
    (partition : U32)
    (first second : List Attempt) :
    outcomesOn partition (first ++ second) =
      outcomesOn partition first ++ outcomesOn partition second := by
  simp [outcomesOn]

theorem putSeqs_append (partition : U32) (first second : List Put) :
    putSeqs partition (first ++ second) =
      putSeqs partition first ∪ putSeqs partition second := by
  simp [putSeqs]

theorem length_attemptsFrom
    (hash : String → U64)
    (config : PublisherConfig)
    (counter : U64)
    (calls : List PublishCall) :
    (attemptsFrom hash config counter calls).length ≤ calls.length := by
  induction calls generalizing counter with
  | nil =>
    rfl
  | cons call rest inductionHypothesis =>
    have later := inductionHypothesis (nextCounter counter call.route)
    cases attempted : attemptedPartition hash config counter call.route with
    | none =>
      simp only [attemptsFrom, attempted, Option.map_none,
        Option.toList_none, nil_append, length_cons]
      omega
    | some partition =>
      simp only [attemptsFrom, attempted, Option.map_some,
        Option.toList_some, singleton_append, length_cons]
      omega

/-! ## What one call does -/

variable {call : PublishCall}

namespace EventPublisher

/-- The sequence the next allocation on a partition returns. -/
def upcomingSeq (publisher : EventPublisher) (partition : U32) : U64 :=
  (publisher.partitionSeqs partition).getD 0

theorem nextSeqFor_eq (publisher : EventPublisher) (partition : U32) :
    publisher.nextSeqFor partition =
      (publisher.upcomingSeq partition,
        { publisher with
          partitionSeqs :=
            update publisher.partitionSeqs partition
              (some (publisher.upcomingSeq partition + 1)) }) := by
  unfold nextSeqFor upcomingSeq
  cases publisher.partitionSeqs partition with
  | none =>
    rfl
  | some seq =>
    rfl

/-- Everything but the cache. -/
structure SameAllocator (first second : EventPublisher) : Prop where
  publisherId : first.publisherId = second.publisherId
  config : first.config = second.config
  partitionSeqs : first.partitionSeqs = second.partitionSeqs
  roundRobin : first.roundRobin = second.roundRobin

theorem sameAllocator_cacheSample
    (publisher : EventPublisher)
    (sample : CachedSample) :
    SameAllocator (publisher.cacheSample sample) publisher := by
  unfold cacheSample
  split
  · exact ⟨rfl, rfl, rfl, rfl⟩
  · exact ⟨rfl, rfl, rfl, rfl⟩

/-- Delivery leaves the allocator alone and puts exactly surviving calls. -/
theorem deliver_spec
    (publisher : EventPublisher)
    (partition : U32)
    (seq : U64)
    (keyExpr : String)
    (call : PublishCall) :
    let step :=
      publisher.deliver partition seq keyExpr call.durable call.outgoing
        call.transport
    SameAllocator step.publisher publisher ∧
      (call.survives = false → step.put = none) ∧
      (call.survives = true →
        ∃ put,
          step.put = some put ∧
            put.partition = partition ∧
            put.attachment.seq = seq ∧
            put.attachment.pubId = publisher.publisherId) := by
  unfold deliver PublishCall.survives
  cases payload : call.outgoing.payload with
  | error failure =>
    refine ⟨⟨rfl, rfl, rfl, rfl⟩, fun _ => rfl, ?_⟩
    intro survived
    cases survived
  | ok bytes =>
    cases put : call.transport.put with
    | error reason =>
      refine ⟨sameAllocator_cacheSample publisher _, fun _ => rfl, ?_⟩
      intro survived
      cases survived
    | ok done =>
      refine ⟨sameAllocator_cacheSample publisher _, ?_,
        fun _ => ⟨_, rfl, rfl, rfl, rfl⟩⟩
      intro failed
      cases failed

/-- The state in which a call delivers, once its partition is known. -/
structure Allocated
    (publisher delivered : EventPublisher)
    (route : Route)
    (partition : U32) : Prop where
  publisherId : delivered.publisherId = publisher.publisherId
  config : delivered.config = publisher.config
  partitionSeqs :
    delivered.partitionSeqs =
      update publisher.partitionSeqs partition
        (some (publisher.upcomingSeq partition + 1))
  roundRobin : delivered.roundRobin = nextCounter publisher.roundRobin route
  cache : delivered.cache = publisher.cache

/--
Every completed call either is refused before allocation and changes nothing,
or delivers with the next sequence of its partition.
-/
theorem perform_cases
    {hash : String → U64}
    {publisher : EventPublisher}
    {step : PublishStep}
    (performed : publisher.perform hash call = some step) :
    (attemptedPartition hash publisher.config publisher.roundRobin
          call.route = none ∧
        nextCounter publisher.roundRobin call.route = publisher.roundRobin ∧
        step.publisher = publisher ∧ step.put = none) ∨
      ∃ partition keyExpr delivered,
        attemptedPartition hash publisher.config publisher.roundRobin
            call.route = some partition ∧
          Allocated publisher delivered call.route partition ∧
          step =
            delivered.deliver partition (publisher.upcomingSeq partition)
              keyExpr call.durable call.outgoing call.transport := by
  rw [perform_eq] at performed
  unfold publishVia at performed
  cases route : call.route with
  | roundRobin =>
    simp only [route, assignPartition, nextSeqFor_eq,
      Option.some.injEq] at performed
    refine Or.inr ⟨_, _, _, rfl, ?_, performed.symm⟩
    exact ⟨rfl, rfl, rfl, rfl, rfl⟩
  | explicit keyExpr =>
    simp only [route, nextSeqFor_eq, Option.some.injEq] at performed
    refine Or.inr ⟨_, _, _, rfl, ?_, performed.symm⟩
    exact ⟨rfl, rfl, rfl, rfl, rfl⟩
  | keyed key =>
    simp only [route] at performed
    cases valid : validateKey key with
    | error failure =>
      grind [attemptedPartition, nextCounter]
    | ok done =>
      simp only [valid] at performed
      cases hashed : partitionFor hash key publisher.config.numPartitions with
      | none =>
        simp [hashed] at performed
      | some partition =>
        simp only [hashed, nextSeqFor_eq, Option.some.injEq] at performed
        refine Or.inr ⟨partition, _, _,
          by simp [attemptedPartition, valid, hashed], ?_,
          performed.symm⟩
        exact ⟨rfl, rfl, rfl, rfl, rfl⟩

end EventPublisher

/-! ## The publisher refines the list of attempts -/

/-- The publisher's counters and puts agree with a list of attempts. -/
structure Allocates
    (publisherId : PublisherId)
    (config : PublisherConfig)
    (run : PublisherRun)
    (attempts : List Attempt) : Prop where
  identity : run.publisher.publisherId = publisherId
  configured : run.publisher.config = config
  upcoming :
    ∀ partition,
      run.publisher.upcomingSeq partition =
        Fin.ofNat (2 ^ 64) (outcomesOn partition attempts).length
  put :
    ∀ partition,
      putSeqs partition run.puts = succeededAt (outcomesOn partition attempts)
  owned : ∀ put ∈ run.puts, put.attachment.pubId = publisherId

variable {partition : U32} {put : Put}

namespace Allocates

variable {hash : String → U64} {publisherId : PublisherId}
  {config : PublisherConfig} {run next : PublisherRun}
  {attempts : List Attempt}

theorem initial (publisherId : PublisherId) (config : PublisherConfig) :
    Allocates publisherId config
      { publisher := { publisherId := publisherId, config := config } } [] where
  identity := rfl
  configured := rfl
  upcoming := fun _ => rfl
  put := fun _ => rfl
  owned := by
    intro put member
    cases member

section

variable (allocates : Allocates publisherId config run attempts)

include allocates

/-- A sample put with the upcoming sequence extends its partition. -/
theorem putSeqs_snoc
    (few : (outcomesOn partition attempts).length < 2 ^ 64)
    (putPartition : put.partition = partition)
    (putSeq : put.attachment.seq = run.publisher.upcomingSeq partition)
    (query : U32) :
    putSeqs query (run.puts ++ [put]) =
      succeededAt (outcomesOn query (attempts ++ [⟨partition, true⟩])) := by
  rw [putSeqs_append, allocates.put, outcomesOn_append]
  by_cases isPartition : partition = query
  · subst isPartition
    have seqValue :
        put.attachment.seq.val = (outcomesOn partition attempts).length := by
      rw [putSeq, allocates.upcoming]
      exact Nat.mod_eq_of_lt few
    have single :
        putSeqs partition [put] = {(outcomesOn partition attempts).length} := by
      simp [putSeqs, putPartition, seqValue]
    have outcome : outcomesOn partition [⟨partition, true⟩] = [true] := by
      simp [outcomesOn]
    rw [single, outcome, succeededAt_snoc, if_pos rfl, Finset.union_comm,
      ← Finset.insert_eq]
  · have nothing : putSeqs query [put] = ∅ := by
      simp [putSeqs, putPartition, isPartition]
    have noOutcome : outcomesOn query [⟨partition, true⟩] = [] := by
      simp [outcomesOn, isPartition]
    rw [nothing, noOutcome, Finset.union_empty, append_nil]

theorem upcoming_update
    {later : EventPublisher}
    (counters :
      later.partitionSeqs =
        update run.publisher.partitionSeqs partition
          (some (run.publisher.upcomingSeq partition + 1)))
    (survived : Bool)
    (query : U32) :
    later.upcomingSeq query =
      Fin.ofNat (2 ^ 64)
        (outcomesOn query (attempts ++ [⟨partition, survived⟩])).length := by
  rw [outcomesOn_append, length_append]
  by_cases isPartition : query = partition
  · subst isPartition
    have taken :
        later.upcomingSeq query = run.publisher.upcomingSeq query + 1 := by
      simp [EventPublisher.upcomingSeq, counters]
    rw [taken, allocates.upcoming]
    apply Fin.ext
    simp [outcomesOn, Fin.val_add]
  · have kept :
        later.upcomingSeq query = run.publisher.upcomingSeq query := by
      simp [EventPublisher.upcomingSeq, counters, isPartition]
    rw [kept, allocates.upcoming]
    simp [outcomesOn, Ne.symm isPartition]

/-- An attempt that puts nothing only moves its counter. -/
theorem outcomes_of_failure
    (partition query : U32) :
    putSeqs query run.puts =
      succeededAt (outcomesOn query (attempts ++ [⟨partition, false⟩])) := by
  rw [allocates.put, outcomesOn_append]
  by_cases isPartition : partition = query
  · have outcome : outcomesOn query [⟨partition, false⟩] = [false] := by
      simp [outcomesOn, isPartition]
    rw [outcome, succeededAt_snoc]
    rfl
  · have noOutcome : outcomesOn query [⟨partition, false⟩] = [] := by
      simp [outcomesOn, isPartition]
    rw [noOutcome, append_nil]

end

theorem length_outcomesOn_le (partition : U32) (attempts : List Attempt) :
    (outcomesOn partition attempts).length ≤ attempts.length := by
  rw [outcomesOn, length_map]
  exact length_filter_le _ _

theorem step
    (allocates : Allocates publisherId config run attempts)
    (few : attempts.length < 2 ^ 64)
    (taken : run.step? hash call = some next) :
    Allocates publisherId config next
        (attempts ++
          ((attemptedPartition hash config run.publisher.roundRobin
            call.route).map
              fun partition => (⟨partition, call.survives⟩ : Attempt)).toList) ∧
      next.publisher.roundRobin =
        nextCounter run.publisher.roundRobin call.route := by
  obtain ⟨step, performed, shape⟩ := Option.map_eq_some_iff.mp taken
  subst shape
  rcases EventPublisher.perform_cases performed with
    ⟨refused, sameCounter, samePublisher, noPut⟩ |
    ⟨partition, keyExpr, delivered, attempted, allocated, stepShape⟩
  · grind [Allocates]
  · rw [allocates.configured] at attempted
    rw [attempted, Option.map_some, Option.toList_some]
    obtain ⟨same, failedPut, survivingPut⟩ :=
      delivered.deliver_spec partition (run.publisher.upcomingSeq partition)
        keyExpr call
    rw [← stepShape] at same failedPut survivingPut
    have counters :=
      allocates.upcoming_update
        (same.partitionSeqs.trans allocated.partitionSeqs) call.survives
    have identity : step.publisher.publisherId = publisherId :=
      same.publisherId.trans (allocated.publisherId.trans allocates.identity)
    have configured : step.publisher.config = config :=
      same.config.trans (allocated.config.trans allocates.configured)
    refine ⟨?_, same.roundRobin.trans allocated.roundRobin⟩
    cases survived : call.survives with
    | false =>
      rw [survived] at counters
      rw [failedPut survived]
      simp only [Option.toList_none, append_nil]
      exact ⟨identity, configured, counters,
        allocates.outcomes_of_failure partition, allocates.owned⟩
    | true =>
      rw [survived] at counters
      obtain ⟨put, isPut, putPartition, putSeq, putOwner⟩ :=
        survivingPut survived
      have fewOn := (length_outcomesOn_le partition attempts).trans_lt few
      rw [isPut, Option.toList_some]
      refine ⟨identity, configured, counters,
        allocates.putSeqs_snoc fewOn putPartition putSeq, ?_⟩
      intro earlier member
      rcases mem_append.mp member with old | isNew
      · exact allocates.owned earlier old
      · rw [mem_singleton.mp isNew, putOwner, allocated.publisherId,
          allocates.identity]

theorem history
    {start final : PublisherRun}
    (allocates : Allocates publisherId config start attempts)
    {calls : List PublishCall}
    (few : attempts.length + calls.length ≤ 2 ^ 64)
    (completed : PublisherRun.run? hash calls start = some final) :
    Allocates publisherId config final
      (attempts ++
        attemptsFrom hash config start.publisher.roundRobin calls) := by
  induction calls generalizing start attempts with
  | nil =>
    cases completed
    simpa [attemptsFrom] using allocates
  | cons call rest inductionHypothesis =>
    obtain ⟨next, taken, remaining⟩ := Option.bind_eq_some_iff.mp completed
    rw [length_cons] at few
    obtain ⟨stepped, counter⟩ := allocates.step (by omega) taken
    have atMostOne :
        ((attemptedPartition hash config start.publisher.roundRobin
          call.route).map
            fun partition =>
              (⟨partition, call.survives⟩ : Attempt)).toList.length ≤ 1 := by
      cases attemptedPartition hash config start.publisher.roundRobin
          call.route with
      | none =>
        simp
      | some partition =>
        simp
    have later := inductionHypothesis stepped
      (by rw [length_append]; omega) remaining
    rw [counter, append_assoc] at later
    exact later

end Allocates

/-! ## Durability of what is put -/

/-- The event a store records for a received sample. -/
def Put.received (put : Put) (hlc : Option HlcTimestamp) : StoredEvent where
  key := put.keyExpr
  payload := put.payload
  metadata :=
    { seq := put.attachment.seq
      publisherId := put.attachment.pubId
      eventId := put.attachment.eventId
      timestamp := put.attachment.timestamp
      keyExpr := put.keyExpr
      key := extractKey put.keyExpr
      hlcTimestamp := hlc }

/-- The calls of a partition's store that receives every put. -/
def receivedCalls
    (stamp : Put → Option HlcTimestamp)
    (partition : U32)
    (puts : List Put) : List StoreCall :=
  (puts.filter (·.partition = partition)).map
    fun put => .store (put.received (stamp put))

/-- A partition's store after receiving every put. -/
def storeAfter
    (stamp : Put → Option HlcTimestamp)
    (partition : U32)
    (puts : List Put) : FjallBackend :=
  (FjallBackend.fresh partition).runCalls (receivedCalls stamp partition puts)

theorem storedSeqs_receivedCalls
    (stamp : Put → Option HlcTimestamp)
    {publisher : PublisherId}
    {puts : List Put}
    (owned : ∀ put ∈ puts, put.attachment.pubId = publisher) :
    storedSeqs publisher (receivedCalls stamp partition puts) =
      putSeqs partition puts := by
  ext seq
  rw [mem_storedSeqs]
  simp only [receivedCalls, putSeqs, mem_map, mem_toFinset,
    mem_filter, decide_eq_true_eq]
  constructor
  · grind [Put.received, StoreCall.events]
  · rintro ⟨put, ⟨member, onPartition⟩, sameSeq⟩
    exact ⟨_, ⟨put, ⟨member, onPartition⟩, rfl⟩, _,
      mem_singleton.mpr rfl, owned put member, sameSeq⟩

/--
The sample of the next surviving call is durable in its store exactly when
its sequence extends a contiguous range.
-/
theorem Allocates.isDurable_next
    {publisherId : PublisherId}
    {config : PublisherConfig}
    {run : PublisherRun}
    {attempts : List Attempt}
    (allocates : Allocates publisherId config run attempts)
    (stamp : Put → Option HlcTimestamp)
    (few : (outcomesOn put.partition attempts).length < 2 ^ 64)
    (putSeq :
      put.attachment.seq = run.publisher.upcomingSeq put.partition)
    (putOwner : put.attachment.pubId = publisherId) :
    (storeAfter stamp put.partition
        (run.puts ++ [put])).commitWatermark.isDurable publisherId
          put.attachment.seq.val = true ↔
      Contiguous
        (insert (outcomesOn put.partition attempts).length
          (succeededAt (outcomesOn put.partition attempts)))
        (outcomesOn put.partition attempts).length := by
  have owned : ∀ other ∈ run.puts ++ [put],
      other.attachment.pubId = publisherId := by
    intro other member
    rcases mem_append.mp member with old | isNew
    · exact allocates.owned other old
    · rw [mem_singleton.mp isNew]
      exact putOwner
  have seqValue :
      put.attachment.seq.val = (outcomesOn put.partition attempts).length := by
    rw [putSeq, allocates.upcoming]
    exact Nat.mod_eq_of_lt few
  have described :=
    FjallBackend.stateFor_fresh_runCalls put.partition
      (receivedCalls stamp put.partition (run.puts ++ [put])) publisherId
  have outcome :
      outcomesOn put.partition [⟨put.partition, true⟩] = [true] := by
    simp [outcomesOn]
  rw [storedSeqs_receivedCalls stamp owned,
    allocates.putSeqs_snoc few rfl putSeq, outcomesOn_append, outcome,
    succeededAt_snoc, if_pos rfl] at described
  rw [storeAfter, described.commitWatermark_isDurable, seqValue]
  simp

/-- An explicit key expression reaches any partition. -/
theorem extractPartition_explicit (partition : U32) :
    extractPartition ("e/p/" ++ toString partition.val) = partition := by
  have cut :
      Text.cutAt "/p/".toList ("e/p/" ++ toString partition.val).toList =
        some (['e'], (Nat.repr partition.val).toList ++ []) := by
    rw [append_nil, String.toList_append]
    simp [Text.cutAt]
  exact extractPartition_of_cut partition cut (Or.inl rfl)

/-- Whatever a call puts carries the upcoming sequence of its partition. -/
theorem EventPublisher.put_of_perform
    {hash : String → U64}
    {publisher : EventPublisher}
    {step : PublishStep}
    (performed : publisher.perform hash call = some step)
    (isPut : step.put = some put) :
    put.attachment.seq = publisher.upcomingSeq put.partition ∧
      put.attachment.pubId = publisher.publisherId := by
  rcases perform_cases performed with
    ⟨_, _, _, noPut⟩ | ⟨partition, keyExpr, delivered, _, allocated, shape⟩
  · rw [noPut] at isPut
    cases isPut
  · obtain ⟨_, failedPut, survivingPut⟩ :=
      delivered.deliver_spec partition (publisher.upcomingSeq partition)
        keyExpr call
    rw [← shape] at failedPut survivingPut
    cases survived : call.survives with
    | false =>
      rw [failedPut survived] at isPut
      cases isPut
    | true =>
      grind [allocated.publisherId]

/-- A durable raw-bytes call with an explicit expression puts on any
partition. -/
theorem EventPublisher.perform_explicit
    (hash : String → U64)
    (publisher : EventPublisher)
    (partition : U32) :
    ∃ step put,
      publisher.perform hash
          (.publishBytesDurableTo ("e/p/" ++ toString partition.val) [] 0 0
            { put := .ok () }) =
        some step ∧
      step.put = some put ∧ put.partition = partition :=
  ⟨_, _, rfl, rfl, extractPartition_explicit partition⟩

/--
After any completed history, every partition's put sequences form an initial
segment and any further durable publish that reaches the transport becomes
durable, exactly when on every partition no call failed after allocating its
sequence, or a failed call was the only one on that partition.
-/
theorem publish_contiguous_iff
    (hash : String → U64)
    (stamp : Put → Option HlcTimestamp)
    (publisherId : PublisherId)
    (config : PublisherConfig)
    (calls : List PublishCall)
    (few : calls.length + 1 < 2 ^ 64)
    (final : PublisherRun)
    (completed :
      PublisherRun.run? hash calls
          { publisher := { publisherId := publisherId, config := config } } =
        some final) :
    ((∀ partition, ∀ seq ∈ putSeqs partition final.puts,
        ∀ smaller < seq, smaller ∈ putSeqs partition final.puts) ∧
      ∀ call step put,
        call.durable = true →
        final.publisher.perform hash call = some step →
        step.put = some put →
        (storeAfter stamp put.partition
          (final.puts ++ [put])).commitWatermark.isDurable publisherId
            put.attachment.seq.val = true) ↔
      ∀ partition,
        (∀ outcome ∈
            outcomesOn partition (attemptsFrom hash config 0 calls),
          outcome = true) ∨
        outcomesOn partition (attemptsFrom hash config 0 calls) = [false] := by
  have allocates :=
    (Allocates.initial publisherId config).history (by simp; omega) completed
  rw [nil_append] at allocates
  have fewOn :
      ∀ partition,
        (outcomesOn partition
          (attemptsFrom hash config 0 calls)).length < 2 ^ 64 := by
    intro partition
    have onPartition :=
      Allocates.length_outcomesOn_le partition
        (attemptsFrom hash config 0 calls)
    have overall := length_attemptsFrom hash config 0 calls
    omega
  constructor
  · rintro ⟨initial, durable⟩ partition
    apply (initial_and_extendable_iff _).mp
    constructor
    · rw [← allocates.put]
      exact initial partition
    · obtain ⟨step, put, performed, isPut, onPartition⟩ :=
        final.publisher.perform_explicit hash partition
      obtain ⟨seq, owner⟩ := EventPublisher.put_of_perform performed isPut
      subst onPartition
      exact (allocates.isDurable_next stamp (fewOn _) seq
        (owner.trans allocates.identity)).mp
          (durable _ step put rfl performed isPut)
  · intro unburnt
    constructor
    · intro partition
      rw [allocates.put]
      exact ((initial_and_extendable_iff _).mpr (unburnt partition)).1
    · intro call step put _ performed isPut
      obtain ⟨seq, owner⟩ := EventPublisher.put_of_perform performed isPut
      exact (allocates.isDurable_next stamp (fewOn _) seq
        (owner.trans allocates.identity)).mpr
          ((initial_and_extendable_iff _).mpr (unburnt put.partition)).2

/-- An unencoded event of a fixed identity, for concrete histories. -/
def sampleOutgoing : Outgoing :=
  .rawBytes [] 0 0

/-- A configuration with one partition and no cache. -/
def singlePartition : PublisherConfig where
  keyPrefix := "events"
  numPartitions := 1
  cacheSize := 0
  durableUrgency := 0

/-- Two successful publishes leave an initial segment. -/
theorem publish_contiguous_twoPuts :
    ∃ final,
      PublisherRun.run? (fun _ => 0)
          [.publish sampleOutgoing { put := .ok () },
            .publish sampleOutgoing { put := .ok () }]
          { publisher := { publisherId := 7, config := singlePartition } } =
        some final ∧
      ∀ partition, ∀ seq ∈ putSeqs partition final.puts,
        ∀ smaller < seq, smaller ∈ putSeqs partition final.puts := by
  refine ⟨_, rfl, ?_⟩
  refine ((publish_contiguous_iff (fun _ => 0) (fun _ => none) 7
    singlePartition
    [.publish sampleOutgoing { put := .ok () },
      .publish sampleOutgoing { put := .ok () }]
    (by decide) _ rfl).mpr ?_).1
  have attempts :
      attemptsFrom (fun _ => 0) singlePartition 0
          [.publish sampleOutgoing { put := .ok () },
            .publish sampleOutgoing { put := .ok () }] =
        [⟨0, true⟩, ⟨0, true⟩] := by
    decide
  intro partition
  rw [attempts]
  left
  intro outcome member
  obtain ⟨attempt, kept, isOutcome⟩ := mem_map.mp member
  have attempted := (mem_filter.mp kept).1
  rw [mem_cons, mem_singleton, or_self] at attempted
  rw [← isOutcome, attempted]

/--
A put that fails burns its sequence: sequences 0 and 2 are put, and the
durable publish that follows takes sequence 3 and is never confirmed.
-/
theorem failed_put_burns_sequence :
    let calls : List PublishCall :=
      [.publish sampleOutgoing { put := .ok () },
        .publish sampleOutgoing { put := .error "link down" },
        .publish sampleOutgoing { put := .ok () }]
    let start : PublisherRun :=
      { publisher := { publisherId := 7, config := singlePartition } }
    ∃ final step put,
      PublisherRun.run? (fun _ => 0) calls start = some final ∧
        putSeqs 0 final.puts = {0, 2} ∧
        final.publisher.perform (fun _ => 0)
            (.publishDurable sampleOutgoing { put := .ok () }) =
          some step ∧
        step.put = some put ∧
        put.attachment.seq = 3 ∧
        (storeAfter (fun _ => none) 0
          (final.puts ++ [put])).commitWatermark.isDurable 7 3 = false :=
  ⟨_, _, _, rfl, by decide, rfl, rfl, by decide, by decide⟩

end Mitiflow
