import Mitiflow.RecoverySoundness

namespace Mitiflow

open Library List

/-!
# What a recovery from the store can achieve

A publisher numbers its events and the store of a partition holds what was
put there.  A subscriber that misses a range of numbers recovers it from the
store exactly if no call in the range failed after taking its number.
-/

/-- A replay query for a publisher returns the sequences held of it. -/
theorem FjallBackend.queryReplay_seq_iff
    {partition : U32}
    {actions : List StoreAction}
    {publisher : PublisherId}
    (stamped :
      ∀ event ∈ storedEvents actions,
        event.metadata.hlcTimestamp.isSome = true)
    (seq : Nat) :
    (∃ event ∈
        (afterActions partition actions).queryReplay
          { publisherId := some publisher },
        event.metadata.seq.val = seq) ↔
      seq ∈ heldSeqs (afterActions partition actions).db publisher := by
  have stored := storedFrom_afterActions partition actions
  rw [mem_heldSeqs]
  constructor
  · rintro ⟨event, isReplayed, isSeq⟩
    obtain ⟨index, isIndexed, taken⟩ := mem_scan isReplayed
    obtain ⟨⟨_, _, ofPublisher⟩, value, found, _, rfl⟩ :=
      ReplayFilters.visit_eq_take_iff.mp taken
    obtain ⟨_, _, _, _, rfl⟩ := stored.indexed index isIndexed
    have member := OrderedMap.get?_eq_some.mp found
    obtain ⟨event, _, shape⟩ := stored.held _ member
    obtain ⟨isKey, rfl⟩ := Prod.mk.inj shape
    refine ⟨_, (Database.holds_iff_mem _ _).mpr ⟨_, member⟩,
      of_decide_eq_true ofPublisher, ?_⟩
    rw [isKey]
    exact isSeq
  · rintro ⟨key, holds, isPublisher, isSeq⟩
    obtain ⟨value, member⟩ := (Database.holds_iff_mem _ _).mp holds
    obtain ⟨event, isStored, shape⟩ := stored.held _ member
    cases shape
    obtain ⟨hlc, clock⟩ := Option.isSome_iff_exists.mp (stamped event isStored)
    refine ⟨returnedEvent event.metadata event.payload, ?_, isSeq⟩
    rw [queryReplay, scan_none, nil_append, ReplayFilters.collected_visit]
    refine mem_filterMap.mpr
      ⟨_, stored.reachable _ member hlc clock, value?_eq_some_iff.mpr ?_⟩
    exact ReplayFilters.visit_eq_take_iff.mpr
      ⟨⟨rfl, rfl, decide_eq_true isPublisher⟩, _,
        OrderedMap.get?_eq_some.mpr member, rfl, rfl⟩

/-- The store answers the first query in full; nobody else replies. -/
structure OnlyStoreReplies
    (events : List StoredEvent)
    (selector : String)
    (yields : Nat → String → RecoveryReplies) : Prop where
  first :
    ∃ arrivals,
      yields 0 selector = .ok arrivals ∧
        events.map StoredEvent.reply ⊆ arrivals.map Prod.fst
  only :
    ∀ index query arrivals,
      yields index query = .ok arrivals →
        arrivals.map Prod.fst ⊆ events.map StoredEvent.reply

/-- A recovery hears of the sequences among the store's replies. -/
theorem OnlyStoreReplies.allHeard_iff
    {events : List StoredEvent}
    {yields : Nat → String → RecoveryReplies}
    {display : PublisherId → String}
    {config : RecoveryConfig}
    {storePrefix : String}
    {miss : MissInfo}
    (replies :
      OnlyStoreReplies events
        (storeRecoverySelector display storePrefix miss) yields)
    (hasStore : config.storeKeyPrefix = some storePrefix) :
    AllHeard miss (heardInGap display config miss yields) ↔
      ∀ seq, miss.Missed seq →
        ∃ event ∈ events, event.metadata.seq.val = seq := by
  refine forall₂_congr fun seq isMissed => ?_
  constructor
  · rintro ⟨event, isHeard, isSeq⟩
    obtain ⟨_, query, _, number, inQuery⟩ := missed_of_mem_heardBy isHeard
    obtain ⟨_, _, arrivals, replied, reply, isArrival, carries⟩ :=
      missed_of_mem_heardIn inQuery
    obtain ⟨stored, isStored, rfl⟩ := mem_map.mp
      (replies.only _ _ _ replied (mem_map_of_mem isArrival))
    refine ⟨stored, isStored, ?_⟩
    rw [← isSeq, HeardEvent.seq, ← Option.some.inj carries]
    rfl
  · rintro ⟨stored, isStored, rfl⟩
    obtain ⟨arrivals, replied, all⟩ := replies.first
    obtain ⟨arrival, isArrival, isReply⟩ :=
      mem_map.mp (all (mem_map_of_mem isStored))
    refine ⟨⟨storeRecoverySelector display storePrefix miss, stored.raw,
      arrival.2⟩, ?_, rfl⟩
    rw [heardInGap, recoveryQueries, hasStore]
    apply mem_append_left
    rw [replied]
    refine mem_filterMap.mpr ⟨arrival, isArrival, ?_⟩
    rw [heardOf, isReply]
    exact if_pos isMissed

/--
A recovery from the store of a partition, which holds what was put there,
succeeds exactly if every missed number was put: a call that fails after
taking its number leaves a gap that the store cannot close.
-/
theorem recoverGap_succeeds_iff_put
    (hash : String → U64)
    (config : PublisherConfig)
    (calls : List PublishCall)
    (few : calls.length ≤ 2 ^ 64)
    (miss : MissInfo)
    (final : PublisherRun)
    (completed :
      PublisherRun.run? hash calls
          { publisher := { publisherId := miss.source, config := config } } =
        some final)
    (actions : List StoreAction)
    (held :
      heldSeqs (FjallBackend.afterActions miss.partition actions).db
        miss.source = putSeqs miss.partition final.puts)
    (stamped :
      ∀ event ∈ storedEvents actions,
        event.metadata.hlcTimestamp.isSome = true)
    (uuid : UuidText)
    (dateTime : List Char → Except String DateTime)
    (recovery : RecoveryConfig)
    (storePrefix : String)
    (hasStore : recovery.storeKeyPrefix = some storePrefix)
    (yields : Nat → String → RecoveryReplies)
    (replies :
      OnlyStoreReplies
        ((FjallBackend.afterActions miss.partition actions).answer
          ⟨uuid.parse, dateTime⟩ (storeRecoveryParameters uuid.display miss))
        (storeRecoverySelector uuid.display storePrefix miss) yields)
    (capacity : Nat) :
    (recoverGap capacity yields uuid.display recovery miss).2 = .ok () ↔
      ∀ seq, miss.Missed seq →
        (outcomesOn miss.partition (attemptsFrom hash config 0 calls))[seq]? =
          some true := by
  have allocates :=
    (Allocates.initial miss.source config).history (by simpa using few)
      completed
  rw [(recovers_recoverGap uuid.display recovery yields).succeeds,
    replies.allHeard_iff hasStore, answer_storeRecoveryParameters]
  refine forall₂_congr fun seq _ => ?_
  rw [FjallBackend.queryReplay_seq_iff stamped, held, allocates.put,
    mem_succeededAt]
  rfl

/-- The only event of a publisher is missed and recovered. -/
theorem recoverGap_succeeds_onlyEvent :
    let event := stampedEvent 7 0 0 none (some ⟨1, 0⟩)
    (recoverGap 1 (fun _ _ => .ok [(event.reply, 0)]) decimalUuid.display
        { cacheOnly with storeKeyPrefix := some "store" } ⟨7, 0, 0, 1⟩).2 =
      .ok () := by
  intro event
  refine (recoverGap_succeeds_iff_put (fun _ => 0) singlePartition
    [.publish sampleOutgoing { put := .ok () }] (by decide) _ _ rfl
    [.store (.store event)] (by decide +kernel) (by decide) decimalUuid
    decimalParsers.dateTime _ "store" rfl _ ⟨⟨_, rfl, ?_⟩, ?_⟩ 1).mpr ?_
  · decide +kernel
  · rintro _ _ _ ⟨⟩
    decide +kernel
  · intro seq isMissed
    rw [Nat.lt_one_iff.mp isMissed.2]
    rfl

end Mitiflow
