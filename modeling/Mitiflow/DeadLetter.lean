import Mitiflow.Types

namespace Mitiflow

open Function

/-!
# The dead letter queue

An event that fails too often is put on a separate topic.  The failures of
each event are counted; the count is dropped when the event is acknowledged
or has reached the topic, and kept when the put fails.  Between two attempts
the consumer waits for a delay that is meant to double.
-/

/-- The longest duration, in nanoseconds. -/
def durationMax : Nat := 2 ^ 64 * 10 ^ 9 - 1

/-- How long to wait before the next attempt, in nanoseconds. -/
inductive BackoffStrategy where
  | fixed (delay : Nat)
  | exponential (base max : Nat)
  deriving Repr, DecidableEq

/-- The delay after an attempt, numbered from zero. -/
def BackoffStrategy.delayFor (attempt : U32) : BackoffStrategy → Nat
  | .fixed delay => delay
  | .exponential base max =>
    -- The saturated 64-bit power is cut to its low 32 bits.
    let multiplier := min (2 ^ attempt.val) u64Max
    let delay := min (base * (multiplier % 2 ^ 32)) durationMax
    if delay > max then max else delay

structure DlqConfig where
  maxRetries : U32
  dlqKeyPrefix : String
  retryBackoff : BackoffStrategy
  deriving Repr, DecidableEq

/-- The counts of failures; a count stays below `2 ^ 32`. -/
structure DeadLetterQueue where
  config : DlqConfig
  retries : EventId → Option Nat := fun _ => none

inductive RetryOutcome where
  | retry (attempt delay : Nat)
  | sentToDlq (attempts : Nat)
  deriving Repr, DecidableEq

/-- A put on the topic of dead letters. -/
structure DlqPut where
  key : String
  payload : Bytes
  deriving Repr, DecidableEq

structure FailureStep where
  queue : DeadLetterQueue
  put : Option DlqPut
  result : Except Error RetryOutcome

namespace DeadLetterQueue

def attemptCount (queue : DeadLetterQueue) (id : EventId) : Nat :=
  (queue.retries id).getD 0

/-- Record a failure; `put` is what the transport answers, if it is asked. -/
def onFailure
    (display : EventId → String)
    (queue : DeadLetterQueue)
    (event : RawEvent)
    (put : Except String Unit) : FailureStep :=
  let attempt := queue.attemptCount event.id + 1
  let counted : DeadLetterQueue :=
    { queue with
      retries := update queue.retries event.id (some attempt) }
  if queue.config.maxRetries.val ≤ attempt then
    let letter : DlqPut :=
      ⟨queue.config.dlqKeyPrefix ++ "/" ++ display event.id, event.payload⟩
    match put with
    | .error message => ⟨counted, some letter, .error (.zenoh message)⟩
    | .ok () =>
      ⟨{ queue with retries := update queue.retries event.id none },
        some letter, .ok (.sentToDlq attempt)⟩
  else
    ⟨counted, none,
      .ok (.retry attempt
        (queue.config.retryBackoff.delayFor
          (Fin.ofNat (2 ^ 32) (attempt - 1))))⟩

def ack (queue : DeadLetterQueue) (id : EventId) : DeadLetterQueue :=
  { queue with retries := update queue.retries id none }

end DeadLetterQueue

/-! ## Counting failures -/

inductive DlqCall where
  | failure (event : RawEvent) (put : Except String Unit)
  | ack (id : EventId)

/-- A call, and whether it asked the transport for a put. -/
structure DlqRecord where
  call : DlqCall
  attempted : Bool

namespace DlqRecord

def fails (id : EventId) (record : DlqRecord) : Bool :=
  match record.call with
  | .failure event _ => event.id = id
  | .ack _ => false

/-- An acknowledgement of an event, or its arrival on the topic. -/
def settles (id : EventId) (record : DlqRecord) : Bool :=
  match record.call with
  | .failure event put => event.id = id && record.attempted && put.isOk
  | .ack other => other = id

end DlqRecord

/-- The failures of an event since it was last settled. -/
def failuresSince (id : EventId) (records : List DlqRecord) : Nat :=
  (records.reverse.takeWhile fun record => !record.settles id).countP
    (DlqRecord.fails id)

theorem failuresSince_snoc
    (id : EventId)
    (records : List DlqRecord)
    (record : DlqRecord) :
    failuresSince id (records ++ [record]) =
      if record.settles id then
        0
      else
        failuresSince id records + (record.fails id).toNat := by
  unfold failuresSince
  rw [List.reverse_append, List.reverse_singleton, List.singleton_append,
    List.takeWhile_cons]
  cases settled : record.settles id with
  | true => simp
  | false =>
    cases failed : record.fails id with
    | true => simp [failed]
    | false => simp [failed]

namespace DeadLetterQueue

variable (display : EventId → String)

def perform (queue : DeadLetterQueue) :
    DlqCall → DeadLetterQueue × DlqRecord
  | .failure event put =>
    let step := queue.onFailure display event put
    (step.queue, ⟨.failure event put, step.put.isSome⟩)
  | .ack id => (queue.ack id, ⟨.ack id, false⟩)

/-- The queue and the records after calls. -/
def afterCalls (config : DlqConfig) (calls : List DlqCall) :
    DeadLetterQueue × List DlqRecord :=
  calls.foldl
    (fun run call =>
      let (queue, record) := run.1.perform display call
      (queue, run.2 ++ [record]))
    ({ config := config }, [])

variable {display} {queue : DeadLetterQueue}

theorem attemptCount_update
    (id other : EventId)
    (count : Option Nat) :
    attemptCount
        { queue with retries := update queue.retries id count }
        other =
      if other = id then count.getD 0 else queue.attemptCount other := by
  simp only [attemptCount, update_apply]
  split
  · rfl
  · rfl

theorem attemptCount_ack (id other : EventId) :
    (queue.ack id).attemptCount other =
      if other = id then 0 else queue.attemptCount other :=
  attemptCount_update id other none

/-- What a failure does: the count of the event goes up, and is dropped if a
put was due and succeeded. -/
theorem onFailure_spec (event : RawEvent) (put : Except String Unit) :
    let step := queue.onFailure display event put
    let due := queue.config.maxRetries.val ≤ queue.attemptCount event.id + 1
    (step.put.isSome = true ↔ due) ∧ step.queue.config = queue.config ∧
      ∀ other,
        step.queue.attemptCount other =
          if other = event.id then
            if due ∧ put.isOk = true then
              0
            else
              queue.attemptCount event.id + 1
          else
            queue.attemptCount other := by
  by_cases due :
      queue.config.maxRetries.val ≤ queue.attemptCount event.id + 1
  · cases put with
    | error message =>
      simp [onFailure, due, attemptCount_update, Except.isOk, Except.toBool]
    | ok =>
      simp [onFailure, due, attemptCount_update, Except.isOk, Except.toBool]
  · simp [onFailure, due, attemptCount_update]

/-- The counts are the failures since the event was settled. -/
def Counts (queue : DeadLetterQueue) (records : List DlqRecord) : Prop :=
  ∀ id, queue.attemptCount id = failuresSince id records

theorem Counts.perform
    {records : List DlqRecord}
    (counts : queue.Counts records)
    (call : DlqCall) :
    (queue.perform display call).1.Counts
        (records ++ [(queue.perform display call).2]) ∧
      (queue.perform display call).1.config = queue.config := by
  cases call with
  | ack id =>
    refine ⟨fun other => ?_, rfl⟩
    rw [failuresSince_snoc]
    show (queue.ack id).attemptCount other = _
    rw [attemptCount_ack, counts]
    simp [DeadLetterQueue.perform, DlqRecord.settles, DlqRecord.fails,
      eq_comm]
  | failure event put =>
    obtain ⟨attempted, config, count⟩ :=
      @onFailure_spec display queue event put
    refine ⟨fun other => ?_, config⟩
    rw [failuresSince_snoc]
    show (queue.onFailure display event put).queue.attemptCount other = _
    rw [count]
    simp only [DeadLetterQueue.perform, DlqRecord.settles, DlqRecord.fails,
      Bool.and_eq_true, decide_eq_true_eq, attempted]
    by_cases isEvent : other = event.id
    · subst isEvent
      simp [counts event.id]
    · simp [isEvent, Ne.symm isEvent, counts other]

theorem counts_afterCalls (config : DlqConfig) (calls : List DlqCall) :
    (afterCalls display config calls).1.Counts
        (afterCalls display config calls).2 ∧
      (afterCalls display config calls).1.config = config := by
  induction calls using List.reverseRecOn with
  | nil => exact ⟨fun _ => rfl, rfl⟩
  | append_singleton calls call inductionHypothesis =>
    obtain ⟨counts, isConfig⟩ := inductionHypothesis
    rw [afterCalls, List.foldl_append]
    obtain ⟨later, sameConfig⟩ := @Counts.perform display _ _ counts call
    exact ⟨later, sameConfig.trans isConfig⟩

/-- A failure asks for a put exactly when the failures of the event since it
was settled reach the limit; a failed put keeps the count, and no call changes
the count of another event. -/
theorem dead_letter_accounting
    (display : EventId → String)
    (config : DlqConfig)
    (calls : List DlqCall) :
    let queue := (afterCalls display config calls).1
    let records := (afterCalls display config calls).2
    (∀ id, queue.attemptCount id = failuresSince id records) ∧
      (∀ event put,
        let step := queue.onFailure display event put
        (step.put.isSome = true ↔
            max 1 config.maxRetries.val ≤
              failuresSince event.id records + 1) ∧
          (put.isOk = false →
            step.queue.attemptCount event.id =
              failuresSince event.id records + 1) ∧
          ∀ other, other ≠ event.id →
            step.queue.attemptCount other = queue.attemptCount other) ∧
      ∀ id other, other ≠ id →
        (queue.ack id).attemptCount other = queue.attemptCount other := by
  intro queue records
  obtain ⟨counts, isConfig⟩ :
      queue.Counts records ∧ queue.config = config :=
    counts_afterCalls config calls
  refine ⟨counts, fun event put => ?_, fun id other differs => ?_⟩
  · obtain ⟨attempted, _, count⟩ :=
      @onFailure_spec display queue event put
    refine ⟨?_, fun failed => ?_, fun other differs => ?_⟩
    · rw [attempted, isConfig, counts event.id]
      omega
    · rw [count, if_pos rfl, counts event.id, failed]
      simp
    · rw [count, if_neg differs]
  · rw [attemptCount_ack, if_neg differs]

end DeadLetterQueue

/-! ## Doubling the delay -/

namespace BackoffStrategy

section Exponential

variable {base max : Nat} (fits : max ≤ durationMax)

include fits

end Exponential

end BackoffStrategy

end Mitiflow
