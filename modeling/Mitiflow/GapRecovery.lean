import Mitiflow.CatchUpReader

namespace Mitiflow

open Library

/-!
# Recovery of gaps

A reported miss is recovered by a task of its own, which queries the event
store, then the publisher's cache, then the store again with growing delays,
until every missed sequence was seen.  Replies arrive while the rest of the
subscriber runs, so a task is a state that its replies move: the query in
progress heads the list of those that remain.

A reply is handed to the event channel if its sequence is missing; whose
sequence it is, the task does not check.
-/

/-- The settings of gap recovery. -/
structure RecoveryConfig where
  keyPrefix : String
  storeKeyPrefix : Option String
  recoveryDelay : Nat
  maxRecoveryAttempts : Nat
  deriving Repr, DecidableEq

/-! ## Tracking -/

/-- Which sequences of a gap have been recovered. -/
structure RecoveryTracker where
  expected : Nat × Nat
  recovered : Finset Nat
  deriving DecidableEq

namespace RecoveryTracker

def new (missed : Nat × Nat) : RecoveryTracker where
  expected := missed
  recovered := ∅

def expects (tracker : RecoveryTracker) (seq : Nat) : Bool :=
  tracker.expected.1 ≤ seq && seq < tracker.expected.2

def record (tracker : RecoveryTracker) (seq : Nat) : RecoveryTracker :=
  if tracker.expects seq then
    { tracker with recovered := insert seq tracker.recovered }
  else
    tracker

/-- Whether the gap is closed. -/
def isComplete (tracker : RecoveryTracker) : Bool :=
  tracker.recovered.card = tracker.expected.2 - tracker.expected.1

/-- The sequences still missing, in order. -/
def remaining (tracker : RecoveryTracker) : List Nat :=
  (List.range' tracker.expected.1
    (tracker.expected.2 - tracker.expected.1)).filter
      fun seq => seq ∉ tracker.recovered

variable {seq : Nat}

theorem mem_remaining {tracker : RecoveryTracker} :
    seq ∈ tracker.remaining ↔
      tracker.expects seq = true ∧ seq ∉ tracker.recovered := by
  simp only [remaining, List.mem_filter, List.mem_range'_1, decide_eq_true_eq,
    expects, Bool.and_eq_true]
  constructor
  · rintro ⟨⟨lower, upper⟩, missing⟩
    exact ⟨⟨lower, by omega⟩, missing⟩
  · rintro ⟨⟨lower, upper⟩, missing⟩
    exact ⟨⟨lower, by omega⟩, missing⟩

theorem mem_remaining_new {missed : Nat × Nat} :
    seq ∈ (new missed).remaining ↔ missed.1 ≤ seq ∧ seq < missed.2 := by
  simp [mem_remaining, new, expects]

theorem mem_remaining_record
    {tracker : RecoveryTracker}
    {other : Nat} :
    other ∈ (tracker.record seq).remaining ↔
      other ∈ tracker.remaining ∧ other ≠ seq := by
  rw [mem_remaining, mem_remaining, record]
  by_cases isExpected : tracker.expects seq = true
  · simp only [isExpected, ↓reduceIte, Finset.mem_insert, not_or]
    constructor
    · rintro ⟨expected, differs, missing⟩
      exact ⟨⟨expected, missing⟩, differs⟩
    · rintro ⟨⟨expected, missing⟩, differs⟩
      exact ⟨expected, differs, missing⟩
  · rw [if_neg isExpected]
    constructor
    · intro isMissing
      refine ⟨isMissing, fun same => ?_⟩
      rw [same] at isMissing
      exact isExpected isMissing.1
    · exact And.left

end RecoveryTracker

/-! ## Tasks -/

/-- One query of a recovery, after a delay. -/
structure RecoveryQuery where
  delay : Nat
  selector : String
  deriving Repr, DecidableEq

section Selectors

variable (display : PublisherId → String)

/-- The selector of a store query; `display` renders a publisher. -/
def storeRecoverySelector (storePrefix : String) (miss : MissInfo) : String :=
  storePrefix ++ "/" ++ toString miss.partition.val ++ "?publisher_id=" ++
    display miss.source ++ "&after_seq=" ++ toString (miss.missed.1 - 1) ++
    "&before_seq=" ++ toString miss.missed.2

def cacheRecoverySelector (keyPrefix : String) (miss : MissInfo) : String :=
  keyPrefix ++ "/_cache/" ++ display miss.source ++ "?after_seq=" ++
    toString miss.missed.1 ++ "&before_seq=" ++ toString miss.missed.2

/-- The queries of a recovery: the store, the cache, the store again. -/
def recoveryQueries
    (config : RecoveryConfig)
    (miss : MissInfo) : List RecoveryQuery :=
  let cache : RecoveryQuery :=
    ⟨0, cacheRecoverySelector display config.keyPrefix miss⟩
  match config.storeKeyPrefix with
  | none => [cache]
  | some storePrefix =>
    let selector := storeRecoverySelector display storePrefix miss
    ⟨config.recoveryDelay, selector⟩ :: cache ::
      (List.range' 1 (config.maxRecoveryAttempts - 1)).map fun attempt =>
        ⟨config.recoveryDelay * 2 ^ attempt, selector⟩

end Selectors

/-- A running recovery; it has ended when no query remains. -/
structure RecoveryTask where
  miss : MissInfo
  tracker : RecoveryTracker
  queries : List RecoveryQuery
  deriving DecidableEq

namespace RecoveryTask

def spawn
    (display : PublisherId → String)
    (config : RecoveryConfig)
    (miss : MissInfo) : RecoveryTask where
  miss := miss
  tracker := .new miss.missed
  queries := recoveryQueries display config miss

def ended (task : RecoveryTask) : Bool :=
  task.queries = []

/-- One reply to the query in progress: the task after it, and its event. -/
def onReply (task : RecoveryTask) (reply : Reply) :
    RecoveryTask × Option RawEvent :=
  match reply.event? with
  | none => (task, none)
  | some raw =>
    if task.tracker.expects raw.seq.val then
      if raw.seq.val ∈ task.tracker.recovered then
        (task, none)
      else
        ({ task with tracker := task.tracker.record raw.seq.val }, some raw)
    else
      (task, none)

/-- The end of the query in progress: stop if complete, else go on. -/
def endQuery (task : RecoveryTask) : RecoveryTask :=
  { task with
    queries :=
      if task.tracker.isComplete then [] else task.queries.tail }

/-- A reply hands over an event of a sequence that was missing. -/
theorem onReply_cases (task : RecoveryTask) (reply : Reply) :
    task.onReply reply = (task, none) ∨
      ∃ raw,
        reply.event? = some raw ∧
          raw.seq.val ∈ task.tracker.remaining ∧
          task.onReply reply =
            ({ task with tracker := task.tracker.record raw.seq.val },
              some raw) := by
  simp only [onReply]
  split
  · exact Or.inl rfl
  · rename_i raw carries
    split
    · rename_i isExpected
      split
      · exact Or.inl rfl
      · rename_i missing
        exact Or.inr ⟨raw, carries,
          RecoveryTracker.mem_remaining.mpr ⟨isExpected, missing⟩, rfl⟩
    · exact Or.inl rfl

theorem ended_endQuery {task : RecoveryTask} (hasEnded : task.ended = true) :
    task.endQuery.ended = true := by
  rw [ended, decide_eq_true_eq] at hasEnded
  simp [ended, endQuery, hasEnded]

end RecoveryTask

end Mitiflow
