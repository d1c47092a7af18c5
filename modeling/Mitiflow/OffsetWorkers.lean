import Mitiflow.OffsetHistory

namespace Mitiflow

open Library List Function

/-!
# Offset commits through the worker pool

A running store has one task for group commits and one for keyed commits; each
sends one commit at a time to the shared channel and waits for the reply.  Any
number of workers take messages from the channel.  A commit is not atomic in a
worker: it reads and checks its records one by one, and writes at the end.

The two tasks form two lanes that never touch each other's records.  Within a
lane at most one commit is under way, so what it has read stays true until it
writes; a lane therefore behaves as the serial history of what its task sent.
-/

/-! ## Commits in rounds -/

/-- A round of a commit: read one record, check it, prepare its successor. -/
abbrev CommitRound := OffsetKeyspace → Except Error (Bytes × Bytes)

def KeyedOffsetCommit.record (commit : KeyedOffsetCommit) : Bytes × Bytes :=
  (keyedOffsetKey commit.groupId commit.keyFilter.hash,
    encodeKeyedOffsetValue commit.lastHlc commit.generation commit.timestamp)

namespace OffsetCall

/-- Whether a call is sent by the task for keyed commits. -/
def isKeyed : OffsetCall → Bool
  | .offsets _ _ => false
  | .keyed _ _ => true

def rounds : OffsetCall → List CommitRound
  | .offsets commit answers =>
    commit.offsets.entries.map fun offset keyspace =>
      fencedInsert keyspace answers commit offset
  | .keyed commit answers =>
    [fun keyspace =>
      (keyedFence keyspace commit answers).map fun _ => commit.record]

/-- The atomic write that follows the rounds. -/
def finish (keyspace : OffsetKeyspace) (batch : List (Bytes × Bytes)) :
    OffsetCall → OffsetKeyspace × Except Error Unit
  | .offsets _ answers => writeBatch keyspace answers batch
  | .keyed commit answers => keyedWrite keyspace commit answers

end OffsetCall

/-- All rounds on one keyspace. -/
def runRounds (keyspace : OffsetKeyspace) :
    List CommitRound → Except Error (List (Bytes × Bytes))
  | [] => .ok []
  | round :: rest =>
    match round keyspace with
    | .error failure => .error failure
    | .ok entry => (runRounds keyspace rest).map (entry :: ·)

/-! ## The worker pool -/

/-- A message in the shared channel; all others leave offset records alone. -/
inductive BackendMsg where
  | commit (call : OffsetCall)
  | other

/-- What a worker is doing. -/
inductive OffsetWorkerState where
  | idle
  | checking (call : OffsetCall) (remaining : List CommitRound)
      (batch : List (Bytes × Bytes))
  | replying (call : OffsetCall) (result : Except Error Unit)
  | occupied

/-- The two tasks, the channel, the workers and the shared keyspace. -/
structure OffsetSystem (workers : Nat) where
  keyspace : OffsetKeyspace := .empty
  /-- The commit each task waits for; the keyed task is `true`. -/
  awaiting : Bool → Option OffsetCall := fun _ => none
  channel : List BackendMsg := []
  workers : Fin workers → OffsetWorkerState := fun _ => .idle
  /-- Commits sent so far, oldest first. -/
  sent : List OffsetCall := []
  /-- Replies received so far, oldest first. -/
  replies : List (OffsetCall × Except Error Unit) := []

/-- One atomic step of a task or of a worker. -/
inductive OffsetStep (workers : Nat) where
  | send (call : OffsetCall)
  | sendOther
  | take (worker : Fin workers)
  | check (worker : Fin workers)
  | write (worker : Fin workers)
  | reply (worker : Fin workers)

namespace OffsetSystem

variable {workers : Nat}

def setWorker
    (system : OffsetSystem workers)
    (worker : Fin workers)
    (state : OffsetWorkerState) : OffsetSystem workers :=
  { system with workers := update system.workers worker state }

/-- Take one step, if it is enabled. -/
def step? (system : OffsetSystem workers) :
    OffsetStep workers → Option (OffsetSystem workers)
  | .send call =>
    match system.awaiting call.isKeyed with
    | some _ => none
    | none =>
      some
        { system with
          awaiting :=
            update system.awaiting call.isKeyed (some call)
          channel := system.channel ++ [.commit call]
          sent := system.sent ++ [call] }
  | .sendOther =>
    some { system with channel := system.channel ++ [.other] }
  | .take worker =>
    match system.workers worker, system.channel with
    | .idle, .commit call :: rest =>
      some ({ system with channel := rest }.setWorker worker
        (.checking call call.rounds []))
    | .idle, .other :: rest =>
      some ({ system with channel := rest }.setWorker worker .occupied)
    | _, _ => none
  | .check worker =>
    match system.workers worker with
    | .checking call (round :: rest) batch =>
      match round system.keyspace with
      | .error failure =>
        some (system.setWorker worker
          (.replying call (.error failure)))
      | .ok entry =>
        some (system.setWorker worker
          (.checking call rest (batch ++ [entry])))
    | _ => none
  | .write worker =>
    match system.workers worker with
    | .checking call [] batch =>
      let (keyspace, result) := call.finish system.keyspace batch
      some ({ system with keyspace := keyspace }.setWorker worker
        (.replying call result))
    | _ => none
  | .reply worker =>
    match system.workers worker with
    | .replying call result =>
      some
        ({ system with
            awaiting := update system.awaiting call.isKeyed none
            replies := system.replies ++ [(call, result)] }.setWorker
          worker .idle)
    | .occupied => some (system.setWorker worker .idle)
    | _ => none

/-- Run an interleaving, refusing it at the first disabled step. -/
def run? : List (OffsetStep workers) → OffsetSystem workers →
    Option (OffsetSystem workers)
  | [], system => some system
  | step :: rest, system => (system.step? step).bind (run? rest)

end OffsetSystem

/-- The outcomes of executing calls one at a time. -/
def serialOutcomesFrom (keyspace : OffsetKeyspace) :
    List OffsetCall → List (OffsetCall × Except Error Unit)
  | [] => []
  | call :: rest =>
    (call, (call.perform keyspace).2) ::
      serialOutcomesFrom (call.perform keyspace).1 rest

/-! ## A commit on a fixed keyspace is its rounds and its write -/

theorem fencedBatch_eq_runRounds
    (keyspace : OffsetKeyspace)
    (answers : EngineAnswers)
    (commit : GroupCommit)
    (offsets : List (PublisherId × U64)) :
    fencedBatch keyspace answers commit offsets =
      runRounds keyspace
        (offsets.map fun offset keyspace =>
          fencedInsert keyspace answers commit offset) := by
  induction offsets with
  | nil =>
    rfl
  | cons offset rest inductionHypothesis =>
    rw [fencedBatch, map_cons, runRounds, ← inductionHypothesis]
    cases fencedInsert keyspace answers commit offset with
    | error failure =>
      rfl
    | ok entry =>
      cases fencedBatch keyspace answers commit rest with
      | error failure =>
        rfl
      | ok batch =>
        rfl

theorem OffsetCall.perform_eq
    (keyspace : OffsetKeyspace)
    (call : OffsetCall) :
    call.perform keyspace =
      match runRounds keyspace call.rounds with
      | .error failure => (keyspace, .error failure)
      | .ok batch => call.finish keyspace batch := by
  cases call with
  | offsets commit answers =>
    have checked :
        fencedBatch keyspace answers commit commit.offsets.entries =
          runRounds keyspace (OffsetCall.offsets commit answers).rounds :=
      fencedBatch_eq_runRounds keyspace answers commit commit.offsets.entries
    cases read : runRounds keyspace
        (OffsetCall.offsets commit answers).rounds with
    | error failure =>
      simp only [perform, commitOffsets, checked, read]
    | ok batch =>
      simp only [perform, commitOffsets, checked, read, finish]
  | keyed commit answers =>
    simp only [perform, commitKeyedOffset, rounds, runRounds, finish]
    cases keyedFence keyspace commit answers with
    | error failure =>
      rfl
    | ok passed =>
      rfl

/-! ## The records of a lane -/

/-- The keys of the records a lane reads and writes. -/
def LaneKey (keyed : Bool) (key : Bytes) : Prop :=
  match keyed with
  | false => ∃ groupHash publisher, key = offsetSlotKey groupHash publisher
  | true => ∃ filterHash groupHash, key = keyedSlotKey filterHash groupHash

/-- Two keyspaces agree on the records of a lane. -/
def SameRecords (keyed : Bool) (first second : OffsetKeyspace) : Prop :=
  ∀ key, LaneKey keyed key → first.get? key = second.get? key

theorem SameRecords.refl (keyed : Bool) (keyspace : OffsetKeyspace) :
    SameRecords keyed keyspace keyspace :=
  fun _ _ => rfl

variable {keyed : Bool} {first second : OffsetKeyspace} {call : OffsetCall}

theorem SameRecords.trans
    {third : OffsetKeyspace}
    (earlier : SameRecords keyed first second)
    (later : SameRecords keyed second third) :
    SameRecords keyed first third :=
  fun key isLane => (earlier key isLane).trans (later key isLane)

theorem laneKey_offsetKey (group : String) (publisher : PublisherId) :
    LaneKey false (offsetKey group publisher) :=
  ⟨_, _, rfl⟩

theorem laneKey_keyedOffsetKey (group : String) (filterHash : U64) :
    LaneKey true (keyedOffsetKey group filterHash) :=
  ⟨_, _, rfl⟩

theorem LaneKey.unique
    {first second : Bool}
    {key : Bytes}
    (isFirst : LaneKey first key)
    (isSecond : LaneKey second key) :
    first = second := by
  have lengthOf {keyed : Bool} (isLane : LaneKey keyed key) :
      key.length = if keyed then 16 else 24 := by
    cases keyed with
    | false =>
      obtain ⟨groupHash, publisher, shape⟩ := isLane
      simp [shape]
    | true =>
      obtain ⟨filterHash, groupHash, shape⟩ := isLane
      simp [shape]
  have sameLength := (lengthOf isFirst).symm.trans (lengthOf isSecond)
  cases first with
  | false =>
    cases second with
    | false =>
      rfl
    | true =>
      simp at sameLength
  | true =>
    cases second with
    | false =>
      simp at sameLength
    | true =>
      rfl

variable {round : CommitRound}

/-- A call's rounds only read records of its lane. -/
theorem OffsetCall.round_congr
    (same : SameRecords call.isKeyed first second)
    (member : round ∈ call.rounds) :
    round first = round second := by
  cases call with
  | offsets commit answers =>
    obtain ⟨offset, _, isRound⟩ := mem_map.mp member
    subst isRound
    have sameRecord := same _ (laneKey_offsetKey commit.groupId offset.1)
    simp only [fencedInsert, sameRecord]
  | keyed commit answers =>
    rw [mem_singleton.mp member]
    have sameRecord :=
      same _ (laneKey_keyedOffsetKey commit.groupId commit.keyFilter.hash)
    simp only [keyedFence, sameRecord]

theorem runRounds_congr
    {rounds : List CommitRound}
    (same : ∀ round ∈ rounds, round first = round second) :
    runRounds first rounds = runRounds second rounds := by
  induction rounds with
  | nil =>
    rfl
  | cons round rest inductionHypothesis =>
    grind [runRounds, mem_cons_self]

theorem OffsetCall.laneKey_of_round
    {keyspace : OffsetKeyspace}
    (member : round ∈ call.rounds)
    {entry : Bytes × Bytes}
    (prepared : round keyspace = .ok entry) :
    LaneKey call.isKeyed entry.1 := by
  cases call with
  | offsets commit answers =>
    obtain ⟨offset, _, isRound⟩ := mem_map.mp member
    subst isRound
    rw [(fencedInsert_eq_ok_iff.mp prepared).2.2]
    exact laneKey_offsetKey commit.groupId offset.1
  | keyed commit answers =>
    rw [mem_singleton.mp member] at prepared
    cases fence : keyedFence keyspace commit answers with
    | error failure =>
      simp [fence, Except.map] at prepared
    | ok passed =>
      simp only [fence, Except.map, Except.ok.injEq] at prepared
      rw [← prepared]
      exact laneKey_keyedOffsetKey commit.groupId commit.keyFilter.hash

theorem OffsetCall.laneKey_of_runRounds
    {keyspace : OffsetKeyspace}
    {rounds : List CommitRound}
    (isPart : ∀ round ∈ rounds, round ∈ call.rounds)
    {batch : List (Bytes × Bytes)}
    (prepared : runRounds keyspace rounds = .ok batch) :
    ∀ entry ∈ batch, LaneKey call.isKeyed entry.1 := by
  induction rounds generalizing batch with
  | nil =>
    cases prepared
    simp
  | cons round rest inductionHypothesis =>
    rw [runRounds] at prepared
    cases first : round keyspace with
    | error failure =>
      simp [first] at prepared
    | ok entry =>
      cases later : runRounds keyspace rest with
      | error failure =>
        simp [first, later, Except.map] at prepared
      | ok others =>
        simp only [first, later, Except.map, Except.ok.injEq] at prepared
        subst prepared
        have ofRest := inductionHypothesis
          (fun other member => isPart other (mem_cons_of_mem _ member))
          later
        have ofFirst := laneKey_of_round (isPart round mem_cons_self) first
        exact forall_mem_cons.mpr ⟨ofFirst, ofRest⟩

theorem SameRecords.insertBatch
    (same : SameRecords keyed first second)
    (batch : List (Bytes × Bytes)) :
    SameRecords keyed (insertBatch first batch) (insertBatch second batch) := by
  induction batch generalizing first second with
  | nil =>
    exact same
  | cons entry rest inductionHypothesis =>
    apply inductionHypothesis
    intro key isLane
    rw [OrderedMap.get?_insert, OrderedMap.get?_insert, same key isLane]

/-- Inserting records of the other lane changes nothing for a lane. -/
theorem sameRecords_insertBatch
    {other : Bool}
    (distinct : keyed ≠ other)
    {batch : List (Bytes × Bytes)}
    (ofOther : ∀ entry ∈ batch, LaneKey other entry.1)
    (keyspace : OffsetKeyspace) :
    SameRecords keyed (insertBatch keyspace batch) keyspace := by
  induction batch generalizing keyspace with
  | nil =>
    exact SameRecords.refl keyed keyspace
  | cons entry rest inductionHypothesis =>
    obtain ⟨entryOther, restOther⟩ := forall_mem_cons.mp ofOther
    apply (inductionHypothesis restOther _).trans
    intro key isLane
    have otherKey : key ≠ entry.1 := by
      intro isEntry
      rw [isEntry] at isLane
      exact distinct (isLane.unique entryOther)
    rw [OrderedMap.get?_insert, if_neg otherKey]

/-- The final write inserts records, or reports that it failed. -/
theorem OffsetCall.finish_cases (call : OffsetCall) :
    (∃ failure, ∀ keyspace batch,
      call.finish keyspace batch = (keyspace, .error failure)) ∨
      (∀ keyspace batch,
        call.finish keyspace batch =
          (insertBatch keyspace (match call with
            | .offsets _ _ => batch
            | .keyed commit _ => [commit.record]), .ok ())) := by
  cases call with
  | offsets commit answers =>
    cases write : answers.write with
    | error reason =>
      exact Or.inl ⟨_, fun keyspace batch => by
        rw [finish, writeBatch, write]⟩
    | ok done =>
      exact Or.inr fun keyspace batch => by
        rw [finish, writeBatch, write]
  | keyed commit answers =>
    cases write : answers.write with
    | error reason =>
      exact Or.inl ⟨_, fun keyspace batch => by
        rw [finish, keyedWrite, write]⟩
    | ok done =>
      exact Or.inr fun keyspace batch => by
        rw [finish, keyedWrite, write]
        rfl

/-- A call has the same outcome on keyspaces that agree on its lane. -/
theorem OffsetCall.perform_congr
    (same : SameRecords call.isKeyed first second) :
    (call.perform first).2 = (call.perform second).2 ∧
      SameRecords call.isKeyed (call.perform first).1
        (call.perform second).1 := by
  have sameRounds :
      runRounds first call.rounds = runRounds second call.rounds :=
    runRounds_congr fun round member => round_congr same member
  rw [perform_eq, perform_eq, sameRounds]
  cases runRounds second call.rounds with
  | error failure =>
    exact ⟨rfl, same⟩
  | ok batch =>
    rcases call.finish_cases with ⟨failure, failed⟩ | inserted
    · simp only [failed]
      exact ⟨trivial, same⟩
    · simp only [inserted]
      exact ⟨trivial, same.insertBatch _⟩

/-- A call changes nothing for the other lane. -/
theorem OffsetCall.perform_frame
    (distinct : keyed ≠ call.isKeyed)
    (keyspace : OffsetKeyspace) :
    SameRecords keyed (call.perform keyspace).1 keyspace := by
  rw [perform_eq]
  cases prepared : runRounds keyspace call.rounds with
  | error failure =>
    exact SameRecords.refl keyed keyspace
  | ok batch =>
    rcases call.finish_cases with ⟨failure, failed⟩ | inserted
    · simp only [failed]
      exact SameRecords.refl keyed keyspace
    · simp only [inserted]
      apply sameRecords_insertBatch distinct
      have ofLane := laneKey_of_runRounds (fun _ member => member) prepared
      cases call with
      | offsets commit answers =>
        exact ofLane
      | keyed commit answers =>
        intro entry member
        rw [mem_singleton.mp member]
        exact laneKey_keyedOffsetKey commit.groupId commit.keyFilter.hash

/-! ## Serial outcomes, lane by lane -/

theorem afterOffsetCalls_append (history later : List OffsetCall) :
    afterOffsetCalls (history ++ later) =
      later.foldl (fun keyspace call => (call.perform keyspace).1)
        (afterOffsetCalls history) :=
  foldl_append

theorem serialOutcomesFrom_snoc
    (history past : List OffsetCall)
    (call : OffsetCall) :
    serialOutcomesFrom (afterOffsetCalls history) (past ++ [call]) =
      serialOutcomesFrom (afterOffsetCalls history) past ++
        [(call, (call.perform (afterOffsetCalls (history ++ past))).2)] := by
  induction past generalizing history with
  | nil =>
    simp [serialOutcomesFrom]
  | cons first rest inductionHypothesis =>
    have later := inductionHypothesis (history ++ [first])
    rw [afterOffsetCalls_snoc] at later
    rw [cons_append, serialOutcomesFrom, serialOutcomesFrom, later]
    simp

/-- The outcomes of a lane do not depend on the calls of the other lane. -/
theorem serialOutcomesFrom_filter
    (same : SameRecords keyed first second)
    (order : List OffsetCall) :
    (serialOutcomesFrom first order).filter (·.1.isKeyed = keyed) =
      serialOutcomesFrom second (order.filter (·.isKeyed = keyed)) := by
  induction order generalizing first second with
  | nil =>
    rfl
  | cons call rest inductionHypothesis =>
    by_cases isLane : call.isKeyed = keyed
    · grind [serialOutcomesFrom, OffsetCall.perform_congr]
    · have frame := OffsetCall.perform_frame (Ne.symm isLane) first
      simp [serialOutcomesFrom, isLane, inductionHypothesis (frame.trans same)]

/-! ## The invariant of a lane -/

/-- What a lane sees of the system, the keyspace apart. -/
@[ext]
structure LaneView (workers : Nat) where
  awaiting : Option OffsetCall
  queued : List OffsetCall
  workers : Fin workers → OffsetWorkerState
  sent : List OffsetCall
  replies : List (OffsetCall × Except Error Unit)

/-- A worker as a lane sees it: idle unless it works for the lane. -/
def OffsetWorkerState.inLane (keyed : Bool) :
    OffsetWorkerState → OffsetWorkerState
  | .checking call remaining batch =>
    if call.isKeyed = keyed then .checking call remaining batch else .idle
  | .replying call result =>
    if call.isKeyed = keyed then .replying call result else .idle
  | .idle | .occupied => .idle

/-- A commit of the lane waiting in the channel. -/
def BackendMsg.inLane? (keyed : Bool) : BackendMsg → Option OffsetCall
  | .commit call => if call.isKeyed = keyed then some call else none
  | .other => none

/-- The system as a lane sees it. -/
def OffsetSystem.view
    {workers : Nat}
    (system : OffsetSystem workers)
    (keyed : Bool) : LaneView workers where
  awaiting := system.awaiting keyed
  queued := system.channel.filterMap (BackendMsg.inLane? keyed)
  workers := fun worker => (system.workers worker).inLane keyed
  sent := system.sent.filter (·.isKeyed = keyed)
  replies := system.replies.filter (·.1.isKeyed = keyed)

section Lane

variable {workers : Nat}

/-- Only one worker is busy. -/
def onlyBusy (worker : Fin workers) (state : OffsetWorkerState) :
    Fin workers → OffsetWorkerState :=
  update (fun _ => .idle) worker state

variable {worker : Fin workers} {call : OffsetCall}
  {batch : List (Bytes × Bytes)}

theorem eq_of_onlyBusy
    {other : Fin workers}
    {state otherState : OffsetWorkerState}
    (isState : onlyBusy worker state other = otherState)
    (busy : otherState ≠ .idle) :
    other = worker ∧ state = otherState := by
  by_cases sameWorker : other = worker
  · subst sameWorker
    rw [onlyBusy, update_self] at isState
    exact ⟨rfl, isState⟩
  · rw [onlyBusy, update_of_ne sameWorker] at isState
    exact absurd isState.symm busy

/--
The commits of a lane are executed one at a time after `history`: `past` are
the answered ones, and at most one more is queued, being checked or decided.
A commit being checked has read what it would read now.
-/
inductive LaneOk
    (history : List OffsetCall)
    (keyed : Bool)
    (keyspace : OffsetKeyspace)
    (view : LaneView workers) : Prop where
  | rest
      (past : List OffsetCall)
      (shape :
        view =
          { awaiting := none
            queued := []
            workers := fun _ => .idle
            sent := past
            replies := serialOutcomesFrom (afterOffsetCalls history) past })
      (records :
        SameRecords keyed keyspace (afterOffsetCalls (history ++ past)))
  | queued
      (past : List OffsetCall)
      (call : OffsetCall)
      (shape :
        view =
          { awaiting := some call
            queued := [call]
            workers := fun _ => .idle
            sent := past ++ [call]
            replies := serialOutcomesFrom (afterOffsetCalls history) past })
      (records :
        SameRecords keyed keyspace (afterOffsetCalls (history ++ past)))
  | checking
      (past : List OffsetCall)
      (call : OffsetCall)
      (worker : Fin workers)
      (remaining : List CommitRound)
      (batch : List (Bytes × Bytes))
      (shape :
        view =
          { awaiting := some call
            queued := []
            workers := onlyBusy worker (.checking call remaining batch)
            sent := past ++ [call]
            replies := serialOutcomesFrom (afterOffsetCalls history) past })
      (records :
        SameRecords keyed keyspace (afterOffsetCalls (history ++ past)))
      (isLane : call.isKeyed = keyed)
      (isPart : ∀ round ∈ remaining, round ∈ call.rounds)
      (checked :
        runRounds keyspace call.rounds =
          (runRounds keyspace remaining).map (batch ++ ·))
  | replying
      (past : List OffsetCall)
      (call : OffsetCall)
      (worker : Fin workers)
      (shape :
        view =
          { awaiting := some call
            queued := []
            workers :=
              onlyBusy worker
                (.replying call
                  (call.perform (afterOffsetCalls (history ++ past))).2)
            sent := past ++ [call]
            replies := serialOutcomesFrom (afterOffsetCalls history) past })
      (records :
        SameRecords keyed keyspace
          (afterOffsetCalls (history ++ (past ++ [call]))))

variable {history : List OffsetCall} {keyed : Bool}
  {keyspace next : OffsetKeyspace} {view : LaneView workers}

section

variable (isOk : LaneOk history keyed keyspace view)

include isOk

/-- Changes outside a lane leave its invariant alone. -/
theorem LaneOk.frame
    (same : SameRecords keyed next keyspace) :
    LaneOk history keyed next view := by
  cases isOk with
  | rest past shape records =>
    exact .rest past shape (same.trans records)
  | queued past call shape records =>
    exact .queued past call shape (same.trans records)
  | checking past call worker remaining batch shape records isLane isPart
      checked =>
    subst isLane
    have rounds_congr
        {rounds : List CommitRound}
        (isPart : ∀ round ∈ rounds, round ∈ call.rounds) :
        runRounds next rounds = runRounds keyspace rounds :=
      runRounds_congr fun round member =>
        OffsetCall.round_congr same (isPart round member)
    refine .checking past call worker remaining batch shape
      (same.trans records) rfl isPart ?_
    rw [rounds_congr (fun _ member => member), rounds_congr isPart, checked]
  | replying past call worker shape records =>
    exact .replying past call worker shape (same.trans records)

theorem LaneOk.send
    (free : view.awaiting = none)
    (call : OffsetCall) :
    LaneOk history keyed keyspace
      { view with
        awaiting := some call
        queued := view.queued ++ [call]
        sent := view.sent ++ [call] } := by
  cases isOk with
  | rest past shape records =>
    subst shape
    exact .queued past call rfl records
  | queued past other shape _ =>
    simp [shape] at free
  | checking past other worker remaining batch shape =>
    simp [shape] at free
  | replying past other worker shape =>
    simp [shape] at free

theorem LaneOk.take
    {later : List OffsetCall}
    (isQueued : view.queued = call :: later)
    (isLane : call.isKeyed = keyed)
    (worker : Fin workers) :
    LaneOk history keyed keyspace
      { view with
        queued := later
        workers :=
          update view.workers worker
            (.checking call call.rounds []) } := by
  cases isOk with
  | rest past shape =>
    simp [shape] at isQueued
  | queued past queuedCall shape records =>
    subst shape
    obtain ⟨sameCall, noLater⟩ := List.cons.inj isQueued
    subst sameCall noLater
    refine .checking past queuedCall worker queuedCall.rounds [] rfl records
      isLane (fun _ member => member) ?_
    cases runRounds keyspace queuedCall.rounds with
    | error failure =>
      rfl
    | ok batch =>
      rfl
  | checking past other busy remaining batch shape =>
    simp [shape] at isQueued
  | replying past other busy shape =>
    simp [shape] at isQueued

/-- A busy worker of a lane is the one its state names. -/
theorem LaneOk.of_checking
    {remaining : List CommitRound}
    (isBusy : view.workers worker = .checking call remaining batch) :
    ∃ past,
      view =
          { awaiting := some call
            queued := []
            workers := onlyBusy worker (.checking call remaining batch)
            sent := past ++ [call]
            replies := serialOutcomesFrom (afterOffsetCalls history) past } ∧
        SameRecords keyed keyspace (afterOffsetCalls (history ++ past)) ∧
        call.isKeyed = keyed ∧
        (∀ round ∈ remaining, round ∈ call.rounds) ∧
        runRounds keyspace call.rounds =
          (runRounds keyspace remaining).map (batch ++ ·) := by
  cases isOk with
  | rest past shape =>
    simp [shape] at isBusy
  | queued past other shape =>
    simp [shape] at isBusy
  | checking past other busy others prepared shape records isLane isPart
      checked =>
    rw [shape] at isBusy
    obtain ⟨sameWorker, sameState⟩ := eq_of_onlyBusy isBusy (by simp)
    cases sameState
    subst sameWorker
    exact ⟨past, shape, records, isLane, isPart, checked⟩
  | replying past other busy shape =>
    rw [shape] at isBusy
    obtain ⟨_, sameState⟩ := eq_of_onlyBusy isBusy (by simp)
    cases sameState

end

theorem update_onlyBusy
    (worker : Fin workers)
    (state nextState : OffsetWorkerState) :
    update (onlyBusy worker state) worker nextState =
      onlyBusy worker nextState := by
  simp [onlyBusy]

section

variable (isOk : LaneOk history keyed keyspace view)

include isOk

theorem LaneOk.check
    {later : List CommitRound}
    (isBusy : view.workers worker = .checking call (round :: later) batch) :
    LaneOk history keyed keyspace
      { view with
        workers :=
          update view.workers worker (match round keyspace with
            | .error failure => .replying call (.error failure)
            | .ok entry => .checking call later (batch ++ [entry])) } := by
  obtain ⟨past, shape, records, isLane, isPart, checked⟩ :=
    isOk.of_checking isBusy
  subst shape
  rw [update_onlyBusy]
  cases read : round keyspace with
  | error failure =>
    have failed : runRounds keyspace call.rounds = .error failure := by
      rw [checked, runRounds, read]
      rfl
    subst isLane
    have here : call.perform keyspace = (keyspace, .error failure) := by
      rw [OffsetCall.perform_eq, failed]
    obtain ⟨sameOutcome, sameNext⟩ := OffsetCall.perform_congr records
    rw [here] at sameOutcome sameNext
    refine .replying past call worker ?_ ?_
    · rw [← sameOutcome]
    · rw [← append_assoc, afterOffsetCalls_snoc]
      exact sameNext
  | ok entry =>
    refine .checking past call worker later (batch ++ [entry]) rfl records
      isLane
      (fun other member => isPart other (mem_cons_of_mem _ member)) ?_
    rw [checked, runRounds, read]
    cases runRounds keyspace later with
    | error failure =>
      rfl
    | ok others =>
      simp [Except.map]

/-- When every record is checked, the write completes the call. -/
theorem LaneOk.finish_eq
    (isBusy : view.workers worker = .checking call [] batch) :
    call.finish keyspace batch = call.perform keyspace := by
  obtain ⟨past, shape, records, isLane, isPart, checked⟩ :=
    isOk.of_checking isBusy
  rw [OffsetCall.perform_eq, checked]
  simp [runRounds, Except.map]

theorem LaneOk.write
    (isBusy : view.workers worker = .checking call [] batch) :
    LaneOk history keyed (call.perform keyspace).1
      { view with
        workers :=
          update view.workers worker
            (.replying call (call.perform keyspace).2) } := by
  obtain ⟨past, shape, records, isLane, isPart, checked⟩ :=
    isOk.of_checking isBusy
  subst shape isLane
  obtain ⟨sameOutcome, sameNext⟩ := OffsetCall.perform_congr records
  refine .replying past call worker ?_ ?_
  · rw [update_onlyBusy, sameOutcome]
  · rw [← append_assoc, afterOffsetCalls_snoc]
    exact sameNext

theorem LaneOk.reply
    {result : Except Error Unit}
    (isBusy : view.workers worker = .replying call result) :
    LaneOk history keyed keyspace
      { view with
        awaiting := none
        workers := update view.workers worker .idle
        replies := view.replies ++ [(call, result)] } := by
  cases isOk with
  | rest past shape =>
    simp [shape] at isBusy
  | queued past other shape =>
    simp [shape] at isBusy
  | checking past other busy remaining batch shape =>
    rw [shape] at isBusy
    obtain ⟨_, sameState⟩ := eq_of_onlyBusy isBusy (by simp)
    cases sameState
  | replying past other busy shape records =>
    rw [shape] at isBusy
    obtain ⟨sameWorker, sameState⟩ := eq_of_onlyBusy isBusy (by simp)
    cases sameState
    subst sameWorker shape
    refine .rest (past ++ [call]) ?_ records
    rw [serialOutcomesFrom_snoc, update_onlyBusy]
    simp [onlyBusy]

end

end Lane

namespace OffsetSystem

variable {workers : Nat}

@[simp]
theorem keyspace_setWorker
    (system : OffsetSystem workers)
    (worker : Fin workers)
    (state : OffsetWorkerState) :
    (system.setWorker worker state).keyspace = system.keyspace :=
  rfl

theorem view_setWorker
    (system : OffsetSystem workers)
    (worker : Fin workers)
    (state : OffsetWorkerState)
    (keyed : Bool) :
    (system.setWorker worker state).view keyed =
      { system.view keyed with
        workers :=
          update (system.view keyed).workers worker
            (state.inLane keyed) } := by
  ext1
  case workers =>
    funext other
    by_cases sameWorker : other = worker
    · subst sameWorker
      simp [view, setWorker]
    · simp [view, setWorker, update_of_ne sameWorker]
  all_goals rfl

variable {worker : Fin workers}

/-- A worker busy elsewhere before and after does not show in a lane. -/
theorem view_setWorker_of_idle
    {system : OffsetSystem workers}
    {state : OffsetWorkerState}
    {keyed : Bool}
    (wasIdle : (system.workers worker).inLane keyed = .idle)
    (isIdle : state.inLane keyed = .idle) :
    (system.setWorker worker state).view keyed = system.view keyed := by
  rw [view_setWorker, isIdle, ← wasIdle]
  exact congrArg
    (fun states => { system.view keyed with workers := states })
    (update_eq_self worker (system.view keyed).workers)

/-- The invariant of the system: both lanes are in order. -/
def Ok (history : List OffsetCall) (system : OffsetSystem workers) : Prop :=
  ∀ keyed, LaneOk history keyed system.keyspace (system.view keyed)

variable {history : List OffsetCall} {system next : OffsetSystem workers}

theorem ok_initial (history : List OffsetCall) :
    Ok history
      ({ keyspace := afterOffsetCalls history } : OffsetSystem workers) := by
  intro keyed
  refine .rest [] rfl ?_
  rw [append_nil]
  exact SameRecords.refl keyed _

section

variable (isOk : Ok history system)

include isOk

/-- A worker's step for one lane does not show in the other. -/
theorem Ok.setWorker
    {worker : Fin workers}
    {lane : Bool}
    {state : OffsetWorkerState}
    (before :
      ∀ keyed, lane ≠ keyed → (system.workers worker).inLane keyed = .idle)
    (after : ∀ keyed, lane ≠ keyed → state.inLane keyed = .idle)
    (inLane :
      LaneOk history lane system.keyspace
        { system.view lane with
          workers :=
            update (system.view lane).workers worker
              (state.inLane lane) }) :
    Ok history (system.setWorker worker state) := by
  intro keyed
  rw [keyspace_setWorker]
  by_cases isLane : lane = keyed
  · subst isLane
    rw [view_setWorker]
    exact inLane
  · rw [view_setWorker_of_idle (before keyed isLane) (after keyed isLane)]
    exact isOk keyed

theorem Ok.send
    {call : OffsetCall}
    (stepped : system.step? (.send call) = some next) :
    Ok history next ∧ next.keyspace = system.keyspace := by
  simp only [step?] at stepped
  split at stepped
  · cases stepped
  · rename_i free
    cases stepped
    refine ⟨fun keyed => ?_, rfl⟩
    by_cases isLane : call.isKeyed = keyed
    · subst isLane
      have sent := (isOk call.isKeyed).send free call
      simpa [view, BackendMsg.inLane?] using sent
    · simpa [view, BackendMsg.inLane?, isLane,
        update_of_ne (Ne.symm isLane)] using isOk keyed

theorem Ok.take
    (stepped : system.step? (.take worker) = some next) :
    Ok history next ∧ next.keyspace = system.keyspace := by
  simp only [step?] at stepped
  split at stepped
  · rename_i call rest isIdle isFirst
    cases stepped
    refine ⟨fun keyed => ?_, rfl⟩
    rw [keyspace_setWorker]
    by_cases isLane : call.isKeyed = keyed
    · have isQueued :
          (system.view keyed).queued =
            call :: rest.filterMap (BackendMsg.inLane? keyed) := by
        simp [view, isFirst, BackendMsg.inLane?, isLane]
      have taken := (isOk keyed).take isQueued isLane worker
      rw [view_setWorker, OffsetWorkerState.inLane, if_pos isLane]
      exact taken
    · rw [view_setWorker_of_idle
        (by simp [isIdle, OffsetWorkerState.inLane])
        (by simp [OffsetWorkerState.inLane, isLane])]
      simpa [view, isFirst, BackendMsg.inLane?, isLane] using isOk keyed
  · rename_i rest isIdle isFirst
    cases stepped
    refine ⟨fun keyed => ?_, rfl⟩
    rw [keyspace_setWorker, view_setWorker_of_idle
      (by simp [isIdle, OffsetWorkerState.inLane])
      (by simp [OffsetWorkerState.inLane])]
    simpa [view, isFirst, BackendMsg.inLane?, filterMap_cons]
      using isOk keyed
  · cases stepped

theorem Ok.check
    (stepped : system.step? (.check worker) = some next) :
    Ok history next ∧ next.keyspace = system.keyspace := by
  simp only [step?] at stepped
  split at stepped
  · rename_i call round rest batch isBusy
    have inLane :
        (system.view call.isKeyed).workers worker =
          .checking call (round :: rest) batch := by
      simp [view, isBusy, OffsetWorkerState.inLane]
    have checked := (isOk call.isKeyed).check inLane
    have before (keyed : Bool) (other : call.isKeyed ≠ keyed) :
        (system.workers worker).inLane keyed = .idle := by
      simp [isBusy, OffsetWorkerState.inLane, other]
    split at stepped
    · rename_i failure read
      cases stepped
      refine ⟨isOk.setWorker before ?_ ?_, rfl⟩
      · intro keyed other
        simp [OffsetWorkerState.inLane, other]
      · simpa [read, OffsetWorkerState.inLane] using checked
    · rename_i entry read
      cases stepped
      refine ⟨isOk.setWorker before ?_ ?_, rfl⟩
      · intro keyed other
        simp [OffsetWorkerState.inLane, other]
      · simpa [read, OffsetWorkerState.inLane] using checked
  · cases stepped

theorem Ok.write
    (stepped : system.step? (.write worker) = some next) :
    Ok history next ∧
      ∃ call : OffsetCall,
        next.keyspace = (call.perform system.keyspace).1 := by
  simp only [step?] at stepped
  split at stepped
  · rename_i call batch isBusy
    have inLane :
        (system.view call.isKeyed).workers worker =
          .checking call [] batch := by
      simp [view, isBusy, OffsetWorkerState.inLane]
    rw [(isOk call.isKeyed).finish_eq inLane] at stepped
    cases stepped
    refine ⟨fun keyed => ?_, call, rfl⟩
    rw [keyspace_setWorker]
    by_cases isLane : call.isKeyed = keyed
    · subst isLane
      have written := (isOk call.isKeyed).write inLane
      rw [view_setWorker, OffsetWorkerState.inLane, if_pos rfl]
      exact written
    · rw [view_setWorker_of_idle
        (by simp [isBusy, OffsetWorkerState.inLane, isLane])
        (by simp [OffsetWorkerState.inLane, isLane])]
      exact (isOk keyed).frame
        (OffsetCall.perform_frame (Ne.symm isLane) system.keyspace)
  · cases stepped

theorem Ok.reply
    (stepped : system.step? (.reply worker) = some next) :
    Ok history next ∧ next.keyspace = system.keyspace := by
  simp only [step?] at stepped
  split at stepped
  · rename_i call result isBusy
    cases stepped
    refine ⟨fun keyed => ?_, rfl⟩
    rw [keyspace_setWorker]
    by_cases isLane : call.isKeyed = keyed
    · have inLane :
          (system.view keyed).workers worker = .replying call result := by
        simp [view, isBusy, OffsetWorkerState.inLane, isLane]
      have replied := (isOk keyed).reply inLane
      rw [view_setWorker]
      simpa [view, OffsetWorkerState.inLane, isLane] using replied
    · rw [view_setWorker_of_idle
        (by simp [isBusy, OffsetWorkerState.inLane, isLane])
        (by simp [OffsetWorkerState.inLane])]
      simpa [view, isLane, update_of_ne (Ne.symm isLane)]
        using isOk keyed
  · grind [keyspace_setWorker, OffsetWorkerState.inLane, view_setWorker_of_idle,
      Ok]
  · cases stepped

/-- A step keeps both lanes in order, and writes at most one whole call. -/
theorem Ok.step
    {step : OffsetStep workers}
    (stepped : system.step? step = some next) :
    Ok history next ∧
      ∃ written : List OffsetCall,
        next.keyspace =
          written.foldl (fun keyspace call => (call.perform keyspace).1)
            system.keyspace := by
  have unwritten (result : Ok history next ∧ next.keyspace = system.keyspace) :
      Ok history next ∧
        ∃ written : List OffsetCall,
          next.keyspace =
            written.foldl (fun keyspace call => (call.perform keyspace).1)
              system.keyspace :=
    ⟨result.1, [], result.2⟩
  cases step with
  | send call =>
    exact unwritten (isOk.send stepped)
  | sendOther =>
    cases stepped
    refine unwritten ⟨fun keyed => ?_, rfl⟩
    simpa [view, BackendMsg.inLane?, filterMap_cons] using isOk keyed
  | take worker =>
    exact unwritten (isOk.take stepped)
  | check worker =>
    exact unwritten (isOk.check stepped)
  | write worker =>
    obtain ⟨nextOk, call, written⟩ := isOk.write stepped
    exact ⟨nextOk, [call], written⟩
  | reply worker =>
    exact unwritten (isOk.reply stepped)

/-- An interleaving keeps both lanes in order and writes whole calls. -/
theorem Ok.run
    {steps : List (OffsetStep workers)}
    (ran : run? steps system = some next) :
    Ok history next ∧
      ∃ written : List OffsetCall,
        next.keyspace =
          written.foldl (fun keyspace call => (call.perform keyspace).1)
            system.keyspace := by
  induction steps generalizing system with
  | nil =>
    cases ran
    exact ⟨isOk, [], rfl⟩
  | cons step rest inductionHypothesis =>
    obtain ⟨between, stepped, ranRest⟩ := Option.bind_eq_some_iff.mp ran
    obtain ⟨betweenOk, first, wroteFirst⟩ := isOk.step stepped
    obtain ⟨nextOk, later, wroteLater⟩ := inductionHypothesis betweenOk ranRest
    refine ⟨nextOk, first ++ later, ?_⟩
    rw [foldl_append, ← wroteFirst, wroteLater]

end

/-- The replies of a lane are the serial outcomes of what its task sent. -/
theorem Ok.replies_prefix (isOk : Ok history system) (keyed : Bool) :
    system.replies.filter (·.1.isKeyed = keyed) <+:
      serialOutcomesFrom (afterOffsetCalls history)
        (system.sent.filter (·.isKeyed = keyed)) := by
  have underWay
      {past : List OffsetCall}
      {call : OffsetCall}
      (sent : (system.view keyed).sent = past ++ [call])
      (replies :
        (system.view keyed).replies =
          serialOutcomesFrom (afterOffsetCalls history) past) :
      (system.view keyed).replies <+:
        serialOutcomesFrom (afterOffsetCalls history)
          (system.view keyed).sent := by
    rw [sent, replies, serialOutcomesFrom_snoc]
    exact prefix_append _ _
  cases isOk keyed with
  | rest past shape =>
    grind [view]
  | queued past call shape =>
    exact underWay (congrArg LaneView.sent shape)
      (congrArg LaneView.replies shape)
  | checking past call worker remaining batch shape =>
    exact underWay (congrArg LaneView.sent shape)
      (congrArg LaneView.replies shape)
  | replying past call worker shape =>
    exact underWay (congrArg LaneView.sent shape)
      (congrArg LaneView.replies shape)

end OffsetSystem

/--
Commits through any number of workers, on a keyspace left by any history: the
generation stored for a record never goes down between two states of a run,
and each task receives the outcomes of executing all commits one at a time, in
any order that respects the order in which each task sent its own.
-/
theorem offsetWorkers_serial
    (history : List OffsetCall)
    (workers : Nat)
    (earlier later : List (OffsetStep workers))
    (middle last : OffsetSystem workers)
    (ranEarlier :
      OffsetSystem.run? earlier { keyspace := afterOffsetCalls history } =
        some middle)
    (ranLater : OffsetSystem.run? later middle = some last) :
    (∀ group publisher,
      ∀ generation ∈ storedGeneration middle.keyspace group publisher,
        ∃ next ∈ storedGeneration last.keyspace group publisher,
          generation ≤ next) ∧
    (∀ group filter,
      ∀ generation ∈ storedKeyedGeneration middle.keyspace group filter,
        ∃ next ∈ storedKeyedGeneration last.keyspace group filter,
          generation ≤ next) ∧
    ∀ order : List OffsetCall,
      (∀ keyed,
        order.filter (·.isKeyed = keyed) =
          last.sent.filter (·.isKeyed = keyed)) →
      ∀ keyed,
        last.replies.filter (·.1.isKeyed = keyed) <+:
          (serialOutcomesFrom (afterOffsetCalls history) order).filter
            (·.1.isKeyed = keyed) := by
  obtain ⟨middleOk, writtenEarlier, isMiddle⟩ :=
    (OffsetSystem.ok_initial history).run ranEarlier
  obtain ⟨lastOk, writtenLater, isLast⟩ := middleOk.run ranLater
  have middleSerial :
      middle.keyspace = afterOffsetCalls (history ++ writtenEarlier) := by
    rw [isMiddle, afterOffsetCalls_append]
  have lastSerial :
      last.keyspace =
        afterOffsetCalls (history ++ writtenEarlier ++ writtenLater) := by
    rw [isLast, middleSerial, afterOffsetCalls_append _ writtenLater]
  obtain ⟨offsetsGrow, keyedGrow⟩ :=
    storedGenerations_mono (history ++ writtenEarlier) writtenLater
  rw [middleSerial, lastSerial]
  refine ⟨offsetsGrow, keyedGrow, ?_⟩
  intro order sameLanes keyed
  rw [serialOutcomesFrom_filter (SameRecords.refl keyed _), sameLanes]
  exact lastOk.replies_prefix keyed

/-- A commit and a stale one of its group, around a keyed commit. -/
def staleInterleaving : List (OffsetStep 2) :=
  [.send (.offsets (singleCommit "g" 1 10 5) {}),
    .send (.keyed ⟨"g", .exactKey "k", ⟨9, 0⟩, 1, 0⟩ {}),
    .take 1, .take 0, .check 1, .check 0, .write 0, .write 1, .reply 1,
    .send (.offsets (singleCommit "g" 1 20 3) {}),
    .take 1, .reply 0, .check 1, .reply 1]

/-- Two workers: the keyed commit overlaps the first group commit. -/
theorem offsetWorkers_serial_overlapping :
    ∃ last : OffsetSystem 2,
      OffsetSystem.run? staleInterleaving {} = some last ∧
        last.replies.map (fun reply => (reply.1.isKeyed, reply.2.isOk)) =
          [(false, true), (true, true), (false, false)] ∧
        ∀ keyed,
          last.replies.filter (·.1.isKeyed = keyed) <+:
            (serialOutcomesFrom .empty last.sent).filter
              (·.1.isKeyed = keyed) := by
  have outcomes :
      (OffsetSystem.run? staleInterleaving {}).map
          (fun last =>
            last.replies.map fun reply => (reply.1.isKeyed, reply.2.isOk)) =
        some [(false, true), (true, true), (false, false)] := by
    decide
  obtain ⟨last, ran, replies⟩ := Option.map_eq_some_iff.mp outcomes
  exact ⟨last, ran, replies,
    (offsetWorkers_serial [] 2 [] staleInterleaving {} last rfl ran).2.2
      last.sent fun _ => rfl⟩

end Mitiflow
