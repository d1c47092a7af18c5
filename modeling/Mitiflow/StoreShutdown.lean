import Mathlib
import Mitiflow.Library.Schedules

namespace Mitiflow

open Library List Function

/-!
# Shutting down the backend workers

The workers of a store share one channel.  Shutting down sends one message per
worker, and a worker that receives it stops.  A worker that is draining the
channel into a batch takes such a message too, flushes its batch, and goes
back to receiving.
-/

namespace BackendWorkers

/-- A message to the workers. -/
inductive BackendMsg (Store Request : Type) where
  | storeBatch (requests : List Store)
  | request (request : Request)
  | shutdown
  deriving Repr, DecidableEq

/-- Where a worker is in its loops. -/
inductive WorkerPhase (Store Request : Type) where
  /-- In `recv`. -/
  | receiving
  /-- Answering a request of the outer loop. -/
  | dispatching (request : Request)
  /-- Before the next `try_recv` of a drain. -/
  | draining (batch : List Store)
  /-- Flushing a batch to answer a request that came in between. -/
  | interrupting (batch : List Store) (request : Request)
  /-- Flushing the batch at the end of a drain. -/
  | flushing (batch : List Store)
  | stopped
  deriving Repr, DecidableEq

section Messages

variable {Store Request : Type}

def BackendMsg.isShutdown : BackendMsg Store Request → Bool
  | .shutdown => true
  | .storeBatch _ | .request _ => false

/-- Whether a worker is still running, as a number. -/
def WorkerPhase.live : WorkerPhase Store Request → Nat
  | .stopped => 0
  | .receiving | .dispatching _ | .draining _ | .interrupting _ _
  | .flushing _ => 1

theorem WorkerPhase.live_le_one (phase : WorkerPhase Store Request) :
    phase.live ≤ 1 := by
  cases phase <;> simp [live]

theorem WorkerPhase.live_eq_one_iff {phase : WorkerPhase Store Request} :
    phase.live = 1 ↔ phase ≠ .stopped := by
  cases phase <;> simp [live]

/-- Whether a worker goes on with a drain. -/
def WorkerPhase.drains : WorkerPhase Store Request → Bool
  | .draining _ | .interrupting _ _ => true
  | .receiving | .dispatching _ | .flushing _ | .stopped => false

/-- The steps a worker can take before it takes another message. -/
def WorkerPhase.work : WorkerPhase Store Request → Nat
  | .receiving | .stopped => 0
  | .dispatching _ | .flushing _ => 1
  | .draining _ => 2
  | .interrupting _ _ => 3

/-- The outer loop after it received a message. -/
def WorkerPhase.afterRecv :
    BackendMsg Store Request → WorkerPhase Store Request
  | .shutdown => .stopped
  | .storeBatch requests => .draining requests
  | .request request => .dispatching request

/-- The drain after it received a message. -/
def WorkerPhase.afterTryRecv (batch : List Store) :
    BackendMsg Store Request → WorkerPhase Store Request
  | .storeBatch requests => .draining (batch ++ requests)
  | .shutdown => .flushing batch
  | .request request => .interrupting batch request

theorem BackendMsg.isShutdown_iff {message : BackendMsg Store Request} :
    message.isShutdown = true ↔ message = .shutdown := by
  cases message <;> simp [isShutdown]

theorem WorkerPhase.live_afterRecv (message : BackendMsg Store Request) :
    (WorkerPhase.afterRecv message).live +
        (if message.isShutdown = true then 1 else 0) =
      1 := by
  cases message <;> rfl

theorem WorkerPhase.live_afterTryRecv
    (batch : List Store)
    (message : BackendMsg Store Request) :
    (WorkerPhase.afterTryRecv batch message).live = 1 := by
  cases message <;> rfl

/-- An empty batch is not flushed. -/
def flushBatch (flushed : List (List Store)) (batch : List Store) :
    List (List Store) :=
  if batch.isEmpty then flushed else flushed ++ [batch]

end Messages

end BackendWorkers

open BackendWorkers in
/-- The channel, the workers, and what they did to the backend. -/
structure BackendWorkers (workers : Nat) (Store Request : Type) where
  channel : List (BackendMsg Store Request)
  phase : Fin workers → WorkerPhase Store Request
  flushed : List (List Store) := []
  dispatched : List Request := []

namespace BackendWorkers

section Workers

variable {Store Request : Type} {workers : Nat}

def setPhase
    (pool : BackendWorkers workers Store Request)
    (worker : Fin workers)
    (phase : WorkerPhase Store Request) :
    BackendWorkers workers Store Request :=
  { pool with phase := update pool.phase worker phase }

/-- One step of a worker; a stopped one takes none, and one in `recv` waits
while the channel is empty. -/
def step? (pool : BackendWorkers workers Store Request)
    (worker : Fin workers) : Option (BackendWorkers workers Store Request) :=
  match pool.phase worker with
  | .receiving =>
    match pool.channel with
    | [] => none
    | message :: rest =>
      some ({ pool with channel := rest }.setPhase worker
        (.afterRecv message))
  | .dispatching request =>
    some ({ pool with
      dispatched := pool.dispatched ++ [request] }.setPhase worker
        .receiving)
  | .draining batch =>
    match pool.channel with
    | [] => some (pool.setPhase worker (.flushing batch))
    | message :: rest =>
      some ({ pool with channel := rest }.setPhase worker
        (.afterTryRecv batch message))
  | .interrupting batch request =>
    some ({ pool with
      flushed := flushBatch pool.flushed batch
      dispatched := pool.dispatched ++ [request] }.setPhase worker
        (.draining []))
  | .flushing batch =>
    some ({ pool with
      flushed := flushBatch pool.flushed batch }.setPhase worker
        .receiving)
  | .stopped => none

/-- The channel is empty and a worker waits in `recv`. -/
def Wedged (pool : BackendWorkers workers Store Request) : Prop :=
  pool.channel = [] ∧ ∃ worker, pool.phase worker = .receiving

/-- The shutdown messages in the channel. -/
def tokens (pool : BackendWorkers workers Store Request) : Nat :=
  pool.channel.countP BackendMsg.isShutdown

/-- The number of workers that have not stopped. -/
def running (pool : BackendWorkers workers Store Request) : Nat :=
  ∑ worker, (pool.phase worker).live

/-- A draining worker is about to take a shutdown message. -/
def Absorbs
    (pool : BackendWorkers workers Store Request)
    (worker : Fin workers) : Prop :=
  (∃ batch, pool.phase worker = .draining batch) ∧
    ∃ rest, pool.channel = .shutdown :: rest

/-- An upper bound on the steps still to be taken. -/
def work (pool : BackendWorkers workers Store Request) : Nat :=
  4 * pool.channel.length + ∑ worker, (pool.phase worker).work

/-! ## What a step does -/

/-- A step that leaves the channel alone, or one that takes a message. -/
inductive StepOf
    (pool : BackendWorkers workers Store Request)
    (worker : Fin workers)
    (next : BackendWorkers workers Store Request) : Prop where
  | alone
      (phase : WorkerPhase Store Request)
      (sameChannel : next.channel = pool.channel)
      (changes : next.phase = update pool.phase worker phase)
      (wasLive : (pool.phase worker).live = 1)
      (isLive : phase.live = 1)
      (lessWork : phase.work < (pool.phase worker).work)
      (absorbsNothing : ¬ pool.Absorbs worker)
      (goesOn :
        (pool.phase worker).drains = true →
          pool.channel ≠ [] →
            phase.drains = true)
      (startsNone :
        (pool.phase worker).drains = false → phase.drains = false)
  | recv
      (message : BackendMsg Store Request)
      (wasReceiving : pool.phase worker = .receiving)
      (takes : pool.channel = message :: next.channel)
      (changes :
        next.phase =
          update pool.phase worker (.afterRecv message))
  | tryRecv
      (batch : List Store)
      (message : BackendMsg Store Request)
      (wasDraining : pool.phase worker = .draining batch)
      (takes : pool.channel = message :: next.channel)
      (changes :
        next.phase =
          update pool.phase worker (.afterTryRecv batch message))

variable {pool next : BackendWorkers workers Store Request}
  {worker : Fin workers}

/-- Only a draining worker absorbs. -/
theorem not_absorbs
    (notDraining : ∀ batch, pool.phase worker ≠ .draining batch) :
    ¬ pool.Absorbs worker := by
  rintro ⟨⟨batch, isDraining⟩, _⟩
  exact notDraining batch isDraining

theorem stepOf
    (steps : pool.step? worker = some next) :
    StepOf pool worker next := by
  cases phase : pool.phase worker with
  | receiving =>
    cases channel : pool.channel with
    | nil =>
      simp [step?, phase, channel] at steps
    | cons message rest =>
      simp only [step?, phase, channel, Option.some.injEq] at steps
      subst steps
      exact .recv message phase channel rfl
  | draining batch =>
    cases channel : pool.channel with
    | nil =>
      simp only [step?, phase, channel, Option.some.injEq] at steps
      subst steps
      refine .alone (.flushing batch) rfl rfl ?_ rfl ?_ ?_ ?_ fun _ => rfl
      · rw [phase]
        rfl
      · rw [phase]
        exact Nat.one_lt_two
      · rintro ⟨_, rest, isChannel⟩
        cases channel.symm.trans isChannel
      · exact fun _ nonempty => absurd channel nonempty
    | cons message rest =>
      simp only [step?, phase, channel, Option.some.injEq] at steps
      subst steps
      exact .tryRecv batch message phase channel rfl
  | interrupting batch request =>
    simp only [step?, phase, Option.some.injEq] at steps
    subst steps
    refine .alone (.draining []) rfl rfl ?_ rfl ?_ ?_ ?_ ?_
    · rw [phase]
      rfl
    · rw [phase]
      exact Nat.lt_succ_self 2
    · exact not_absorbs (by simp [phase])
    · exact fun _ _ => rfl
    · rw [phase]
      exact fun idle => absurd idle.symm Bool.false_ne_true
  | dispatching request | flushing batch =>
    simp only [step?, phase, Option.some.injEq] at steps
    subst steps
    refine .alone .receiving rfl rfl ?_ rfl ?_ ?_ ?_ fun _ => rfl
    · rw [phase]
      rfl
    · rw [phase]
      exact Nat.one_pos
    · exact not_absorbs (by simp [phase])
    · rw [phase]
      exact fun drains => absurd drains Bool.false_ne_true
  | stopped =>
    simp [step?, phase] at steps

/-- A running worker can take a step unless it waits for a message. -/
theorem step?_isSome
    (isLive : (pool.phase worker).live = 1)
    (notWaiting : pool.phase worker = .receiving → pool.channel ≠ []) :
    ∃ next, pool.step? worker = some next := by
  cases phase : pool.phase worker with
  | receiving =>
    obtain ⟨message, rest, channel⟩ :=
      exists_cons_of_ne_nil (notWaiting phase)
    simp [step?, phase, channel]
  | draining batch =>
    cases channel : pool.channel <;> simp [step?, phase, channel]
  | stopped =>
    rw [phase] at isLive
    cases isLive
  | dispatching request =>
    simp [step?, phase]
  | interrupting batch request =>
    simp [step?, phase]
  | flushing batch =>
    simp [step?, phase]

theorem sum_update
    (weight : WorkerPhase Store Request → Nat)
    (phase : Fin workers → WorkerPhase Store Request)
    (worker : Fin workers)
    (changed : WorkerPhase Store Request) :
    (∑ other, weight (update phase worker changed other)) +
        weight (phase worker) =
      (∑ other, weight (phase other)) + weight changed := by
  have inside := Finset.mem_univ worker
  rw [← Finset.add_sum_erase _ _ inside, update_self,
    ← Finset.add_sum_erase _ (fun other => weight (phase other)) inside]
  have others :
      ∑ other ∈ Finset.univ.erase worker,
          weight (update phase worker changed other) =
        ∑ other ∈ Finset.univ.erase worker, weight (phase other) := by
    refine Finset.sum_congr rfl fun other isOther => ?_
    rw [update_of_ne (Finset.ne_of_mem_erase isOther)]
  rw [others]
  omega

theorem work_step
    (steps : pool.step? worker = some next) :
    next.work < pool.work := by
  have changed := sum_update WorkerPhase.work pool.phase worker
  unfold work
  cases stepOf steps with
  | alone phase sameChannel changes _ _ lessWork _ _ _ =>
    have balance := changed phase
    rw [sameChannel, changes]
    omega
  | recv message wasReceiving takes changes =>
    have balance := changed (.afterRecv message)
    rw [wasReceiving] at balance
    rw [takes, changes, length_cons]
    cases message <;> simp only [WorkerPhase.afterRecv,
      WorkerPhase.work] at balance ⊢ <;> omega
  | tryRecv batch message wasDraining takes changes =>
    have balance := changed (.afterTryRecv batch message)
    rw [wasDraining] at balance
    rw [takes, changes, length_cons]
    cases message <;> simp only [WorkerPhase.afterTryRecv,
      WorkerPhase.work] at balance ⊢ <;> omega

/-- A step keeps the difference of tokens and running workers, unless a drain
absorbs a token. -/
theorem tokens_step
    (steps : pool.step? worker = some next) :
    (pool.Absorbs worker ∧ next.tokens + 1 = pool.tokens ∧
        next.running = pool.running) ∨
      (¬ pool.Absorbs worker ∧
        next.tokens + pool.running = pool.tokens + next.running) := by
  have changed := sum_update WorkerPhase.live pool.phase worker
  unfold tokens running
  cases stepOf steps with
  | alone phase sameChannel changes wasLive isLive _ absorbsNothing
      _ _ =>
    have balance := changed phase
    rw [wasLive, isLive] at balance
    refine Or.inr ⟨absorbsNothing, ?_⟩
    rw [sameChannel, changes]
    omega
  | recv message wasReceiving takes changes =>
    have balance := changed (.afterRecv message)
    have stops := WorkerPhase.live_afterRecv message
    have wasLive : (pool.phase worker).live = 1 := by
      rw [wasReceiving]
      rfl
    refine Or.inr ⟨not_absorbs (by simp [wasReceiving]), ?_⟩
    rw [takes, changes, countP_cons]
    omega
  | tryRecv batch message wasDraining takes changes =>
    have balance := changed (.afterTryRecv batch message)
    have wasLive : (pool.phase worker).live = 1 := by
      rw [wasDraining]
      rfl
    rw [wasLive, WorkerPhase.live_afterTryRecv,
      Nat.add_right_cancel_iff] at balance
    rw [takes, changes, countP_cons, balance]
    by_cases isToken : message.isShutdown = true
    · grind [BackendMsg.isShutdown_iff, Absorbs]
    · grind [Absorbs, BackendMsg.isShutdown]

/-! ## Wedged states -/

/-- There is a token for every running worker. -/
def Covered (pool : BackendWorkers workers Store Request) : Prop :=
  pool.running ≤ pool.tokens

theorem live_le_running
    (pool : BackendWorkers workers Store Request)
    (worker : Fin workers) :
    (pool.phase worker).live ≤ pool.running := by
  unfold running
  exact Finset.single_le_sum (f := fun other => (pool.phase other).live)
    (fun _ _ => Nat.zero_le _) (Finset.mem_univ worker)

theorem Covered.not_wedged
    (covered : pool.Covered) :
    ¬ pool.Wedged := by
  rintro ⟨isEmpty, worker, isReceiving⟩
  have isLive := pool.live_le_running worker
  rw [isReceiving] at isLive
  unfold Covered tokens at covered
  rw [isEmpty, countP_nil] at covered
  exact absurd (isLive.trans covered) (Nat.not_succ_le_zero 0)

/-- A quiet pool has stopped or is wedged. -/
theorem stopped_or_wedged
    (quiet : Quiet step? pool) :
    (∀ worker, pool.phase worker = .stopped) ∨ pool.Wedged := by
  by_cases allStopped : ∀ worker, pool.phase worker = .stopped
  · exact Or.inl allStopped
  · obtain ⟨worker, notStopped⟩ := not_forall.mp allStopped
    by_contra notWedged
    have notWaiting :
        pool.phase worker = .receiving → pool.channel ≠ [] :=
      fun isReceiving isEmpty =>
        notWedged (Or.inr ⟨isEmpty, worker, isReceiving⟩)
    obtain ⟨next, steps⟩ :=
      step?_isSome (WorkerPhase.live_eq_one_iff.mpr notStopped) notWaiting
    cases (quiet worker).symm.trans steps

/-- Without enough tokens the workers can wedge. -/
theorem wedged_of_not_covered
    (uncovered : ¬ pool.Covered) :
    ∃ final, Reachable step? pool final ∧ final.Wedged := by
  obtain ⟨final, reachable, quiet⟩ :=
    exists_quiet (fun _ _ _ steps => work_step steps) pool
  refine ⟨final, reachable, ?_⟩
  have stillUncovered : ¬ final.Covered := by
    refine Reachable.invariant (fun pool => ¬ Covered pool) ?_ uncovered
      reachable
    intro state worker next before steps
    unfold Covered at before ⊢
    rcases tokens_step steps with ⟨_, fewer, same⟩ | ⟨_, balance⟩ <;> omega
  rcases stopped_or_wedged quiet with allStopped | wedged
  · have noneRunning : final.running = 0 := by
      unfold running
      refine Finset.sum_eq_zero fun worker _ => ?_
      rw [allStopped worker]
      rfl
    refine absurd ?_ stillUncovered
    unfold Covered
    omega
  · exact wedged

/-- No state is wedged exactly if drains only absorb tokens to spare. -/
theorem never_wedged_iff
    {start : BackendWorkers workers Store Request}
    (covered : start.Covered) :
    (∀ final, Reachable step? start final → ¬ final.Wedged) ↔
      ∀ state worker,
        Reachable step? start state →
          state.Absorbs worker →
            state.running < state.tokens := by
  constructor
  · intro never state worker reachable absorbs
    by_contra notSpare
    obtain ⟨⟨batch, isDraining⟩, rest, isChannel⟩ := absorbs
    have steps :
        state.step? worker =
          some ({ state with channel := rest }.setPhase worker
            (.flushing batch)) := by
      simp only [step?, isDraining, isChannel, WorkerPhase.afterTryRecv]
    have uncovered :
        ¬ ({ state with channel := rest }.setPhase worker
          (.flushing batch)).Covered := by
      unfold Covered
      rcases tokens_step steps with ⟨_, fewer, same⟩ | ⟨absorbsNothing, _⟩
      · omega
      · exact absurd ⟨⟨batch, isDraining⟩, rest, isChannel⟩ absorbsNothing
    obtain ⟨final, later, wedged⟩ := wedged_of_not_covered uncovered
    exact never final ((reachable.tail steps).trans later) wedged
  · intro spare final reachable
    have both : final.Covered ∧ Reachable step? start final := by
      refine Reachable.invariant
        (fun pool => Covered pool ∧ Reachable step? start pool) ?_
        ⟨covered, Reachable.refl start⟩ reachable
      intro state worker next before steps
      refine ⟨?_, before.2.tail steps⟩
      have wasCovered := before.1
      unfold Covered at wasCovered ⊢
      rcases tokens_step steps with ⟨absorbs, fewer, same⟩ | ⟨_, balance⟩
      · have toSpare := spare state worker before.2 absorbs
        omega
      · omega
    exact both.1.not_wedged

/-- The channel after `shutdown` has sent a message for every worker. -/
def shutdown (pool : BackendWorkers workers Store Request) :
    BackendWorkers workers Store Request :=
  { pool with
    channel := pool.channel ++ List.replicate workers .shutdown }

theorem tokens_shutdown (pool : BackendWorkers workers Store Request) :
    pool.shutdown.tokens = pool.tokens + workers := by
  unfold tokens shutdown
  rw [countP_append, countP_replicate]
  rfl

theorem running_le (pool : BackendWorkers workers Store Request) :
    pool.running ≤ workers := by
  unfold running
  refine (Finset.sum_le_card_nsmul Finset.univ _ 1 ?_).trans ?_
  · intro worker _
    exact (pool.phase worker).live_le_one
  · simp

theorem covered_shutdown (pool : BackendWorkers workers Store Request) :
    pool.shutdown.Covered := by
  unfold Covered
  rw [tokens_shutdown]
  exact (running_le pool.shutdown).trans (Nat.le_add_left _ _)

/-! ## From the channel's content -/

/-- A drain of a worker will absorb a token, with the balance unchanged. -/
def AbsorbsLater
    (pool : BackendWorkers workers Store Request)
    (worker : Fin workers) : Prop :=
  ∃ state,
    Reachable step? pool state ∧
      state.Absorbs worker ∧
      state.tokens + pool.running = pool.tokens + state.running

theorem AbsorbsLater.head
    (later : next.AbsorbsLater worker)
    (steps : pool.step? worker = some next)
    (notNow : ¬ pool.Absorbs worker) :
    pool.AbsorbsLater worker := by
  obtain ⟨state, reachable, absorbs, balance⟩ := later
  refine ⟨state, Reachable.head steps reachable, absorbs, ?_⟩
  rcases tokens_step steps with ⟨now, _⟩ | ⟨_, first⟩
  · exact absurd now notNow
  · omega

/-- The message taken is the first of the content. -/
theorem exists_content
    {content tail rest : List (BackendMsg Store Request)}
    {message : BackendMsg Store Request}
    (isChannel : content ++ .shutdown :: tail = message :: rest)
    (nonempty : content ≠ []) :
    ∃ later,
      content = message :: later ∧ rest = later ++ .shutdown :: tail := by
  cases content with
  | nil =>
    exact absurd rfl nonempty
  | cons first later =>
    rw [cons_append, List.cons.injEq] at isChannel
    exact ⟨later, by rw [isChannel.1], isChannel.2.symm⟩

/-- A worker that is draining, or that will find a batch, reaches the tokens
behind the content while draining. -/
theorem absorbsLater
    {content tail : List (BackendMsg Store Request)}
    (isChannel : pool.channel = content ++ .shutdown :: tail)
    (noToken : .shutdown ∉ content)
    (isLive : (pool.phase worker).live = 1)
    (willDrain :
      (pool.phase worker).drains = true ∨
        ∃ requests, .storeBatch requests ∈ content) :
    pool.AbsorbsLater worker := by
  -- Only this worker is scheduled; the work left bounds its steps.
  induction isSize : pool.work using Nat.strongRecOn
    generalizing pool content with
  | _ size inductionHypothesis =>
    have nonempty : pool.channel ≠ [] := by
      rw [isChannel]
      exact append_ne_nil_of_right_ne_nil _ (cons_ne_nil _ _)
    obtain ⟨next, steps⟩ := step?_isSome isLive fun _ => nonempty
    have smaller : next.work < size := isSize ▸ work_step steps
    cases stepOf steps with
    | alone phase sameChannel changes _ nextLive _ notNow goesOn _ =>
      have nextPhase : next.phase worker = phase := by
        rw [changes, update_self]
      refine (inductionHypothesis next.work smaller
        (sameChannel.trans isChannel) noToken (nextPhase ▸ nextLive) ?_
        rfl).head steps notNow
      rw [nextPhase]
      exact willDrain.imp_left fun drains => goesOn drains nonempty
    | recv message wasReceiving takes changes =>
      have nextPhase : next.phase worker = .afterRecv message := by
        rw [changes, update_self]
      obtain ⟨requests, isBatch⟩ :=
        willDrain.resolve_left (by simp [wasReceiving, WorkerPhase.drains])
      obtain ⟨later, isContent, nextChannel⟩ :=
        exists_content (isChannel.symm.trans takes) (ne_nil_of_mem isBatch)
      rw [isContent] at noToken isBatch
      refine (inductionHypothesis next.work smaller nextChannel
        (fun isIn => noToken (mem_cons_of_mem _ isIn)) ?_ ?_
        rfl).head steps (not_absorbs (by simp [wasReceiving]))
      · rw [nextPhase]
        cases message with
        | shutdown => exact absurd mem_cons_self noToken
        | storeBatch | request => rfl
      · rw [nextPhase]
        cases message with
        | shutdown => exact absurd mem_cons_self noToken
        | storeBatch => exact Or.inl rfl
        | request => exact Or.inr ⟨requests, by simpa using isBatch⟩
    | tryRecv batch message wasDraining takes changes =>
      have nextPhase :
          next.phase worker = .afterTryRecv batch message := by
        rw [changes, update_self]
      by_cases isEmpty : content = []
      · rw [isEmpty, nil_append] at isChannel
        exact ⟨pool, Reachable.refl pool,
          ⟨⟨batch, wasDraining⟩, tail, isChannel⟩, rfl⟩
      · obtain ⟨later, isContent, nextChannel⟩ :=
          exists_content (isChannel.symm.trans takes) isEmpty
        rw [isContent] at noToken
        have notToken : message ≠ .shutdown :=
          fun isToken => noToken (isToken ▸ mem_cons_self)
        have notNow : ¬ pool.Absorbs worker := by
          rintro ⟨_, others, isHead⟩
          rw [takes, List.cons.injEq] at isHead
          exact notToken isHead.1
        refine (inductionHypothesis next.work smaller nextChannel
          (fun isIn => noToken (mem_cons_of_mem _ isIn)) ?_ ?_
          rfl).head steps notNow
        · rw [nextPhase, WorkerPhase.live_afterTryRecv]
        · rw [nextPhase]
          cases message with
          | shutdown => exact absurd rfl notToken
          | storeBatch | request => exact Or.inl rfl

/-- No worker drains and there is no batch to drain. -/
structure NoDrain (pool : BackendWorkers workers Store Request) : Prop where
  noBatch : ∀ requests, .storeBatch requests ∉ pool.channel
  idle : ∀ worker, (pool.phase worker).drains = false

theorem NoDrain.step
    (noDrain : pool.NoDrain)
    (steps : pool.step? worker = some next) :
    next.NoDrain := by
  have others
      {phase : WorkerPhase Store Request}
      (isIdle : phase.drains = false)
      (other : Fin workers) :
      (update pool.phase worker phase other).drains = false := by
    by_cases same : other = worker
    · rw [same, update_self]
      exact isIdle
    · rw [update_of_ne same]
      exact noDrain.idle other
  cases stepOf steps with
  | alone phase sameChannel changes _ _ _ _ _ startsNone =>
    refine ⟨?_, ?_⟩
    · rw [sameChannel]
      exact noDrain.noBatch
    · rw [changes]
      exact others (startsNone (noDrain.idle worker))
  | recv message _ takes changes =>
    have noBatch := noDrain.noBatch
    rw [takes] at noBatch
    refine ⟨fun requests isIn => ?_, ?_⟩
    · exact noBatch requests (mem_cons_of_mem _ isIn)
    · rw [changes]
      refine others ?_
      cases message with
      | storeBatch requests =>
        exact absurd mem_cons_self (noBatch requests)
      | request | shutdown =>
        rfl
  | tryRecv batch message wasDraining _ _ =>
    have isIdle := noDrain.idle worker
    rw [wasDraining] at isIdle
    cases isIdle

theorem noDrain_shutdown
    (noBatch : ∀ requests, .storeBatch requests ∉ pool.channel)
    (idle : ∀ worker, (pool.phase worker).drains = false) :
    pool.shutdown.NoDrain := by
  refine ⟨fun requests isIn => ?_, idle⟩
  rcases mem_append.mp isIn with inContent | isToken
  · exact noBatch requests inContent
  · cases eq_of_mem_replicate isToken

/-- A pool that was not shut down before has one token for every worker. -/
theorem running_shutdown
    (allRunning : ∀ worker, pool.phase worker ≠ .stopped)
    (noToken : .shutdown ∉ pool.channel) :
    pool.shutdown.running = pool.shutdown.tokens := by
  have noTokens : pool.tokens = 0 :=
    countP_eq_zero.mpr fun message isIn isToken =>
      noToken (BackendMsg.isShutdown_iff.mp isToken ▸ isIn)
  rw [tokens_shutdown, noTokens, Nat.zero_add]
  unfold running shutdown
  simp only [WorkerPhase.live_eq_one_iff.mpr (allRunning _)]
  simp

/-- After `shutdown` the workers never wedge exactly if drains only absorb
tokens to spare.  If all workers run and no token was in the channel before,
that is so exactly if no worker drains and no batch is in the channel. -/
theorem shutdown_never_wedges_iff
    (pool : BackendWorkers workers Store Request) :
    ((∀ final, Reachable step? pool.shutdown final → ¬ final.Wedged) ↔
        ∀ state worker,
          Reachable step? pool.shutdown state →
            state.Absorbs worker →
              state.running < state.tokens) ∧
      (0 < workers →
        (∀ worker, pool.phase worker ≠ .stopped) →
          .shutdown ∉ pool.channel →
            ((∀ final,
                Reachable step? pool.shutdown final → ¬ final.Wedged) ↔
              (∀ requests, .storeBatch requests ∉ pool.channel) ∧
                ∀ worker, (pool.phase worker).drains = false)) := by
  have criterion := never_wedged_iff pool.covered_shutdown
  refine ⟨criterion, ?_⟩
  intro hasWorker allRunning noToken
  rw [criterion]
  constructor
  · intro spare
    have balanced := running_shutdown allRunning noToken
    have never
        (worker : Fin workers)
        (later : pool.shutdown.AbsorbsLater worker) :
        False := by
      obtain ⟨state, reachable, absorbs, balance⟩ := later
      have toSpare := spare state worker reachable absorbs
      omega
    have isChannel :
        pool.shutdown.channel =
          pool.channel ++ .shutdown :: List.replicate (workers - 1)
            .shutdown := by
      unfold shutdown
      rw [← replicate_succ, Nat.sub_add_cancel hasWorker]
    constructor
    · intro requests isBatch
      exact never ⟨0, hasWorker⟩ (absorbsLater isChannel noToken
        (WorkerPhase.live_eq_one_iff.mpr (allRunning _))
        (Or.inr ⟨requests, isBatch⟩))
    · intro worker
      by_contra drains
      exact never worker (absorbsLater isChannel noToken
        (WorkerPhase.live_eq_one_iff.mpr (allRunning _))
        (Or.inl (Bool.eq_true_of_not_eq_false drains)))
  · rintro ⟨noBatch, idle⟩ state worker reachable ⟨⟨batch, isDraining⟩, _⟩
    have noDrain : state.NoDrain :=
      reachable.invariant NoDrain (fun _ _ _ before => before.step)
        (noDrain_shutdown noBatch idle)
    have isIdle := noDrain.idle worker
    rw [isDraining] at isIdle
    cases isIdle

/-- Two workers and one batch: the drain absorbs a token, and the other worker
stops. -/
theorem shutdown_wedges :
    ∃ final : BackendWorkers 2 Nat Nat,
      Reachable step?
          (BackendWorkers.shutdown
            ⟨[.storeBatch [7]], fun _ => .receiving, [], []⟩)
          final ∧
        final.Wedged :=
  ⟨_, ⟨[0, 0, 0, 1], rfl⟩, rfl, 0, rfl⟩

end Workers

end BackendWorkers

end Mitiflow
