import Mitiflow.ConsumerGroup
import Mitiflow.Library.Changes

namespace Mitiflow

open Library List

/-!
# A member that joins while the group changes

The watcher of a partition manager runs from the manager's construction on.  A
rebalance increments the manager's generation, writes its partitions and only
then fires the callback, if there is one.  The constructor of a member reads
the partitions, then the generation, and registers its callback at the end.
All of these are separate steps, so a rebalance may fall anywhere between
them.  Afterwards every rebalance spawns a task, and the tasks finish in any
order.
-/

/-- How far the watcher is with a rebalance. -/
inductive RebalancePhase where
  | idle
  /-- The change is computed and the generation still to be incremented. -/
  | counting (newPartitions gained lost : List U32)
  /-- The partitions are still to be written. -/
  | writing (newPartitions gained lost : List U32)
  /-- The callback is still to be fired. -/
  | firing (gained lost : List U32)
  deriving Repr, DecidableEq

namespace RebalancePhase

/-- One if the rebalance is counted and its callback still to be fired. -/
def owed : RebalancePhase → U64
  | .idle | .counting _ _ _ => 0
  | .writing _ _ _ | .firing _ _ => 1

/-- The change that is written and not yet given to the callback. -/
def written : RebalancePhase → List (List U32 × List U32)
  | .firing gained lost => [(gained, lost)]
  | .idle | .counting _ _ _ | .writing _ _ _ => []

/-- The change is one of the partitions the manager has. -/
def Leads (managed : List U32) : RebalancePhase → Prop
  | .idle => True
  | .counting newPartitions gained lost
  | .writing newPartitions gained lost =>
    Outcome [(gained, lost)] managed newPartitions
  | .firing gained lost => Outcome [(gained, lost)] managed managed

end RebalancePhase

/-- How far the constructor of a member is. -/
inductive JoinPhase where
  | readingPartitions
  | readingGeneration
  | registering
  | running
  deriving Repr, DecidableEq

/-- A member, the watcher of its manager and its constructor. -/
structure JoiningMember where
  member : ConsumerGroupSubscriber
  rebalancing : RebalancePhase
  joining : JoinPhase
  /-- Changes given to the callback so far, oldest first. -/
  fired : List (List U32 × List U32)
  /-- Changes of the tasks that updated the assignment, oldest first. -/
  applied : List (List U32 × List U32)

/-- A step of the watcher, the constructor or a spawned task. -/
inductive JoinStep where
  /-- The watcher receives a sample; it waits while a rebalance runs. -/
  | liveliness (key : String) (isPut : Bool)
  /-- The watcher goes on with the rebalance. -/
  | rebalance
  /-- The constructor goes on; `offsets` are what the stores answer. -/
  | join (offsets : U32 → Offsets)
  /-- A task performs its next action. -/
  | advance (task : Nat) (fetched : Offsets)

/-- The change of the assignment that an action applies. -/
def TaskAction.change? : TaskAction → Option (List U32 × List U32)
  | .assign gained lost => some (gained, lost)
  | .commit _ | .load _ => none

/-- The changes a task has still to apply. -/
def RebalanceTask.changes (task : RebalanceTask) :
    List (List U32 × List U32) :=
  task.actions.filterMap TaskAction.change?

theorem RebalanceTask.changes_spawn
    (gained lost : List U32)
    (generation : U64) :
    (RebalanceTask.spawn gained lost generation).changes =
      [(gained, lost)] := by
  simp only [spawn, changes, filterMap_append, filterMap_map,
    Function.comp_def, TaskAction.change?, filterMap_cons,
    filterMap_nil, filterMap_none, nil_append]

/-- The change that the next action of a task applies. -/
def ConsumerGroupSubscriber.nextChange?
    (subscriber : ConsumerGroupSubscriber)
    (index : Nat) : Option (List U32 × List U32) := do
  let task ← subscriber.tasks[index]?
  let action ← task.actions.head?
  action.change?

namespace JoiningMember

section Steps

variable (hrwScore : HrwScore)

/-- The constructor after it created the partition manager. -/
def start
    (config : ConsumerGroupConfig)
    (numPartitions : U32)
    (found : List String) : JoiningMember where
  member :=
    { config := config
      manager :=
        PartitionManager.new hrwScore config.memberId numPartitions
          (config.keyPrefix ++ "/_workers/" ++ config.groupId) found
      generation := 0
      assignedPartitions := []
      positions := fun _ => .empty
      subscriptions := []
      detector := { lastSeen := fun _ => none }
      tasks := []
      commits := []
      fetches := [] }
  rebalancing := .idle
  joining := .readingPartitions
  fired := []
  applied := []

/-- The watcher takes a sample and compares the new assignment. -/
def onSample (state : JoiningMember) (key : String) (isPut : Bool) :
    JoiningMember :=
  let (manager, change) :=
    state.member.manager.onLiveliness hrwScore key isPut
  match change with
  | none =>
    { state with member := { state.member with manager := manager } }
  | some (gained, lost) =>
    { state with
      member :=
        { state.member with
          manager :=
            { state.member.manager with workers := manager.workers } }
      rebalancing := .counting manager.myPartitions gained lost }

def onRebalancing (state : JoiningMember) : JoiningMember :=
  match state.rebalancing with
  | .idle => state
  | .counting newPartitions gained lost =>
    { state with
      member :=
        { state.member with
          manager :=
            { state.member.manager with
              generation := state.member.manager.generation + 1 } }
      rebalancing := .writing newPartitions gained lost }
  | .writing newPartitions gained lost =>
    { state with
      member :=
        { state.member with
          manager :=
            { state.member.manager with myPartitions := newPartitions } }
      rebalancing := .firing gained lost }
  | .firing gained lost =>
    if state.joining = .running then
      { state with
        member := state.member.onRebalance gained lost
        rebalancing := .idle
        fired := state.fired ++ [(gained, lost)] }
    else
      { state with rebalancing := .idle }

def onJoin (state : JoiningMember) (offsets : U32 → Offsets) :
    JoiningMember :=
  match state.joining with
  | .readingPartitions =>
    { state with
      member :=
        { state.member with
          assignedPartitions := state.member.manager.myPartitions }
      joining := .readingGeneration }
  | .readingGeneration =>
    { state with
      member :=
        { state.member with
          generation := state.member.manager.generation }
      joining := .registering }
  | .registering =>
    let checkpoints :=
      ConsumerGroupSubscriber.checkpointsFor
        state.member.assignedPartitions offsets
    { state with
      member :=
        { state.member with
          positions := checkpoints
          subscriptions :=
            ConsumerGroupSubscriber.keyExprs state.member.config.keyPrefix
              state.member.assignedPartitions
          detector :=
            { lastSeen := fun key => (checkpoints key.2).get? key.1 } }
      joining := .running }
  | .running => state

def onAdvance (state : JoiningMember) (index : Nat) (fetched : Offsets) :
    JoiningMember :=
  { state with
    member := state.member.step hrwScore (.advance index fetched)
    applied :=
      state.applied ++ (state.member.nextChange? index).toList }

def step (state : JoiningMember) : JoinStep → JoiningMember
  | .liveliness key isPut =>
    if state.rebalancing = .idle then
      state.onSample hrwScore key isPut
    else
      state
  | .rebalance => state.onRebalancing
  | .join offsets => state.onJoin offsets
  | .advance index fetched => state.onAdvance hrwScore index fetched

def run (state : JoiningMember) (steps : List JoinStep) : JoiningMember :=
  steps.foldl (step hrwScore) state

end Steps

/-- The books of a member follow its partition manager. -/
def Follows (state : JoiningMember) : Prop :=
  (∀ partition,
    partition ∈ state.member.assignedPartitions ↔
      partition ∈ state.member.manager.myPartitions) ∧
    state.member.generation = state.member.manager.generation

end JoiningMember

/-! ## What one step does to the books -/

namespace PartitionManager

variable {hrwScore : HrwScore} {manager after : PartitionManager}

theorem onLiveliness_none
    {key : String}
    {isPut : Bool}
    (handled : manager.onLiveliness hrwScore key isPut = (after, none)) :
    after.myPartitions = manager.myPartitions ∧
      after.generation = manager.generation := by
  unfold onLiveliness at handled
  split at handled
  · cases handled
    exact ⟨rfl, rfl⟩
  · unfold rebalance at handled
    simp only at handled
    split at handled
    · cases handled
      exact ⟨rfl, rfl⟩
    · cases handled

/-- The reported change leads from the old partitions to the new ones. -/
theorem onLiveliness_some
    {key : String}
    {isPut : Bool}
    {gained lost : List U32}
    (handled :
      manager.onLiveliness hrwScore key isPut =
        (after, some (gained, lost))) :
    Outcome [(gained, lost)] manager.myPartitions after.myPartitions ∧
      after =
        { manager with
          workers := after.workers
          myPartitions := after.myPartitions
          generation := manager.generation + 1 } := by
  unfold onLiveliness at handled
  split at handled
  · cases handled
  · unfold rebalance at handled
    simp only at handled
    split at handled
    · cases handled
    · cases handled
      exact ⟨outcome_difference _ _, rfl⟩

end PartitionManager

namespace ConsumerGroupSubscriber

variable (hrwScore : HrwScore) (subscriber : ConsumerGroupSubscriber)

/-- Pushing the partitions that are missing adds all of them. -/
theorem mem_foldl_push (gained assigned : List U32) (partition : U32) :
    partition ∈
        gained.foldl
          (fun assigned partition =>
            if partition ∈ assigned then assigned
            else assigned ++ [partition])
          assigned ↔
      partition ∈ gained ∨ partition ∈ assigned := by
  induction gained generalizing assigned with
  | nil =>
    simp
  | cons first rest inductionHypothesis =>
    rw [foldl_cons, inductionHypothesis, mem_cons]
    split
    · grind
    · rw [mem_append, mem_singleton]
      tauto

/-- An action applies its change and keeps generation and tasks. -/
theorem perform_books
    (generation : U64)
    (fetched : Offsets)
    (action : TaskAction) :
    (subscriber.perform generation fetched action).generation =
        subscriber.generation ∧
      (subscriber.perform generation fetched action).tasks =
        subscriber.tasks ∧
      Outcome action.change?.toList subscriber.assignedPartitions
        (subscriber.perform generation fetched
          action).assignedPartitions := by
  cases action with
  | commit partition =>
    simp only [perform]
    split
    · exact ⟨rfl, rfl, Outcome.refl _⟩
    · exact ⟨rfl, rfl, Outcome.refl _⟩
  | load partition =>
    exact ⟨rfl, rfl, Outcome.refl _⟩
  | assign gained lost =>
    refine ⟨rfl, rfl, outcome_singleton_iff.mpr fun partition => ?_⟩
    simp only [perform, mem_foldl_push, mem_filter, decide_eq_true_eq]

/-- Replacing a list's entry moves what the old one had more to the front. -/
theorem perm_flatMap_set
    {tasks : List RebalanceTask}
    {index : Nat}
    {task advanced : RebalanceTask}
    {change : List (List U32 × List U32)}
    (found : tasks[index]? = some task)
    (split : task.changes = change ++ advanced.changes) :
    (tasks.flatMap RebalanceTask.changes).Perm
      (change ++
        (tasks.set index advanced).flatMap RebalanceTask.changes) := by
  induction tasks generalizing index with
  | nil =>
    cases found
  | cons first rest inductionHypothesis =>
    cases index with
    | zero =>
      cases found
      rw [set_cons_zero, flatMap_cons, flatMap_cons,
        split, append_assoc]
    | succ index =>
      grind

/-- Advancing a task applies the change of its next action, if it has one. -/
theorem advance_books (index : Nat) (fetched : Offsets) :
    (subscriber.step hrwScore (.advance index fetched)).generation =
        subscriber.generation ∧
      (subscriber.tasks.flatMap RebalanceTask.changes).Perm
        ((subscriber.nextChange? index).toList ++
          (subscriber.step hrwScore
            (.advance index fetched)).tasks.flatMap
              RebalanceTask.changes) ∧
      Outcome (subscriber.nextChange? index).toList
        subscriber.assignedPartitions
        (subscriber.step hrwScore
          (.advance index fetched)).assignedPartitions := by
  simp only [step, nextChange?]
  cases found : subscriber.tasks[index]? with
  | none =>
    exact ⟨rfl, List.Perm.refl _, Outcome.refl _⟩
  | some task =>
    cases actions : task.actions with
    | nil =>
      simp only [Option.bind_eq_bind, Option.bind_some, actions,
        List.head?_nil, true_and]
      exact ⟨List.Perm.refl _, Outcome.refl _⟩
    | cons action rest =>
      simp only [Option.bind_eq_bind, Option.bind_some, actions,
        List.head?_cons]
      obtain ⟨sameGeneration, sameTasks, outcome⟩ :=
        perform_books
          { subscriber with
            tasks := subscriber.tasks.set index { task with actions := rest } }
          task.generation fetched action
      refine ⟨sameGeneration, ?_, outcome⟩
      rw [sameTasks]
      refine perm_flatMap_set found ?_
      simp only [RebalanceTask.changes, actions, filterMap_cons]
      cases action.change? with
      | none => rfl
      | some change => rfl

end ConsumerGroupSubscriber

/-! ## Uninterrupted steps -/

namespace JoiningMember

section Uninterrupted

variable (hrwScore : HrwScore)

/-- The steps of one whole rebalance after a sample. -/
def wholeRebalance (key : String) (isPut : Bool) : List JoinStep :=
  [.liveliness key isPut, .rebalance, .rebalance, .rebalance]

end Uninterrupted

end JoiningMember

/-! ## The books of a member -/

/-- What the member and its manager have noted about partitions. -/
structure GroupBooks where
  assigned : List U32
  generation : U64
  managed : List U32
  managerGeneration : U64
  phase : RebalancePhase
  joining : JoinPhase
  fired : List (List U32 × List U32)
  applied : List (List U32 × List U32)
  /-- Changes of spawned tasks that are not applied yet. -/
  outstanding : List (List U32 × List U32)

/-- What a step may do to the books. -/
inductive BooksStep : GroupBooks → GroupBooks → Prop where
  | nothing (books : GroupBooks) : BooksStep books books
  | compute {books : GroupBooks} {newPartitions gained lost : List U32} :
      books.phase = .idle →
      Outcome [(gained, lost)] books.managed newPartitions →
      BooksStep books
        { books with phase := .counting newPartitions gained lost }
  | count {books : GroupBooks} {newPartitions gained lost : List U32} :
      books.phase = .counting newPartitions gained lost →
      BooksStep books
        { books with
          managerGeneration := books.managerGeneration + 1
          phase := .writing newPartitions gained lost }
  | write {books : GroupBooks} {newPartitions gained lost : List U32} :
      books.phase = .writing newPartitions gained lost →
      BooksStep books
        { books with managed := newPartitions, phase := .firing gained lost }
  | fire {books : GroupBooks} {gained lost : List U32} :
      books.phase = .firing gained lost →
      books.joining = .running →
      BooksStep books
        { books with
          generation := books.generation + 1
          phase := .idle
          fired := books.fired ++ [(gained, lost)]
          outstanding := books.outstanding ++ [(gained, lost)] }
  | miss {books : GroupBooks} {gained lost : List U32} :
      books.phase = .firing gained lost →
      books.joining ≠ .running →
      BooksStep books { books with phase := .idle }
  | readPartitions {books : GroupBooks} :
      books.joining = .readingPartitions →
      BooksStep books
        { books with
          assigned := books.managed
          joining := .readingGeneration }
  | readGeneration {books : GroupBooks} :
      books.joining = .readingGeneration →
      BooksStep books
        { books with
          generation := books.managerGeneration
          joining := .registering }
  | register {books : GroupBooks} :
      books.joining = .registering →
      BooksStep books { books with joining := .running }
  | apply {books : GroupBooks}
      {changes remaining : List (List U32 × List U32)}
      {assigned : List U32} :
      books.outstanding.Perm (changes ++ remaining) →
      Outcome changes books.assigned assigned →
      BooksStep books
        { books with
          assigned := assigned
          applied := books.applied ++ changes
          outstanding := remaining }

namespace JoiningMember

/-- The books in a state. -/
def books (state : JoiningMember) : GroupBooks where
  assigned := state.member.assignedPartitions
  generation := state.member.generation
  managed := state.member.manager.myPartitions
  managerGeneration := state.member.manager.generation
  phase := state.rebalancing
  joining := state.joining
  fired := state.fired
  applied := state.applied
  outstanding := state.member.tasks.flatMap RebalanceTask.changes

section Books

variable (hrwScore : HrwScore) (state : JoiningMember)

theorem books_onSample
    (idle : state.rebalancing = .idle)
    (key : String)
    (isPut : Bool) :
    BooksStep state.books (state.onSample hrwScore key isPut).books := by
  cases handled : state.member.manager.onLiveliness hrwScore key isPut with
  | mk after change =>
    cases change with
    | none =>
      obtain ⟨samePartitions, sameGeneration⟩ :=
        PartitionManager.onLiveliness_none handled
      simp only [onSample, handled, books, samePartitions, sameGeneration]
      exact .nothing _
    | some change =>
      simp only [onSample, handled]
      exact .compute idle (PartitionManager.onLiveliness_some handled).1

theorem books_onRebalancing :
    BooksStep state.books state.onRebalancing.books := by
  unfold onRebalancing
  split
  · exact .nothing _
  · rename_i phase
    exact .count phase
  · rename_i phase
    exact .write phase
  · rename_i gained lost phase
    split
    · rename_i running
      have spawned :
          ({ state with
              member := state.member.onRebalance gained lost
              rebalancing := .idle
              fired := state.fired ++ [(gained, lost)] } :
            JoiningMember).books.outstanding =
            state.books.outstanding ++ [(gained, lost)] := by
        simp only [books, ConsumerGroupSubscriber.onRebalance,
          flatMap_append, flatMap_singleton,
          RebalanceTask.changes_spawn]
      have fires := @BooksStep.fire state.books gained lost phase running
      rw [← spawned] at fires
      exact fires
    · rename_i notRunning
      exact .miss phase notRunning

theorem books_onJoin (offsets : U32 → Offsets) :
    BooksStep state.books (state.onJoin offsets).books := by
  unfold onJoin
  split
  · rename_i phase
    exact .readPartitions phase
  · rename_i phase
    exact .readGeneration phase
  · rename_i phase
    exact .register phase
  · exact .nothing _

theorem books_onAdvance (index : Nat) (fetched : Offsets) :
    BooksStep state.books (state.onAdvance hrwScore index fetched).books := by
  obtain ⟨sameGeneration, moved, outcome⟩ :=
    ConsumerGroupSubscriber.advance_books hrwScore state.member index fetched
  have sameManager :=
    (ConsumerGroupSubscriber.step_advance hrwScore state.member index fetched).2
  have applies := @BooksStep.apply state.books _ _ _ moved outcome
  simp only [books, onAdvance, sameGeneration, sameManager]
  exact applies

/-- Every step of the member is a step of its books. -/
theorem books_step (next : JoinStep) :
    BooksStep state.books (state.step hrwScore next).books := by
  cases next with
  | liveliness key isPut =>
    simp only [step]
    split
    · rename_i idle
      exact state.books_onSample hrwScore idle key isPut
    · exact .nothing _
  | rebalance =>
    exact state.books_onRebalancing
  | join offsets =>
    exact state.books_onJoin offsets
  | advance index fetched =>
    exact state.books_onAdvance hrwScore index fetched

end Books

end JoiningMember

namespace GroupBooks

/-- Before the registration nothing is given to the callback or a task. -/
def Unregistered (books : GroupBooks) : Prop :=
  books.joining ≠ .running →
    books.fired = [] ∧ books.applied = [] ∧ books.outstanding = []

/-- The generation counts every rebalance exactly once. -/
def InStep (books : GroupBooks) : Prop :=
  books.generation + books.phase.owed = books.managerGeneration

/--
The books after the registration in some earlier books: the member's
partitions come from its snapshot by the changes applied, the manager's from
those it had at the registration by the changes fired.
-/
structure Recorded (registered books : GroupBooks) : Prop where
  running : books.joining = .running
  assigned : Outcome books.applied registered.assigned books.assigned
  managed :
    Outcome (books.fired ++ books.phase.written) registered.managed
      books.managed
  changes : books.fired.Perm (books.applied ++ books.outstanding)
  generation : books.InStep ↔ registered.InStep

variable {registered books next : GroupBooks}

/-- A rebalance under way stays one of the manager's partitions. -/
theorem leads_step
    (leads : books.phase.Leads books.managed)
    (steps : BooksStep books next) :
    next.phase.Leads next.managed := by
  cases steps with
  | nothing => exact leads
  | compute idle outcome => exact outcome
  | count phase =>
    rw [phase] at leads
    exact leads
  | write phase =>
    rw [phase] at leads
    exact leads.again
  | fire phase running => exact trivial
  | miss phase notRunning => exact trivial
  | readPartitions phase => exact leads
  | readGeneration phase => exact leads
  | register phase => exact leads
  | apply moved outcome => exact leads

theorem Unregistered.step
    (unregistered : books.Unregistered)
    (steps : BooksStep books next) :
    next.Unregistered := by
  cases steps with
  | nothing => exact unregistered
  | compute idle outcome => exact unregistered
  | count phase => exact unregistered
  | write phase => exact unregistered
  | fire phase running => exact fun notRunning => absurd running notRunning
  | miss phase notRunning => exact unregistered
  | readPartitions phase =>
    exact fun _ => unregistered (by rw [phase]; decide)
  | readGeneration phase =>
    exact fun _ => unregistered (by rw [phase]; decide)
  | register phase => exact fun notRunning => absurd rfl notRunning
  | apply moved outcome =>
    intro notRunning
    obtain ⟨noneFired, noneApplied, noneSpawned⟩ := unregistered notRunning
    rw [noneSpawned] at moved
    obtain ⟨noChanges, noneLeft⟩ := append_eq_nil_iff.mp moved.nil_eq.symm
    simp only [noneFired, noneApplied, noChanges, noneLeft,
      append_nil, and_self]

theorem Recorded.step
    (recorded : Recorded registered books)
    (leads : books.phase.Leads books.managed)
    (steps : BooksStep books next) :
    Recorded registered next := by
  obtain ⟨running, assigned, managed, changes, generation⟩ := recorded
  cases steps with
  | nothing =>
    exact ⟨running, assigned, managed, changes, generation⟩
  | compute idle outcome =>
    rw [InStep, idle] at generation
    rw [idle] at managed
    exact ⟨running, assigned, managed, changes, generation⟩
  | count phase =>
    rw [InStep, phase] at generation
    rw [phase] at managed
    refine ⟨running, assigned, managed, changes, ?_⟩
    rw [← generation, InStep]
    simp only [RebalancePhase.owed, add_left_inj, add_zero]
  | write phase =>
    rw [InStep, phase] at generation
    rw [phase] at managed leads
    rw [RebalancePhase.written, append_nil] at managed
    exact ⟨running, assigned, managed.trans leads, changes, generation⟩
  | fire phase _ =>
    rw [InStep, phase] at generation
    rw [phase] at managed
    refine ⟨running, assigned, ?_, ?_, ?_⟩
    · rw [RebalancePhase.written, append_nil]
      exact managed
    · rw [← append_assoc]
      exact changes.append_right _
    · rw [← generation, InStep]
      simp only [RebalancePhase.owed, add_zero]
  | miss phase notRunning =>
    exact absurd running notRunning
  | readPartitions phase | readGeneration phase | register phase =>
    rw [running] at phase
    cases phase
  | apply moved outcome =>
    refine ⟨running, assigned.trans outcome, managed, ?_, generation⟩
    rw [append_assoc]
    exact changes.trans (moved.append_left _)

/-- Right after the registration the changes written are recorded. -/
theorem recorded_register
    (leads : books.phase.Leads books.managed)
    (unregistered : books.Unregistered)
    (phase : books.joining = .registering) :
    Recorded books { books with joining := .running } := by
  obtain ⟨noneFired, noneApplied, noneSpawned⟩ :=
    unregistered (by rw [phase]; decide)
  refine ⟨rfl, ?_, ?_, ?_, Iff.rfl⟩
  · rw [noneApplied]
    exact Outcome.refl _
  · rw [noneFired, nil_append]
    cases isPhase : books.phase with
    | firing gained lost =>
      rw [isPhase] at leads
      exact leads
    | idle => exact Outcome.refl _
    | counting newPartitions gained lost => exact Outcome.refl _
    | writing newPartitions gained lost => exact Outcome.refl _
  · rw [noneFired, noneApplied, noneSpawned]
    exact List.Perm.refl _

/-- At rest the books agree exactly if the generation does and, for every
partition, the changes do. -/
theorem Recorded.agree_iff
    (recorded : Recorded registered books)
    (idle : books.phase = .idle)
    (done : books.outstanding = []) :
    (∀ partition,
        partition ∈ books.assigned ↔ partition ∈ books.managed) ∧
        books.generation = books.managerGeneration ↔
      registered.InStep ∧
        ∀ partition,
          lastEffect books.applied partition =
              lastEffect books.fired partition ∧
            (lastEffect books.fired partition = none →
              (partition ∈ registered.assigned ↔
                partition ∈ registered.managed)) := by
  obtain ⟨_, assigned, managed, changes, generation⟩ := recorded
  rw [idle, RebalancePhase.written, append_nil] at managed
  rw [done, append_nil] at changes
  rw [InStep, idle, RebalancePhase.owed, add_zero] at generation
  rw [assigned.agree_iff managed changes.symm, generation, and_comm]

end GroupBooks

namespace JoiningMember

section Run

variable {hrwScore : HrwScore} {state : JoiningMember}

theorem books_run
    (Holds : GroupBooks → Prop)
    (kept :
      ∀ books next, Holds books → BooksStep books next → Holds next)
    (initially : Holds state.books)
    (steps : List JoinStep) :
    Holds (state.run hrwScore steps).books := by
  induction steps generalizing state with
  | nil =>
    exact initially
  | cons next rest inductionHypothesis =>
    exact inductionHypothesis
      (kept _ _ initially (state.books_step hrwScore next))

/-- A finished member has applied the changes of all tasks. -/
theorem outstanding_of_finished
    (done : state.member.finished = true) :
    state.books.outstanding = [] := by
  simp only [books, flatMap_eq_nil_iff]
  intro task isSpawned
  have noActions := all_eq_true.mp done task isSpawned
  rw [RebalanceTask.changes, of_decide_eq_true noActions, filterMap_nil]

variable
  (hrwScore)
  (config : ConsumerGroupConfig)
  (numPartitions : U32)
  (found : List String)
  (earlier later : List JoinStep)
  (offsets : U32 → Offsets)

/-- The state in which the callback is registered. -/
def atRegistration : JoiningMember :=
  (start hrwScore config numPartitions found).run hrwScore earlier

/-- The state a run reaches after the registration. -/
def joined : JoiningMember :=
  ((atRegistration hrwScore config numPartitions found earlier).step hrwScore
    (.join offsets)).run hrwScore later

theorem books_atRegistration :
    (atRegistration hrwScore config numPartitions found
        earlier).books.phase.Leads
        (atRegistration hrwScore config numPartitions found
          earlier).books.managed ∧
      (atRegistration hrwScore config numPartitions found
        earlier).books.Unregistered :=
  @books_run hrwScore (start hrwScore config numPartitions found)
    (fun books => books.phase.Leads books.managed ∧ books.Unregistered)
    (fun _ _ holds steps =>
      ⟨GroupBooks.leads_step holds.1 steps, holds.2.step steps⟩)
    ⟨trivial, fun _ => ⟨rfl, rfl, rfl⟩⟩ earlier

theorem recorded_joined
    (snapshotTaken :
      (atRegistration hrwScore config numPartitions found earlier).joining =
        .registering) :
    GroupBooks.Recorded
      (atRegistration hrwScore config numPartitions found earlier).books
      (joined hrwScore config numPartitions found earlier later
        offsets).books := by
  obtain ⟨leads, unregistered⟩ :=
    books_atRegistration hrwScore config numPartitions found earlier
  refine (books_run
    (fun books => books.phase.Leads books.managed ∧ GroupBooks.Recorded _ books)
    (fun _ _ holds steps =>
      ⟨GroupBooks.leads_step holds.1 steps, holds.2.step holds.1 steps⟩)
    ?_ later).2
  simp only [step, onJoin, snapshotTaken]
  exact ⟨leads, GroupBooks.recorded_register leads unregistered snapshotTaken⟩

/--
The snapshot was current: at the registration the generation counts every
rebalance once, and the snapshot has the manager's partitions, as far as no
later change names them.  For every partition the task that finished last does
the same as the one spawned last.
-/
def KeptUp (before final : JoiningMember) : Prop :=
  before.member.generation + before.rebalancing.owed =
      before.member.manager.generation ∧
    ∀ partition,
      lastEffect final.applied partition =
          lastEffect final.fired partition ∧
        (lastEffect final.fired partition = none →
          (partition ∈ before.member.assignedPartitions ↔
            partition ∈ before.member.manager.myPartitions))

/--
Once the watcher is idle and all tasks have finished, the member's partitions
and generation are the manager's exactly if the member kept up with it.
-/
theorem bookkeeping_iff
    (snapshotTaken :
      (atRegistration hrwScore config numPartitions found earlier).joining =
        .registering)
    (idle :
      (joined hrwScore config numPartitions found earlier later
        offsets).rebalancing = .idle)
    (done :
      (joined hrwScore config numPartitions found earlier later
        offsets).member.finished = true) :
    (joined hrwScore config numPartitions found earlier later
        offsets).Follows ↔
      KeptUp
        (atRegistration hrwScore config numPartitions found earlier)
        (joined hrwScore config numPartitions found earlier later
          offsets) := by
  have recorded :=
    recorded_joined hrwScore config numPartitions found earlier later offsets
      snapshotTaken
  exact recorded.agree_iff idle (outstanding_of_finished done)

end Run

/-- Worker `b` gets the only partition whenever it is known. -/
def secondFirst : HrwScore :=
  fun worker _ => if worker = "b" then 1 else 0

def noOffsets : U32 → Offsets :=
  fun _ => .empty

def snapshot : List JoinStep :=
  [.join noOffsets, .join noOffsets]

/-- Both actions of a task that names one partition. -/
def finishTask (task : Nat) : List JoinStep :=
  [.advance task .empty, .advance task .empty]

/-- The member `a` of a group with one partition. -/
def joinedFirst (earlier later : List JoinStep) : JoiningMember :=
  joined secondFirst ⟨"events", "g", "a"⟩ 1 [] earlier later noOffsets

/-- Worker `b` joins before the snapshot and leaves after the registration. -/
theorem bookkeeping_leaves :
    (joinedFirst (wholeRebalance "events/_workers/g/b" true ++ snapshot)
      (wholeRebalance "events/_workers/g/b" false ++
        finishTask 0)).Follows :=
  (bookkeeping_iff secondFirst ⟨"events", "g", "a"⟩ 1 [] _ _ _
    (by decide +kernel) (by decide +kernel) (by decide +kernel)).mpr
    ⟨by decide +kernel, fun _ => ⟨rfl, fun _ => Iff.rfl⟩⟩

/-- Worker `b` joins between the snapshot and the registration. -/
def missed : JoiningMember :=
  joinedFirst (snapshot ++ wholeRebalance "events/_workers/g/b" true) []

/-- Worker `b` joins and leaves again, and the second task finishes first. -/
def overtaken : JoiningMember :=
  joinedFirst snapshot
    (wholeRebalance "events/_workers/g/b" true ++
      wholeRebalance "events/_workers/g/b" false ++
      finishTask 1 ++ finishTask 0)

/-- The member keeps a partition it lost, or misses one it gained. -/
theorem books_fall_behind :
    (missed.rebalancing = .idle ∧ missed.member.finished = true ∧
        missed.member.assignedPartitions = [0] ∧
        missed.member.manager.myPartitions = [] ∧
        missed.member.generation = 1 ∧
        missed.member.manager.generation = 2) ∧
      overtaken.rebalancing = .idle ∧ overtaken.member.finished = true ∧
        overtaken.member.assignedPartitions = [] ∧
        overtaken.member.manager.myPartitions = [0] := by
  decide +kernel

end JoiningMember

end Mitiflow
