import Mitiflow.Library.GuardedRun
import Mitiflow.PlacementOrder
import Mitiflow.ReconcilerSettling
import Mitiflow.TopicWorker

namespace Mitiflow

open Library List

/-!
# Convergence of a topic worker

What the tasks of a worker lead to is settled by the last one that compares
the stores.  If that one wants what the worker should have now, and no other
task, timer or recovery works against it, the stores that serve are in the end
those that are desired.
-/

namespace TopicWorker

/-- Some comparison is still to come. -/
def Expecting (worker : TopicWorker) : Prop :=
  (worker.firing ∧ worker.registered) ∨
    ∃ task ∈ worker.tasks, ¬ task.compared

instance Expecting.decidable (worker : TopicWorker) :
    Decidable worker.Expecting :=
  inferInstanceAs (Decidable (_ ∨ _))

section Conditions

variable {Score : Type} [LinearOrder Score]
  (weightedHrwScore : WeightedHrwScore Score)

/--
A task that wants some stores compares them: they are the ones that the worker
should have now, the other tasks have no step left against them, none of them
is draining, and no other store is being recovered.
-/
def UpToDate (worker : TopicWorker) (desired : List StoreKey) : Prop :=
  SameStores desired (worker.desiredNow weightedHrwScore) ∧
    (∀ step ∈ worker.pendingSteps, step.Agrees desired) ∧
    (∀ key ∈ desired, worker.reconciler.stateOf key ≠ some .draining) ∧
    ∀ recovery ∈ worker.reconciler.recoveries, recovery.key ∈ desired

instance UpToDate.decidable
    (worker : TopicWorker)
    (desired : List StoreKey) :
    Decidable (worker.UpToDate weightedHrwScore desired) :=
  @instDecidableAnd _ _ inferInstance
    (@instDecidableAnd _ _ inferInstance
      (@instDecidableAnd _ _ (List.decidableBAll _ desired) inferInstance))

/-- A step leaves the stores that the worker should have as they are. -/
def LeavesDesired (worker : TopicWorker) (step : WorkerStep) : Prop :=
  SameStores (worker.desiredNow weightedHrwScore)
    ((worker.step weightedHrwScore step).desiredNow weightedHrwScore)

instance LeavesDesired.decidable
    (worker : TopicWorker)
    (step : WorkerStep) :
    Decidable (worker.LeavesDesired weightedHrwScore step) :=
  inferInstanceAs (Decidable (SameStores _ _))

/-- A comparison is followed by another one, or is up to date. -/
def ComparisonAllowed (worker : TopicWorker) (index : Nat) :
    Option ReconcileTask → Prop
  | some (.planned desired) =>
    { worker with tasks := worker.tasks.eraseIdx index }.Expecting ∨
      worker.UpToDate weightedHrwScore desired
  | _ => True

instance ComparisonAllowed.decidable
    (worker : TopicWorker)
    (index : Nat) :
    (task : Option ReconcileTask) →
      Decidable (worker.ComparisonAllowed weightedHrwScore index task)
  | some (.planned _) => inferInstanceAs (Decidable (_ ∨ _))
  | some (.spawned _) | some (.applying _) | none =>
    inferInstanceAs (Decidable True)

/--
What changes the desired stores comes before the first reconciliation or is
followed by a comparison, and a comparison that no other follows is up to
date.
-/
def Allowed (worker : TopicWorker) : WorkerStep → Prop
  | .sample sample listing =>
    worker.tasks.isEmpty ∨ worker.registered ∨ worker.Expecting ∨
      worker.LeavesDesired weightedHrwScore (.sample sample listing)
  | .receiveOverrides table =>
    worker.tasks.isEmpty ∨ worker.Expecting ∨
      worker.LeavesDesired weightedHrwScore (.receiveOverrides table)
  | .computeActions task _ =>
    worker.ComparisonAllowed weightedHrwScore task worker.tasks[task]?
  | _ => True

instance Allowed.decidable (worker : TopicWorker) :
    (step : WorkerStep) →
      Decidable (worker.Allowed weightedHrwScore step)
  | .sample _ _ => inferInstanceAs (Decidable (_ ∨ _ ∨ _ ∨ _))
  | .receiveOverrides _ => inferInstanceAs (Decidable (_ ∨ _ ∨ _))
  | .computeActions _ _ =>
    inferInstanceAs (Decidable (worker.ComparisonAllowed _ _ _))
  | .fireCallback | .onChange | .recomputeAndReconcile | .computeDesired _
  | .applyNext _ | .drainExpires _ | .recoveryAdvances _ =>
    inferInstanceAs (Decidable True)

def Quiet (worker : TopicWorker) : Prop :=
  worker.tasks ≠ [] ∧ (∀ task ∈ worker.tasks, task.returned) ∧
    worker.firing = false

instance Quiet.decidable (worker : TopicWorker) : Decidable worker.Quiet :=
  inferInstanceAs (Decidable (_ ∧ _ ∧ _))

/-! ## The invariant -/

/-- What holds in every state of a run. -/
structure OnTrack (worker : TopicWorker) : Prop where
  sound : worker.reconciler.Sound
  goesOn : ∀ key, ApplyStep.action (.stop key) ∉ worker.pendingSteps
  settles :
    worker.tasks = [] ∨ worker.Expecting ∨
      worker.reconciler.Settled worker.pendingSteps
        (worker.desiredNow weightedHrwScore)

variable {weightedHrwScore} {worker : TopicWorker}

theorem onTrack_new
    (selfNode : NodeDescriptor)
    (numPartitions replicationFactor : U32)
    (peers : ListedMap String NodeDescriptor)
    (overrides : OverrideTable) :
    OnTrack weightedHrwScore
      (new selfNode numPartitions replicationFactor peers overrides) :=
  ⟨Reconciler.sound_new true, fun _ => not_mem_nil, Or.inl rfl⟩

theorem mem_tasks_set_of_ne
    {index place : Nat}
    (differs : place ≠ index)
    {other : ReconcileTask}
    (isPlace : worker.tasks[place]? = some other)
    (task : ReconcileTask) :
    other ∈ worker.tasks.set index task := by
  refine mem_of_getElem? (i := place) ?_
  rwa [List.getElem?_set_ne differs.symm]

theorem mem_tasks_set
    {index : Nat}
    {old : ReconcileTask}
    (isOld : worker.tasks[index]? = some old)
    (task : ReconcileTask) :
    task ∈ worker.tasks.set index task := by
  obtain ⟨inRange, -⟩ := List.getElem?_eq_some_iff.mp isOld
  exact mem_set inRange task

/-- The steps that are left when one task has gone on. -/
theorem mem_pendingSteps_set
    {index : Nat}
    {task : ReconcileTask}
    {step : ApplyStep}
    (pending :
      step ∈ { worker with
        tasks := worker.tasks.set index task }.pendingSteps) :
    step ∈ task.pending ∨ step ∈ worker.pendingSteps := by
  obtain ⟨other, isTask, isStep⟩ := mem_flatMap.mp pending
  rcases mem_or_eq_of_mem_set isTask with before | rfl
  · exact Or.inr (mem_flatMap.mpr ⟨other, before, isStep⟩)
  · exact Or.inl isStep

theorem pendingSteps_mem_set
    {index : Nat}
    {old : ReconcileTask}
    (isOld : worker.tasks[index]? = some old)
    (task : ReconcileTask)
    {step : ApplyStep}
    (pending : step ∈ worker.pendingSteps) :
    step ∈ old.pending ∨
      step ∈ { worker with
        tasks := worker.tasks.set index task }.pendingSteps := by
  obtain ⟨other, isTask, isStep⟩ := mem_flatMap.mp pending
  obtain ⟨place, isPlace⟩ := mem_iff_getElem?.mp isTask
  by_cases same : place = index
  · subst same
    rw [isOld] at isPlace
    cases isPlace
    exact Or.inl isStep
  · exact Or.inr (mem_flatMap.mpr
      ⟨other, mem_tasks_set_of_ne same isPlace task, isStep⟩)

theorem mem_pendingSteps_of_task
    {index : Nat}
    {task : ReconcileTask}
    (isTask : worker.tasks[index]? = some task)
    {step : ApplyStep}
    (pending : step ∈ task.pending) :
    step ∈ worker.pendingSteps :=
  mem_flatMap.mpr ⟨task, mem_of_getElem? isTask, pending⟩

theorem onTrack_sample
    (onTrack : OnTrack weightedHrwScore worker)
    {sample : MembershipSample}
    {listing : List String}
    (allowed : worker.Allowed weightedHrwScore (.sample sample listing)) :
    OnTrack weightedHrwScore (worker.receiveSample sample listing) := by
  rw [Allowed, LeavesDesired, step] at allowed
  rcases worker.receiveSample_cases sample listing with same | ⟨peers, same⟩
  · rwa [same]
  · rw [same] at allowed ⊢
    have expecting :
        worker.Expecting → { worker with peers, firing := true }.Expecting :=
      Or.imp_left fun fires => ⟨rfl, fires.2⟩
    refine ⟨onTrack.sound, onTrack.goesOn, ?_⟩
    rcases allowed with none | registered | expected | leaves
    · exact Or.inl (isEmpty_iff.mp none)
    · exact Or.inr (Or.inl (Or.inl ⟨rfl, registered⟩))
    · exact Or.inr (Or.inl (expecting expected))
    · exact onTrack.settles.imp_right
        (Or.imp expecting fun settled => settled.congr leaves)

theorem onTrack_spawn
    (onTrack : OnTrack weightedHrwScore worker)
    (nodes : List NodeDescriptor)
    (firing : Bool) :
    OnTrack weightedHrwScore { worker with
      firing, tasks := worker.tasks ++ [.spawned nodes] } := by
  refine ⟨onTrack.sound, fun key => ?_, ?_⟩
  · rw [pendingSteps, flatMap_append]
    exact (append_nil worker.pendingSteps).symm ▸ onTrack.goesOn key
  · exact Or.inr (Or.inl (Or.inr ⟨_, mem_append_right _
      (mem_singleton_self _), Bool.false_ne_true⟩))

theorem onTrack_fireCallback (onTrack : OnTrack weightedHrwScore worker) :
    OnTrack weightedHrwScore
      (worker.step weightedHrwScore .fireCallback) := by
  rw [step]
  split
  · exact onTrack_spawn onTrack _ false
  · next idle =>
      refine ⟨onTrack.sound, onTrack.goesOn, onTrack.settles.imp_right
        (Or.imp_left (Or.imp_left ?_))⟩
      exact fun fires => absurd fires idle

theorem onTrack_onChange (onTrack : OnTrack weightedHrwScore worker) :
    OnTrack weightedHrwScore (worker.step weightedHrwScore .onChange) := by
  rw [step]
  split
  · exact ⟨onTrack.sound, onTrack.goesOn, onTrack.settles.imp_right
      (Or.imp_left (Or.imp_left fun fires => ⟨fires.1, rfl⟩))⟩
  · exact onTrack

section

variable (onTrack : OnTrack weightedHrwScore worker)

include onTrack

theorem onTrack_receiveOverrides
    {table : Option OverrideTable}
    (allowed :
      worker.Allowed weightedHrwScore (.receiveOverrides table)) :
    OnTrack weightedHrwScore
      (worker.step weightedHrwScore (.receiveOverrides table)) := by
  refine ⟨onTrack.sound, onTrack.goesOn, ?_⟩
  rcases allowed with none | expecting | leaves
  · exact Or.inl (isEmpty_iff.mp none)
  · exact Or.inr (Or.inl expecting)
  · exact onTrack.settles.imp_right
      (Or.imp_right fun settled => settled.congr leaves)

theorem onTrack_computeDesired
    (index : Nat) :
    OnTrack weightedHrwScore
      (worker.step weightedHrwScore (.computeDesired index)) := by
  rw [step]
  split
  · next nodes isTask =>
      refine ⟨onTrack.sound, fun key pending => ?_, ?_⟩
      · exact (mem_pendingSteps_set pending).elim not_mem_nil
          (onTrack.goesOn key)
      · exact Or.inr (Or.inl (Or.inr
          ⟨_, mem_tasks_set isTask _, Bool.false_ne_true⟩))
  · exact onTrack

theorem onTrack_computeActions
    {index : Nat}
    {listing : List StoreKey}
    (allowed :
      worker.Allowed weightedHrwScore (.computeActions index listing)) :
    OnTrack weightedHrwScore
      (worker.step weightedHrwScore (.computeActions index listing)) := by
  rw [step]
  split
  · next desired isTask =>
      rw [Allowed, isTask] at allowed
      split
      · next lists =>
          refine ⟨onTrack.sound, fun key pending => ?_, ?_⟩
          · rcases mem_pendingSteps_set pending with new | before
            · obtain ⟨action, isAction, same⟩ := mem_map.mp new
              cases same
              exact Reconciler.stop_not_mem_computeActions isAction
            · exact onTrack.goesOn key before
          · right
            rcases allowed with expecting | upToDate
            · grind [mem_eraseIdx_iff_getElem?, mem_tasks_set_of_ne,
                Expecting]
            · right
              obtain ⟨same, agree, undrained, recovering⟩ := upToDate
              refine Reconciler.Settled.congr ?_ same
              refine Reconciler.settled_computeActions onTrack.sound lists
                agree undrained recovering fun step => ?_
              constructor
              · exact fun isStep => (mem_pendingSteps_set isStep).symm
              · rintro (before | new)
                · exact (pendingSteps_mem_set isTask _ before).resolve_left
                    not_mem_nil
                · exact mem_flatMap.mpr ⟨_, mem_tasks_set isTask _, new⟩
      · exact onTrack
  · exact onTrack

end

section ApplyNext

variable
  {index : Nat}
  {next : ApplyStep}
  {rest : List ApplyStep}
  (isTask : worker.tasks[index]? = some (.applying (next :: rest)))
  (more : List ApplyStep)

include isTask

/-- A task that takes a step has nothing new left but what follows it. -/
theorem mem_pendingSteps_of_applied
    {step : ApplyStep}
    (pending :
      step ∈ { worker with
        tasks := worker.tasks.set index
          (.applying (more ++ rest)) }.pendingSteps) :
    step ∈ worker.pendingSteps ∨ step ∈ more := by
  rcases mem_pendingSteps_set pending with new | before
  · rcases mem_append.mp new with follows | later
    · exact Or.inr follows
    · exact Or.inl (mem_pendingSteps_of_task isTask
        (mem_cons_of_mem next later))
  · exact Or.inl before

/-- The other steps are still left. -/
theorem applied_or_mem_pendingSteps
    {step : ApplyStep}
    (pending : step ∈ worker.pendingSteps) :
    step = next ∨
      step ∈ { worker with
        tasks := worker.tasks.set index
          (.applying (more ++ rest)) }.pendingSteps := by
  rcases pendingSteps_mem_set isTask (.applying (more ++ rest)) pending with
    old | other
  · refine (mem_cons.mp old).imp_right fun later => ?_
    exact mem_flatMap.mpr
      ⟨_, mem_tasks_set isTask _, mem_append_right _ later⟩
  · exact Or.inr other

/-- A task that has yet to compare the stores is another one. -/
theorem expecting_of_applied
    (expecting : worker.Expecting)
    (reconciler : Reconciler) :
    { worker with
      reconciler
      tasks := worker.tasks.set index
        (.applying (more ++ rest)) }.Expecting := by
  refine expecting.imp_right ?_
  rintro ⟨other, isOther, uncompared⟩
  obtain ⟨place, isPlace⟩ := mem_iff_getElem?.mp isOther
  refine ⟨other, mem_tasks_set_of_ne ?_ isPlace _, uncompared⟩
  rintro rfl
  rw [isTask] at isPlace
  cases isPlace
  exact uncompared rfl

end ApplyNext

section

variable (onTrack : OnTrack weightedHrwScore worker)

include onTrack

theorem onTrack_applyNext
    (index : Nat) :
    OnTrack weightedHrwScore
      (worker.step weightedHrwScore (.applyNext index)) := by
  rw [step]
  split
  · next next rest isTask =>
      let more := worker.reconciler.followUp next
      have isNext : next ∈ worker.pendingSteps :=
        mem_pendingSteps_of_task isTask mem_cons_self
      refine ⟨?_, fun key pending => ?_, ?_⟩
      · refine Reconciler.sound_perform onTrack.sound ?_
        rintro key rfl
        exact onTrack.goesOn key isNext
      · rcases mem_pendingSteps_of_applied isTask more pending with
          before | follows
        · exact onTrack.goesOn key before
        · cases Reconciler.mem_followUp follows
      · rcases onTrack.settles with none | expecting | settled
        · rw [none] at isTask
          cases isTask
        · exact Or.inr (Or.inl (expecting_of_applied isTask more expecting _))
        · exact Or.inr (Or.inr (settled.perform isNext
            (fun step => applied_or_mem_pendingSteps isTask more)
            fun step => mem_pendingSteps_of_applied isTask more))
  · exact onTrack

theorem onTrack_recoveryAdvances
    (index : Nat) :
    OnTrack weightedHrwScore
      (worker.step weightedHrwScore (.recoveryAdvances index)) :=
  ⟨Reconciler.sound_recoveryAdvances onTrack.sound index, onTrack.goesOn,
    onTrack.settles.imp_right
      (Or.imp_right fun settled => settled.recoveryAdvances index)⟩

theorem onTrack_step
    {step : WorkerStep}
    (allowed : worker.Allowed weightedHrwScore step)
    (unexpired : ∀ timer, step ≠ .drainExpires timer) :
    OnTrack weightedHrwScore (worker.step weightedHrwScore step) := by
  cases step with
  | sample sample listing => exact onTrack_sample onTrack allowed
  | fireCallback => exact onTrack_fireCallback onTrack
  | onChange => exact onTrack_onChange onTrack
  | recomputeAndReconcile =>
    exact onTrack_spawn onTrack worker.currentNodes worker.firing
  | receiveOverrides table => exact onTrack_receiveOverrides onTrack allowed
  | computeDesired task => exact onTrack_computeDesired onTrack task
  | computeActions task listing =>
    exact onTrack_computeActions onTrack allowed
  | applyNext task => exact onTrack_applyNext onTrack task
  | drainExpires timer => exact absurd rfl (unexpired timer)
  | recoveryAdvances recovery =>
    exact onTrack_recoveryAdvances onTrack recovery

/-- In a quiet state the active stores are the desired ones. -/
theorem OnTrack.mem_activeStores_iff
    (quiet : worker.Quiet)
    (key : StoreKey) :
    key ∈ worker.reconciler.activeStores ↔
      key ∈ worker.desiredNow weightedHrwScore := by
  obtain ⟨started, returned, idle⟩ := quiet
  have done : ∀ task ∈ worker.tasks, task = .applying [] := by
    intro task isTask
    have isReturned := returned task isTask
    match task with
    | .applying [] => rfl
    | .applying (_ :: _) | .spawned _ | .planned _ => cases isReturned
  have nothing : worker.pendingSteps = [] := by
    refine flatMap_eq_nil_iff.mpr fun task isTask => ?_
    rw [done task isTask]
    rfl
  have settled := onTrack.settles.resolve_left started
  rw [nothing] at settled
  rcases settled with (fires | ⟨task, isTask, uncompared⟩) | settled
  · rw [idle] at fires
    cases fires.1
  · rw [done task isTask] at uncompared
    exact absurd rfl uncompared
  · rw [← settled.serves_iff, Reconciler.activeStores, mem_filter]
    refine and_iff_right_of_imp fun serves => ?_
    obtain ⟨state, present⟩ := Reconciler.exists_state_of_serves serves
    rw [Reconciler.mem_listing_iff (List.Perm.refl _), present]
    rfl

end

/-! ## Whole runs -/

section

variable
  (onTrack : OnTrack weightedHrwScore worker)
  {steps : List WorkerStep}
  (unexpired : ∀ step ∈ steps, ∀ timer, step ≠ .drainExpires timer)

include onTrack unexpired

section

variable
  (allowed :
    GuardedRun (step weightedHrwScore) (Allowed weightedHrwScore) worker
      steps)

include allowed

/-- Runs that are allowed step by step stay on track. -/
theorem onTrack_run :
    OnTrack weightedHrwScore
      (steps.foldl (step weightedHrwScore) worker) := by
  induction steps generalizing worker with
  | nil => exact onTrack
  | cons first rest inductionHypothesis =>
    obtain ⟨now, later⟩ := forall_mem_cons.mp unexpired
    exact inductionHypothesis (onTrack_step onTrack allowed.1 now) later
      allowed.2

/-- The active stores in a quiet state that an allowed run reaches. -/
theorem OnTrack.mem_activeStores_run_iff
    (quiet : (steps.foldl (step weightedHrwScore) worker).Quiet)
    (key : StoreKey) :
    key ∈ (steps.foldl (step weightedHrwScore)
        worker).reconciler.activeStores ↔
      key ∈ computeDesiredAssignment weightedHrwScore worker.selfNode.id
        worker.numPartitions worker.replicationFactor
        (steps.foldl (step weightedHrwScore) worker).currentNodes
        ((steps.filterMap received).foldl overrideWatcher
          worker.overrides) := by
  rw [(onTrack_run onTrack unexpired allowed).mem_activeStores_iff quiet,
    (becomes_run worker steps).desiredNow]

end

end

variable (weightedHrwScore)
  (selfNode : NodeDescriptor)
  (numPartitions replicationFactor : U32)
  (peers : ListedMap String NodeDescriptor)
  (overrides : OverrideTable)

/--
Membership events under fixed overrides: whatever the order and overlap of the
tasks, in every quiet state of an allowed run the active stores are those of
the membership that was reached.
-/
theorem membership_converges
    (steps : List WorkerStep)
    (fixed : ∀ step ∈ steps, ∀ table, step ≠ .receiveOverrides table)
    (unexpired : ∀ step ∈ steps, ∀ timer, step ≠ .drainExpires timer)
    (allowed :
      GuardedRun (step weightedHrwScore) (Allowed weightedHrwScore)
        (new selfNode numPartitions replicationFactor peers overrides)
        steps) :
    let final := steps.foldl (step weightedHrwScore)
      (new selfNode numPartitions replicationFactor peers overrides)
    final.Quiet →
      ∀ key, key ∈ final.reconciler.activeStores ↔
        key ∈ computeDesiredAssignment weightedHrwScore selfNode.id
          numPartitions replicationFactor final.currentNodes overrides := by
  intro final quiet key
  have onTrack := @onTrack_new _ _ weightedHrwScore selfNode numPartitions
    replicationFactor peers overrides
  have nothing : steps.filterMap received = [] := by
    refine filterMap_eq_nil_iff.mpr fun step isStep => ?_
    cases step with
    | receiveOverrides table => exact absurd rfl (fixed _ isStep table)
    | sample _ _ | fireCallback | onChange | recomputeAndReconcile
    | computeDesired _ | computeActions _ _ | applyNext _ | drainExpires _
    | recoveryAdvances _ => rfl
  rw [onTrack.mem_activeStores_run_iff unexpired allowed quiet, nothing]
  rfl

/--
Membership events and override tables: in every quiet state of an allowed run
the active stores are those of the membership that was reached and of the
table that was accepted last.
-/
theorem overrides_take_effect
    (steps : List WorkerStep)
    (unexpired : ∀ step ∈ steps, ∀ timer, step ≠ .drainExpires timer)
    (allowed :
      GuardedRun (step weightedHrwScore) (Allowed weightedHrwScore)
        (new selfNode numPartitions replicationFactor peers overrides)
        steps) :
    let final := steps.foldl (step weightedHrwScore)
      (new selfNode numPartitions replicationFactor peers overrides)
    final.Quiet →
      ∀ key, key ∈ final.reconciler.activeStores ↔
        key ∈ computeDesiredAssignment weightedHrwScore selfNode.id
          numPartitions replicationFactor final.currentNodes
          ((steps.filterMap received).foldl overrideWatcher overrides) := by
  intro final quiet key
  have onTrack := @onTrack_new _ _ weightedHrwScore selfNode numPartitions
    replicationFactor peers overrides
  exact onTrack.mem_activeStores_run_iff unexpired allowed quiet key

end Conditions

/-! ## Runs of one worker -/

/-- A worker with one partition, before its first reconciliation. -/
def alone : TopicWorker :=
  new ⟨"a", 1, fun _ => none⟩ 1 1 .empty .default

/-- The first reconciliation, with the recovery of the store. -/
def reconciles : List WorkerStep :=
  [.recomputeAndReconcile, .computeDesired 0, .computeActions 0 [],
    .applyNext 0, .recoveryAdvances 0, .recoveryAdvances 0]

/-- A node with a better score joins. -/
def better : WorkerStep :=
  .sample (.put "b" ⟨"b", 1, fun _ => none⟩) ["b"]

/-- The task of the callback drains the store. -/
theorem membership_converges_join :
    let final :=
      (reconciles ++ [.onChange, better, .fireCallback, .computeDesired 1,
        .computeActions 1 [(0, 0)], .applyNext 1]).foldl
        (step weightedByCapacity) alone
    (0, 0) ∈ final.reconciler.activeStores ↔
      (0, 0) ∈ computeDesiredAssignment weightedByCapacity "a" 1 1
        final.currentNodes .default :=
  membership_converges weightedByCapacity ⟨"a", 1, fun _ => none⟩ 1 1 .empty
    .default
    (reconciles ++ [.onChange, better, .fireCallback, .computeDesired 1,
      .computeActions 1 [(0, 0)], .applyNext 1])
    (by simp [reconciles, better]) (by simp [reconciles, better])
    (by decide +kernel) (by decide +kernel) (0, 0)

/-- The node joins before the callback is registered, and nobody reacts. -/
theorem join_before_registration :
    let final :=
      (reconciles ++ [better, .fireCallback, .onChange]).foldl
        (step weightedByCapacity) alone
    final.Quiet ∧ final.registered ∧
      (0, 0) ∈ final.reconciler.activeStores ∧
      (0, 0) ∉ final.desiredNow weightedByCapacity := by
  decide +kernel

/-- A table keeps the store when the node joins at the same time. -/
theorem overrides_take_effect_join :
    let table : OverrideTable := ⟨[⟨0, 0, "a", "pin"⟩], 1, none⟩
    let final :=
      (reconciles ++ [.onChange, better, .receiveOverrides (some table),
        .fireCallback, .computeDesired 1,
        .computeActions 1 [(0, 0)]]).foldl (step weightedByCapacity) alone
    (0, 0) ∈ final.reconciler.activeStores ↔
      (0, 0) ∈ computeDesiredAssignment weightedByCapacity "a" 1 1
        final.currentNodes table :=
  overrides_take_effect weightedByCapacity ⟨"a", 1, fun _ => none⟩ 1 1 .empty
    .default
    (reconciles ++ [.onChange, better,
      .receiveOverrides (some ⟨[⟨0, 0, "a", "pin"⟩], 1, none⟩),
      .fireCallback, .computeDesired 1, .computeActions 1 [(0, 0)]])
    (by simp [reconciles, better]) (by decide +kernel) (by decide +kernel)
    (0, 0)

/-- A table that gives the store to another node changes nothing. -/
theorem table_without_reconciliation :
    let table : OverrideTable := ⟨[⟨0, 0, "b", "pin"⟩], 1, none⟩
    let final :=
      (reconciles ++
        [WorkerStep.onChange, .receiveOverrides (some table)]).foldl
        (step weightedByCapacity) alone
    final.Quiet ∧ final.overrides = table ∧
      (0, 0) ∈ final.reconciler.activeStores ∧
      (0, 0) ∉ final.desiredNow weightedByCapacity := by
  decide +kernel

end TopicWorker

end Mitiflow
