import Mitiflow.Reconciler

namespace Mitiflow

open Library List

/-!
# Runs of a reconciler

Calls of `reconcile` follow one another, while timers and recoveries of
earlier calls act at any time.  A store that is desired again while its drain
timer runs is neither revived nor kept: the timer removes it later, and
nothing but another call brings it back.
-/

/-- A reconciler and what is left to do in the call under way. -/
structure ReconcilerRun where
  reconciler : Reconciler
  pending : List ApplyStep

/-- What may happen next. -/
inductive ReconcilerStep where
  /-- A call with the keys of the map as it lists them. -/
  | reconcile (desired listing : List StoreKey)
  | applyNext
  | drainExpires (index : Nat)
  | recoveryAdvances (index : Nat)
  deriving Repr, DecidableEq

namespace ReconcilerStep

/-- No new call begins. -/
def Continues : ReconcilerStep → Prop
  | .reconcile _ _ => False
  | _ => True

/-- A new call wants a store. -/
def Wants (key : StoreKey) : ReconcilerStep → Prop
  | .reconcile desired _ => key ∈ desired
  | _ => True

end ReconcilerStep

namespace ReconcilerRun

/-- Nothing has been called. -/
def new (recovery : Bool) : ReconcilerRun :=
  ⟨.new recovery, []⟩

/-- One step; a call begins only when the one before it has returned. -/
def step (run : ReconcilerRun) : ReconcilerStep → ReconcilerRun
  | .reconcile desired listing =>
    if run.pending = [] ∧
        listing.Perm run.reconciler.stores.keys then
      { run with
        pending := (run.reconciler.computeActions listing desired).map
          .action }
    else
      run
  | .applyNext =>
    match run.pending with
    | [] => run
    | next :: rest =>
      ⟨run.reconciler.perform next,
        run.reconciler.followUp next ++ rest⟩
  | .drainExpires index =>
    { run with reconciler := run.reconciler.drainExpires index }
  | .recoveryAdvances index =>
    { run with reconciler := run.reconciler.recoveryAdvances index }

def steps (run : ReconcilerRun) (actions : List ReconcilerStep) :
    ReconcilerRun :=
  actions.foldl step run

/--
A store serves from the return of a call on, as long as later calls want it.
-/
def KeepsServing
    (run : ReconcilerRun)
    (desired listing : List StoreKey)
    (key : StoreKey) : Prop :=
  ∀ during later : List ReconcilerStep,
    (∀ action ∈ during, action.Continues) →
    ((run.step (.reconcile desired listing)).steps during).pending = [] →
    (∀ action ∈ later, action.Wants key) →
      (((run.step (.reconcile desired listing)).steps
        during).steps later).reconciler.serves key

theorem steps_append
    (run : ReconcilerRun)
    (first second : List ReconcilerStep) :
    run.steps (first ++ second) = (run.steps first).steps second :=
  foldl_append

theorem step_applyNext_nil
    {run : ReconcilerRun}
    (returned : run.pending = []) :
    run.step .applyNext = run := by
  rw [step, returned]

theorem step_applyNext_cons
    {run : ReconcilerRun}
    {next : ApplyStep}
    {rest : List ApplyStep}
    (isPending : run.pending = next :: rest) :
    run.step .applyNext =
      ⟨run.reconciler.perform next,
        run.reconciler.followUp next ++ rest⟩ := by
  rw [step, isPending]

/-! ## What holds in every run -/

/-- The reconciler is sound, and no call stops a store. -/
structure Sound (run : ReconcilerRun) : Prop where
  reconciler : run.reconciler.Sound
  goesOn : ∀ key, ApplyStep.action (.stop key) ∉ run.pending

theorem sound_step
    {run : ReconcilerRun}
    (sound : Sound run)
    (action : ReconcilerStep) :
    Sound (run.step action) := by
  cases action with
  | reconcile desired listing =>
    rw [step]
    split
    · grind [Reconciler.computeActions, Sound]
    · exact sound
  | applyNext =>
    cases isPending : run.pending with
    | nil => rwa [step_applyNext_nil isPending]
    | cons next rest =>
      rw [step_applyNext_cons isPending]
      have goesOn := sound.goesOn
      simp only [isPending, mem_cons, not_or] at goesOn
      refine ⟨Reconciler.sound_perform sound.reconciler
        fun key isStop => (goesOn key).1 isStop.symm,
        fun key pending => ?_⟩
      rcases mem_append.mp pending with follows | later
      · cases Reconciler.mem_followUp follows
      · exact (goesOn key).2 later
  | drainExpires index =>
    exact ⟨Reconciler.sound_drainExpires sound.reconciler index, sound.goesOn⟩
  | recoveryAdvances index =>
    exact ⟨Reconciler.sound_recoveryAdvances sound.reconciler index,
      sound.goesOn⟩

theorem sound_steps
    {run : ReconcilerRun}
    (sound : Sound run)
    (actions : List ReconcilerStep) :
    Sound (run.steps actions) :=
  actions.foldlRecOn step sound fun _ before action _ =>
    sound_step before action

theorem sound_new (recovery : Bool) : Sound (new recovery) :=
  ⟨Reconciler.sound_new recovery, fun _ => not_mem_nil⟩

/-! ## A store without a timer -/

/-- Nothing is on its way that would drain or remove a store. -/
structure Untouched (run : ReconcilerRun) (key : StoreKey) : Prop where
  sound : Sound run
  untimed : ∀ timer ∈ run.reconciler.timers, timer.key ≠ key
  undrained : ApplyStep.action (.drain key) ∉ run.pending

/-- A store serves, or will be started. -/
def Due (run : ReconcilerRun) (key : StoreKey) : Prop :=
  run.reconciler.serves key ∨ .action (.start key) ∈ run.pending

variable {run : ReconcilerRun} {key : StoreKey}

section

variable (untouched : Untouched run key)

include untouched

theorem untouched_step
    {action : ReconcilerStep}
    (wants : action.Wants key) :
    Untouched (run.step action) key := by
  have sound := sound_step untouched.sound action
  cases action with
  | reconcile desired listing =>
    refine ⟨sound, ?_, ?_⟩
    · rw [step]
      split <;> exact untouched.untimed
    · rw [step]
      split
      · grind [Reconciler.computeActions, ReconcilerStep.Wants]
      · exact untouched.undrained
  | applyNext =>
    cases isPending : run.pending with
    | nil => rwa [step_applyNext_nil isPending]
    | cons next rest =>
      rw [step_applyNext_cons isPending] at sound ⊢
      have undrained := untouched.undrained
      rw [isPending, mem_cons, not_or] at undrained
      refine ⟨sound, fun timer pending isKey => ?_, fun pending => ?_⟩
      · grind [Reconciler.mem_timers_perform, untouched.untimed]
      · rcases mem_append.mp pending with follows | later
        · cases Reconciler.mem_followUp follows
        · exact undrained.2 later
  | drainExpires index =>
    refine ⟨sound, fun timer pending => ?_, untouched.undrained⟩
    refine untouched.untimed timer ?_
    rw [step, Reconciler.drainExpires] at pending
    split at pending
    · exact pending
    · exact mem_of_mem_eraseIdx pending
  | recoveryAdvances index =>
    refine ⟨sound, fun timer pending => ?_, untouched.undrained⟩
    rw [step, Reconciler.timers_recoveryAdvances] at pending
    exact untouched.untimed timer pending

theorem serves_step
    (serves : run.reconciler.serves key)
    (action : ReconcilerStep) :
    (run.step action).reconciler.serves key := by
  cases action with
  | reconcile desired listing =>
    rw [step]
    split <;> exact serves
  | applyNext =>
    cases isPending : run.pending with
    | nil => rwa [step_applyNext_nil isPending]
    | cons next rest =>
      have undrained := untouched.undrained
      have goesOn := untouched.sound.goesOn key
      rw [isPending, mem_cons, not_or] at undrained goesOn
      rw [step_applyNext_cons isPending]
      exact Reconciler.serves_perform (Or.inl serves)
        (Ne.symm undrained.1) (Ne.symm goesOn.1)
  | drainExpires index =>
    rw [step]
    cases pending : run.reconciler.timers[index]? with
    | none => rwa [Reconciler.drainExpires, pending]
    | some timer =>
      have different : key ≠ timer.key :=
        (untouched.untimed timer (mem_of_getElem? pending)).symm
      rwa [Reconciler.serves, Reconciler.stateOf_drainExpires pending,
        Function.update_of_ne different]
  | recoveryAdvances index =>
    exact Reconciler.serves_recoveryAdvances serves index

/-- A store that is to be started is started, or still to be started. -/
theorem due_step
    (due : Due run key)
    (action : ReconcilerStep) :
    Due (run.step action) key := by
  rcases due with serves | starts
  · exact Or.inl (serves_step untouched serves action)
  · cases action with
    | reconcile desired listing =>
      rw [step]
      split
      · next begins =>
          rw [begins.1] at starts
          cases starts
      · exact Or.inr starts
    | applyNext =>
      cases isPending : run.pending with
      | nil =>
        rw [isPending] at starts
        cases starts
      | cons next rest =>
        rw [step_applyNext_cons isPending]
        rw [isPending] at starts
        rcases mem_cons.mp starts with rfl | later
        · exact Or.inl (Reconciler.serves_perform (Or.inr rfl) nofun nofun)
        · exact Or.inr (mem_append_right _ later)
    | drainExpires index => exact Or.inr starts
    | recoveryAdvances index => exact Or.inr starts

/-- What is due and untouched stays so while later calls want it. -/
theorem due_steps
    (due : Due run key)
    {actions : List ReconcilerStep}
    (wanted : ∀ action ∈ actions, action.Wants key) :
    Untouched (run.steps actions) key ∧ Due (run.steps actions) key :=
  actions.foldlRecOn step
    (motive := fun run => Untouched run key ∧ Due run key)
    ⟨untouched, due⟩ fun _ before action isAction =>
      ⟨untouched_step before.1 (wanted action isAction),
        due_step before.1 before.2 action⟩

theorem serves_steps
    (serves : run.reconciler.serves key)
    {actions : List ReconcilerStep}
    (wanted : ∀ action ∈ actions, action.Wants key) :
    (run.steps actions).reconciler.serves key :=
  (actions.foldlRecOn step
    (motive := fun run => Untouched run key ∧ run.reconciler.serves key)
    ⟨untouched, serves⟩ fun _ before action isAction =>
      ⟨untouched_step before.1 (wanted action isAction),
        serves_step before.1 before.2 action⟩).2

end

/-- A call makes a store due that nothing is about to drain or remove. -/
theorem due_reconcile
    (sound : Sound run)
    (idle : run.pending = [])
    {desired listing : List StoreKey}
    (lists : listing.Perm run.reconciler.stores.keys)
    (wants : key ∈ desired)
    (untimed : ∀ timer ∈ run.reconciler.timers, timer.key ≠ key) :
    Untouched (run.step (.reconcile desired listing)) key ∧
      Due (run.step (.reconcile desired listing)) key := by
  have untouched : Untouched run key := ⟨sound, untimed, by simp [idle]⟩
  refine ⟨untouched_step untouched wants, ?_⟩
  rw [step, if_pos ⟨idle, lists⟩]
  have undrained : run.reconciler.stateOf key ≠ some .draining := by
    intro draining
    obtain ⟨timer, pending, isKey⟩ := sound.reconciler.timed key draining
    exact untimed timer pending isKey
  by_cases absent : run.reconciler.stateOf key = none
  · exact Or.inr (mem_map_of_mem
      ((Reconciler.start_mem_computeActions lists
        (sound.reconciler.unstopped _)).mpr ⟨wants, absent⟩))
  · exact Or.inl ((Reconciler.serves_iff
      (sound.reconciler.unstopped key)).mpr ⟨absent, undrained⟩)

/-- A call takes its next action, and no timer is lost by it. -/
theorem exists_next
    (reconciler : Reconciler)
    {next : ApplyStep}
    (goesOn : ∀ key, next ≠ .action (.stop key))
    (rest : List ApplyStep) :
    ∃ actions after,
      (∀ action ∈ actions, action.Continues) ∧
      steps ⟨reconciler, next :: rest⟩ actions = ⟨after, rest⟩ ∧
      reconciler.timers <+: after.timers := by
  have keeps := reconciler.timers_prefix_perform goesOn
  rcases reconciler.followUp_cases next with follows | follows
  · refine ⟨[.applyNext], reconciler.perform next, ?_, ?_, keeps⟩
    · simp [ReconcilerStep.Continues]
    · rw [steps, foldl_cons, step_applyNext_cons rfl, follows]
      rfl
  · refine ⟨[.applyNext, .applyNext],
      (reconciler.perform next).perform (.markActive next.key), ?_, ?_,
      keeps⟩
    · simp [ReconcilerStep.Continues]
    · rw [steps, foldl_cons, step_applyNext_cons rfl, follows]
      rfl

/-- A call returns, and every timer may still be running then. -/
theorem exists_return
    (goesOn : ∀ key, ApplyStep.action (.stop key) ∉ run.pending) :
    ∃ actions : List ReconcilerStep,
      (∀ action ∈ actions, action.Continues) ∧
      (run.steps actions).pending = [] ∧
      run.reconciler.timers <+: (run.steps actions).reconciler.timers := by
  obtain ⟨reconciler, pending⟩ := run
  induction pending generalizing reconciler with
  | nil =>
    exact ⟨[], by simp, rfl, prefix_rfl⟩
  | cons next rest inductionHypothesis =>
    simp only [mem_cons, not_or] at goesOn
    obtain ⟨first, after, firstContinues, leads, keeps⟩ :=
      exists_next reconciler (fun key isStop => (goesOn key).1 isStop.symm) rest
    obtain ⟨second, secondContinues, returned, timers⟩ :=
      inductionHypothesis after (fun key => (goesOn key).2)
    refine ⟨first ++ second, ?_, ?_⟩
    · intro action isAction
      exact (mem_append.mp isAction).elim (firstContinues action)
        (secondContinues action)
    · rw [steps_append, leads]
      exact ⟨returned, keeps.trans timers⟩

/-- A timer that runs when a call begins removes its store after the call. -/
theorem not_keepsServing
    (sound : Sound run)
    {desired listing : List StoreKey}
    {timer : DrainTimer}
    (pending : timer ∈ run.reconciler.timers) :
    ¬ KeepsServing run desired listing timer.key := by
  intro keeps
  have begun := sound_step sound (.reconcile desired listing)
  have same : (run.step (.reconcile desired listing)).reconciler =
      run.reconciler := by
    rw [step]
    split <;> rfl
  obtain ⟨during, continues, returned, added, timers⟩ :=
    exists_return begun.goesOn
  obtain ⟨index, isIndex⟩ := mem_iff_getElem?.mp pending
  rw [← same] at isIndex
  obtain ⟨inRange, -⟩ := List.getElem?_eq_some_iff.mp isIndex
  rw [← List.getElem?_append_left inRange, timers] at isIndex
  have served := keeps during [.drainExpires index] continues returned
    (by simp [ReconcilerStep.Wants])
  generalize (run.step (.reconcile desired listing)).steps during = after
    at served isIndex
  rw [steps, foldl_cons, foldl_nil, step, Reconciler.serves,
    Reconciler.stateOf_drainExpires isIndex,
    Function.update_self] at served
  cases served

/--
After any run, a call of `reconcile` makes the stores it wants serve, and they
serve as long as later calls want them, exactly when no drain timer of one of
them is running when the call begins.
-/
theorem desired_stores_serve_iff
    (recovery : Bool)
    (actions : List ReconcilerStep)
    (desired listing : List StoreKey)
    (idle : ((new recovery).steps actions).pending = [])
    (lists :
      listing.Perm ((new recovery).steps actions).reconciler.stores.keys) :
    (∀ key ∈ desired,
      KeepsServing ((new recovery).steps actions) desired listing key) ↔
    ∀ key ∈ desired,
      ∀ timer ∈ ((new recovery).steps actions).reconciler.timers,
        timer.key ≠ key := by
  have sound := sound_steps (sound_new recovery) actions
  constructor
  · rintro keeps key wants timer pending rfl
    exact not_keepsServing sound pending (keeps timer.key wants)
  · intro untimed key wants during later continues returned wanted
    obtain ⟨untouched, due⟩ :=
      due_reconcile sound idle lists wants (untimed key wants)
    have continuing : ∀ action ∈ during, action.Wants key := by
      intro action isAction
      have isStep := continues action isAction
      cases action with
      | reconcile _ _ => exact isStep.elim
      | applyNext | drainExpires _ | recoveryAdvances _ => trivial
    obtain ⟨stillUntouched, stillDue⟩ := due_steps untouched due continuing
    have serves := stillDue.resolve_right (by simp [returned])
    exact serves_steps stillUntouched serves wanted

/-- A store that is still recovering is wanted again, with another one. -/
theorem desired_stores_serve_growing :
    let run := (new true).steps
      [.reconcile [(0, 0)] [], .applyNext, .recoveryAdvances 0]
    run.KeepsServing [(0, 0), (1, 0)] [(0, 0)] (0, 0) ∧
      run.KeepsServing [(0, 0), (1, 0)] [(0, 0)] (1, 0) := by
  have serves := (desired_stores_serve_iff true
    [.reconcile [(0, 0)] [], .applyNext, .recoveryAdvances 0]
    [(0, 0), (1, 0)] [(0, 0)] (by decide) (by decide)).mpr
      fun _ _ _ pending => (not_mem_nil pending).elim
  exact ⟨serves (0, 0) (by decide), serves (1, 0) (by decide)⟩

/--
A store is started, drained and wanted again within the grace period.  The
last call does nothing, the store stays in draining, and the timer removes it.
-/
theorem wanted_store_removed :
    let run := (new false).steps
      [.reconcile [(0, 0)] [], .applyNext, .applyNext,
        .reconcile [] [(0, 0)], .applyNext, .reconcile [(0, 0)] [(0, 0)]]
    run.pending = [] ∧
      run.reconciler.stateOf (0, 0) = some .draining ∧
      (run.step (.drainExpires 0)).reconciler.stateOf (0, 0) = none := by
  decide

end ReconcilerRun

end Mitiflow
