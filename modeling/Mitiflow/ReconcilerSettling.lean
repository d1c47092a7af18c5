import Mitiflow.Reconciler

namespace Mitiflow

open Library List Function

/-!
# Steps that lead to the desired stores

Several calls may have steps left, and recoveries may be under way.  If each
of them works towards the same desired stores, the order in which they are
taken does not matter: when none is left, the desired stores serve.
-/

/-- Two lists name the same stores. -/
def SameStores (first second : List StoreKey) : Prop :=
  (∀ key ∈ first, key ∈ second) ∧ ∀ key ∈ second, key ∈ first

-- The lists are searched; there are too many keys to try them all.
instance SameStores.decidable (first second : List StoreKey) :
    Decidable (SameStores first second) :=
  @instDecidableAnd _ _ (List.decidableBAll _ first)
    (List.decidableBAll _ second)

theorem SameStores.mem_iff
    {first second : List StoreKey}
    (same : SameStores first second)
    (key : StoreKey) :
    key ∈ first ↔ key ∈ second :=
  ⟨same.1 key, same.2 key⟩

/-- A step works towards the desired stores. -/
def ApplyStep.Agrees (desired : List StoreKey) : ApplyStep → Prop
  | .action (.start key) | .markActive key => key ∈ desired
  | .action (.drain key) => key ∉ desired
  | .action (.stop _) => False

instance ApplyStep.Agrees.decidable (desired : List StoreKey) :
    (step : ApplyStep) → Decidable (step.Agrees desired)
  | .action (.start key) => inferInstanceAs (Decidable (key ∈ desired))
  | .action (.drain key) => inferInstanceAs (Decidable (key ∉ desired))
  | .action (.stop _) => inferInstanceAs (Decidable False)
  | .markActive key => inferInstanceAs (Decidable (key ∈ desired))

theorem ApplyStep.agrees_congr
    {first second : List StoreKey}
    (same : SameStores first second)
    (step : ApplyStep) :
    step.Agrees first ↔ step.Agrees second := by
  match step with
  | .action (.start key) | .markActive key => exact same.mem_iff key
  | .action (.drain key) => exact not_congr (same.mem_iff key)
  | .action (.stop _) => exact Iff.rfl

namespace Reconciler

/--
The pending steps and recoveries lead to the desired stores, in whatever order
they are taken.
-/
structure Settled
    (reconciler : Reconciler)
    (pending : List ApplyStep)
    (desired : List StoreKey) : Prop where
  agrees : ∀ step ∈ pending, step.Agrees desired
  recovering :
    ∀ recovery ∈ reconciler.recoveries, recovery.key ∈ desired
  started :
    ∀ key ∈ desired,
      reconciler.serves key ∨ .action (.start key) ∈ pending
  drained :
    ∀ key, key ∉ desired → reconciler.serves key →
      .action (.drain key) ∈ pending

variable
  {reconciler : Reconciler}
  {pending : List ApplyStep}
  {desired : List StoreKey}

theorem Settled.congr
    (settled : Settled reconciler pending desired)
    {others : List StoreKey}
    (same : SameStores desired others) :
    Settled reconciler pending others where
  agrees := fun step isPending =>
    (step.agrees_congr same).mp (settled.agrees step isPending)
  recovering := fun recovery isPending =>
    same.1 recovery.key (settled.recovering recovery isPending)
  started := fun key wanted => settled.started key (same.2 key wanted)
  drained := fun key unwanted =>
    settled.drained key fun wanted => unwanted (same.1 key wanted)

/-- When nothing is left to do, the desired stores serve and no others. -/
theorem Settled.serves_iff
    (settled : Settled reconciler [] desired)
    (key : StoreKey) :
    reconciler.serves key ↔ key ∈ desired := by
  constructor
  · intro serves
    by_contra unwanted
    exact not_mem_nil (settled.drained key unwanted serves)
  · intro wanted
    exact (settled.started key wanted).resolve_right not_mem_nil

variable {step : ApplyStep}

theorem agrees_followUp
    {next : ApplyStep}
    (agrees : next.Agrees desired)
    (follows : step ∈ reconciler.followUp next) :
    step.Agrees desired := by
  match next with
  | .action (.start key) =>
    rw [mem_followUp follows]
    exact agrees
  | .action (.drain _) | .action (.stop _) | .markActive _ => cases follows

theorem mem_recoveries_perform
    {recovery : StoreRecovery}
    (isPending : recovery ∈ (reconciler.perform step).recoveries) :
    recovery ∈ reconciler.recoveries ∨
      step = .action (.start recovery.key) := by
  match step with
  | .action (.start key) =>
    rw [perform, startStore] at isPending
    simp only at isPending
    split at isPending
    · rcases mem_append.mp isPending with before | new
      · exact Or.inl before
      · rw [mem_singleton.mp new]
        exact Or.inr rfl
    · exact Or.inl isPending
  | .action (.drain key) =>
    rw [perform, drainStore] at isPending
    split at isPending <;> exact Or.inl isPending
  | .action (.stop key) =>
    rw [perform, stopStore] at isPending
    split at isPending <;> exact Or.inl isPending
  | .markActive key => exact Or.inl isPending

/-- A step towards the desired stores makes no other store serve. -/
theorem not_serves_perform
    (agrees : step.Agrees desired)
    {key : StoreKey}
    (unwanted : key ∉ desired)
    (idle : ¬ reconciler.serves key ∨ step = .action (.drain key)) :
    ¬ (reconciler.perform step).serves key := by
  rw [serves, stateOf_perform]
  by_cases same : key = step.key
  · subst same
    rw [update_self]
    rcases step with (key | key | key) | key
    · exact absurd agrees unwanted
    · rw [effect]
      cases reconciler.stateOf _ <;> simp [StoreState.serves]
    · exact agrees.elim
    · exact absurd agrees unwanted
  · rw [update_of_ne same]
    refine idle.resolve_right ?_
    rintro rfl
    exact same rfl

theorem Settled.perform
    (settled : Settled reconciler pending desired)
    {next : ApplyStep}
    (isNext : next ∈ pending)
    {later : List ApplyStep}
    (keeps : ∀ step ∈ pending, step = next ∨ step ∈ later)
    (adds : ∀ step ∈ later,
      step ∈ pending ∨ step ∈ reconciler.followUp next) :
    Settled (reconciler.perform next) later desired := by
  have agrees := settled.agrees next isNext
  refine ⟨fun step isLater => ?_, fun recovery isPending => ?_,
    fun key wanted => ?_, fun key unwanted serves => ?_⟩
  · exact (adds step isLater).elim (settled.agrees step)
      (agrees_followUp agrees)
  · rcases mem_recoveries_perform isPending with before | starts
    · exact settled.recovering recovery before
    · rw [starts] at agrees
      exact agrees
  · by_cases isDue : reconciler.serves key ∨ next = .action (.start key)
    · left
      refine serves_perform isDue ?_ ?_
      · rintro rfl
        exact agrees wanted
      · rintro rfl
        exact agrees
    · obtain ⟨notServing, notStarting⟩ := not_or.mp isDue
      have starts := (settled.started key wanted).resolve_left notServing
      exact Or.inr ((keeps _ starts).resolve_left (Ne.symm notStarting))
  · by_cases isIdle : ¬ reconciler.serves key ∨ next = .action (.drain key)
    · exact absurd serves (not_serves_perform agrees unwanted isIdle)
    · obtain ⟨serving, notDraining⟩ := not_or.mp isIdle
      have drains := settled.drained key unwanted (not_not.mp serving)
      exact (keeps _ drains).resolve_left (Ne.symm notDraining)

theorem Settled.recoveryAdvances
    (settled : Settled reconciler pending desired)
    (index : Nat) :
    Settled (reconciler.recoveryAdvances index) pending desired := by
  cases isTask : reconciler.recoveries[index]? with
  | none =>
    rw [Reconciler.recoveryAdvances, isTask]
    exact settled
  | some task =>
    have wantedTask := settled.recovering task (mem_of_getElem? isTask)
    refine ⟨settled.agrees, fun recovery isPending => ?_,
      fun key wanted => ?_, fun key unwanted serves => ?_⟩
    · rw [Reconciler.recoveryAdvances, isTask] at isPending
      simp only at isPending
      split at isPending
      · exact settled.recovering recovery (mem_of_mem_eraseIdx isPending)
      · rcases mem_or_eq_of_mem_set isPending with before | rfl
        · exact settled.recovering recovery before
        · exact wantedTask
    · exact (settled.started key wanted).imp_left fun serves =>
        serves_recoveryAdvances serves index
    · have different : key ≠ task.key := by
        rintro rfl
        exact unwanted wantedTask
      rw [Reconciler.serves, stateOf_recoveryAdvances isTask,
        update_of_ne different] at serves
      exact settled.drained key unwanted serves

/-- The last comparison settles the stores, if nothing works against it. -/
theorem settled_computeActions
    (sound : Sound reconciler)
    {listing : List StoreKey}
    (lists : listing.Perm reconciler.stores.keys)
    (agree : ∀ step ∈ pending, step.Agrees desired)
    (undrained : ∀ key ∈ desired, reconciler.stateOf key ≠ some .draining)
    (recovering :
      ∀ recovery ∈ reconciler.recoveries, recovery.key ∈ desired)
    {later : List ApplyStep}
    (isLater : ∀ step,
      step ∈ later ↔
        step ∈ pending ∨
          step ∈ (reconciler.computeActions listing desired).map .action) :
    Settled reconciler later desired := by
  refine ⟨fun step isStep => ?_, recovering, fun key wanted => ?_,
    fun key unwanted serves => ?_⟩
  · rcases (isLater step).mp isStep with before | new
    · exact agree step before
    · obtain ⟨action, isAction, rfl⟩ := mem_map.mp new
      cases action with
      | start key =>
        exact ((start_mem_computeActions lists (sound.unstopped _)).mp
          isAction).1
      | drain key => exact ((drain_mem_computeActions lists).mp isAction).1
      | stop key => exact stop_not_mem_computeActions isAction
  · by_cases absent : reconciler.stateOf key = none
    · exact Or.inr ((isLater _).mpr (Or.inr (mem_map_of_mem
        ((start_mem_computeActions lists (sound.unstopped _)).mpr
          ⟨wanted, absent⟩))))
    · exact Or.inl ((serves_iff (sound.unstopped key)).mpr
        ⟨absent, undrained key wanted⟩)
  · exact (isLater _).mpr (Or.inr (mem_map_of_mem
      ((drain_mem_computeActions lists).mpr ⟨unwanted, serves⟩)))

end Reconciler

end Mitiflow
