import Mathlib.Data.List.Basic

namespace Mitiflow.Library

open List

/-!
# Runs under a condition on every step

A system takes actions from a state; some actions are allowed in a state and
others are not.  A run is guarded when each of its actions is allowed in the
state it is taken in, and a property that allowed actions keep holds in every
state a guarded run reaches.
-/

section GuardedRun

variable {State Action : Type}
  (step : State → Action → State)
  (Allowed : State → Action → Prop)

/-- Every action of a run is allowed in the state it is taken in. -/
def GuardedRun : State → List Action → Prop
  | _, [] => True
  | state, action :: rest =>
    Allowed state action ∧ GuardedRun (step state action) rest

instance GuardedRun.decidable
    [∀ state action, Decidable (Allowed state action)] :
    (state : State) → (actions : List Action) →
      Decidable (GuardedRun step Allowed state actions)
  | _, [] => inferInstanceAs (Decidable True)
  | state, action :: rest =>
    @instDecidableAnd _ _ inferInstance
      (GuardedRun.decidable (step state action) rest)

variable {step Allowed}

namespace GuardedRun

/-- What allowed actions keep holds after a guarded run. -/
theorem invariant
    (Holds : State → Prop)
    (kept :
      ∀ state action,
        Holds state → Allowed state action → Holds (step state action))
    {state : State}
    (initially : Holds state)
    {actions : List Action}
    (guarded : GuardedRun step Allowed state actions) :
    Holds (actions.foldl step state) := by
  induction actions generalizing state with
  | nil =>
    exact initially
  | cons action rest inductionHypothesis =>
    exact inductionHypothesis (kept state action initially guarded.1) guarded.2

theorem append_iff
    {state : State}
    {first second : List Action} :
    GuardedRun step Allowed state (first ++ second) ↔
      GuardedRun step Allowed state first ∧
        GuardedRun step Allowed (first.foldl step state) second := by
  induction first generalizing state with
  | nil =>
    simp [GuardedRun]
  | cons action rest inductionHypothesis =>
    simp only [cons_append, GuardedRun, inductionHypothesis,
      foldl_cons, and_assoc]

/-- A run is guarded when each action is allowed after those before it. -/
theorem iff_forall_split
    {state : State}
    {actions : List Action} :
    GuardedRun step Allowed state actions ↔
      ∀ earlier action later,
        actions = earlier ++ action :: later →
          Allowed (earlier.foldl step state) action := by
  constructor
  · intro guarded earlier action later shape
    subst shape
    exact (append_iff.mp guarded).2.1
  · intro allowed
    induction actions generalizing state with
    | nil =>
      trivial
    | cons action rest inductionHypothesis =>
      refine ⟨allowed [] action rest rfl, inductionHypothesis ?_⟩
      intro earlier next later shape
      exact allowed (action :: earlier) next later (by rw [shape]; rfl)

/--
If the allowed actions are exactly those that keep a property, the guarded
runs are exactly those in which it holds throughout.
-/
theorem iff_throughout
    (Holds : State → Prop)
    (characterises :
      ∀ state action,
        Holds state → (Holds (step state action) ↔ Allowed state action))
    {state : State}
    (initially : Holds state)
    (actions : List Action) :
    GuardedRun step Allowed state actions ↔
      ∀ earlier, earlier <+: actions → Holds (earlier.foldl step state) := by
  constructor
  · rintro guarded earlier ⟨later, isActions⟩
    subst isActions
    refine invariant Holds
      (fun before action holds => (characterises before action holds).mpr)
      initially ?_
    exact (append_iff.mp guarded).1
  · intro throughout
    induction actions generalizing state with
    | nil =>
      trivial
    | cons action rest inductionHypothesis =>
      have next : Holds (step state action) := throughout [action] ⟨rest, rfl⟩
      refine ⟨(characterises state action initially).mp next,
        inductionHypothesis next ?_⟩
      rintro earlier ⟨later, isRest⟩
      exact throughout (action :: earlier)
        ⟨later, by rw [← isRest, cons_append]⟩

/-- The same for a property of the actions taken so far. -/
theorem history_iff
    {Allowed : List Action → Action → Prop}
    (Holds : List Action → Prop)
    (characterises :
      ∀ earlier action,
        Holds earlier → (Holds (earlier ++ [action]) ↔ Allowed earlier action))
    (initially : Holds [])
    (actions : List Action) :
    (∀ earlier, earlier <+: actions → Holds earlier) ↔
      ∀ earlier action later,
        actions = earlier ++ action :: later → Allowed earlier action := by
  let extend (earlier : List Action) (action : Action) := earlier ++ [action]
  have extended (start earlier : List Action) :
      earlier.foldl extend start = start ++ earlier := by
    induction earlier generalizing start with
    | nil =>
      rw [foldl_nil, append_nil]
    | cons action rest inductionHypothesis =>
      rw [foldl_cons, inductionHypothesis, append_assoc,
        singleton_append]
  have throughout :=
    @iff_throughout _ _ extend Allowed Holds characterises [] initially actions
  have split := @iff_forall_split _ _ extend Allowed [] actions
  simp only [extended, nil_append] at throughout split
  exact throughout.symm.trans split

end GuardedRun

end GuardedRun

/-! ## Runs seen as those of another system -/

section Simulation

variable {State Action AbstractState Move : Type}
  (step : State → Action → State)
  (abstractStep : AbstractState → Move → AbstractState)
  (view : State → AbstractState)
  (moveOf : State → Action → Move)

/-- The moves that a run makes of another system. -/
def movesOf : State → List Action → List Move
  | _, [] => []
  | state, action :: rest =>
    moveOf state action :: movesOf (step state action) rest

/-- Every action is a move of the other system, while an invariant holds. -/
structure Simulates (Holds : State → Prop) : Prop where
  kept : ∀ state action, Holds state → Holds (step state action)
  follows :
    ∀ state action, Holds state →
      view (step state action) =
        abstractStep (view state) (moveOf state action)

variable {step abstractStep view moveOf} {Holds : State → Prop}

namespace Simulates

section

variable (simulates : Simulates step abstractStep view moveOf Holds)

include simulates

theorem run
    {state : State}
    (initially : Holds state)
    (actions : List Action) :
    Holds (actions.foldl step state) ∧
      view (actions.foldl step state) =
        (movesOf step moveOf state actions).foldl abstractStep
          (view state) := by
  induction actions generalizing state with
  | nil =>
    exact ⟨initially, rfl⟩
  | cons action rest inductionHypothesis =>
    have next := inductionHypothesis (simulates.kept state action initially)
    rw [simulates.follows state action initially] at next
    exact next

/-- Conditions that agree step by step agree over runs. -/
theorem guardedRun_iff
    {Allowed : State → Action → Prop}
    {AbstractAllowed : AbstractState → Move → Prop}
    (agree :
      ∀ state action, Holds state →
        (AbstractAllowed (view state) (moveOf state action) ↔
          Allowed state action))
    {state : State}
    (initially : Holds state)
    (actions : List Action) :
    GuardedRun abstractStep AbstractAllowed (view state)
        (movesOf step moveOf state actions) ↔
      GuardedRun step Allowed state actions := by
  induction actions generalizing state with
  | nil =>
    exact Iff.rfl
  | cons action rest inductionHypothesis =>
    have next := inductionHypothesis (simulates.kept state action initially)
    rw [simulates.follows state action initially] at next
    exact and_congr (agree state action initially) next

/-- So does a condition that every move meets. -/
theorem guardedRun
    {AbstractAllowed : AbstractState → Move → Prop}
    (always :
      ∀ state action, Holds state →
        AbstractAllowed (view state) (moveOf state action))
    {state : State}
    (initially : Holds state)
    (actions : List Action) :
    GuardedRun abstractStep AbstractAllowed (view state)
      (movesOf step moveOf state actions) := by
  induction actions generalizing state with
  | nil =>
    trivial
  | cons action rest inductionHypothesis =>
    have next := inductionHypothesis (simulates.kept state action initially)
    rw [simulates.follows state action initially] at next
    exact ⟨always state action initially, next⟩

end

end Simulates

end Simulation

end Mitiflow.Library
