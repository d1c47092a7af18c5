import Mathlib.Data.List.Basic

namespace Mitiflow.Library

/-!
# Schedules of a system with disabled steps

A system takes actions that may be disabled in a state.  A schedule is a list
of actions that are enabled one after the other, and a state is reachable if a
schedule leads to it.  If every step lowers a measure, some schedule leads to
a state in which nothing is enabled.
-/

section Schedules

variable {State Action : Type} (step? : State → Action → Option State)

/-- Follow a schedule, refusing it at the first disabled action. -/
def follow? : List Action → State → Option State
  | [], state => some state
  | action :: rest, state => (step? state action).bind (follow? rest)

/-- Some schedule leads from one state to another. -/
def Reachable (start final : State) : Prop :=
  ∃ schedule, follow? step? schedule start = some final

/-- Nothing is enabled. -/
def Quiet (state : State) : Prop :=
  ∀ action, step? state action = none

variable {step?}

namespace Reachable

theorem refl (state : State) : Reachable step? state state :=
  ⟨[], rfl⟩

variable {start final : State}

theorem head
    {next : State}
    {action : Action}
    (steps : step? start action = some next)
    (later : Reachable step? next final) :
    Reachable step? start final := by
  obtain ⟨schedule, follows⟩ := later
  refine ⟨action :: schedule, ?_⟩
  rw [follow?, steps]
  exact follows

/-- What every step keeps holds in every reachable state. -/
theorem invariant
    (Holds : State → Prop)
    (kept :
      ∀ state action next,
        Holds state → step? state action = some next → Holds next)
    (initially : Holds start)
    (reachable : Reachable step? start final) :
    Holds final := by
  obtain ⟨schedule, follows⟩ := reachable
  induction schedule generalizing start with
  | nil =>
    cases follows
    exact initially
  | cons action rest inductionHypothesis =>
    obtain ⟨next, steps, later⟩ := Option.bind_eq_some_iff.mp follows
    exact inductionHypothesis (kept start action next initially steps) later

theorem trans
    {middle : State}
    (first : Reachable step? start middle)
    (second : Reachable step? middle final) :
    Reachable step? start final := by
  obtain ⟨schedule, follows⟩ := first
  induction schedule generalizing start with
  | nil =>
    cases follows
    exact second
  | cons action rest inductionHypothesis =>
    obtain ⟨next, steps, later⟩ := Option.bind_eq_some_iff.mp follows
    exact head steps (inductionHypothesis later)

theorem tail
    {state next : State}
    (reachable : Reachable step? start state)
    {action : Action}
    (steps : step? state action = some next) :
    Reachable step? start next :=
  reachable.trans (head steps (refl next))

end Reachable

/-- When every step lowers a measure, a quiet state can be reached. -/
theorem exists_quiet
    {measure : State → Nat}
    (decreases :
      ∀ state action next,
        step? state action = some next → measure next < measure state)
    (start : State) :
    ∃ final, Reachable step? start final ∧ Quiet step? final := by
  induction bound : measure start using Nat.strongRecOn generalizing start with
  | _ size inductionHypothesis =>
    by_cases quiet : Quiet step? start
    · exact ⟨start, Reachable.refl start, quiet⟩
    · obtain ⟨action, enabled⟩ := not_forall.mp quiet
      obtain ⟨next, steps⟩ := Option.ne_none_iff_exists'.mp enabled
      obtain ⟨final, reachable, isQuiet⟩ :=
        inductionHypothesis (measure next)
          (bound ▸ decreases start action next steps) next rfl
      exact ⟨final, Reachable.head steps reachable, isQuiet⟩

end Schedules

end Mitiflow.Library
