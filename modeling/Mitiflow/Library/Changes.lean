import Mathlib.Data.List.Basic
import Mathlib.Tactic.Tauto

namespace Mitiflow.Library

/-!
# Sets kept by applying changes

A set is kept as a list and updated by changes, each naming the elements it
gains and those it loses.  For one element only the last change that names it
counts, so two lists that apply the same changes in different orders agree
exactly where the last changes do.
-/

section Changes

variable {Element : Type} [DecidableEq Element]

/-- What a change does to an element; nothing if it does not name it. -/
def effect (change : List Element × List Element) (element : Element) :
    Option Bool :=
  if element ∈ change.1 then some true
  else if element ∈ change.2 then some false
  else none

/-- What the last change that names an element does to it. -/
def lastEffect :
    List (List Element × List Element) → Element → Option Bool
  | [], _ => none
  | change :: later, element =>
    (lastEffect later element).or (effect change element)

/-- The changes lead from the elements of one list to those of another. -/
def Outcome
    (changes : List (List Element × List Element))
    (before after : List Element) : Prop :=
  ∀ element,
    element ∈ after ↔
      (lastEffect changes element).getD (decide (element ∈ before)) = true

theorem lastEffect_append
    (earlier later : List (List Element × List Element))
    (element : Element) :
    lastEffect (earlier ++ later) element =
      (lastEffect later element).or (lastEffect earlier element) := by
  induction earlier with
  | nil =>
    simp [lastEffect]
  | cons change rest inductionHypothesis =>
    rw [List.cons_append, lastEffect, inductionHypothesis, lastEffect,
      Option.or_assoc]

theorem lastEffect_eq_none_iff
    {changes : List (List Element × List Element)}
    {element : Element} :
    lastEffect changes element = none ↔
      ∀ change ∈ changes, effect change element = none := by
  induction changes with
  | nil =>
    simp [lastEffect]
  | cons change later inductionHypothesis =>
    rw [lastEffect, Option.or_eq_none_iff, inductionHypothesis,
      List.forall_mem_cons, and_comm]

/-- A change loses first and gains then. -/
theorem outcome_singleton_iff
    {change : List Element × List Element}
    {before after : List Element} :
    Outcome [change] before after ↔
      ∀ element,
        element ∈ after ↔
          element ∈ change.1 ∨ element ∈ before ∧ element ∉ change.2 := by
  refine forall_congr' fun element => iff_congr Iff.rfl ?_
  rw [lastEffect, lastEffect, Option.none_or]
  unfold effect
  split
  · rename_i isGained
    simp [isGained]
  · rename_i notGained
    split
    · rename_i isLost
      simp [notGained, isLost]
    · rename_i notLost
      simp [notGained, notLost]

/-- The differences of two lists are a change from one to the other. -/
theorem outcome_difference (before after : List Element) :
    Outcome [(after.filter (· ∉ before), before.filter (· ∉ after))]
      before after := by
  rw [outcome_singleton_iff]
  intro element
  simp only [List.mem_filter, decide_eq_true_eq]
  tauto

namespace Outcome

variable
  {changes changes' : List (List Element × List Element)}
  {before middle after before' after' : List Element}

theorem refl (elements : List Element) : Outcome [] elements elements := by
  intro element
  simp [lastEffect]

theorem trans
    (earlier : Outcome changes before middle)
    (later : Outcome changes' middle after) :
    Outcome (changes ++ changes') before after := by
  intro element
  rw [later element, lastEffect_append]
  cases lastEffect changes' element with
  | some isIn =>
    rfl
  | none =>
    simp only [Option.getD_none, Option.none_or, decide_eq_true_eq]
    exact earlier element

theorem again (outcome : Outcome changes before after) :
    Outcome changes after after := by
  intro element
  cases isEffect : lastEffect changes element with
  | none =>
    simp
  | some isIn =>
    have decided := outcome element
    rw [isEffect] at decided
    exact decided

/--
The same changes in two orders, from two lists: the results agree exactly if
the last changes of every element do, and the lists agree on the others.
-/
theorem agree_iff
    (outcome : Outcome changes before after)
    (outcome' : Outcome changes' before' after')
    (same : changes.Perm changes') :
    (∀ element, element ∈ after ↔ element ∈ after') ↔
      ∀ element,
        lastEffect changes element = lastEffect changes' element ∧
          (lastEffect changes' element = none →
            (element ∈ before ↔ element ∈ before')) := by
  refine forall_congr' fun element => ?_
  rw [outcome element, outcome' element]
  have namedAlike :
      lastEffect changes element = none ↔
        lastEffect changes' element = none := by
    rw [lastEffect_eq_none_iff, lastEffect_eq_none_iff]
    exact forall_congr' fun change => imp_congr_left same.mem_iff
  cases isFirst : lastEffect changes element with
  | none =>
    rw [namedAlike.mp isFirst]
    simp
  | some first =>
    cases isSecond : lastEffect changes' element with
    | none =>
      rw [namedAlike.mpr isSecond] at isFirst
      cases isFirst
    | some second =>
      cases first <;> cases second <;> simp

end Outcome

end Changes

end Mitiflow.Library
