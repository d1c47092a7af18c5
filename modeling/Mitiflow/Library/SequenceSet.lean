import Mathlib

namespace Mitiflow.Library

/-!
# Finite sets of sequence numbers

The abstract content of a durability watermark.  A stream numbered from zero
has been received as a finite set of numbers; what matters about that set is
how far it is contiguous above zero and which numbers are missing below its
maximum.
-/

/-- Every number from one up to `bound` has been seen. -/
def Contiguous (seen : Finset ℕ) (bound : ℕ) : Prop :=
  ∀ number, 1 ≤ number → number ≤ bound → number ∈ seen

/-- A number that has not been seen although a larger one has. -/
def Missing (seen : Finset ℕ) (number : ℕ) : Prop :=
  number ∉ seen ∧ ∃ later ∈ seen, number < later

theorem contiguous_zero (seen : Finset ℕ) : Contiguous seen 0 := by
  intro number positive atMostZero
  omega

namespace Contiguous

variable {seen : Finset ℕ} {bound : ℕ}

section

variable (contiguous : Contiguous seen bound)

include contiguous

theorem mono
    {smaller : ℕ}
    (below : smaller ≤ bound) :
    Contiguous seen smaller :=
  fun number positive atMost => contiguous number positive (atMost.trans below)

theorem mono_set
    {larger : Finset ℕ}
    (grows : seen ⊆ larger) :
    Contiguous larger bound :=
  fun number positive atMost => grows (contiguous number positive atMost)

theorem succ
    (next : bound + 1 ∈ seen) :
    Contiguous seen (bound + 1) := by
  intro number positive atMost
  rcases Nat.lt_or_eq_of_le atMost with below | isNext
  · exact contiguous number positive (by omega)
  · exact isNext ▸ next

theorem le_top
    {top : ℕ}
    (greatest : ∀ number ∈ seen, number ≤ top) :
    bound ≤ top := by
  rcases Nat.eq_zero_or_pos bound with isZero | positive
  · omega
  · exact greatest bound (contiguous bound positive le_rfl)

end

end Contiguous

theorem not_missing_empty (number : ℕ) : ¬ Missing ∅ number := by
  rintro ⟨_, later, laterSeen, _⟩
  simp at laterSeen

/-- Below a known maximum, the missing numbers are the unseen ones. -/
theorem missing_iff_of_isGreatest
    {seen : Finset ℕ}
    {top number : ℕ}
    (greatest : IsGreatest (seen : Set ℕ) top) :
    Missing seen number ↔ number ∉ seen ∧ number < top := by
  constructor
  · rintro ⟨unseen, later, laterSeen, below⟩
    exact ⟨unseen, below.trans_le (greatest.2 laterSeen)⟩
  · rintro ⟨unseen, below⟩
    exact ⟨unseen, top, greatest.1, below⟩

/--
A contiguous bound that cannot be extended within the seen range is the
greatest contiguous bound.
-/
theorem isGreatest_contiguous
    {seen : Finset ℕ}
    {bound top : ℕ}
    (greatest : IsGreatest (seen : Set ℕ) top)
    (contiguous : Contiguous seen bound)
    (stuck : bound < top → Missing seen (bound + 1)) :
    IsGreatest {candidate | candidate ≤ top ∧ Contiguous seen candidate}
      bound := by
  refine ⟨⟨contiguous.le_top greatest.2, contiguous⟩, ?_⟩
  rintro candidate ⟨candidateInRange, candidateContiguous⟩
  by_contra larger
  have nextBelow : bound + 1 ≤ candidate := by omega
  have nextSeen := candidateContiguous (bound + 1) (by omega) nextBelow
  exact (stuck (by omega)).1 nextSeen

/-! ## Numbered attempts -/

/-- Attempts are numbered from zero; these numbers belong to successes. -/
def succeededAt (outcomes : List Bool) : Finset ℕ :=
  (Finset.range outcomes.length).filter
    (fun number => outcomes[number]? = some true)

theorem mem_succeededAt
    {outcomes : List Bool}
    {number : ℕ} :
    number ∈ succeededAt outcomes ↔ outcomes[number]? = some true := by
  rw [succeededAt, Finset.mem_filter, Finset.mem_range]
  constructor
  · exact And.right
  · intro succeeded
    exact ⟨(List.getElem?_eq_some_iff.mp succeeded).1, succeeded⟩

theorem succeededAt_snoc (outcomes : List Bool) (outcome : Bool) :
    succeededAt (outcomes ++ [outcome]) =
      if outcome then
        insert outcomes.length (succeededAt outcomes)
      else
        succeededAt outcomes := by
  ext number
  rw [mem_succeededAt]
  rcases Nat.lt_trichotomy number outcomes.length with
      earlier | isLast | beyond
  · have notLast := Nat.ne_of_lt earlier
    cases outcome with
    | false =>
      simp [mem_succeededAt, List.getElem?_append_left earlier]
    | true =>
      simp [mem_succeededAt, List.getElem?_append_left earlier, notLast]
  · subst isLast
    cases outcome with
    | false =>
      simp [mem_succeededAt]
    | true =>
      simp
  · have notLast := Nat.ne_of_gt beyond
    have unnumbered : outcomes[number]? = none :=
      List.getElem?_eq_none beyond.le
    have stillUnnumbered : (outcomes ++ [outcome])[number]? = none :=
      List.getElem?_eq_none (by simpa using beyond)
    cases outcome with
    | false =>
      simp [mem_succeededAt, unnumbered, stillUnnumbered]
    | true =>
      simp [mem_succeededAt, unnumbered, stillUnnumbered, notLast]

/-- The next number extends a contiguous range if only the first failed. -/
theorem contiguous_insert_length_iff (outcomes : List Bool) :
    Contiguous (insert outcomes.length (succeededAt outcomes))
        outcomes.length ↔
      ∀ number, 1 ≤ number → number < outcomes.length →
        outcomes[number]? = some true := by
  constructor
  · intro contiguous number positive inRange
    have member := contiguous number positive inRange.le
    rw [Finset.mem_insert, mem_succeededAt] at member
    exact member.resolve_left (Nat.ne_of_lt inRange)
  · intro succeeded number positive atMost
    rw [Finset.mem_insert, mem_succeededAt]
    rcases Nat.lt_or_eq_of_le atMost with inRange | isNext
    · exact Or.inr (succeeded number positive inRange)
    · exact Or.inl isNext

/-- If every attempt after the first succeeded, so did all of the tail. -/
theorem forall_mem_tail_of_getElem?
    {first : Bool}
    {rest : List Bool}
    (succeeded :
      ∀ number, 1 ≤ number → number < (first :: rest).length →
        (first :: rest)[number]? = some true) :
    ∀ outcome ∈ rest, outcome = true := by
  intro outcome member
  obtain ⟨index, inRange, atIndex⟩ := List.getElem_of_mem member
  have found :=
    succeeded (index + 1) (Nat.le_add_left 1 index) (by simpa using inRange)
  rw [List.getElem?_cons_succ,
    List.getElem?_eq_getElem inRange, atIndex] at found
  exact Option.some.inj found

/--
Successes are an initial segment and the next number would extend a
contiguous range exactly when no attempt failed, apart from a failure that is
the only attempt.
-/
theorem initial_and_extendable_iff (outcomes : List Bool) :
    ((∀ number ∈ succeededAt outcomes, ∀ smaller < number,
        smaller ∈ succeededAt outcomes) ∧
      Contiguous (insert outcomes.length (succeededAt outcomes))
        outcomes.length) ↔
      (∀ outcome ∈ outcomes, outcome = true) ∨ outcomes = [false] := by
  rw [contiguous_insert_length_iff]
  constructor
  · rintro ⟨initial, succeeded⟩
    cases outcomes with
    | nil =>
      exact Or.inl (by simp)
    | cons first rest =>
      have restSucceeded := forall_mem_tail_of_getElem? succeeded
      cases first with
      | true =>
        refine Or.inl ?_
        intro outcome member
        rcases List.mem_cons.mp member with isFirst | inRest
        · exact isFirst
        · exact restSucceeded outcome inRest
      | false =>
        cases rest with
        | nil =>
          exact Or.inr rfl
        | cons second others =>
          have secondSucceeded : second = true := restSucceeded second (by simp)
          have zeroSucceeded :=
            initial 1 (by simp [mem_succeededAt, secondSucceeded]) 0 (by omega)
          simp [mem_succeededAt] at zeroSucceeded
  · rintro (allSucceeded | isFailure)
    · have everyNumber :
          ∀ number < outcomes.length, outcomes[number]? = some true := by
        intro number inRange
        rw [List.getElem?_eq_getElem inRange,
          allSucceeded _ (List.getElem_mem inRange)]
      refine ⟨?_, fun number _ => everyNumber number⟩
      intro number member smaller below
      have inRange :=
        (List.getElem?_eq_some_iff.mp (mem_succeededAt.mp member)).1
      exact mem_succeededAt.mpr (everyNumber smaller (below.trans inRange))
    · subst isFailure
      refine ⟨?_, ?_⟩
      · intro number member smaller below
        have inRange :=
          (List.getElem?_eq_some_iff.mp (mem_succeededAt.mp member)).1
        have isZero : number = 0 := Nat.lt_one_iff.mp inRange
        omega
      · intro number positive inRange
        have isZero : number = 0 := Nat.lt_one_iff.mp inRange
        omega

end Mitiflow.Library
