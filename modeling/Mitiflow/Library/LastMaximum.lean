import Mathlib

namespace Mitiflow.Library

open List

/-!
# The last maximum of a list

A scan keeps the best item so far and gives way to a later one that scores at
least as high, so of several best items the last one wins.  The winner is the
item that scores at least as high as all before it and higher than all after
it.  Taking another item out of the list does not change the winner, and
putting one in can only make the new item win.
-/

section LastMaximum

variable {Item Score : Type} [LinearOrder Score]

/-- The best of a scan so far and the next item. -/
def laterOfBest (score : Item → Score) (best : Option Item) (item : Item) :
    Option Item :=
  match best with
  | none => some item
  | some leader =>
    if score leader ≤ score item then some item else some leader

/-- The item with the highest score; the last of several wins. -/
def lastMaximum (score : Item → Score) (items : List Item) : Option Item :=
  items.foldl (laterOfBest score) none

/-- An item that no earlier one beats and no later one reaches. -/
def LeadsAt
    (score : Item → Score)
    (before : List Item)
    (item : Item)
    (after : List Item) : Prop :=
  (∀ other ∈ before, score other ≤ score item) ∧
    ∀ other ∈ after, score other < score item

variable {score : Item → Score}

theorem laterOfBest_some (leader item : Item) :
    laterOfBest score (some leader) item =
      if score leader ≤ score item then some item else some leader :=
  rfl

theorem lastMaximum_snoc (items : List Item) (item : Item) :
    lastMaximum score (items ++ [item]) =
      laterOfBest score (lastMaximum score items) item := by
  rw [lastMaximum, foldl_append]
  rfl

variable {items before after : List Item} {item : Item}

theorem exists_lastMaximum
    (nonempty : items ≠ []) :
    ∃ item, lastMaximum score items = some item := by
  induction items using List.reverseRecOn with
  | nil =>
    exact absurd rfl nonempty
  | append_singleton earlier last _ =>
    rw [lastMaximum_snoc]
    cases lastMaximum score earlier with
    | none =>
      exact ⟨last, rfl⟩
    | some leader =>
      rw [laterOfBest_some]
      split
      · exact ⟨last, rfl⟩
      · exact ⟨leader, rfl⟩

theorem exists_leadsAt
    (wins : lastMaximum score items = some item) :
    ∃ before after,
      items = before ++ item :: after ∧ LeadsAt score before item after := by
  induction items using List.reverseRecOn generalizing item with
  | nil =>
    cases wins
  | append_singleton earlier last inductionHypothesis =>
    rw [lastMaximum_snoc] at wins
    cases best : lastMaximum score earlier with
    | none =>
      rw [best] at wins
      cases wins
      have isEmpty : earlier = [] := by
        by_contra nonempty
        obtain ⟨leader, isLeader⟩ := @exists_lastMaximum _ _ _ score _ nonempty
        cases best.symm.trans isLeader
      subst isEmpty
      exact ⟨[], [], rfl, by simp [LeadsAt]⟩
    | some leader =>
      obtain ⟨before, after, isEarlier, beforeLeader, afterLeader⟩ :=
        inductionHypothesis best
      rw [best, laterOfBest_some] at wins
      split at wins
      · rename_i reaches
        cases wins
        refine ⟨earlier, [], rfl, ?_, by simp⟩
        intro other isOther
        rw [isEarlier] at isOther
        rcases mem_append.mp isOther with isBefore | fromLeader
        · exact le_trans (beforeLeader other isBefore) reaches
        · rcases mem_cons.mp fromLeader with isLeader | isAfter
          · rw [isLeader]
            exact reaches
          · exact le_trans (le_of_lt (afterLeader other isAfter)) reaches
      · rename_i below
        cases wins
        refine ⟨before, after ++ [last], ?_, beforeLeader, ?_⟩
        · rw [isEarlier, append_assoc, cons_append]
        · intro other isOther
          rcases mem_append.mp isOther with isAfter | isLast
          · exact afterLeader other isAfter
          · rw [mem_singleton.mp isLast]
            exact not_le.mp below

theorem lastMaximum_of_leadsAt
    (leads : LeadsAt score before item after) :
    lastMaximum score (before ++ item :: after) = some item := by
  induction after using List.reverseRecOn with
  | nil =>
    rw [lastMaximum_snoc]
    cases best : lastMaximum score before with
    | none =>
      rfl
    | some leader =>
      obtain ⟨front, back, isBefore, _⟩ := exists_leadsAt best
      have isMember : leader ∈ before := by
        rw [isBefore]
        exact mem_append_right _ mem_cons_self
      exact if_pos (leads.1 leader isMember)
  | append_singleton earlier last inductionHypothesis =>
    have stillLeads : LeadsAt score before item earlier :=
      ⟨leads.1, fun other isOther =>
        leads.2 other (mem_append_left _ isOther)⟩
    have below : score last < score item :=
      leads.2 last (mem_append_right _ mem_cons_self)
    rw [← cons_append, ← append_assoc, lastMaximum_snoc,
      inductionHypothesis stillLeads]
    exact if_neg (not_le.mpr below)

theorem mem_of_lastMaximum
    (wins : lastMaximum score items = some item) :
    item ∈ items := by
  obtain ⟨before, after, isItems, _⟩ := exists_leadsAt wins
  rw [isItems]
  exact mem_append_right _ mem_cons_self

theorem lastMaximum_remove
    {removed : Item}
    (wins : lastMaximum score (before ++ removed :: after) = some item)
    (other : item ≠ removed) :
    lastMaximum score (before ++ after) = some item := by
  obtain ⟨front, back, isItems, leads⟩ := exists_leadsAt wins
  rcases append_eq_append_iff.mp isItems with
    ⟨between, isFront, isRest⟩ | ⟨between, isBefore, isRest⟩
  · -- The removed item stands before the winner.
    cases between with
    | nil =>
      exact absurd (List.cons.inj isRest).1.symm other
    | cons first middle =>
      rw [cons_append] at isRest
      obtain ⟨_, isAfter⟩ := List.cons.inj isRest
      rw [isAfter, ← append_assoc]
      refine lastMaximum_of_leadsAt ⟨fun earlier isEarlier => ?_, leads.2⟩
      refine leads.1 earlier ?_
      rw [isFront]
      rcases mem_append.mp isEarlier with inBefore | inMiddle
      · exact mem_append_left _ inBefore
      · exact mem_append_right _ (mem_cons_of_mem _ inMiddle)
  · -- It stands after the winner.
    cases between with
    | nil =>
      exact absurd (List.cons.inj isRest).1 other
    | cons first middle =>
      rw [cons_append] at isRest
      obtain ⟨isItem, isBack⟩ := List.cons.inj isRest
      rw [isBefore, ← isItem, append_assoc, cons_append]
      refine lastMaximum_of_leadsAt ⟨leads.1, fun later isLater => ?_⟩
      refine leads.2 later ?_
      rw [isBack]
      rcases mem_append.mp isLater with inMiddle | inAfter
      · exact mem_append_left _ inMiddle
      · exact mem_append_right _ (mem_cons_of_mem _ inAfter)

/-- If another item is put in, it wins or nothing changes. -/
theorem lastMaximum_insert
    (wins : lastMaximum score (before ++ after) = some item)
    (inserted : Item) :
    lastMaximum score (before ++ inserted :: after) = some item ∨
      lastMaximum score (before ++ inserted :: after) = some inserted := by
  obtain ⟨winner, isWinner⟩ :=
    @exists_lastMaximum _ _ _ score (before ++ inserted :: after) (by simp)
  by_cases isInserted : winner = inserted
  · rw [isInserted] at isWinner
    exact Or.inr isWinner
  · have same := lastMaximum_remove isWinner isInserted
    rw [wins] at same
    rw [isWinner, same]
    exact Or.inl rfl

end LastMaximum

end Mitiflow.Library
