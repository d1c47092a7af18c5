import Mathlib

namespace Mitiflow.Library

open List

/-!
# The first item of each key

Items arrive in order, and of all items with one key only the first counts.
-/

section FirstOfKey

variable {Item Key : Type} {key : Item → Key}

/-- No item before this one has its key. -/
def FirstOf (key : Item → Key) (items : List Item) (item : Item) : Prop :=
  ∃ earlier later,
    items = earlier ++ item :: later ∧
      ∀ other ∈ earlier, key other ≠ key item

variable {items : List Item} {item : Item}

theorem FirstOf.mem
    (first : FirstOf key items item) :
    item ∈ items := by
  obtain ⟨earlier, later, shape, _⟩ := first
  rw [shape]
  exact mem_append_right _ mem_cons_self

/-- One more item counts if its key is new. -/
theorem firstOf_snoc
    {last : Item} :
    FirstOf key (items ++ [last]) item ↔
      FirstOf key items item ∨
        item = last ∧ ∀ other ∈ items, key other ≠ key last := by
  constructor
  · rintro ⟨earlier, later, shape, fresh⟩
    rcases eq_nil_or_concat later with isLast | ⟨middle, final, isMore⟩
    · rw [isLast] at shape
      obtain ⟨isItems, isItem⟩ := append_inj' shape rfl
      rw [isItems, singleton_inj.mp isItem]
      exact Or.inr ⟨rfl, fresh⟩
    · rw [isMore, concat_eq_append, ← cons_append,
        ← append_assoc] at shape
      exact Or.inl ⟨earlier, middle, (append_inj' shape rfl).1, fresh⟩
  · rintro (⟨earlier, later, shape, fresh⟩ | ⟨isLast, fresh⟩)
    · exact ⟨earlier, later ++ [last], by simp [shape], fresh⟩
    · rw [isLast]
      exact ⟨items, [], rfl, fresh⟩

theorem exists_firstOf
    {wanted : Key}
    (occurs : ∃ item ∈ items, key item = wanted) :
    ∃ first, FirstOf key items first ∧ key first = wanted := by
  induction items using List.reverseRecOn with
  | nil =>
    obtain ⟨item, member, _⟩ := occurs
    cases member
  | append_singleton earlier last inductionHypothesis =>
    by_cases known : ∃ item ∈ earlier, key item = wanted
    · obtain ⟨first, isFirst, firstKey⟩ := inductionHypothesis known
      exact ⟨first, firstOf_snoc.mpr (Or.inl isFirst), firstKey⟩
    · obtain ⟨item, member, isWanted⟩ := occurs
      rcases mem_append.mp member with inEarlier | isLast
      · exact absurd ⟨item, inEarlier, isWanted⟩ known
      · rw [mem_singleton.mp isLast] at isWanted
        refine ⟨last, firstOf_snoc.mpr (Or.inr ⟨rfl, ?_⟩), isWanted⟩
        intro other inEarlier sameKey
        exact known ⟨other, inEarlier, sameKey.trans isWanted⟩

theorem FirstOf.unique
    {first second : Item}
    (isFirst : FirstOf key items first)
    (isSecond : FirstOf key items second)
    (sameKey : key first = key second) :
    first = second := by
  induction items using List.reverseRecOn with
  | nil =>
    cases isFirst.mem
  | append_singleton earlier last inductionHypothesis =>
    rcases firstOf_snoc.mp isFirst with firstBefore | ⟨firstLast, firstNew⟩
    · rcases firstOf_snoc.mp isSecond with
        secondBefore | ⟨secondLast, secondNew⟩
      · exact inductionHypothesis firstBefore secondBefore
      · rw [secondLast] at sameKey
        exact absurd sameKey (secondNew first firstBefore.mem)
    · rcases firstOf_snoc.mp isSecond with
        secondBefore | ⟨secondLast, secondNew⟩
      · rw [firstLast] at sameKey
        exact absurd sameKey.symm (firstNew second secondBefore.mem)
      · rw [firstLast, secondLast]

theorem firstOf_append
    {more : List Item}
    (known : ∀ item ∈ more, ∃ other ∈ items, key other = key item) :
    FirstOf key (items ++ more) item ↔ FirstOf key items item := by
  induction more using List.reverseRecOn with
  | nil =>
    rw [append_nil]
  | append_singleton earlier last inductionHypothesis =>
    obtain ⟨other, isItem, sameKey⟩ :=
      known last (mem_append_right _ mem_cons_self)
    rw [← append_assoc, firstOf_snoc, inductionHypothesis fun item
      member => known item (mem_append_left _ member)]
    refine or_iff_left ?_
    rintro ⟨_, new⟩
    exact new other (mem_append_left _ isItem) sameKey

end FirstOfKey

end Mitiflow.Library
