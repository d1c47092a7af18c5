import Mathlib

namespace Mitiflow.Library

/-!
# Binary search in a sorted list

The slice search of the systems language: a hit reports an index, a miss
reports where the value would be inserted.  On a strictly increasing list a
hit occurs exactly for the members.
-/

section BinarySearch

variable {α : Type} [LinearOrder α]

/-- Search the half-open index range `[low, high)`, halving it each step. -/
def searchRange (items : List α) (target : α) :
    Nat → Nat → Nat → Except Nat Nat
  | 0, low, _ => .error low
  | fuel + 1, low, high =>
    if low < high then
      let middle := (low + high) / 2
      match items[middle]? with
      | none => .error low
      | some item =>
        if item < target then
          searchRange items target fuel (middle + 1) high
        else if target < item then
          searchRange items target fuel low middle
        else
          .ok middle
    else
      .error low

def binarySearch (items : List α) (target : α) : Except Nat Nat :=
  searchRange items target items.length 0 items.length

variable {items : List α}

theorem getElem?_of_searchRange_ok
    {target : α}
    {fuel low high index : Nat}
    (hit : searchRange items target fuel low high = .ok index) :
    items[index]? = some target := by
  induction fuel generalizing low high with
  | zero =>
    simp [searchRange] at hit
  | succ fuel inductionHypothesis =>
    simp only [searchRange] at hit
    split at hit
    · split at hit
      · cases hit
      · rename_i item located
        split at hit
        · exact inductionHypothesis hit
        · split at hit
          · exact inductionHypothesis hit
          · rename_i notBelow notAbove
            cases hit
            rw [located, le_antisymm (not_lt.mp notAbove) (not_lt.mp notBelow)]
    · cases hit

theorem searchRange_hits
    (sorted : items.Pairwise (· < ·))
    {target : α}
    {fuel low high index : Nat}
    (enough : high - low ≤ fuel)
    (inside : high ≤ items.length)
    (located : items[index]? = some target)
    (afterLow : low ≤ index)
    (beforeHigh : index < high) :
    ∃ found, searchRange items target fuel low high = .ok found := by
  induction fuel generalizing low high with
  | zero =>
    omega
  | succ fuel inductionHypothesis =>
    obtain ⟨inBounds, atIndex⟩ := List.getElem?_eq_some_iff.mp located
    have rangeNonempty : low < high := by omega
    simp only [searchRange, rangeNonempty, ↓reduceIte]
    split
    · rename_i missing
      have beyond := List.getElem?_eq_none_iff.mp missing
      omega
    · rename_i item middleLocated
      obtain ⟨middleBounds, atMiddle⟩ :=
        List.getElem?_eq_some_iff.mp middleLocated
      have ordered := List.pairwise_iff_getElem.mp sorted
      split
      · rename_i below
        refine inductionHypothesis (by omega) inside ?_ beforeHigh
        by_contra notAfter
        rcases Nat.lt_or_ge index ((low + high) / 2) with
            earlier | later
        · have reversed := ordered index _ inBounds middleBounds earlier
          rw [atIndex, atMiddle] at reversed
          exact lt_asymm below reversed
        · have same : index = (low + high) / 2 := by omega
          subst same
          rw [← atMiddle, atIndex] at below
          exact lt_irrefl _ below
      · split
        · rename_i above
          refine inductionHypothesis (by omega) (by omega) afterLow ?_
          by_contra notBefore
          rcases Nat.lt_or_ge ((low + high) / 2) index with
              later | earlier
          · have forward := ordered _ index middleBounds inBounds later
            rw [atIndex, atMiddle] at forward
            exact lt_asymm above forward
          · have same : index = (low + high) / 2 := by omega
            subst same
            rw [← atMiddle, atIndex] at above
            exact lt_irrefl _ above
        · exact ⟨_, rfl⟩

/-- On a strictly increasing list, search misses exactly the non-members. -/
theorem binarySearch_isErr_iff
    (sorted : items.Pairwise (· < ·))
    (target : α) :
    (∃ index, binarySearch items target = .error index) ↔
      target ∉ items := by
  constructor
  · rintro ⟨index, missed⟩ member
    obtain ⟨index, inBounds, atIndex⟩ := List.getElem_of_mem member
    obtain ⟨found, hit⟩ :
        ∃ found, binarySearch items target = .ok found :=
      searchRange_hits sorted (by omega) le_rfl
        (List.getElem?_eq_some_iff.mpr ⟨inBounds, atIndex⟩)
        (Nat.zero_le index) inBounds
    rw [hit] at missed
    cases missed
  · intro absent
    cases searched : binarySearch items target with
    | error index =>
      exact ⟨index, rfl⟩
    | ok index =>
      exact (absent (List.mem_of_getElem?
        (getElem?_of_searchRange_ok searched))).elim

end BinarySearch

end Mitiflow.Library
