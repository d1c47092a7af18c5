import Mathlib

namespace Mitiflow.Library

open List

/-!
# Reading by pages through a buffer

Items are kept in strictly ascending rank.  A reader fetches the next page
above its cursor, moves the cursor to the last item of the page and hands the
page out one item at a time.  Between two page boundaries the cursor is ahead
of what was handed out.
-/

section Pages

variable {Item Rank : Type} [LinearOrder Rank]

def above (rank : Item → Rank) (cursor : Rank) (items : List Item) :
    List Item :=
  items.filter fun item => cursor < rank item

variable {rank : Item → Rank} {items : List Item}

theorem above_append (cursor : Rank) (first second : List Item) :
    above rank cursor (first ++ second) =
      above rank cursor first ++ above rank cursor second :=
  filter_append _ _

theorem above_above
    {cursor next : Rank}
    (raised : cursor ≤ next) :
    above rank next (above rank cursor items) = above rank next items := by
  rw [above, above, filter_filter]
  apply filter_congr
  intro item _
  simp only [Bool.and_eq_left_iff_imp, decide_eq_true_eq]
  exact raised.trans_lt

theorem pairwise_above
    (ascending : items.Pairwise fun first second => rank first < rank second)
    (cursor : Rank) :
    (above rank cursor items).Pairwise
      fun first second => rank first < rank second :=
  ascending.sublist filter_sublist

variable {size : Nat}

/--
Above the last item of a page lies what the page left over, if all of that
ranks above it.
-/
theorem above_last_take_of_separate
    (ascending : items.Pairwise fun first second => rank first ≤ rank second)
    {last : Item}
    (isLast : (items.take size).getLast? = some last)
    (separate : ∀ late ∈ items.drop size, rank last < rank late) :
    above rank (rank last) items = items.drop size := by
  obtain ⟨earlier, page⟩ := List.getLast?_eq_some_iff.mp isLast
  have split : items = (earlier ++ [last]) ++ items.drop size := by
    rw [← page, take_append_drop]
  have ordered := ascending
  rw [split, pairwise_append, pairwise_append] at ordered
  obtain ⟨⟨_, _, earlierBelow⟩, _, _⟩ := ordered
  have none_of_page :
      above rank (rank last) (earlier ++ [last]) = [] := by
    rw [above, filter_eq_nil_iff]
    intro item member
    rw [decide_eq_true_eq, not_lt]
    rcases mem_append.mp member with isEarlier | isLastItem
    · exact earlierBelow item isEarlier last (mem_singleton_self _)
    · rw [mem_singleton.mp isLastItem]
  have all_of_rest :
      above rank (rank last) (items.drop size) = items.drop size := by
    rw [above, filter_eq_self]
    intro item member
    rw [decide_eq_true_eq]
    exact separate item member
  calc above rank (rank last) items
      = above rank (rank last) ((earlier ++ [last]) ++ items.drop size) := by
          rw [← split]
    _ = above rank (rank last) (earlier ++ [last]) ++
          above rank (rank last) (items.drop size) :=
          above_append _ _ _
    _ = items.drop size := by
          rw [none_of_page, all_of_rest, nil_append]

theorem above_last_take
    (ascending : items.Pairwise fun first second => rank first < rank second)
    {last : Item}
    (isLast : (items.take size).getLast? = some last) :
    above rank (rank last) items = items.drop size := by
  refine above_last_take_of_separate (ascending.imp fun below => below.le)
    isLast ?_
  intro late isLate
  rw [← take_append_drop size items, pairwise_append] at ascending
  exact ascending.2.2 last (mem_of_getLast? isLast) late isLate

/-- A cursor and the part of its page not handed out yet. -/
structure PageReader (Item Rank : Type) where
  cursor : Rank
  buffer : List Item := []

namespace PageReader

variable (rank : Item → Rank) (size : Nat) (items : List Item)

/-- Hand out the next item, fetching a page when the buffer is empty. -/
def next (reader : PageReader Item Rank) :
    PageReader Item Rank × Option Item :=
  match reader.buffer with
  | item :: rest => ({ reader with buffer := rest }, some item)
  | [] =>
    match (above rank reader.cursor items).take size with
    | [] => (reader, none)
    | item :: rest =>
      ({ cursor := rank ((item :: rest).getLast (cons_ne_nil _ _))
         buffer := rest }, some item)

end PageReader

/-- The next page boundary at or after a count. -/
def roundUp (size count : Nat) : Nat :=
  if count % size = 0 then count else size * (count / size + 1)

section RoundUp

variable {size count : Nat}

theorem lt_roundUp (positive : 1 ≤ size) (unaligned : count % size ≠ 0) :
    count < roundUp size count := by
  rw [roundUp, if_neg unaligned]
  exact Nat.lt_mul_div_succ count positive

theorem le_roundUp (positive : 1 ≤ size) : count ≤ roundUp size count := by
  by_cases aligned : count % size = 0
  · rw [roundUp, if_pos aligned]
  · exact (lt_roundUp positive aligned).le

/-- One more item needs a new page exactly at a page boundary. -/
theorem roundUp_succ (positive : 1 ≤ size) :
    roundUp size (count + 1) =
      if count % size = 0 then count + size else roundUp size count := by
  have below := Nat.mod_lt count positive
  have parts := Nat.div_add_mod count size
  have shape : count + 1 = size * (count / size) + (count % size + 1) := by
    omega
  have boundary : size * (count / size + 1) = size * (count / size) + size :=
    Nat.mul_succ size (count / size)
  by_cases fits : count % size + 1 < size
  · have remainder : (count + 1) % size = count % size + 1 := by
      rw [shape, Nat.mul_add_mod, Nat.mod_eq_of_lt fits]
    have quotient : (count + 1) / size = count / size := by
      rw [shape, Nat.mul_add_div positive, Nat.div_eq_of_lt fits, Nat.add_zero]
    rw [roundUp, roundUp, remainder, quotient,
      if_neg (Nat.succ_ne_zero _), boundary]
    split
    · omega
    · rfl
  · have full : count % size + 1 = size := by omega
    have remainder : (count + 1) % size = 0 := by
      rw [shape, full, Nat.mul_add_mod, Nat.mod_self]
    rw [roundUp, roundUp, if_pos remainder, boundary]
    split
    · omega
    · omega

end RoundUp

namespace PageReader

variable {size : Nat} {reader : PageReader Item Rank}

/--
After `count` reads of `remaining` the buffer holds what lies up to the next
page boundary, and above the cursor lies what is beyond it.
-/
structure ReadUpTo
    (rank : Item → Rank)
    (size : Nat)
    (items remaining : List Item)
    (count : Nat)
    (reader : PageReader Item Rank) : Prop where
  buffer :
    reader.buffer = (remaining.take (roundUp size count)).drop count
  left :
    above rank reader.cursor items = remaining.drop (roundUp size count)

variable {remaining : List Item} {count : Nat}

/-- Once everything was handed out, every boundary is past the end. -/
theorem ReadUpTo.of_done
    (positive : 1 ≤ size)
    (done : remaining.length ≤ count)
    (nothing : reader.buffer = [])
    (noneLeft : above rank reader.cursor items = []) :
    ReadUpTo rank size items remaining count reader where
  buffer := by
    rw [nothing, eq_comm, drop_eq_nil_iff, length_take]
    omega
  left := by
    rw [noneLeft, eq_comm, drop_eq_nil_iff]
    exact done.trans (le_roundUp positive)

theorem ReadUpTo.next_buffered
    (positive : 1 ≤ size)
    (upTo : ReadUpTo rank size items remaining count reader)
    {item : Item}
    {rest : List Item}
    (isBuffer : reader.buffer = item :: rest) :
    ReadUpTo rank size items remaining (count + 1)
        { reader with buffer := rest } ∧
      remaining[count]? = some item := by
  have cut := upTo.buffer
  rw [isBuffer] at cut
  have unaligned : count % size ≠ 0 := by
    intro aligned
    rw [roundUp, if_pos aligned, drop_take_self] at cut
    cases cut
  have sameBoundary : roundUp size (count + 1) = roundUp size count := by
    rw [roundUp_succ positive, if_neg unaligned]
  refine ⟨⟨?_, ?_⟩, ?_⟩
  · rw [sameBoundary, ← tail_drop, ← cut, tail_cons]
  · rw [sameBoundary]
    exact upTo.left
  · have first := congrArg (·[0]?) cut
    simp only [List.getElem?_cons_zero, List.getElem?_drop, Nat.add_zero,
      List.getElem?_take_of_lt (lt_roundUp positive unaligned)] at first
    exact first.symm

section

variable
  (positive : 1 ≤ size)
  (ascending : items.Pairwise fun first second => rank first < rank second)

include positive ascending

theorem ReadUpTo.next_fetched
    (upTo : ReadUpTo rank size items remaining count reader)
    (aligned : count % size = 0)
    {item : Item}
    {rest : List Item}
    (isPage :
      (above rank reader.cursor items).take size = item :: rest) :
    ReadUpTo rank size items remaining (count + 1)
        { cursor := rank ((item :: rest).getLast (cons_ne_nil _ _))
          buffer := rest } ∧
      remaining[count]? = some item := by
  have left := upTo.left
  rw [roundUp, if_pos aligned] at left
  have nextBoundary : roundUp size (count + 1) = count + size := by
    rw [roundUp_succ positive, if_pos aligned]
  have page : (remaining.drop count).take size = item :: rest := by
    rw [← left]
    exact isPage
  have isLast :
      ((above rank reader.cursor items).take size).getLast? =
        some ((item :: rest).getLast (cons_ne_nil _ _)) := by
    rw [isPage, List.getLast?_eq_some_getLast]
  have raised :
      reader.cursor ≤ rank ((item :: rest).getLast (cons_ne_nil _ _)) := by
    have member := mem_of_mem_take (mem_of_getLast? isLast)
    exact (of_decide_eq_true (mem_filter.mp member).2).le
  refine ⟨⟨?_, ?_⟩, ?_⟩
  · rw [nextBoundary, ← tail_drop, drop_take, Nat.add_sub_cancel_left,
      page, tail_cons]
  · have beyond :=
      above_last_take (pairwise_above ascending reader.cursor) isLast
    rw [above_above raised, left, drop_drop] at beyond
    rw [nextBoundary]
    exact beyond
  · have first := congrArg (·[0]?) page
    simp only [List.getElem?_cons_zero, List.getElem?_drop, Nat.add_zero,
      List.getElem?_take_of_lt positive] at first
    exact first

/-- One read hands out the next item, if there is one. -/
theorem ReadUpTo.next
    (upTo : ReadUpTo rank size items remaining count reader) :
    ReadUpTo rank size items remaining (count + 1)
        (reader.next rank size items).1 ∧
      (reader.next rank size items).2 = remaining[count]? := by
  cases isBuffer : reader.buffer with
  | cons item rest =>
    obtain ⟨after, isItem⟩ := upTo.next_buffered positive isBuffer
    simp only [PageReader.next, isBuffer]
    exact ⟨after, isItem.symm⟩
  | nil =>
    cases isPage : (above rank reader.cursor items).take size with
    | cons item rest =>
      -- A page above the cursor means that the buffer ended at a boundary.
      have aligned : count % size = 0 := by
        by_contra unaligned
        have emptied := upTo.buffer
        rw [isBuffer, eq_comm, drop_eq_nil_iff, length_take]
          at emptied
        have past := lt_roundUp positive unaligned
        have nothing : remaining.drop (roundUp size count) = [] := by
          rw [drop_eq_nil_iff]
          omega
        rw [upTo.left, nothing, take_nil] at isPage
        cases isPage
      obtain ⟨after, isItem⟩ :=
        upTo.next_fetched positive ascending aligned isPage
      simp only [PageReader.next, isBuffer, isPage]
      exact ⟨after, isItem.symm⟩
    | nil =>
      have noneLeft : above rank reader.cursor items = [] := by
        rcases take_eq_nil_iff.mp isPage with isZero | isNil
        · omega
        · exact isNil
      have done : remaining.length ≤ count := by
        have emptied := upTo.buffer
        have left := upTo.left
        rw [isBuffer, eq_comm, drop_eq_nil_iff, length_take]
          at emptied
        rw [noneLeft, eq_comm, drop_eq_nil_iff] at left
        omega
      simp only [PageReader.next, isBuffer, isPage]
      exact ⟨ReadUpTo.of_done positive (done.trans (Nat.le_succ count))
          isBuffer noneLeft,
        (List.getElem?_eq_none done).symm⟩

end

end PageReader

end Pages

end Mitiflow.Library
