import Mitiflow.Library.BufferedPages

namespace Mitiflow.Library

open List

/-!
# Pulling batches above a cursor

A client asks for a batch of the items whose rank lies above its cursor, moves
the cursor to the rank of the last item of the batch, and stops at an empty
batch.  Items are ordered by their place, which refines their rank; several
items may share a rank, and a batch may leave out items that rank below its
last one.  The client gets everything exactly when no batch does.
-/

section Pulls

variable {Item Rank : Type}

section Pulling

variable (rank : Item → Rank) (batch : Rank → List Item)

def nextCursor (cursor : Rank) : Rank :=
  ((batch cursor).getLast?.map rank).getD cursor

/-- Pull until a batch is empty; `none` when the fuel does not suffice. -/
def pullAll : Nat → Rank → Option (List Item)
  | 0, _ => none
  | fuel + 1, cursor =>
    match batch cursor with
    | [] => some []
    | item :: rest =>
      (pullAll fuel (nextCursor rank batch cursor)).map
        fun later => item :: rest ++ later

/-- Poll until a batch is empty; `none` if a poll fails or fuel runs out. -/
def untilEmpty
    {State Failure : Type}
    (poll : State → State × Except Failure (List Item)) :
    Nat → State → Option (List Item)
  | 0, _ => none
  | fuel + 1, state =>
    match poll state with
    | (_, .error _) => none
    | (_, .ok []) => some []
    | (next, .ok (item :: rest)) =>
      (untilEmpty poll fuel next).map fun later => item :: rest ++ later

end Pulling

/-- Polling a state whose polls are pulls. -/
theorem untilEmpty_eq_pullAll
    {rank : Item → Rank}
    {batch : Rank → List Item}
    {State Failure : Type}
    {poll : State → State × Except Failure (List Item)}
    (Holds : State → Prop)
    (cursor : State → Rank)
    (polls :
      ∀ state, Holds state → (poll state).2 = .ok (batch (cursor state)))
    (moves :
      ∀ state, Holds state → batch (cursor state) ≠ [] →
        Holds (poll state).1 ∧
          cursor (poll state).1 = nextCursor rank batch (cursor state))
    {state : State}
    (holds : Holds state)
    (fuel : Nat) :
    untilEmpty poll fuel state = pullAll rank batch fuel (cursor state) := by
  induction fuel generalizing state with
  | zero =>
    rfl
  | succ fuel inductionHypothesis =>
    have answer := polls state holds
    have moved := moves state holds
    cases isPoll : poll state with
    | mk next result =>
      rw [isPoll] at answer moved
      simp only at answer moved
      cases isBatch : batch (cursor state) with
      | nil =>
        rw [isBatch] at answer
        simp only [untilEmpty, pullAll, isPoll, answer, isBatch]
      | cons item rest =>
        obtain ⟨holdsNext, cursorNext⟩ := moved (by simp [isBatch])
        rw [isBatch] at answer
        simp only [untilEmpty, pullAll, isPoll, answer, isBatch]
        rw [inductionHypothesis holdsNext, cursorNext]

section Specification

variable {Place : Type} [LinearOrder Rank] [LinearOrder Place]
  (rank : Item → Rank) (place : Item → Place) (pool : List Item)
  (batch : Rank → List Item)

/-- What batches are: items above the cursor, ordered, some if there are any. -/
structure PullsFrom : Prop where
  refines :
    ∀ first second : Item, place first ≤ place second →
      rank first ≤ rank second
  ascends :
    ∀ cursor,
      (batch cursor).Pairwise fun first second => place first < place second
  fromAbove :
    ∀ cursor, ∀ item ∈ batch cursor, item ∈ pool ∧ cursor < rank item
  progress :
    ∀ cursor, batch cursor = [] → ∀ item ∈ pool, rank item ≤ cursor

/-- Every item above a cursor, each once and in order. -/
structure Delivers (cursor : Rank) (items : List Item) : Prop where
  ascends : items.Pairwise fun first second => place first < place second
  mem_iff : ∀ item, item ∈ items ↔ item ∈ pool ∧ cursor < rank item

/-- The items of a pool, each once and in order. -/
structure Lists (items : List Item) : Prop where
  ascends : items.Pairwise fun first second => place first < place second
  mem_iff : ∀ item, item ∈ items ↔ item ∈ pool

end Specification

variable {Place : Type} [LinearOrder Rank] [LinearOrder Place]
  {rank : Item → Rank} {place : Item → Place} {pool : List Item}
  {batch : Rank → List Item}

theorem Lists.length_eq
    {items : List Item}
    (lists : Lists place pool items)
    (distinct : pool.Nodup) :
    items.length = pool.length := by
  have nodup : items.Nodup :=
    lists.ascends.imp fun ordered same => (same ▸ ordered).false
  exact ((perm_ext_iff_of_nodup nodup distinct).mpr
    lists.mem_iff).length_eq

namespace PullsFrom

variable (pulls : PullsFrom rank place pool batch)
include pulls

variable {cursor : Rank} {item : Item}

theorem rank_le_nextCursor
    (member : item ∈ batch cursor) :
    rank item ≤ nextCursor rank batch cursor := by
  obtain ⟨earlier, last, shape⟩ :=
    eq_nil_or_concat (batch cursor) |>.resolve_left
      (ne_nil_of_mem member)
  have ordered := pulls.ascends cursor
  rw [shape] at member ordered
  rw [nextCursor, shape]
  simp only [concat_eq_append, List.getLast?_append,
    List.getLast?_singleton, Option.some_or, Option.map_some,
    Option.getD_some]
  rw [concat_eq_append, pairwise_append] at ordered
  rw [concat_eq_append, mem_append, mem_singleton] at member
  rcases member with isEarlier | isLast
  · exact pulls.refines _ _
      (ordered.2.2 item isEarlier last (mem_singleton_self _)).le
  · rw [isLast]

theorem lt_nextCursor
    (member : item ∈ batch cursor) :
    cursor < nextCursor rank batch cursor :=
  (pulls.fromAbove cursor item member).2.trans_le
    (pulls.rank_le_nextCursor member)

theorem nextCursor_ge (cursor : Rank) :
    cursor ≤ nextCursor rank batch cursor := by
  cases isBatch : batch cursor with
  | nil =>
    simp [nextCursor, isBatch]
  | cons item rest =>
    exact (pulls.lt_nextCursor (by rw [isBatch]; exact mem_cons_self)).le

theorem length_batch_add_le (distinct : pool.Nodup) (cursor : Rank) :
    (batch cursor).length +
        (above rank (nextCursor rank batch cursor) pool).length ≤
      (above rank cursor pool).length := by
  have batchNodup : (batch cursor).Nodup :=
    (pulls.ascends cursor).imp fun ordered same => (same ▸ ordered).false
  have apart :
      (batch cursor ++
        above rank (nextCursor rank batch cursor) pool).Nodup := by
    refine nodup_append.mpr ⟨batchNodup, distinct.filter _, ?_⟩
    rintro item inBatch other isAbove same
    subst same
    exact absurd (of_decide_eq_true (mem_filter.mp isAbove).2)
      (not_lt.mpr (pulls.rank_le_nextCursor inBatch))
  rw [← length_append]
  refine (apart.subperm ?_).length_le
  intro item member
  rcases mem_append.mp member with inBatch | isAbove
  · obtain ⟨inPool, isHigher⟩ := pulls.fromAbove cursor item inBatch
    exact mem_filter.mpr ⟨inPool, decide_eq_true isHigher⟩
  · obtain ⟨inPool, isHigher⟩ := mem_filter.mp isAbove
    exact mem_filter.mpr ⟨inPool,
      decide_eq_true ((pulls.nextCursor_ge cursor).trans_lt
        (of_decide_eq_true isHigher))⟩

end PullsFrom

end Pulls

/-! ## One list of items, by pages -/

section Pages

variable {Item Rank : Type} [LinearOrder Rank]

def pageAbove
    (rank : Item → Rank)
    (size : Nat)
    (items : List Item)
    (cursor : Rank) : List Item :=
  (above rank cursor items).take size

variable {rank : Item → Rank} {size : Nat} {items : List Item}

theorem exists_last_of_mem_above
    (positive : 1 ≤ size)
    {cursor : Rank}
    {item : Item}
    (member : item ∈ above rank cursor items) :
    ∃ last,
      (pageAbove rank size items cursor).getLast? = some last ∧
        nextCursor rank (pageAbove rank size items) cursor = rank last := by
  have nonempty : pageAbove rank size items cursor ≠ [] := by
    rw [pageAbove, Ne, take_eq_nil_iff, not_or]
    exact ⟨Nat.ne_of_gt positive, ne_nil_of_mem member⟩
  have isLast := List.getLast?_eq_some_getLast nonempty
  exact ⟨_, isLast, by rw [nextCursor, isLast]; rfl⟩

section Reading

variable {Place : Type} [LinearOrder Place] {place : Item → Place}
  (refines :
    ∀ first second : Item, place first ≤ place second →
      rank first ≤ rank second)
  (ascending :
    items.Pairwise fun first second => place first < place second)
  (positive : 1 ≤ size)

include ascending positive

include refines

end Reading

end Pages

/-! ## Several lists of items, merged -/

section Merged

variable {Item Rank : Type} [LinearOrder Rank]

/-- The pages of several lists above a cursor, as one batch in order. -/
def mergedBatch
    (rank : Item → Rank)
    (size : Nat)
    (sources : List (List Item))
    (cursor : Rank) : List Item :=
  (sources.flatMap fun items => pageAbove rank size items cursor).insertionSort
    fun first second => rank first ≤ rank second

variable {rank : Item → Rank} {size : Nat} {sources : List (List Item)}

theorem pairwise_mergedBatch (cursor : Rank) :
    (mergedBatch rank size sources cursor).Pairwise
      fun first second => rank first ≤ rank second := by
  have total : Std.Total fun first second : Item =>
      rank first ≤ rank second :=
    ⟨fun first second => le_total (rank first) (rank second)⟩
  have transitive : IsTrans Item fun first second =>
      rank first ≤ rank second :=
    ⟨fun _ _ _ => le_trans⟩
  exact pairwise_insertionSort _ _

variable {cursor : Rank}

theorem mem_mergedBatch
    {item : Item} :
    item ∈ mergedBatch rank size sources cursor ↔
      ∃ items ∈ sources, item ∈ pageAbove rank size items cursor := by
  rw [mergedBatch, (perm_insertionSort _ _).mem_iff, mem_flatMap]

section Distinct

variable (distinct : (sources.flatten.map rank).Nodup) (positive : 1 ≤ size)

include distinct

section

variable
  {batch : List Item}
  (sorted : batch.Pairwise fun first second => rank first ≤ rank second)
  (perm :
    batch.Perm
      (sources.flatMap fun items => pageAbove rank size items cursor))

include sorted perm

theorem pairwise_lt_of_pages :
    batch.Pairwise fun first second => rank first < rank second := by
  have sub :
      (sources.flatMap fun items =>
        pageAbove rank size items cursor).Sublist sources.flatten := by
    clear perm distinct
    induction sources with
    | nil =>
      exact List.Sublist.refl []
    | cons items rest inductionHypothesis =>
      rw [flatMap_cons, flatten_cons]
      exact ((take_sublist size _).trans filter_sublist).append
        inductionHypothesis
  have nodup : (batch.map rank).Nodup :=
    (perm.map rank).nodup_iff.mpr (distinct.sublist (sub.map rank))
  rw [List.Nodup, pairwise_map] at nodup
  exact (sorted.and nodup).imp fun both => lt_of_le_of_ne both.1 both.2

/-- Any ordered batch of the pages is the merged one. -/
theorem eq_mergedBatch :
    batch = mergedBatch rank size sources cursor :=
  (perm.trans (perm_insertionSort _ _).symm).eq_of_pairwise
    (fun _ _ _ _ below above => absurd (below.trans above) (lt_irrefl _))
    (pairwise_lt_of_pages distinct sorted perm)
    (pairwise_lt_of_pages distinct (pairwise_mergedBatch cursor)
      (perm_insertionSort _ _))

end

include positive

theorem pullsFrom_mergedBatch :
    PullsFrom rank rank sources.flatten (mergedBatch rank size sources) where
  refines _ _ ordered := ordered
  ascends cursor :=
    pairwise_lt_of_pages distinct (pairwise_mergedBatch cursor)
      (perm_insertionSort _ _)
  fromAbove cursor item member := by
    obtain ⟨items, isSource, inPage⟩ := mem_mergedBatch.mp member
    obtain ⟨inItems, isAbove⟩ :=
      mem_filter.mp (mem_of_mem_take inPage)
    exact ⟨mem_flatten.mpr ⟨items, isSource, inItems⟩,
      of_decide_eq_true isAbove⟩
  progress cursor isEmpty item member := by
    obtain ⟨items, isSource, inItems⟩ := mem_flatten.mp member
    by_contra notBelow
    have inAbove : item ∈ above rank cursor items :=
      mem_filter.mpr ⟨inItems, decide_eq_true (not_le.mp notBelow)⟩
    obtain ⟨last, isLast, _⟩ := exists_last_of_mem_above positive inAbove
    have inBatch : last ∈ mergedBatch rank size sources cursor :=
      mem_mergedBatch.mpr ⟨items, isSource, mem_of_getLast? isLast⟩
    rw [isEmpty] at inBatch
    cases inBatch

end Distinct

end Merged

end Mitiflow.Library
