import Mitiflow.Types

namespace Mitiflow

open List

/-!
# Deduplication by event id

Key-filtered subscribers see part of a publisher's sequences, so they drop
duplicates by event id.  The set of known ids is bounded and forgets the
oldest one first.
-/

/-- A bounded set of event ids. -/
structure EventIdDedup where
  /-- Ids in order of insertion, oldest first. -/
  order : List EventId := []
  seen : Finset EventId := ∅
  capacity : Nat
  positive : 0 < capacity

namespace EventIdDedup

/-- An empty set; a capacity of zero is a panic. -/
def new (capacity : Nat) : Option EventIdDedup :=
  if positive : 0 < capacity then
    some { capacity := capacity, positive := positive }
  else
    none

def evictOldest (dedup : EventIdDedup) : EventIdDedup :=
  match dedup.order with
  | [] => dedup
  | oldest :: rest =>
    { dedup with order := rest, seen := dedup.seen.erase oldest }

/-- Whether an id is new; new ids are remembered. -/
def isNew (dedup : EventIdDedup) (id : EventId) : EventIdDedup × Bool :=
  if id ∈ dedup.seen then
    (dedup, false)
  else
    let roomy :=
      if dedup.order.length ≥ dedup.capacity then
        dedup.evictOldest
      else
        dedup
    ({ roomy with
        order := roomy.order ++ [id]
        seen := insert id roomy.seen }, true)

/-- The number of ids that are remembered. -/
def len (dedup : EventIdDedup) : Nat :=
  dedup.seen.card

theorem evictOldest_of_cons
    {dedup : EventIdDedup}
    {oldest : EventId}
    {rest : List EventId}
    (isOrder : dedup.order = oldest :: rest) :
    dedup.evictOldest =
      { dedup with order := rest, seen := dedup.seen.erase oldest } := by
  obtain ⟨order, seen, capacity, positive⟩ := dedup
  cases isOrder
  rfl

theorem capacity_evictOldest (dedup : EventIdDedup) :
    dedup.evictOldest.capacity = dedup.capacity := by
  unfold evictOldest
  split
  · rfl
  · rfl

theorem capacity_isNew (dedup : EventIdDedup) (id : EventId) :
    (dedup.isNew id).1.capacity = dedup.capacity := by
  unfold isNew
  split
  · rfl
  · show (if dedup.order.length ≥ dedup.capacity then dedup.evictOldest
      else dedup).capacity = dedup.capacity
    split
    · exact capacity_evictOldest dedup
    · rfl

/-! ## The window over the accepted ids -/

/-- The set after a sequence of calls. -/
def afterCalls (dedup : EventIdDedup) (ids : List EventId) : EventIdDedup :=
  ids.foldl (fun current id => (current.isNew id).1) dedup

/-- The ids of a sequence of calls that were new, in their order. -/
def accepted (dedup : EventIdDedup) : List EventId → List EventId
  | [] => []
  | id :: rest =>
    let (next, fresh) := dedup.isNew id
    (if fresh then [id] else []) ++ next.accepted rest

/-- The set remembers the last of the accepted ids. -/
structure Window (dedup : EventIdDedup) (accepted : List EventId) : Prop where
  order :
    dedup.order = accepted.drop (accepted.length - dedup.capacity)
  distinct : dedup.order.Nodup
  seen : dedup.seen = dedup.order.toFinset

namespace Window

variable {dedup : EventIdDedup} {accepted : List EventId}

theorem initial {capacity : Nat} (positive : 0 < capacity) :
    Window { capacity := capacity, positive := positive } [] where
  order := drop_nil.symm
  distinct := nodup_nil
  seen := rfl

theorem mem_seen (window : Window dedup accepted) (id : EventId) :
    id ∈ dedup.seen ↔ id ∈ dedup.order := by
  rw [window.seen, mem_toFinset]

theorem length_order (window : Window dedup accepted) :
    dedup.order.length = min dedup.capacity accepted.length := by
  rw [window.order, length_drop]
  omega

theorem len_eq (window : Window dedup accepted) :
    dedup.len = min dedup.capacity accepted.length := by
  rw [len, window.seen, toFinset_card_of_nodup window.distinct,
    window.length_order]

section

variable (window : Window dedup accepted)

include window

theorem isNew_eq_false_iff
    (id : EventId) :
    (dedup.isNew id).2 = false ↔ id ∈ dedup.order := by
  rw [← window.mem_seen, isNew]
  split
  · rename_i isSeen
    exact iff_of_true rfl isSeen
  · rename_i unseen
    exact iff_of_false Bool.true_eq_false.mp unseen


/-- A full set forgets its oldest id before it takes a new one. -/
theorem push_full
    {id : EventId}
    (unseen : id ∉ dedup.seen)
    (full : dedup.capacity ≤ dedup.order.length) :
    Window (dedup.isNew id).1 (accepted ++ [id]) := by
  obtain ⟨oldest, rest, isOrder⟩ : ∃ oldest rest,
      dedup.order = oldest :: rest := by
    cases isOrder : dedup.order with
    | nil =>
      rw [isOrder] at full
      exact absurd full (Nat.not_le_of_lt dedup.positive)
    | cons oldest rest => exact ⟨oldest, rest, rfl⟩
  have long := window.length_order
  have distinct := window.distinct
  rw [isOrder, nodup_cons] at distinct
  have unlisted : id ∉ rest := by
    intro isListed
    refine unseen ((window.mem_seen id).mpr ?_)
    rw [isOrder]
    exact mem_cons_of_mem _ isListed
  have seenRest : dedup.seen.erase oldest = rest.toFinset := by
    rw [window.seen, isOrder, toFinset_cons,
      Finset.erase_insert (by rw [mem_toFinset]; exact distinct.1)]
  have result :
      (dedup.isNew id).1 =
        { dedup with
          order := rest ++ [id]
          seen := insert id (dedup.seen.erase oldest) } := by
    rw [isNew, if_neg unseen]
    simp only [ge_iff_le, if_pos full, evictOldest_of_cons isOrder]
  rw [result]
  refine ⟨?_, ?_, ?_⟩
  · have dropped :
        rest = accepted.drop (accepted.length - dedup.capacity + 1) := by
      rw [← tail_drop, ← window.order, isOrder, tail_cons]
    have positive := dedup.positive
    have later :
        (accepted ++ [id]).length - dedup.capacity =
          accepted.length - dedup.capacity + 1 := by
      rw [length_append, length_singleton]
      omega
    show rest ++ [id] =
      (accepted ++ [id]).drop ((accepted ++ [id]).length - dedup.capacity)
    rw [later, drop_append_of_le_length (by omega), ← dropped]
  · exact distinct.2.append (nodup_singleton id)
      (disjoint_singleton.mpr unlisted)
  · simp only [seenRest, toFinset_append, toFinset_cons,
      toFinset_nil, insert_empty_eq, Finset.union_singleton]

theorem push_roomy
    {id : EventId}
    (unseen : id ∉ dedup.seen)
    (roomy : dedup.order.length < dedup.capacity) :
    Window (dedup.isNew id).1 (accepted ++ [id]) := by
  have long := window.length_order
  have isAll : dedup.order = accepted := by
    rw [window.order, Nat.sub_eq_zero_of_le (by omega), drop_zero]
  have result :
      (dedup.isNew id).1 =
        { dedup with
          order := dedup.order ++ [id]
          seen := insert id dedup.seen } := by
    rw [isNew, if_neg unseen]
    simp only [ge_iff_le, if_neg (Nat.not_le_of_lt roomy)]
  rw [result]
  refine ⟨?_, ?_, ?_⟩
  · have none : (accepted ++ [id]).length - dedup.capacity = 0 := by
      rw [length_append, length_singleton]
      omega
    show dedup.order ++ [id] =
      (accepted ++ [id]).drop ((accepted ++ [id]).length - dedup.capacity)
    rw [none, drop_zero, isAll]
  · exact window.distinct.append (nodup_singleton id)
      (disjoint_singleton.mpr
        fun isListed => unseen ((window.mem_seen id).mpr isListed))
  · simp only [window.seen, toFinset_append, toFinset_cons,
      toFinset_nil, insert_empty_eq, Finset.union_singleton]

theorem isNew
    (id : EventId) :
    Window (dedup.isNew id).1
      (accepted ++ if (dedup.isNew id).2 then [id] else []) := by
  by_cases isSeen : id ∈ dedup.seen
  · rw [EventIdDedup.isNew, if_pos isSeen, if_neg Bool.false_ne_true,
      append_nil]
    exact window
  · have fresh : (dedup.isNew id).2 = true := by
      rw [EventIdDedup.isNew, if_neg isSeen]
    rw [if_pos fresh]
    rcases le_or_gt dedup.capacity dedup.order.length with full | roomy
    · exact window.push_full isSeen full
    · exact window.push_roomy isSeen roomy

/-- Over a whole run the set stays the window over all accepted ids. -/
theorem afterCalls
    (ids : List EventId) :
    Window (dedup.afterCalls ids) (accepted ++ dedup.accepted ids) ∧
      (dedup.afterCalls ids).capacity = dedup.capacity := by
  induction ids generalizing dedup accepted with
  | nil =>
    rw [EventIdDedup.accepted, append_nil]
    exact ⟨window, rfl⟩
  | cons id rest inductionHypothesis =>
    obtain ⟨later, sameCapacity⟩ := inductionHypothesis (window.isNew id)
    rw [append_assoc] at later
    exact ⟨later, sameCapacity.trans (capacity_isNew dedup id)⟩

end

end Window

/-- An id is a duplicate exactly if it is among the last accepted ids, as many
as the capacity allows; the queue and the set hold exactly these. -/
theorem isNew_window
    (capacity : Nat)
    (positive : 0 < capacity) :
    ∃ fresh,
      new capacity = some fresh ∧
        ∀ ids id,
          let dedup := fresh.afterCalls ids
          let accepted := fresh.accepted ids
          let window :=
            accepted.drop (accepted.length - min capacity accepted.length)
          ((dedup.isNew id).2 = false ↔ id ∈ window) ∧
            dedup.order = window ∧ window.Nodup ∧
            (∀ other, other ∈ dedup.seen ↔ other ∈ window) ∧
            dedup.len ≤ capacity := by
  refine ⟨{ capacity := capacity, positive := positive }, dif_pos positive,
    ?_⟩
  intro ids id dedup accepted window
  obtain ⟨isWindow, sameCapacity⟩ := (Window.initial positive).afterCalls ids
  rw [nil_append] at isWindow
  have isOrder : dedup.order = window := by
    have same :
        accepted.length - capacity =
          accepted.length - min capacity accepted.length := by
      omega
    rw [isWindow.order, sameCapacity]
    exact congrArg accepted.drop same
  rw [← isOrder]
  refine ⟨isWindow.isNew_eq_false_iff id, rfl, isWindow.distinct,
    isWindow.mem_seen, ?_⟩
  rw [isWindow.len_eq, sameCapacity]
  exact Nat.min_le_left _ _

/-- An id that was forgotten is new again. -/
theorem isNew_window_two :
    ∃ fresh,
      new 2 = some fresh ∧
        ((fresh.afterCalls [1, 2, 3]).isNew 1).2 ≠ false := by
  obtain ⟨fresh, isFresh, windows⟩ := isNew_window 2 (by decide)
  refine ⟨fresh, isFresh, ?_⟩
  rw [Ne, (windows [1, 2, 3] 1).1]
  cases isFresh
  decide

end EventIdDedup

end Mitiflow
