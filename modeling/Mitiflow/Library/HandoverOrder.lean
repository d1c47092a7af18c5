import Mitiflow.Library.LogHandover

namespace Mitiflow.Library.Handover

open List

/-!
# The order of a handover

Items belong to lanes and have ranks.  The log is fetched in the order of the
ranks and the stream offers every lane in rising rank, but the reader changes
from one to the other: what it takes is in order only if the moves that lead
to the change respect the order too.  The module says which moves those are.
-/

section Order

variable {Item Lane Rank : Type} [LinearOrder Rank]
  (lane : Item → Lane)
  (rank : Item → Rank)

/-- The ranks of a lane never fall. -/
def Ordered (items : List Item) : Prop :=
  items.Pairwise fun first second =>
    lane first = lane second → rank first ≤ rank second

/-- The ranks of a lane rise. -/
def Rising (items : List Item) : Prop :=
  items.Pairwise fun first second =>
    lane first = lane second → rank first < rank second

instance Ordered.decidable [DecidableEq Lane] (items : List Item) :
    Decidable (Ordered lane rank items) :=
  inferInstanceAs (Decidable (items.Pairwise _))

instance Rising.decidable [DecidableEq Lane] (items : List Item) :
    Decidable (Rising lane rank items) :=
  inferInstanceAs (Decidable (items.Pairwise _))

/-- An item comes after all items of its lane. -/
def Follows (items : List Item) (item : Item) : Prop :=
  ∀ other ∈ items, lane other = lane item → rank other ≤ rank item

instance Follows.decidable
    [DecidableEq Lane]
    (items : List Item)
    (item : Item) :
    Decidable (Follows lane rank items item) :=
  inferInstanceAs (Decidable (∀ other ∈ items, _))

/--
The moves that keep the order.  What the reader keeps from the channel when it
goes live, and what is forwarded from then on, follows what was fetched; and
nothing is taken from the channel while the overlap holds an item of its lane.
-/
def Orderly (state : Handover Item) : Move Item → Prop
  | .forward =>
    state.live = true →
      ∀ item ∈ state.inbox.head?, Follows lane rank state.fetched item
  | .goLive seen =>
    ∀ item ∈ state.channel,
      seen item = false → Follows lane rank state.fetched item
  | .takeLive =>
    ∀ item ∈ state.channel.head?,
      ∀ other ∈ state.overlap, lane other ≠ lane item
  | .idle | .publish _ | .offer _ _ | .discard | .fetch _ | .takeBuffered
  | .takeOverlap => True

/-- What orderly moves keep. -/
structure InOrder (state : Handover Item) : Prop where
  taken : Ordered lane rank state.taken
  afterFetched :
    state.live = true →
      ∀ item ∈ state.overlap ++ state.channel,
        Follows lane rank state.fetched item
  afterTaken :
    ∀ item ∈ state.taken,
      item ∈ state.fetched ∨
        ∀ other ∈ state.queue, lane item = lane other →
          rank item ≤ rank other

/-- A live reader that took an item too early, or is about to take one. -/
structure Disordered (state : Handover Item) : Prop where
  live : state.live = true
  fault :
    ¬Ordered lane rank state.taken ∨
      ∃ early ∈ state.taken, ∃ late ∈ state.overlap ++ state.channel,
        lane early = lane late ∧ rank late < rank early

variable {lane rank} {state : Handover Item}

variable {item : Item}

theorem Ordered.snoc
    {items : List Item}
    (ordered : Ordered lane rank items)
    (follows : Follows lane rank items item) :
    Ordered lane rank (items ++ [item]) := by
  refine pairwise_append.mpr
    ⟨ordered, pairwise_singleton _ _, fun other isOther last isLast => ?_⟩
  rw [mem_singleton.mp isLast]
  exact follows other isOther

/-! ## What the reader has seen so far -/

variable {move : Move Item}

/-- What is on its way is in the order in which it was offered. -/
theorem queue_sublist_step
    (inOrder : state.queue.Sublist state.offered)
    (possible : state.Possible move) :
    (state.step move).queue.Sublist (state.step move).offered := by
  cases move with
  | idle | publish item | fetch batch | takeBuffered =>
    exact inOrder
  | offer item heard =>
    grind [queue, step]
  | forward =>
    rw [queue_forward]
    exact inOrder
  | discard =>
    exact state.queue_discard.trans inOrder
  | goLive seen =>
    exact (state.queue_goLive seen).trans inOrder
  | takeOverlap =>
    obtain ⟨item, rest, isOverlap⟩ := exists_cons_of_ne_nil possible
    exact (TakesQueued.takeOverlap isOverlap).sublist.trans inOrder
  | takeLive =>
    obtain ⟨item, rest, isChannel⟩ := exists_cons_of_ne_nil possible.2
    exact (TakesQueued.takeLive isChannel).sublist.trans inOrder

/-- What was offered and fetched is only added to. -/
theorem prefix_step (state : Handover Item) (move : Move Item) :
    state.offered <+: (state.step move).offered ∧
      state.fetched <+: (state.step move).fetched := by
  cases move with
  | offer item heard =>
    exact ⟨prefix_append _ _, prefix_rfl⟩
  | fetch batch =>
    exact ⟨prefix_rfl, prefix_append _ _⟩
  | _ =>
    exact ⟨prefix_rfl, prefix_rfl⟩

theorem prefix_run (state : Handover Item) (moves : List (Move Item)) :
    state.offered <+: (moves.foldl step state).offered ∧
      state.fetched <+: (moves.foldl step state).fetched := by
  induction moves generalizing state with
  | nil =>
    exact ⟨prefix_rfl, prefix_rfl⟩
  | cons move rest inductionHypothesis =>
    obtain ⟨offered, fetched⟩ := state.prefix_step move
    obtain ⟨laterOffered, laterFetched⟩ := inductionHypothesis (state.step move)
    exact ⟨offered.trans laterOffered, fetched.trans laterFetched⟩

/-! ## Orderly runs -/

namespace InOrder

/-- An item is taken from the queue, after all that was taken before it. -/
theorem takeQueued
    (inOrder : InOrder lane rank state)
    {next : Handover Item}
    (takes : TakesQueued state next item)
    (sameFetched : next.fetched = state.fetched)
    (follows : Follows lane rank state.fetched item)
    (first :
      ∀ other ∈ next.queue, lane item = lane other →
        rank item ≤ rank other) :
    Ordered lane rank next.taken ∧
      ∀ other ∈ next.taken,
        other ∈ next.fetched ∨
          ∀ queued ∈ next.queue, lane other = lane queued →
            rank other ≤ rank queued := by
  rw [sameFetched]
  constructor
  · rw [takes.taken]
    refine inOrder.taken.snoc fun other isTaken sameLane => ?_
    rcases inOrder.afterTaken other isTaken with isFetched | before
    · exact follows other isFetched sameLane
    · exact before item takes.isQueued sameLane
  · intro other isTaken
    rcases takes.mem_taken.mp isTaken with before | isItem
    · rcases inOrder.afterTaken other before with isFetched | precedes
      · exact Or.inl isFetched
      · exact Or.inr fun queued isQueued =>
          precedes queued (takes.sublist.subset isQueued)
    · rw [isItem]
      exact Or.inr first

theorem offer
    (sound : state.Sound)
    (inOrder : InOrder lane rank state)
    {heard : Bool}
    (rising : Rising lane rank (state.step (.offer item heard)).offered) :
    InOrder lane rank (state.step (.offer item heard)) := by
  refine { inOrder with afterTaken := fun other isTaken => ?_ }
  rcases inOrder.afterTaken other isTaken with isFetched | precedes
  · exact Or.inl isFetched
  · rcases sound.takenFrom other isTaken with isFetched | isOffered
    · exact Or.inl isFetched
    · refine Or.inr fun queued isQueued sameLane => ?_
      simp only [queue, Handover.step] at isQueued
      split at isQueued
      · rw [← append_assoc] at isQueued
        rcases mem_append.mp isQueued with before | isItem
        · exact precedes queued before sameLane
        · exact le_of_lt ((pairwise_append.mp rising).2.2 other isOffered
            queued isItem sameLane)
      · exact precedes queued isQueued sameLane

theorem forward
    (inOrder : InOrder lane rank state)
    (orderly : Orderly lane rank state .forward) :
    InOrder lane rank (state.step .forward) := by
  refine
    { inOrder with
      afterFetched := fun isLive item isNext => ?_
      afterTaken := fun item isTaken => ?_ }
  · grind [step, InOrder, Orderly]
  · rw [queue_forward]
    exact inOrder.afterTaken item isTaken

theorem afterTaken_of_sublist
    (inOrder : InOrder lane rank state)
    {next : Handover Item}
    (shorter : next.queue.Sublist state.queue)
    (sameTaken : next.taken = state.taken)
    (sameFetched : next.fetched = state.fetched) :
    ∀ item ∈ next.taken,
      item ∈ next.fetched ∨
        ∀ other ∈ next.queue, lane item = lane other →
          rank item ≤ rank other := by
  rw [sameTaken, sameFetched]
  intro item isTaken
  rcases inOrder.afterTaken item isTaken with isFetched | precedes
  · exact Or.inl isFetched
  · exact Or.inr fun other isQueued => precedes other (shorter.subset isQueued)

theorem goLive
    (sound : state.Sound)
    (inOrder : InOrder lane rank state)
    {seen : Item → Bool}
    (notLive : state.live = false)
    (orderly : Orderly lane rank state (.goLive seen)) :
    InOrder lane rank (state.step (.goLive seen)) := by
  refine
    { taken := inOrder.taken
      afterFetched := fun _ item isKept => ?_
      afterTaken :=
        inOrder.afterTaken_of_sublist (state.queue_goLive seen) rfl rfl }
  simp only [Handover.step, (sound.beforeLive notLive).2, nil_append,
    append_nil, mem_filter, Bool.not_eq_true'] at isKept
  exact orderly item isKept.1 isKept.2

/-- What is taken before the reader is live was fetched. -/
theorem of_takeBuffered
    (sound : state.Sound)
    (ordered : Ordered lane rank state.fetched)
    (some : state.buffer ≠ []) :
    InOrder lane rank (state.step .takeBuffered) := by
  have notLive := sound.notLive_of_buffer some
  have taken := ((sound.takeBuffered some).beforeLive notLive).1
  refine
    { taken := ?_
      afterFetched := fun isLive => by cases notLive.symm.trans isLive
      afterTaken := fun item isTaken => Or.inl ?_ }
  · refine ordered.sublist ?_
    change _ ++ _ = state.fetched at taken
    rw [← taken]
    exact sublist_append_left _ _
  · rw [← taken]
    exact mem_append_left _ isTaken

/-- The first item of the overlap comes before all that is on its way. -/
theorem takeOverlap
    (sound : state.Sound)
    (inOrder : InOrder lane rank state)
    (rising : Rising lane rank state.queue)
    (some : state.overlap ≠ []) :
    InOrder lane rank (state.step .takeOverlap) := by
  have isLive := sound.live_of_overlap some
  obtain ⟨item, rest, isOverlap⟩ := exists_cons_of_ne_nil some
  have isQueue :
      state.queue = item :: (state.step .takeOverlap).queue := by
    simp [queue, Handover.step, isOverlap]
  rw [isQueue] at rising
  have isNext : item ∈ state.overlap ++ state.channel := by
    rw [isOverlap]
    exact mem_cons_self
  obtain ⟨taken, afterTaken⟩ :=
    inOrder.takeQueued (TakesQueued.takeOverlap isOverlap) rfl
      (inOrder.afterFetched isLive item isNext)
      fun other isQueued sameLane =>
        le_of_lt (rel_of_pairwise_cons rising isQueued sameLane)
  refine
    { taken := taken
      afterFetched := fun _ other isLater => ?_
      afterTaken := afterTaken }
  refine inOrder.afterFetched isLive other ?_
  exact ((tail_sublist _).append (List.Sublist.refl _)).subset isLater

/-- The first item of the channel, unless the overlap has one of its lane. -/
theorem takeLive
    (inOrder : InOrder lane rank state)
    (rising : Rising lane rank state.queue)
    (isLive : state.live = true)
    (some : state.channel ≠ [])
    (orderly : Orderly lane rank state .takeLive) :
    InOrder lane rank (state.step .takeLive) := by
  obtain ⟨item, rest, isChannel⟩ := exists_cons_of_ne_nil some
  have isNext : item ∈ state.overlap ++ state.channel := by
    rw [isChannel]
    exact mem_append_right _ mem_cons_self
  have isQueue :
      state.queue = state.overlap ++ item :: (rest ++ state.inbox) := by
    simp [queue, isChannel]
  rw [isQueue] at rising
  have first :
      ∀ other ∈ (state.step .takeLive).queue, lane item = lane other →
        rank item ≤ rank other := by
    intro other isQueued sameLane
    simp only [queue, Handover.step, isChannel, tail_cons,
      append_assoc] at isQueued
    rcases mem_append.mp isQueued with isKept | isLater
    · grind [Orderly]
    · exact le_of_lt (rel_of_pairwise_cons
        (pairwise_append.mp rising).2.1 isLater sameLane)
  obtain ⟨taken, afterTaken⟩ :=
    inOrder.takeQueued (TakesQueued.takeLive isChannel) rfl
      (inOrder.afterFetched isLive item isNext) first
  refine
    { taken := taken
      afterFetched := fun _ other isLater => ?_
      afterTaken := afterTaken }
  refine inOrder.afterFetched isLive other ?_
  exact ((List.Sublist.refl _).append (tail_sublist _)).subset isLater

theorem step
    (sound : state.Sound)
    (inOrder : InOrder lane rank state)
    (queued : state.queue.Sublist state.offered)
    (rising : Rising lane rank (state.step move).offered)
    (ordered : Ordered lane rank (state.step move).fetched)
    (possible : state.Possible move)
    (orderly : Orderly lane rank state move) :
    InOrder lane rank (state.step move) := by
  have risingQueue : Rising lane rank state.queue :=
    rising.sublist (queued.trans (state.prefix_step move).1.sublist)
  cases move with
  | idle | publish item =>
    exact { inOrder with }
  | offer item heard =>
    exact inOrder.offer sound rising
  | forward =>
    exact inOrder.forward orderly
  | discard =>
    exact
      { inOrder with
        afterTaken :=
          inOrder.afterTaken_of_sublist state.queue_discard rfl rfl }
  | fetch batch =>
    refine
      { taken := inOrder.taken
        afterFetched := fun isLive => by cases possible.1.symm.trans isLive
        afterTaken := fun item isTaken => ?_ }
    exact (inOrder.afterTaken item isTaken).imp_left (mem_append_left _)
  | goLive seen =>
    exact inOrder.goLive sound possible.1 orderly
  | takeBuffered =>
    exact of_takeBuffered sound ordered possible
  | takeOverlap =>
    exact inOrder.takeOverlap sound risingQueue possible
  | takeLive =>
    exact inOrder.takeLive risingQueue possible.1 possible.2 orderly

end InOrder

/-! ## Other runs -/

namespace Disordered

/-- An item taken after one of its lane with a higher rank. -/
theorem not_ordered_snoc
    {items : List Item}
    {early late : Item}
    (isEarly : early ∈ items)
    (sameLane : lane early = lane late)
    (falls : rank late < rank early) :
    ¬Ordered lane rank (items ++ [late]) := by
  intro ordered
  have rises :=
    (pairwise_append.mp ordered).2.2 early isEarly late
      mem_cons_self sameLane
  exact absurd falls (not_lt_of_ge rises)

theorem not_ordered_step
    (spoiled : ¬Ordered lane rank state.taken)
    (move : Move Item) :
    ¬Ordered lane rank (state.step move).taken := by
  intro ordered
  refine spoiled (ordered.sublist ?_)
  cases move with
  | takeBuffered | takeOverlap | takeLive =>
    exact sublist_append_left _ _
  | _ =>
    exact List.Sublist.refl _

/-- No move repairs the order. -/
theorem step
    (sound : state.Sound)
    (disordered : Disordered lane rank state)
    (possible : state.Possible move) :
    Disordered lane rank (state.step move) := by
  obtain ⟨isLive, spoiled | ⟨early, isEarly, late, isLate, sameLane, falls⟩⟩ :=
    disordered
  · refine ⟨?_, Or.inl (not_ordered_step spoiled move)⟩
    cases move with
    | goLive seen => rfl
    | _ => exact isLive
  · have stays
        {next : Handover Item}
        (live : next.live = true)
        (isTaken : early ∈ next.taken)
        (isNext : late ∈ next.overlap ++ next.channel) :
        Disordered lane rank next :=
      ⟨live, Or.inr ⟨early, isTaken, late, isNext, sameLane, falls⟩⟩
    cases move with
    | idle | publish item | offer item heard | discard | fetch batch =>
      exact stays isLive isEarly isLate
    | forward =>
      refine stays isLive isEarly ?_
      simp only [Handover.step, ← append_assoc]
      exact mem_append_left _ isLate
    | goLive seen =>
      cases possible.1.symm.trans isLive
    | takeBuffered =>
      exact absurd (sound.afterLive isLive).1 possible
    | takeOverlap =>
      obtain ⟨first, rest, isOverlap⟩ := exists_cons_of_ne_nil possible
      rw [isOverlap, cons_append] at isLate
      rcases mem_cons.mp isLate with isFirst | isLater
      · refine ⟨isLive, Or.inl ?_⟩
        simp only [Handover.step, isOverlap, List.head?_cons,
          Option.toList_some, ← isFirst]
        exact not_ordered_snoc isEarly sameLane falls
      · refine stays isLive (mem_append_left _ isEarly) ?_
        simp only [Handover.step, isOverlap, tail_cons]
        exact isLater
    | takeLive =>
      obtain ⟨first, rest, isChannel⟩ := exists_cons_of_ne_nil possible.2
      rw [isChannel] at isLate
      rcases mem_append.mp isLate with isKept | isFromChannel
      · exact stays isLive (mem_append_left _ isEarly)
          (mem_append_left _ isKept)
      · rcases mem_cons.mp isFromChannel with isFirst | isLater
        · refine ⟨isLive, Or.inl ?_⟩
          simp only [Handover.step, isChannel, List.head?_cons,
            Option.toList_some, ← isFirst]
          exact not_ordered_snoc isEarly sameLane falls
        · grind [Handover.step]

theorem of_forward
    (sound : state.Sound)
    (rough : ¬Orderly lane rank state .forward) :
    Disordered lane rank (state.step .forward) := by
  obtain ⟨isLive, item, isHead, other, isFetched, sameLane, falls⟩ :
      state.live = true ∧
        ∃ item, state.inbox.head? = some item ∧
          ∃ other ∈ state.fetched,
            lane other = lane item ∧ rank item < rank other := by
    simpa [Orderly, Follows] using rough
  refine ⟨isLive, Or.inr ⟨other, (sound.afterLive isLive).2.1 isFetched,
    item, ?_, sameLane, falls⟩⟩
  simp only [Handover.step, isHead, Option.toList_some]
  exact mem_append_right _ (mem_append_right _ mem_cons_self)

theorem of_goLive
    (sound : state.Sound)
    {seen : Item → Bool}
    (notLive : state.live = false)
    (noBuffer : state.buffer = [])
    (rough : ¬Orderly lane rank state (.goLive seen)) :
    Disordered lane rank (state.step (.goLive seen)) := by
  obtain ⟨item, inChannel, unseen, other, isFetched, sameLane, falls⟩ :
      ∃ item ∈ state.channel, seen item = false ∧
        ∃ other ∈ state.fetched,
          lane other = lane item ∧ rank item < rank other := by
    simpa [Orderly, Follows] using rough
  have taken := (sound.beforeLive notLive).1
  rw [noBuffer, append_nil] at taken
  rw [← taken] at isFetched
  refine ⟨rfl, Or.inr ⟨other, isFetched, item, ?_, sameLane, falls⟩⟩
  refine mem_append_left _ (mem_append_right _ ?_)
  exact mem_filter.mpr ⟨inChannel, by rw [unseen]; rfl⟩

/-- An item of the channel overtakes one of the overlap. -/
theorem of_takeLive
    (rising : Rising lane rank state.queue)
    (isLive : state.live = true)
    (rough : ¬Orderly lane rank state .takeLive) :
    Disordered lane rank (state.step .takeLive) := by
  obtain ⟨item, isHead, other, isKept, sameLane⟩ :
      ∃ item, state.channel.head? = some item ∧
        ∃ other ∈ state.overlap, lane other = lane item := by
    simpa [Orderly] using rough
  have inChannel : item ∈ state.channel := mem_of_head? isHead
  have rises : rank other < rank item :=
    (pairwise_append.mp (pairwise_append.mp rising).1).2.2
      other isKept item inChannel sameLane
  refine ⟨isLive, Or.inr ⟨item, ?_, other, mem_append_left _ isKept,
    sameLane.symm, rises⟩⟩
  simp only [Handover.step, isHead, Option.toList_some]
  exact mem_append_right _ mem_cons_self

/-- A move that is not orderly spoils the order. -/
theorem of_not_orderly
    (sound : state.Sound)
    (rising : Rising lane rank state.queue)
    (possible : state.Possible move)
    (rough : ¬Orderly lane rank state move) :
    Disordered lane rank (state.step move) := by
  cases move with
  | idle | publish item | offer item heard | discard | fetch batch
  | takeBuffered | takeOverlap =>
    exact absurd trivial rough
  | forward =>
    exact of_forward sound rough
  | goLive seen =>
    exact of_goLive sound possible.1 possible.2.1 rough
  | takeLive =>
    exact of_takeLive rising possible.1 rough

end Disordered

/-! ## Runs -/

theorem inOrder_initial : InOrder lane rank ({} : Handover Item) where
  taken := List.Pairwise.nil
  afterFetched := fun isLive => by cases isLive
  afterTaken := fun _ isTaken => by cases isTaken

/--
Over a possible run whose stream rises and whose log is fetched in order,
orderly moves keep the order and any other spoils it for good.
-/
theorem inOrder_run
    {moves : List (Move Item)}
    (possible : GuardedRun step Possible state moves)
    (rising : Rising lane rank (moves.foldl step state).offered)
    (ordered : Ordered lane rank (moves.foldl step state).fetched)
    (sound : state.Sound)
    (queued : state.queue.Sublist state.offered) :
    (InOrder lane rank state →
        GuardedRun step (Orderly lane rank) state moves →
          InOrder lane rank (moves.foldl step state)) ∧
      (Disordered lane rank state ∨
          ¬GuardedRun step (Orderly lane rank) state moves →
        Disordered lane rank (moves.foldl step state)) := by
  induction moves generalizing state with
  | nil =>
    exact ⟨fun inOrder _ => inOrder,
      fun spoiled => spoiled.resolve_right fun rough => rough trivial⟩
  | cons move rest inductionHypothesis =>
    obtain ⟨laterOffered, laterFetched⟩ := (state.step move).prefix_run rest
    have risingNext := rising.sublist laterOffered.sublist
    have risingQueue : Rising lane rank state.queue :=
      risingNext.sublist (queued.trans (state.prefix_step move).1.sublist)
    obtain ⟨keeps, spoils⟩ :=
      inductionHypothesis possible.2 rising ordered
        (sound.step possible.1) (queue_sublist_step queued possible.1)
    constructor
    · intro inOrder orderly
      exact keeps
        (inOrder.step sound queued risingNext
          (ordered.sublist laterFetched.sublist) possible.1 orderly.1)
        orderly.2
    · rintro (disordered | rough)
      · exact spoils (Or.inl (disordered.step sound possible.1))
      · by_cases orderly : Orderly lane rank state move
        · exact spoils (Or.inr fun later => rough ⟨orderly, later⟩)
        · exact spoils (Or.inl
            (Disordered.of_not_orderly sound risingQueue possible.1 orderly))

/--
What orderly moves lead to taking is in order.  With nothing left in the
overlap and the channel it is in order only after orderly moves.
-/
theorem ordered_run_iff
    {moves : List (Move Item)}
    (possible : GuardedRun step Possible {} moves)
    (rising : Rising lane rank (moves.foldl step {}).offered)
    (ordered : Ordered lane rank (moves.foldl step {}).fetched) :
    (GuardedRun step (Orderly lane rank) {} moves →
        Ordered lane rank (moves.foldl step {}).taken) ∧
      ((moves.foldl step {}).overlap = [] →
        (moves.foldl step {}).channel = [] →
          (Ordered lane rank (moves.foldl step {}).taken ↔
            GuardedRun step (Orderly lane rank) {} moves)) := by
  obtain ⟨keeps, spoils⟩ :=
    inOrder_run possible rising ordered sound_initial (List.Sublist.refl _)
  have sufficient :
      GuardedRun step (Orderly lane rank) {} moves →
        Ordered lane rank (moves.foldl step {}).taken :=
    fun orderly => (keeps inOrder_initial orderly).taken
  refine ⟨sufficient, fun noOverlap noChannel => ⟨fun inOrder => ?_,
    sufficient⟩⟩
  by_contra rough
  rcases (spoils (Or.inr rough)).fault with
    spoiled | ⟨_, _, late, isLate, _⟩
  · exact spoiled inOrder
  · rw [noOverlap, noChannel] at isLate
    cases isLate

end Order

end Mitiflow.Library.Handover
