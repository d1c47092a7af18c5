import Mathlib
import Mitiflow.Library.GuardedRun

namespace Mitiflow.Library

open List

/-!
# From a log to a live stream

A reader first fetches the items of a log and then goes over to a stream that
offers each item once.  Between the log and the reader there is a buffer;
between the stream and the reader there are an inbox, which gets the items
that are heard, and a channel.  When the reader goes live it drops from the
channel what it has seen and keeps the rest as its overlap.

The reader is free to go live before it hears what is offered and while items
are still on their way, so items may be lost or taken twice.  The module says
which moves cause that.
-/

/-- A reader on its way from a log to a stream. -/
structure Handover (Item : Type) where
  published : List Item := []
  offered : List Item := []
  fetched : List Item := []
  buffer : List Item := []
  overlap : List Item := []
  channel : List Item := []
  inbox : List Item := []
  live : Bool := false
  taken : List Item := []

namespace Handover

variable {Item : Type}

/-- What can happen next. -/
inductive Move (Item : Type) where
  | idle
  | publish (item : Item)
  | offer (item : Item) (heard : Bool)
  | forward
  | discard
  | fetch (batch : List Item)
  | goLive (seen : Item → Bool)
  | takeBuffered
  | takeOverlap
  | takeLive

/-- One move. -/
def step (state : Handover Item) : Move Item → Handover Item
  | .idle => state
  | .publish item => { state with published := state.published ++ [item] }
  | .offer item heard =>
    { state with
      offered := state.offered ++ [item]
      inbox := if heard then state.inbox ++ [item] else state.inbox }
  | .forward =>
    { state with
      channel := state.channel ++ state.inbox.head?.toList
      inbox := state.inbox.tail }
  | .discard => { state with inbox := state.inbox.tail }
  | .fetch batch =>
    { state with
      fetched := state.fetched ++ batch
      buffer := state.buffer ++ batch }
  | .goLive seen =>
    { state with
      overlap := state.overlap ++ state.channel.filter (!seen ·)
      channel := []
      live := true }
  | .takeBuffered =>
    { state with
      buffer := state.buffer.tail
      taken := state.taken ++ state.buffer.head?.toList }
  | .takeOverlap =>
    { state with
      overlap := state.overlap.tail
      taken := state.taken ++ state.overlap.head?.toList }
  | .takeLive =>
    { state with
      channel := state.channel.tail
      taken := state.taken ++ state.channel.head?.toList }

/-- What is on its way from the stream. -/
def queue (state : Handover Item) : List Item :=
  state.overlap ++ state.channel ++ state.inbox

/--
The moves of a reader that fetches new items of the log until it goes live,
which it does with an empty buffer and with all it took before in sight.
-/
def Possible (state : Handover Item) : Move Item → Prop
  | .publish item => item ∉ state.published
  | .offer item _ => item ∈ state.published ∧ item ∉ state.offered
  | .fetch batch =>
    state.live = false ∧ batch.Nodup ∧ batch ⊆ state.published ∧
      ∀ item ∈ batch, item ∉ state.fetched
  | .goLive seen =>
    state.live = false ∧ state.buffer = [] ∧
      ∀ item ∈ state.taken, seen item = true
  | .forward | .discard => state.inbox ≠ []
  | .takeBuffered => state.buffer ≠ []
  | .takeOverlap => state.overlap ≠ []
  | .takeLive => state.live = true ∧ state.channel ≠ []
  | .idle => True

/--
The moves that lose nothing and take nothing twice.  Once live, an item that
is not heard was fetched, and one is forwarded if it was not fetched and
discarded if it was; and the reader goes live when every offered item was
fetched or is on its way.
-/
def Smooth (state : Handover Item) : Move Item → Prop
  | .offer item heard =>
    state.live = true → heard = false → item ∈ state.fetched
  | .forward =>
    state.live = true → ∀ item ∈ state.inbox.head?, item ∉ state.fetched
  | .discard =>
    state.live = true → ∀ item ∈ state.inbox.head?, item ∈ state.fetched
  | .goLive seen =>
    ∀ item ∈ state.offered,
      item ∈ state.fetched ∨ item ∈ state.inbox ∨
        item ∈ state.channel ∧ seen item = false
  | .idle | .publish _ | .fetch _ | .takeBuffered
  | .takeOverlap | .takeLive => True

/-! ## What holds in every run -/

/-- What possible moves keep. -/
structure Sound (state : Handover Item) : Prop where
  fetchedPublished : state.fetched ⊆ state.published
  offeredPublished : state.offered ⊆ state.published
  fetchedOnce : state.fetched.Nodup
  queuedOffered : state.queue ⊆ state.offered
  queuedOnce : state.queue.Nodup
  takenFrom : ∀ item ∈ state.taken, item ∈ state.fetched ∨ item ∈ state.offered
  takenQueued :
    ∀ item ∈ state.queue, item ∈ state.taken → item ∈ state.fetched
  beforeLive :
    state.live = false →
      state.taken ++ state.buffer = state.fetched ∧ state.overlap = []
  afterLive :
    state.live = true →
      state.buffer = [] ∧ state.fetched ⊆ state.taken ∧
        ∀ item ∈ state.overlap, item ∉ state.fetched

theorem queue_forward (state : Handover Item) :
    (state.step .forward).queue = state.queue := by
  cases isInbox : state.inbox with
  | nil =>
    simp [queue, step, isInbox]
  | cons item rest =>
    simp [queue, step, isInbox]

theorem queue_discard (state : Handover Item) :
    (state.step .discard).queue.Sublist state.queue :=
  List.Sublist.append (List.Sublist.refl _) (tail_sublist _)

theorem queue_goLive (state : Handover Item) (seen : Item → Bool) :
    (state.step (.goLive seen)).queue.Sublist state.queue := by
  grind [filter_sublist, queue, step]

/-- An item goes from the queue to what is taken. -/
structure TakesQueued
    (state next : Handover Item)
    (item : Item) : Prop where
  split :
    ∃ earlier later,
      state.queue = earlier ++ item :: later ∧ next.queue = earlier ++ later
  taken : next.taken = state.taken ++ [item]

namespace TakesQueued

variable {state next : Handover Item} {item : Item}

theorem takeOverlap
    {rest : List Item}
    (isOverlap : state.overlap = item :: rest) :
    TakesQueued state (state.step .takeOverlap) item := by
  refine ⟨⟨[], rest ++ state.channel ++ state.inbox, ?_, ?_⟩, ?_⟩
  · simp [queue, isOverlap]
  · simp [queue, step, isOverlap]
  · simp [step, isOverlap]

theorem takeLive
    {rest : List Item}
    (isChannel : state.channel = item :: rest) :
    TakesQueued state (state.step .takeLive) item := by
  refine ⟨⟨state.overlap, rest ++ state.inbox, ?_, ?_⟩, ?_⟩
  · simp [queue, isChannel]
  · simp [queue, step, isChannel]
  · simp [step, isChannel]

variable (takes : TakesQueued state next item)

include takes

theorem isQueued : item ∈ state.queue := by
  obtain ⟨earlier, later, isQueue, _⟩ := takes.split
  rw [isQueue]
  exact mem_append_right _ mem_cons_self

theorem sublist : next.queue.Sublist state.queue := by
  grind [takes.split]

theorem mem_taken {other : Item} :
    other ∈ next.taken ↔ other ∈ state.taken ∨ other = item := by
  rw [takes.taken, mem_append, mem_singleton]

end TakesQueued

variable {seen : Item → Bool}

namespace Sound

variable {state : Handover Item}

section

variable (sound : state.Sound)

include sound

/-- A shorter queue, with nothing else changed that bears on it. -/
theorem of_sublist
    (next : Handover Item)
    (shorter : next.queue.Sublist state.queue)
    (sameTaken : next.taken = state.taken)
    (sameFetched : next.fetched = state.fetched) :
    next.queue ⊆ state.offered ∧ next.queue.Nodup ∧
      ∀ item ∈ next.queue, item ∈ next.taken → item ∈ next.fetched := by
  grind [Sound]

theorem offer
    {item : Item}
    (isPublished : item ∈ state.published)
    (isNew : item ∉ state.offered)
    (heard : Bool) :
    (state.step (.offer item heard)).Sound := by
  have queued :
      ∀ other ∈ (state.step (.offer item heard)).queue,
        other ∈ state.queue ∨ other = item := by
    intro other member
    simp only [queue, step] at member ⊢
    split at member
    · simpa [or_assoc] using member
    · exact Or.inl member
  refine
    { fetchedPublished := sound.fetchedPublished
      offeredPublished := ?_
      fetchedOnce := sound.fetchedOnce
      queuedOffered := ?_
      queuedOnce := ?_
      takenFrom := ?_
      takenQueued := ?_
      beforeLive := sound.beforeLive
      afterLive := sound.afterLive }
  · grind [sound.offeredPublished, step]
  · grind [sound.queuedOffered, step]
  · grind [queue, step, sound.queuedOffered, sound.queuedOnce]
  · grind [sound.takenFrom, step]
  · grind [sound.takenQueued, sound.takenFrom, step]

theorem fetch
    {batch : List Item}
    (notLive : state.live = false)
    (once : batch.Nodup)
    (isPublished : batch ⊆ state.published)
    (isNew : ∀ item ∈ batch, item ∉ state.fetched) :
    (state.step (.fetch batch)).Sound := by
  obtain ⟨taken, noOverlap⟩ := sound.beforeLive notLive
  refine
    { fetchedPublished :=
        append_subset.mpr ⟨sound.fetchedPublished, isPublished⟩
      offeredPublished := sound.offeredPublished
      fetchedOnce := ?_
      queuedOffered := sound.queuedOffered
      queuedOnce := sound.queuedOnce
      takenFrom := ?_
      takenQueued := ?_
      beforeLive := ?_
      afterLive := ?_ }
  · refine nodup_append.mpr ⟨sound.fetchedOnce, once, ?_⟩
    intro old isOld new isItem same
    exact isNew new isItem (same ▸ isOld)
  · grind [step]
  · intro item queued isTaken
    exact mem_append_left _ (sound.takenQueued item queued isTaken)
  · grind [step]
  · intro isLive
    cases notLive.symm.trans isLive

theorem goLive
    (notLive : state.live = false)
    (noBuffer : state.buffer = [])
    (inSight : ∀ item ∈ state.taken, seen item = true) :
    (state.step (.goLive seen)).Sound := by
  obtain ⟨taken, noOverlap⟩ := sound.beforeLive notLive
  rw [noBuffer, append_nil] at taken
  obtain ⟨queuedOffered, queuedOnce, takenQueued⟩ :=
    sound.of_sublist (state.step (.goLive seen))
      (state.queue_goLive seen) rfl rfl
  refine
    { fetchedPublished := sound.fetchedPublished
      offeredPublished := sound.offeredPublished
      fetchedOnce := sound.fetchedOnce
      queuedOffered := queuedOffered
      queuedOnce := queuedOnce
      takenFrom := sound.takenFrom
      takenQueued := takenQueued
      beforeLive := fun notYet => by cases notYet
      afterLive := fun _ => ⟨noBuffer, ?_, ?_⟩ }
  · change state.fetched ⊆ state.taken
    rw [taken]
    exact List.Subset.refl _
  · grind [step]

/-- Only a reader that is not live has a buffer. -/
theorem notLive_of_buffer
    (some : state.buffer ≠ []) :
    state.live = false := by
  by_contra isLive
  exact some (sound.afterLive (Bool.eq_true_of_not_eq_false isLive)).1

theorem takeBuffered
    (some : state.buffer ≠ []) :
    (state.step .takeBuffered).Sound := by
  obtain ⟨item, rest, isBuffer⟩ := exists_cons_of_ne_nil some
  have notLive := sound.notLive_of_buffer some
  obtain ⟨taken, noOverlap⟩ := sound.beforeLive notLive
  rw [isBuffer] at taken
  have takenNow :
      (state.step .takeBuffered).taken = state.taken ++ [item] := by
    simp [Handover.step, isBuffer]
  refine
    { sound with
      takenFrom := ?_
      takenQueued := ?_
      beforeLive := fun _ => ⟨?_, noOverlap⟩
      afterLive := fun isLive => ?_ }
  · grind [step]
  · grind [step]
  · rw [takenNow]
    simpa [Handover.step, isBuffer] using taken
  · cases notLive.symm.trans isLive

theorem takeQueued
    {next : Handover Item}
    {item : Item}
    (takes : TakesQueued state next item) :
    next.queue ⊆ state.offered ∧ next.queue.Nodup ∧
      (∀ other ∈ next.taken,
        other ∈ state.fetched ∨ other ∈ state.offered) ∧
      ∀ other ∈ next.queue, other ∈ next.taken → other ∈ state.fetched := by
  grind [Sound, TakesQueued]

/-- Only a live reader has an overlap. -/
theorem live_of_overlap
    (some : state.overlap ≠ []) :
    state.live = true := by
  by_contra notLive
  exact some (sound.beforeLive (Bool.eq_false_of_not_eq_true notLive)).2

theorem takeOverlap
    (some : state.overlap ≠ []) :
    (state.step .takeOverlap).Sound := by
  have isLive := sound.live_of_overlap some
  obtain ⟨noBuffer, isTaken, notFetched⟩ := sound.afterLive isLive
  obtain ⟨item, rest, isOverlap⟩ := exists_cons_of_ne_nil some
  obtain ⟨queuedOffered, queuedOnce, takenFrom, takenQueued⟩ :=
    sound.takeQueued (TakesQueued.takeOverlap isOverlap)
  refine
    { sound with
      queuedOffered := queuedOffered
      queuedOnce := queuedOnce
      takenFrom := takenFrom
      takenQueued := takenQueued
      beforeLive := fun notLive => ?_
      afterLive := fun _ => ⟨noBuffer, ?_, ?_⟩ }
  · cases isLive.symm.trans notLive
  · intro other isFetched
    exact mem_append_left _ (isTaken isFetched)
  · intro other isKept
    exact notFetched other (mem_of_mem_tail isKept)

theorem takeLive
    (isLive : state.live = true)
    (some : state.channel ≠ []) :
    (state.step .takeLive).Sound := by
  obtain ⟨noBuffer, isTaken, notFetched⟩ := sound.afterLive isLive
  obtain ⟨item, rest, isChannel⟩ := exists_cons_of_ne_nil some
  obtain ⟨queuedOffered, queuedOnce, takenFrom, takenQueued⟩ :=
    sound.takeQueued (TakesQueued.takeLive isChannel)
  refine
    { sound with
      queuedOffered := queuedOffered
      queuedOnce := queuedOnce
      takenFrom := takenFrom
      takenQueued := takenQueued
      beforeLive := fun notLive => ?_
      afterLive := fun _ => ⟨noBuffer, ?_, notFetched⟩ }
  · cases isLive.symm.trans notLive
  · intro other isFetched
    exact mem_append_left _ (isTaken isFetched)

/-- Possible moves keep what holds. -/
theorem step
    {move : Move Item}
    (possible : state.Possible move) :
    (state.step move).Sound := by
  cases move with
  | idle =>
    exact sound
  | publish item =>
    exact
      { sound with
        fetchedPublished := fun _ isFetched =>
          mem_append_left _ (sound.fetchedPublished isFetched)
        offeredPublished := fun _ isOffered =>
          mem_append_left _ (sound.offeredPublished isOffered) }
  | offer item heard =>
    exact sound.offer possible.1 possible.2 heard
  | forward =>
    obtain ⟨queuedOffered, queuedOnce, takenQueued⟩ :=
      sound.of_sublist (state.step .forward)
        (queue_forward state ▸ List.Sublist.refl _) rfl rfl
    exact
      { sound with
        queuedOffered := queuedOffered
        queuedOnce := queuedOnce
        takenQueued := takenQueued }
  | discard =>
    obtain ⟨queuedOffered, queuedOnce, takenQueued⟩ :=
      sound.of_sublist (state.step .discard) state.queue_discard rfl rfl
    exact
      { sound with
        queuedOffered := queuedOffered
        queuedOnce := queuedOnce
        takenQueued := takenQueued }
  | fetch batch =>
    obtain ⟨notLive, once, isPublished, isNew⟩ := possible
    exact sound.fetch notLive once isPublished isNew
  | goLive seen =>
    obtain ⟨notLive, noBuffer, inSight⟩ := possible
    exact sound.goLive notLive noBuffer inSight
  | takeBuffered =>
    exact sound.takeBuffered possible
  | takeOverlap =>
    exact sound.takeOverlap possible
  | takeLive =>
    exact sound.takeLive possible.1 possible.2

end

end Sound

/-! ## Smooth runs -/

/-- What smooth moves keep: nothing is taken twice and nothing is lost. -/
structure Clean (state : Handover Item) : Prop where
  takenOnce : state.taken.Nodup
  channelNew :
    state.live = true → ∀ item ∈ state.channel, item ∉ state.fetched
  accounted :
    state.live = true →
      ∀ item ∈ state.offered, item ∈ state.taken ∨ item ∈ state.queue

namespace Clean

variable {state : Handover Item}

theorem offer
    (sound : state.Sound)
    (clean : state.Clean)
    {item : Item}
    {heard : Bool}
    (smooth : state.Smooth (.offer item heard)) :
    (state.step (.offer item heard)).Clean := by
  refine { clean with accounted := fun isLive other isOffered => ?_ }
  change other ∈ state.offered ++ [item] at isOffered
  change other ∈ state.taken ∨ other ∈ state.overlap ++ state.channel ++
    (if heard then state.inbox ++ [item] else state.inbox)
  rcases mem_append.mp isOffered with before | now
  · rcases clean.accounted isLive other before with isTaken | queued
    · exact Or.inl isTaken
    · refine Or.inr ?_
      split
      · rw [← append_assoc]
        exact mem_append_left _ queued
      · exact queued
  · rw [mem_singleton.mp now]
    split
    · exact Or.inr (mem_append_right _
        (mem_append_right _ mem_cons_self))
    · rename_i notHeard
      have isFetched := smooth isLive (Bool.eq_false_of_not_eq_true notHeard)
      exact Or.inl ((sound.afterLive isLive).2.1 isFetched)

theorem forward
    (clean : state.Clean)
    (smooth : state.Smooth .forward) :
    (state.step .forward).Clean := by
  refine
    { clean with
      channelNew := fun isLive item isQueued => ?_
      accounted := fun isLive item isOffered => ?_ }
  · grind [step, Clean, Smooth]
  · rw [queue_forward]
    exact clean.accounted isLive item isOffered

section

variable
  (sound : state.Sound)
  (clean : state.Clean)

include sound clean

theorem discard
    (smooth : state.Smooth .discard) :
    (state.step .discard).Clean := by
  refine { clean with accounted := fun isLive item isOffered => ?_ }
  rcases clean.accounted isLive item isOffered with isTaken | queued
  · exact Or.inl isTaken
  · change item ∈ state.taken ∨
      item ∈ state.overlap ++ state.channel ++ state.inbox.tail
    rcases mem_append.mp queued with earlier | inInbox
    · exact Or.inr (mem_append_left _ earlier)
    · cases isInbox : state.inbox with
      | nil =>
        rw [isInbox] at inInbox
        cases inInbox
      | cons first rest =>
        rw [isInbox] at inInbox
        rcases mem_cons.mp inInbox with isFirst | inRest
        · have isFetched : item ∈ state.fetched :=
            smooth isLive item (by rw [isInbox, isFirst]; rfl)
          exact Or.inl ((sound.afterLive isLive).2.1 isFetched)
        · exact Or.inr (mem_append_right _ inRest)

theorem goLive
    (notLive : state.live = false)
    (noBuffer : state.buffer = [])
    (smooth : state.Smooth (.goLive seen)) :
    (state.step (.goLive seen)).Clean := by
  obtain ⟨taken, _⟩ := sound.beforeLive notLive
  rw [noBuffer, append_nil] at taken
  refine
    { clean with
      channelNew := fun _ item isQueued => by cases isQueued
      accounted := fun _ item isOffered => ?_ }
  change item ∈ state.taken ∨
    item ∈ state.overlap ++ state.channel.filter (!seen ·) ++ [] ++ state.inbox
  rcases smooth item isOffered with isFetched | inInbox | ⟨inChannel, unseen⟩
  · rw [taken]
    exact Or.inl isFetched
  · exact Or.inr (mem_append_right _ inInbox)
  · grind

theorem takeQueued
    (isLive : state.live = true)
    {next : Handover Item}
    {item : Item}
    (takes : TakesQueued state next item)
    (notFetched : item ∉ state.fetched) :
    next.taken.Nodup ∧
      ∀ other ∈ state.offered, other ∈ next.taken ∨ other ∈ next.queue := by
  grind [Sound, Clean, TakesQueued]

/-- Smooth moves keep a run clean. -/
theorem step
    {move : Move Item}
    (possible : state.Possible move)
    (smooth : state.Smooth move) :
    (state.step move).Clean := by
  cases move with
  | idle | publish item =>
    exact { clean with }
  | offer item heard =>
    exact clean.offer sound smooth
  | forward =>
    exact clean.forward smooth
  | discard =>
    exact clean.discard sound smooth
  | fetch batch =>
    grind [step, Clean, Possible]
  | goLive seen =>
    exact clean.goLive sound possible.1 possible.2.1 smooth
  | takeBuffered =>
    have next := sound.takeBuffered possible
    have notLive := sound.notLive_of_buffer possible
    refine
      { takenOnce := ?_
        channelNew := fun isLive => by cases notLive.symm.trans isLive
        accounted := fun isLive => by cases notLive.symm.trans isLive }
    have once := next.fetchedOnce
    rw [← (next.beforeLive notLive).1] at once
    exact (nodup_append.mp once).1
  | takeOverlap =>
    have isLive := sound.live_of_overlap possible
    obtain ⟨item, rest, isOverlap⟩ := exists_cons_of_ne_nil possible
    have isKept : item ∈ state.overlap := by
      rw [isOverlap]
      exact mem_cons_self
    obtain ⟨takenOnce, accounted⟩ :=
      clean.takeQueued sound isLive (TakesQueued.takeOverlap isOverlap)
        ((sound.afterLive isLive).2.2 item isKept)
    exact
      { takenOnce := takenOnce
        channelNew := clean.channelNew
        accounted := fun _ => accounted }
  | takeLive =>
    obtain ⟨isLive, some⟩ := possible
    obtain ⟨item, rest, isChannel⟩ := exists_cons_of_ne_nil some
    have inChannel : item ∈ state.channel := by
      rw [isChannel]
      exact mem_cons_self
    obtain ⟨takenOnce, accounted⟩ :=
      clean.takeQueued sound isLive (TakesQueued.takeLive isChannel)
        (clean.channelNew isLive item inChannel)
    exact
      { takenOnce := takenOnce
        channelNew := fun _ other isQueued =>
          clean.channelNew isLive other (mem_of_mem_tail isQueued)
        accounted := fun _ => accounted }

end

end Clean

/-! ## Other runs -/

/-- An offered item that is neither taken nor on its way. -/
structure Lost (state : Handover Item) (item : Item) : Prop where
  offered : item ∈ state.offered
  untaken : item ∉ state.taken
  unqueued : item ∉ state.queue

/-- A live reader that lost an item, or has one twice. -/
structure Broken (state : Handover Item) : Prop where
  live : state.live = true
  fault : (∃ item, state.Lost item) ∨ ¬(state.taken ++ state.channel).Nodup

namespace Broken

variable {state : Handover Item}

variable {item : Item} {move : Move Item}

/-- A lost item stays lost while the queue only gets shorter. -/
theorem lost_of_subset
    {next : Handover Item}
    (lost : state.Lost item)
    (sameOffered : next.offered = state.offered)
    (sameTaken : next.taken = state.taken)
    (shorter : next.queue ⊆ state.queue) :
    next.Lost item := by
  grind [Lost]

/-- And while items are taken from the queue. -/
theorem lost_of_takes
    {next : Handover Item}
    {first : Item}
    (lost : state.Lost item)
    (sameOffered : next.offered = state.offered)
    (takes : TakesQueued state next first) :
    next.Lost item := by
  grind [Lost, TakesQueued]

theorem lost_step
    (sound : state.Sound)
    (isLive : state.live = true)
    (lost : state.Lost item)
    (possible : state.Possible move) :
    (state.step move).Lost item := by
  cases move with
  | idle | publish other =>
    exact ⟨lost.offered, lost.untaken, lost.unqueued⟩
  | offer other heard =>
    refine ⟨mem_append_left _ lost.offered, lost.untaken, ?_⟩
    intro queued
    simp only [queue, Handover.step] at queued
    split at queued
    · rw [← append_assoc] at queued
      rcases mem_append.mp queued with before | now
      · exact lost.unqueued before
      · rw [← mem_singleton.mp now] at possible
        exact possible.2 lost.offered
    · exact lost.unqueued queued
  | forward =>
    refine lost_of_subset lost rfl rfl ?_
    rw [queue_forward]
    exact List.Subset.refl _
  | discard =>
    exact lost_of_subset lost rfl rfl state.queue_discard.subset
  | fetch batch =>
    cases possible.1.symm.trans isLive
  | goLive seen =>
    cases possible.1.symm.trans isLive
  | takeBuffered =>
    exact absurd (sound.afterLive isLive).1 possible
  | takeOverlap =>
    obtain ⟨first, rest, isOverlap⟩ := exists_cons_of_ne_nil possible
    exact lost_of_takes lost rfl (TakesQueued.takeOverlap isOverlap)
  | takeLive =>
    obtain ⟨first, rest, isChannel⟩ := exists_cons_of_ne_nil possible.2
    exact lost_of_takes lost rfl (TakesQueued.takeLive isChannel)

/-- What is taken or about to be taken only grows. -/
theorem sublist_step
    (isLive : state.live = true)
    (possible : state.Possible move) :
    (state.taken ++ state.channel).Sublist
      ((state.step move).taken ++ (state.step move).channel) := by
  cases move with
  | idle | publish item | offer item heard | discard | fetch batch =>
    exact List.Sublist.refl _
  | forward =>
    simp only [Handover.step, ← append_assoc]
    exact sublist_append_left _ _
  | goLive seen =>
    cases possible.1.symm.trans isLive
  | takeBuffered =>
    simp only [Handover.step, append_assoc]
    exact List.Sublist.append (List.Sublist.refl _)
      (sublist_append_right _ _)
  | takeOverlap =>
    simp only [Handover.step, append_assoc]
    exact List.Sublist.append (List.Sublist.refl _)
      (sublist_append_right _ _)
  | takeLive =>
    obtain ⟨first, rest, isChannel⟩ := exists_cons_of_ne_nil possible.2
    simp [Handover.step, isChannel]

section

variable (sound : state.Sound)

include sound

/-- No move repairs what is broken. -/
theorem step
    (broken : state.Broken)
    (possible : state.Possible move) :
    (state.step move).Broken := by
  refine ⟨?_, ?_⟩
  · cases move with
    | goLive seen =>
      rfl
    | _ =>
      exact broken.live
  · rcases broken.fault with ⟨item, lost⟩ | twice
    · exact Or.inl ⟨item, lost_step sound broken.live lost possible⟩
    · exact Or.inr fun once =>
        twice (once.sublist (sublist_step broken.live possible))

/-- An item that is not heard is lost. -/
theorem of_offer
    {heard : Bool}
    (isNew : item ∉ state.offered)
    (rough : ¬state.Smooth (.offer item heard)) :
    (state.step (.offer item heard)).Broken := by
  obtain ⟨isLive, notHeard, notFetched⟩ :
      state.live = true ∧ heard = false ∧ item ∉ state.fetched := by
    simpa [Smooth] using rough
  refine ⟨isLive, Or.inl ⟨item, ?_, ?_, ?_⟩⟩
  · exact mem_append_right _ mem_cons_self
  · intro isTaken
    rcases sound.takenFrom item isTaken with isFetched | isOffered
    · exact notFetched isFetched
    · exact isNew isOffered
  · grind [queue, Handover.step, sound.queuedOffered]

/-- A fetched item that is forwarded is there twice. -/
theorem of_forward
    (rough : ¬state.Smooth .forward) :
    (state.step .forward).Broken := by
  obtain ⟨isLive, item, isFirst, isFetched⟩ :
      state.live = true ∧
        ∃ item, state.inbox.head? = some item ∧ item ∈ state.fetched := by
    simpa [Smooth] using rough
  refine ⟨isLive, Or.inr fun once => ?_⟩
  simp only [Handover.step, isFirst, Option.toList_some] at once
  exact (nodup_append.mp once).2.2 item
    ((sound.afterLive isLive).2.1 isFetched) item
    (mem_append_right _ mem_cons_self) rfl

/-- A discarded item that was not fetched is lost. -/
theorem of_discard
    (rough : ¬state.Smooth .discard) :
    (state.step .discard).Broken := by
  obtain ⟨isLive, item, isFirst, notFetched⟩ :
      state.live = true ∧
        ∃ item, state.inbox.head? = some item ∧ item ∉ state.fetched := by
    simpa [Smooth] using rough
  obtain ⟨rest, isInbox⟩ := List.head?_eq_some_iff.mp isFirst
  have once := sound.queuedOnce
  rw [queue, isInbox, nodup_middle] at once
  have queued : item ∈ state.queue := by
    rw [queue, isInbox]
    exact mem_append_right _ mem_cons_self
  refine ⟨isLive, Or.inl ⟨item, sound.queuedOffered queued,
    fun isTaken => notFetched (sound.takenQueued item queued isTaken), ?_⟩⟩
  simp only [queue, Handover.step, isInbox, tail_cons]
  exact (nodup_cons.mp once).1

/-- An item that is not on its way when the reader goes live is lost. -/
theorem of_goLive
    (notLive : state.live = false)
    (noBuffer : state.buffer = [])
    (rough : ¬state.Smooth (.goLive seen)) :
    (state.step (.goLive seen)).Broken := by
  obtain ⟨taken, noOverlap⟩ := sound.beforeLive notLive
  rw [noBuffer, append_nil] at taken
  obtain ⟨item, isOffered, notFetched, notInInbox, notKept⟩ :
      ∃ item ∈ state.offered, item ∉ state.fetched ∧
        item ∉ state.inbox ∧ (item ∈ state.channel → seen item = true) := by
    simpa [Smooth] using rough
  refine ⟨rfl, Or.inl ⟨item, isOffered, ?_, ?_⟩⟩
  · change item ∉ state.taken
    rw [taken]
    exact notFetched
  · grind [queue, Handover.step]

/-- A move that is not smooth breaks something. -/
theorem of_not_smooth
    (possible : state.Possible move)
    (rough : ¬state.Smooth move) :
    (state.step move).Broken := by
  cases move with
  | idle | publish item | fetch batch | takeBuffered
  | takeOverlap | takeLive =>
    exact absurd trivial rough
  | offer item heard =>
    exact of_offer sound possible.2 rough
  | forward =>
    exact of_forward sound rough
  | discard =>
    exact of_discard sound rough
  | goLive seen =>
    exact of_goLive sound possible.1 possible.2.1 rough

end

end Broken

/-! ## Runs -/

/-- Nothing is left to take but, at most, the overlap. -/
structure AtRest (state : Handover Item) : Prop where
  live : state.live = true
  allOffered : state.published ⊆ state.offered
  noInbox : state.inbox = []
  noChannel : state.channel = []

theorem sound_initial : Sound ({} : Handover Item) where
  fetchedPublished := List.Subset.refl _
  offeredPublished := List.Subset.refl _
  fetchedOnce := nodup_nil
  queuedOffered := List.Subset.refl _
  queuedOnce := nodup_nil
  takenFrom := fun _ isTaken => by cases isTaken
  takenQueued := fun _ _ isTaken => by cases isTaken
  beforeLive := fun _ => ⟨rfl, rfl⟩
  afterLive := fun isLive => by cases isLive

theorem clean_initial : Clean ({} : Handover Item) where
  takenOnce := nodup_nil
  channelNew := fun isLive => by cases isLive
  accounted := fun isLive => by cases isLive

variable {state : Handover Item} {moves : List (Move Item)}

section

variable (possible : GuardedRun step Possible state moves)

include possible

/-- Possible runs keep what holds, and repair nothing. -/
theorem sound_run
    (sound : state.Sound) :
    (moves.foldl step state).Sound ∧
      (state.Broken → (moves.foldl step state).Broken) := by
  induction moves generalizing state with
  | nil =>
    exact ⟨sound, id⟩
  | cons move rest inductionHypothesis =>
    obtain ⟨soundAfter, brokenAfter⟩ :=
      inductionHypothesis possible.2 (sound.step possible.1)
    exact ⟨soundAfter, fun broken => brokenAfter (broken.step sound possible.1)⟩

/-- A possible run ends clean if all its moves are smooth. -/
theorem clean_run
    (smooth : GuardedRun step Smooth state moves)
    (sound : state.Sound)
    (clean : state.Clean) :
    (moves.foldl step state).Clean := by
  induction moves generalizing state with
  | nil =>
    exact clean
  | cons move rest inductionHypothesis =>
    exact inductionHypothesis possible.2 smooth.2 (sound.step possible.1)
      (clean.step sound possible.1 smooth.1)

/-- And broken if one of them is not. -/
theorem broken_run
    (rough : ¬GuardedRun step Smooth state moves)
    (sound : state.Sound) :
    (moves.foldl step state).Broken := by
  induction moves generalizing state with
  | nil =>
    exact absurd trivial rough
  | cons move rest inductionHypothesis =>
    by_cases smooth : state.Smooth move
    · exact inductionHypothesis possible.2
        (fun later => rough ⟨smooth, later⟩) (sound.step possible.1)
    · exact (sound_run possible.2 (sound.step possible.1)).2
        (Broken.of_not_smooth sound possible.1 smooth)

end

section ExactlyOnce

variable [DecidableEq Item]

def ExactlyOnce (state : Handover Item) : Prop :=
  ∀ item ∈ state.published, state.taken.count item = 1

theorem Sound.exactlyOnce_iff
    {state : Handover Item}
    (sound : state.Sound) :
    state.ExactlyOnce ↔
      state.taken.Nodup ∧ state.published ⊆ state.taken := by
  grind [sound.takenFrom, sound.fetchedPublished, sound.offeredPublished,
    ExactlyOnce]

/--
In a run that has come to rest every item is taken exactly once if and only
if every move was smooth and no overlap is left.
-/
theorem exactlyOnce_run_iff
    {moves : List (Move Item)}
    (possible : GuardedRun step Possible {} moves)
    (atRest : (moves.foldl step {}).AtRest) :
    (moves.foldl step {}).ExactlyOnce ↔
      GuardedRun step Smooth {} moves ∧ (moves.foldl step {}).overlap = [] := by
  have sound := (sound_run possible sound_initial).1
  rw [sound.exactlyOnce_iff]
  constructor
  · rintro ⟨once, all⟩
    refine ⟨?_, ?_⟩
    · by_contra rough
      have broken := broken_run possible rough sound_initial
      rcases broken.fault with ⟨item, lost⟩ | twice
      · exact lost.untaken (all (sound.offeredPublished lost.offered))
      · rw [atRest.noChannel, append_nil] at twice
        exact twice once
    · by_contra left
      obtain ⟨item, rest, isOverlap⟩ := exists_cons_of_ne_nil left
      have isKept : item ∈ (moves.foldl step {}).overlap := by
        rw [isOverlap]
        exact mem_cons_self
      have queued : item ∈ (moves.foldl step {}).queue :=
        mem_append_left _ (mem_append_left _ isKept)
      have isTaken := all (sound.offeredPublished (sound.queuedOffered queued))
      exact (sound.afterLive atRest.live).2.2 item isKept
        (sound.takenQueued item queued isTaken)
  · rintro ⟨smooth, noOverlap⟩
    have clean := clean_run possible smooth sound_initial clean_initial
    refine ⟨clean.takenOnce, fun item isPublished => ?_⟩
    rcases clean.accounted atRest.live item
      (atRest.allOffered isPublished) with isTaken | queued
    · exact isTaken
    · rw [queue, noOverlap, atRest.noChannel, atRest.noInbox] at queued
      cases queued

end ExactlyOnce

end Handover

end Mitiflow.Library
