import Mitiflow.Library.HandoverOrder
import Mitiflow.ThenLive

namespace Mitiflow

open Library

/-!
# The order across the handover

The events of one publisher on one partition are stored with rising clocks and
offered live with rising numbers.  The store phase returns them in the order
of their clocks, the live phase in the order in which they were offered; what
lies between are the overlap buffer and the call that went live, which waits
on the channel without looking at the overlap buffer.
-/

/-- The publisher and partition whose numbers count an event. -/
def RawEvent.lane (raw : RawEvent) : PublisherId × U32 :=
  (raw.publisherId, extractPartition raw.keyExpr)

/-- Events of one lane with higher numbers have later clocks. -/
def ClocksRise (visible : List StoredEvent) : Prop :=
  ∀ first ∈ visible, ∀ second ∈ visible,
    (storedToRaw first).lane = (storedToRaw second).lane →
      (storedToRaw first).seq < (storedToRaw second).seq →
        ∀ clock ∈ first.metadata.hlcTimestamp,
          ∀ later ∈ second.metadata.hlcTimestamp, clock < later

instance ClocksRise.decidable (visible : List StoredEvent) :
    Decidable (ClocksRise visible) :=
  inferInstanceAs (Decidable (∀ first ∈ visible, _))

namespace LiveSystem

/-! ## Runs over any events -/

def Fresh (system : LiveSystem) (event : StoredEvent) : Prop :=
  ∀ other ∈ system.visible,
    other.metadata.eventId ≠ event.metadata.eventId

instance Fresh.decidable (system : LiveSystem) (event : StoredEvent) :
    Decidable (system.Fresh event) :=
  inferInstanceAs (Decidable (∀ other ∈ system.visible, _))

section Steps

variable (config : LiveConfig)

/--
One step among any events: also among those before the start position, and
those that the replay is not about.
-/
def anyStep (system : LiveSystem) : LiveStep → LiveSystem
  | .store event =>
    if system.Fresh event then
      { system with visible := system.visible ++ [event] }
    else
      system
  | action => system.step config action

/-- The move of the handover that such a step makes. -/
def anyMoveOf (system : LiveSystem) : LiveStep → Handover.Move RawEvent
  | .store event =>
    if system.Fresh event then .publish (storedToRaw event) else .idle
  | action => system.moveOf config action

/--
The steps that keep the order.  When an empty poll is handled, the events kept
from the channel follow all polled events of their lane, and so does every
event forwarded from then on.  The call that went live takes an event from the
channel only if the overlap buffer holds none of its lane.
-/
def KeepsOrder (system : LiveSystem) : LiveStep → Prop
  | .forward =>
    system.node.liveActive = true →
      ∀ raw ∈ system.inbox.head?,
        system.node.replayer.scope.forwards raw = true →
          system.channel.length ≤ config.eventChannelCapacity →
            Handover.Follows RawEvent.lane RawEvent.seq system.polled raw
  | .answer =>
    system.inFlight = some (.ok []) →
      ∀ raw ∈ system.channel,
        raw.seenKey ∉ system.node.seenSeqs →
          Handover.Follows RawEvent.lane RawEvent.seq system.polled raw
  | .recv =>
    system.inFlight = none → system.node.awaiting = true →
      ∀ raw ∈ system.channel.head?,
        ∀ other ∈ system.node.overlapBuffer, other.lane ≠ raw.lane
  | .store _ | .offer _ | .declare | .query _ => True

instance KeepsOrder.decidable (system : LiveSystem) :
    (action : LiveStep) → Decidable (system.KeepsOrder config action)
  | .forward => inferInstanceAs (Decidable (_ → ∀ raw ∈ _, _ → _ → _))
  | .answer => inferInstanceAs (Decidable (_ → ∀ raw ∈ _, _ → _))
  | .recv => inferInstanceAs (Decidable (_ → _ → ∀ raw ∈ _, _))
  | .store _ | .offer _ | .declare | .query _ =>
    inferInstanceAs (Decidable True)

end Steps

variable {config : LiveConfig} {system : LiveSystem}

/-- The steps differ only in the events that may be stored. -/
theorem anyStep_cases (system : LiveSystem) (action : LiveStep) :
    (∃ event, action = .store event) ∨
      system.anyStep config action = system.step config action ∧
        system.anyMoveOf config action = system.moveOf config action := by
  cases action with
  | store event => exact Or.inl ⟨event, rfl⟩
  | _ => exact Or.inr ⟨rfl, rfl⟩

theorem simulatesAny (config : LiveConfig) :
    Simulates (anyStep config) Handover.step view (anyMoveOf config)
      Coherent where
  kept system action coherent := by
    rcases system.anyStep_cases action with ⟨event, rfl⟩ | ⟨isStep, _⟩
    · rw [anyStep]
      split
      · rename_i isFresh
        exact coherent.addVisible isFresh
      · exact coherent
    · rw [isStep]
      exact coherent.step action
  follows system action coherent := by
    grind [anyStep, anyMoveOf, view, published, channel, Handover.step,
      system.anyStep_cases, view_step]

theorem Coherent.possibleAny
    (coherent : system.Coherent)
    (action : LiveStep) :
    system.view.Possible (system.anyMoveOf config action) := by
  rcases system.anyStep_cases action with ⟨event, rfl⟩ | ⟨_, isMove⟩
  · rw [anyMoveOf]
    split
    · rename_i isFresh
      intro isPublished
      obtain ⟨other, isOther, same⟩ := List.mem_map.mp isPublished
      exact isFresh other isOther (congrArg RawEvent.id same)
    · trivial
  · rw [isMove]
    exact coherent.possible action

/-! ## The order of the polled events -/

/-- The polled events come from stored ones with clocks that never fall. -/
def PollsUpwards (system : LiveSystem) : Prop :=
  ∃ events : List StoredEvent,
    events.map storedToRaw = system.polled ∧
      (∀ event ∈ events,
        event ∈ system.visible ∧
          event.metadata.hlcTimestamp = some (hlcOf event) ∧
            hlcOf event ≤ system.node.replayer.cursor) ∧
      events.Pairwise fun first second => hlcOf first ≤ hlcOf second

namespace PollsUpwards

theorem frame
    (upwards : system.PollsUpwards)
    {next : LiveSystem}
    (samePolled : next.polled = system.polled)
    (sameCursor : next.node.replayer.cursor = system.node.replayer.cursor)
    (more : system.visible ⊆ next.visible) :
    next.PollsUpwards := by
  obtain ⟨events, isPolled, known, rises⟩ := upwards
  refine ⟨events, isPolled.trans samePolled.symm, fun event isEvent => ?_,
    rises⟩
  obtain ⟨isVisible, stamped, passed⟩ := known event isEvent
  exact ⟨more isVisible, stamped, sameCursor ▸ passed⟩

theorem append
    (upwards : system.PollsUpwards)
    {batch : List StoredEvent}
    (answers :
      Answers system.visible system.node.replayer.cursor (.ok batch))
    {next : LiveSystem}
    (isPolled : next.polled = system.polled ++ batch.map storedToRaw)
    (isCursor :
      next.node.replayer.cursor = system.node.replayer.cursorAfter batch)
    (sameVisible : next.visible = system.visible) :
    next.PollsUpwards := by
  obtain ⟨events, isOld, known, rises⟩ := upwards
  obtain ⟨later, behind⟩ := Coherent.le_cursorAfter answers
  refine ⟨events ++ batch, ?_, ?_, ?_⟩
  · rw [List.map_append, isOld, isPolled]
  · rw [sameVisible, isCursor]
    intro event isEvent
    rcases List.mem_append.mp isEvent with isOldEvent | inBatch
    · obtain ⟨isVisible, stamped, passed⟩ := known event isOldEvent
      exact ⟨isVisible, stamped, passed.trans later⟩
    · obtain ⟨isVisible, stamped, _⟩ := answers.1 event inBatch
      exact ⟨isVisible, stamped, behind event inBatch⟩
  · refine List.pairwise_append.mpr
      ⟨rises, answers.2.imp fun ordered => ordered.1, ?_⟩
    intro first isFirst second inBatch
    exact (known first isFirst).2.2.trans (answers.1 second inBatch).2.2.le

theorem answer
    (coherent : system.Coherent)
    (upwards : system.PollsUpwards) :
    (system.step config .answer).PollsUpwards := by
  have ok := LiveReplayer.pollVia_ok coherent.goesLive coherent.goesOn
  cases isFlight : system.inFlight with
  | none =>
    simpa only [step, isFlight] using upwards
  | some answer =>
    obtain ⟨_, answers⟩ := coherent.polling answer isFlight
    cases answer with
    | error message =>
      grind [step, LiveReplayer.handlePoll, LiveReplayer.pollVia_error,
        coherent.goesLive, coherent.goesOn, upwards.frame]
    | ok batch =>
      simp only [step, isFlight, LiveReplayer.handlePoll, ok]
      refine upwards.append answers rfl ?_ rfl
      cases batch with
      | nil => rfl
      | cons first rest => rfl

theorem recvLive (upwards : system.PollsUpwards) :
    (system.received system.node.recvLive).PollsUpwards := by
  unfold LiveReplayer.recvLive
  split
  · exact upwards.frame rfl rfl (List.Subset.refl _)
  · exact upwards
  · exact upwards

theorem recv (upwards : system.PollsUpwards) :
    (system.step config .recv).PollsUpwards := by
  by_cases notPolling : system.inFlight = none
  · rw [step_recv notPolling]
    unfold LiveReplayer.recvRaw
    split
    · exact upwards.recvLive
    · split
      · exact upwards.frame rfl rfl (List.Subset.refl _)
      · exact upwards.frame rfl rfl (List.Subset.refl _)
      · split
        · exact upwards.recvLive
        · exact upwards
  · rw [step, if_neg notPolling]
    exact upwards

theorem step
    (coherent : system.Coherent)
    (upwards : system.PollsUpwards)
    (action : LiveStep) :
    (system.anyStep config action).PollsUpwards := by
  rcases system.anyStep_cases action with ⟨event, rfl⟩ | ⟨isStep, _⟩
  · rw [anyStep]
    split
    · exact upwards.frame rfl rfl (List.subset_append_left _ _)
    · exact upwards
  · rw [isStep]
    cases action with
    | store event | offer raw | declare | query answer =>
      rw [LiveSystem.step]
      split
      · exact upwards.frame rfl rfl (by simp)
      · exact upwards
    | forward =>
      grind [PollsUpwards, step]
    | answer =>
      exact upwards.answer coherent
    | recv =>
      exact upwards.recv

theorem run
    (coherent : system.Coherent)
    (upwards : system.PollsUpwards)
    (steps : List LiveStep) :
    (steps.foldl (anyStep config) system).PollsUpwards := by
  induction steps generalizing system with
  | nil =>
    exact upwards
  | cons action rest inductionHypothesis =>
    exact inductionHypothesis
      ((simulatesAny config).kept system action coherent)
      (upwards.step coherent action)

/-- With rising clocks, the polled events are in the order of their numbers. -/
theorem ordered
    (upwards : system.PollsUpwards)
    (rise : ClocksRise system.visible) :
    Handover.Ordered RawEvent.lane RawEvent.seq system.polled := by
  obtain ⟨events, isPolled, known, rises⟩ := upwards
  rw [Handover.Ordered, ← isPolled, List.pairwise_map]
  refine rises.imp_of_mem fun {first second} isFirst isSecond clocks lane => ?_
  obtain ⟨firstVisible, firstStamped, _⟩ := known first isFirst
  obtain ⟨secondVisible, secondStamped, _⟩ := known second isSecond
  by_contra falls
  have earlier :=
    rise second secondVisible first firstVisible lane.symm
      (lt_of_not_ge falls) _ secondStamped _ firstStamped
  exact absurd clocks (not_le_of_gt earlier)

end PollsUpwards

/-! ## The order of the returned events -/

theorem orderly_forward_iff (coherent : system.Coherent) :
    system.view.Orderly RawEvent.lane RawEvent.seq
        (system.moveOf config .forward) ↔
      system.KeepsOrder config .forward := by
  cases isRx : system.node.liveRx with
  | none =>
    simp [moveOf, KeepsOrder, isRx, coherent.notLive isRx, Handover.Orderly]
  | some queued =>
    cases isInbox : system.inbox with
    | nil =>
      simp [moveOf, KeepsOrder, isRx, isInbox, Handover.Orderly]
    | cons raw rest =>
      grind [moveOf, KeepsOrder, channel, Handover.Orderly, view]

theorem orderly_answer_iff :
    system.view.Orderly RawEvent.lane RawEvent.seq
        (system.moveOf config .answer) ↔
      system.KeepsOrder config .answer := by
  cases isFlight : system.inFlight with
  | none =>
    simp [moveOf, KeepsOrder, isFlight, Handover.Orderly]
  | some answer =>
    cases answer with
    | error message =>
      simp [moveOf, KeepsOrder, isFlight, Handover.Orderly]
    | ok batch =>
      cases batch with
      | nil =>
        simp [moveOf, KeepsOrder, isFlight, Handover.Orderly, view]
      | cons first rest =>
        simp [moveOf, KeepsOrder, isFlight, Handover.Orderly]

/-- Only the call that went live passes over the overlap buffer. -/
theorem orderly_recv_iff :
    system.view.Orderly RawEvent.lane RawEvent.seq
        (system.moveOf config .recv) ↔
      system.KeepsOrder config .recv := by
  rw [moveOf]
  by_cases idle : system.inFlight = none
  · rw [if_pos idle]
    by_cases awaits : system.node.awaiting = true
    · rw [if_pos awaits]
      by_cases isEmpty : system.channel = []
      · simp [isEmpty, KeepsOrder, Handover.Orderly]
      · simp [isEmpty, KeepsOrder, Handover.Orderly, idle, awaits, view]
    · rw [if_neg awaits]
      refine iff_of_true ?_ fun _ isAwaiting => absurd isAwaiting awaits
      split
      · trivial
      · split
        · trivial
        · rename_i noOverlap
          split
          · intro raw _ other isKept
            rw [view, not_ne_iff.mp noOverlap] at isKept
            cases isKept
          · trivial
  · rw [if_neg idle]
    exact iff_of_true trivial fun notPolling => absurd notPolling idle

/-- The orderly moves are those of the steps that keep the order. -/
theorem orderly_iff
    (coherent : system.Coherent)
    (action : LiveStep) :
    system.view.Orderly RawEvent.lane RawEvent.seq
        (system.anyMoveOf config action) ↔
      system.KeepsOrder config action := by
  cases action with
  | store event =>
    rw [anyMoveOf]
    split <;> exact Iff.rfl
  | offer raw =>
    change Handover.Orderly _ _ _ (system.moveOf config (.offer raw)) ↔ _
    rw [moveOf]
    split <;> exact Iff.rfl
  | declare =>
    exact Iff.rfl
  | forward =>
    exact orderly_forward_iff coherent
  | query answer =>
    exact Iff.rfl
  | answer =>
    exact orderly_answer_iff
  | recv =>
    exact orderly_recv_iff

section Runs

variable {builder : EventReplayerBuilder} {offsets : ReplayOffsets}
  {replayer : EventReplayer}

/--
Let the clocks of every publisher and partition rise with the numbers, and let
its events be offered with rising numbers.  Along steps that keep the order the
returned numbers of a publisher and partition never fall.  Once the overlap
buffer and the channel are empty, they never fell only if every step kept the
order.
-/
theorem thenLive_inOrder_iff
    (thenLive : builder.replayEnd = .thenLive)
    (built : builder.build offsets = .ok replayer)
    (config : LiveConfig)
    (steps : List LiveStep)
    (clocksRise :
      ClocksRise
        (steps.foldl (anyStep config) (start replayer)).visible)
    (offeredRising :
      Handover.Rising RawEvent.lane RawEvent.seq
        (steps.foldl (anyStep config) (start replayer)).offered) :
    let final := steps.foldl (anyStep config) (start replayer)
    let keepsOrder :=
      GuardedRun (anyStep config) (KeepsOrder config) (start replayer) steps
    let inOrder :=
      Handover.Ordered RawEvent.lane RawEvent.seq final.returned
    (keepsOrder → inOrder) ∧
      (final.node.overlapBuffer = [] → final.channel = [] →
        (inOrder ↔ keepsOrder)) := by
  intro final keepsOrder inOrder
  obtain ⟨coherent, isView⟩ := coherent_start thenLive built
  have isFinal := ((simulatesAny config).run coherent steps).2
  have possible :=
    (simulatesAny config).guardedRun
      (fun _ action holds => holds.possibleAny action) coherent steps
  have orderly :=
    (simulatesAny config).guardedRun_iff
      (fun _ action holds => orderly_iff holds action) coherent steps
  have upwards : (start replayer).PollsUpwards :=
    ⟨[], rfl, List.forall_mem_nil _, List.Pairwise.nil⟩
  have ordered :
      Handover.Ordered RawEvent.lane RawEvent.seq final.view.fetched :=
    (upwards.run coherent steps).ordered clocksRise
  have rising :
      Handover.Rising RawEvent.lane RawEvent.seq final.view.offered :=
    offeredRising
  rw [isView] at isFinal possible orderly
  rw [isFinal] at ordered rising
  have iff := Handover.ordered_run_iff possible rising ordered
  rw [← isFinal, orderly] at iff
  exact iff

end Runs

/-- A stored event, one kept from the channel and a live one. -/
theorem thenLive_inOrder_three :
    let stored := partitionEvent 0 "events/p/0" 0 1
    let kept := partitionEvent 1 "events/p/0" 1 2
    let other := partitionEvent 2 "events/p/1" 0 3
    let steps : List LiveStep :=
      [.store stored, .query (.ok [stored]), .answer, .declare, .recv,
        .offer (storedToRaw stored), .forward, .query (.ok []),
        .store kept, .offer (storedToRaw kept), .forward, .answer,
        .store other, .offer (storedToRaw other), .forward, .recv, .recv]
    let final := steps.foldl (anyStep roomForTen) (start fromEarliest)
    final.returned = [stored, other, kept].map storedToRaw ∧
      Handover.Ordered RawEvent.lane RawEvent.seq final.returned := by
  intro stored kept other steps final
  refine ⟨by decide +kernel, ?_⟩
  exact (@thenLive_inOrder_iff
    { replayEnd := .thenLive, batchSize := 1 } (fun _ => none) fromEarliest
    rfl rfl roomForTen steps (by decide +kernel) (by decide +kernel)).1
    (by decide +kernel)

/--
Two runs whose clocks and offered numbers rise.  In the first the call that
went live takes event 2 from the channel, and the next call event 1 from the
overlap buffer.  In the second, two stored events are still on their way when
the empty poll is handled, and are returned again.
-/
theorem thenLive_out_of_order :
    let zero := partitionEvent 0 "events/p/0" 0 1
    let one := partitionEvent 1 "events/p/0" 1 2
    let two := partitionEvent 2 "events/p/0" 2 3
    let run (steps : List LiveStep) :=
      steps.foldl (anyStep roomForTen) (start fromEarliest)
    let overtaken :=
      run [.store zero, .query (.ok [zero]), .answer, .declare, .recv,
        .query (.ok []), .store one, .offer (storedToRaw one), .forward,
        .answer, .store two, .offer (storedToRaw two), .forward, .recv,
        .recv]
    let repeated :=
      run [.store zero, .store one, .query (.ok [zero, one]), .answer,
        .declare, .offer (storedToRaw zero), .offer (storedToRaw one),
        .recv, .recv, .query (.ok []), .answer, .forward, .forward, .recv,
        .recv]
    (ClocksRise overtaken.visible ∧
        Handover.Rising RawEvent.lane RawEvent.seq overtaken.offered ∧
        overtaken.returned = [zero, two, one].map storedToRaw) ∧
      ClocksRise repeated.visible ∧
        Handover.Rising RawEvent.lane RawEvent.seq repeated.offered ∧
        repeated.returned = [zero, one, zero, one].map storedToRaw := by
  decide +kernel

end LiveSystem

end Mitiflow
