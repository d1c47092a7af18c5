import Mitiflow.PublisherLifecycle

namespace Mitiflow

open Library List

/-!
# When publishers are archived

A publisher is archived after a silence that covers both timeouts, and only if
it lost its token meanwhile.  A token that returns while its publisher is
suspected makes it active again; one that returns while it is draining is
noted in the entry and does not stop the draining.
-/

/-! ## Deadlines -/

/-- The clock does not go back between calls. -/
def Ascending (calls : List TimedCall) : Prop :=
  calls.Pairwise fun first second => first.1 ≤ second.1

instance Ascending.decidable (calls : List TimedCall) :
    Decidable (Ascending calls) :=
  inferInstanceAs (Decidable (calls.Pairwise _))

theorem ascending_snoc
    {calls : List TimedCall}
    {timed : TimedCall} :
    Ascending (calls ++ [timed]) ↔
      Ascending calls ∧ ∀ earlier ∈ calls, earlier.1 ≤ timed.1 := by
  simp [Ascending, pairwise_append]

/-- Every deadline that is waited for leaves time for the silence before. -/
structure PublisherLiveness.Timely
    (config : LifecycleConfig)
    (entry : PublisherLiveness) : Prop where
  suspicion :
    entry.state = .suspected →
      ∃ deadline,
        entry.suspicionDeadline = some deadline ∧
          entry.lastActivity + config.inactivityTimeout ≤ deadline
  drain :
    entry.state = .draining →
      ∃ deadline,
        entry.drainDeadline = some deadline ∧
          entry.lastActivity + config.inactivityTimeout +
              config.drainGracePeriod ≤
            deadline

section Deadlines

variable {config : LifecycleConfig} {publisher : PublisherId}
  {entry next : PublisherLiveness} {timed : TimedCall}

theorem PublisherLiveness.timely_of_active
    (isActive : entry.state = .active) :
    entry.Timely config := by
  constructor
  · intro isSuspected
    cases isActive.symm.trans isSuspected
  · intro isDraining
    cases isActive.symm.trans isDraining

theorem PublisherLiveness.state_onActivity
    (entry : PublisherLiveness)
    (now : Nat) :
    (entry.onActivity now).state = .active := by
  cases isState : entry.state <;> simp [onActivity, isState]

theorem EntryStep.lastActivity_eq
    (step : EntryStep config publisher entry timed next) :
    next.lastActivity =
      if timed.2 = .activity publisher then
        timed.1
      else
        entry.lastActivity := by
  cases step with
  | activity now =>
    simp only [PublisherLiveness.onActivity, if_true]
    cases entry.state <;> rfl
  | revoked now =>
    simp only [PublisherLiveness.onLivelinessRevoked, reduceCtorEq, if_false]
    split <;> rfl
  | restored now =>
    simp only [PublisherLiveness.onLivelinessRestored, reduceCtorEq, if_false]
    split <;> rfl
  | tick now =>
    simp only [PublisherLiveness.tick, reduceCtorEq, if_false]
    cases entry.state
    all_goals first | rfl | (dsimp only; split <;> rfl)
  | spared _ spares =>
    have notOwn : timed.2 ≠ .activity publisher := by
      intro isOwn
      rw [isOwn] at spares
      exact spares rfl
    rw [if_neg notOwn]

/-- A tick sets a deadline only once the silence before it has passed. -/
theorem PublisherLiveness.Timely.tick
    (timely : entry.Timely config)
    (now : Nat) :
    (entry.tick config now).Timely config := by
  cases isState : entry.state with
  | active =>
    grind [tick, Timely]
  | suspected =>
    simp only [PublisherLiveness.tick, isState]
    split
    · next isDue =>
        obtain ⟨deadline, isDeadline, leaves⟩ := timely.suspicion isState
        refine ⟨by simp, fun _ => ⟨_, rfl, ?_⟩⟩
        have passed : deadline ≤ now := by
          simpa [due, isDeadline] using isDue
        change entry.lastActivity + _ + _ ≤ now + config.drainGracePeriod
        omega
    · exact timely
  | draining =>
    simp only [PublisherLiveness.tick, isState]
    split
    · exact ⟨by simp, by simp⟩
    · exact timely
  | archived =>
    simp only [PublisherLiveness.tick, isState]
    exact timely

theorem EntryStep.timely
    (step : EntryStep config publisher entry timed next)
    (timely : entry.Timely config)
    (seen : entry.lastActivity ≤ timed.1) :
    next.Timely config := by
  cases step with
  | activity now =>
    exact PublisherLiveness.timely_of_active (entry.state_onActivity now)
  | revoked now =>
    unfold PublisherLiveness.onLivelinessRevoked
    dsimp only
    split
    · exact ⟨fun _ => ⟨_, rfl, Nat.add_le_add_right seen _⟩, by simp⟩
    · exact ⟨timely.suspicion, timely.drain⟩
  | restored now =>
    grind [PublisherLiveness.onLivelinessRestored, PublisherLiveness.Timely]
  | tick now =>
    exact timely.tick now
  | spared _ spares =>
    exact timely

end Deadlines

/-- How the entry of a publisher relates to the calls made so far. -/
structure Tracked
    (config : LifecycleConfig)
    (publisher : PublisherId)
    (calls : List TimedCall)
    (entry : PublisherLiveness) : Prop where
  timely : entry.Timely config
  recorded : (entry.lastActivity, .activity publisher) ∈ calls
  latest :
    ∀ time, (time, .activity publisher) ∈ calls → time ≤ entry.lastActivity

section Runs

variable {config : LifecycleConfig} {publisher : PublisherId}
  {calls : List TimedCall} {entry : PublisherLiveness}

variable {timed : TimedCall}

theorem Tracked.of_activity
    (timely : entry.Timely config)
    (isActivity : timed.2 = .activity publisher)
    (isNow : entry.lastActivity = timed.1)
    (notLater : ∀ earlier ∈ calls, earlier.1 ≤ timed.1) :
    Tracked config publisher (calls ++ [timed]) entry := by
  refine ⟨timely, ?_, ?_⟩
  · rw [isNow, ← isActivity]
    exact mem_append_right _ (mem_singleton_self _)
  · grind

theorem Tracked.of_other
    {before : PublisherLiveness}
    (tracked : Tracked config publisher calls before)
    (timely : entry.Timely config)
    (notActivity : timed.2 ≠ .activity publisher)
    (same : entry.lastActivity = before.lastActivity) :
    Tracked config publisher (calls ++ [timed]) entry := by
  refine ⟨timely, ?_, ?_⟩
  · rw [same]
    exact mem_append_left _ tracked.recorded
  · intro time member
    rw [same]
    rcases mem_append.mp member with isEarlier | isLast
    · exact tracked.latest time isEarlier
    · rw [← mem_singleton.mp isLast] at notActivity
      exact absurd rfl notActivity

/-- An active entry that has its token. -/
def PublisherLiveness.Undisturbed (entry : PublisherLiveness) : Prop :=
  entry.state = .active ∧ entry.livelinessLive = true

/-- Only a revocation disturbs an entry. -/
theorem EntryStep.undisturbed
    {next : PublisherLiveness}
    (step : EntryStep config publisher entry timed next)
    (undisturbed : entry.Undisturbed)
    (notRevoked : timed.2 ≠ .livelinessRevoked publisher) :
    next.Undisturbed := by
  obtain ⟨isActive, isLive⟩ := undisturbed
  cases step with
  | activity now =>
    simp [PublisherLiveness.Undisturbed, PublisherLiveness.onActivity,
      isActive, isLive]
  | revoked now =>
    exact absurd rfl notRevoked
  | restored now =>
    simp [PublisherLiveness.Undisturbed,
      PublisherLiveness.onLivelinessRestored, isActive]
  | tick now =>
    simp [PublisherLiveness.Undisturbed, PublisherLiveness.tick, isActive,
      isLive]
  | spared _ spares =>
    exact ⟨isActive, isLive⟩

/-- A publisher on its way to the archive has lost its token. -/
def PublisherLiveness.Withdrawn (entry : PublisherLiveness) : Prop :=
  entry.state = .suspected ∨ entry.state = .draining →
    entry.livelinessLive = false

theorem PublisherLiveness.withdrawn_of_active
    (isActive : entry.state = .active) :
    entry.Withdrawn := by
  rintro (isSuspected | isDraining)
  · cases isActive.symm.trans isSuspected
  · cases isActive.symm.trans isDraining

theorem EntryStep.withdrawn
    {next : PublisherLiveness}
    (step : EntryStep config publisher entry timed next)
    (withdrawn : entry.Withdrawn)
    (inTime :
      timed.2 = .livelinessRestored publisher → entry.state ≠ .draining) :
    next.Withdrawn := by
  cases step with
  | activity now =>
    exact PublisherLiveness.withdrawn_of_active (entry.state_onActivity now)
  | revoked now =>
    intro _
    unfold PublisherLiveness.onLivelinessRevoked
    dsimp only
    split <;> rfl
  | restored now =>
    grind [PublisherLiveness.Withdrawn, PublisherLiveness.onLivelinessRestored]
  | tick now =>
    intro onItsWay
    cases isState : entry.state with
    | active =>
      grind [PublisherLiveness.tick]
    | suspected =>
      have lost := withdrawn (Or.inl isState)
      simp only [PublisherLiveness.tick, isState]
      split <;> exact lost
    | draining =>
      have lost := withdrawn (Or.inr isState)
      simp only [PublisherLiveness.tick, isState]
      split <;> exact lost
    | archived =>
      simp [PublisherLiveness.tick, isState] at onItsWay
  | spared _ spares =>
    exact withdrawn

namespace LifecycleManager

theorem tracked_afterCalls
    (ascending : Ascending calls)
    (isEntry :
      (afterCalls config calls).publishers.get? publisher = some entry) :
    Tracked config publisher calls entry := by
  refine entry_rule
    (fun calls entry =>
      Ascending calls → Tracked config publisher calls entry)
    ?_ ?_ isEntry ascending
  · intro earlier timed _ _ isActivity ascending
    exact .of_activity (PublisherLiveness.timely_of_active rfl)
      isActivity rfl (ascending_snoc.mp ascending).2
  · intro earlier timed before next wasTracked _ step ascending
    obtain ⟨earlierAscending, notLater⟩ := ascending_snoc.mp ascending
    have tracked := wasTracked earlierAscending
    have timely := step.timely tracked.timely (notLater _ tracked.recorded)
    have activityTime := step.lastActivity_eq
    by_cases isActivity : timed.2 = .activity publisher
    · rw [if_pos isActivity] at activityTime
      exact .of_activity timely isActivity activityTime notLater
    · rw [if_neg isActivity] at activityTime
      exact tracked.of_other timely isActivity activityTime

/-! ## The calls since an entry was created -/

/--
The calls since activity created the entry of a publisher, which has been
there ever since.
-/
def TrackedSince
    (config : LifecycleConfig)
    (publisher : PublisherId)
    (calls since : List TimedCall) : Prop :=
  ∃ before time,
    calls = before ++ (time, .activity publisher) :: since ∧
      (afterCalls config before).publishers.get? publisher = none ∧
      ∀ earlier, earlier <+: since →
        ((afterCalls config
          (before ++ (time, .activity publisher) :: earlier)).publishers.get?
            publisher).isSome = true

theorem TrackedSince.snoc
    {since : List TimedCall}
    (tracked : TrackedSince config publisher calls since)
    {timed : TimedCall}
    (isEntry :
      ((afterCalls config (calls ++ [timed])).publishers.get?
        publisher).isSome = true) :
    TrackedSince config publisher (calls ++ [timed]) (since ++ [timed]) := by
  obtain ⟨before, time, shape, untracked, throughout⟩ := tracked
  refine ⟨before, time, by simp [shape], untracked, ?_⟩
  intro earlier isEarlier
  rcases prefix_concat_iff.mp isEarlier with isWhole | isEarlier
  · subst isWhole
    rw [shape, append_assoc, cons_append] at isEntry
    exact isEntry
  · exact throughout earlier isEarlier

/-- A disturbed entry lost its token at some time since it was created. -/
theorem revoked_since_creation
    (isEntry :
      (afterCalls config calls).publishers.get? publisher = some entry) :
    ∃ since,
      TrackedSince config publisher calls since ∧
        (¬ entry.Undisturbed →
          ∃ time, (time, .livelinessRevoked publisher) ∈ since) := by
  refine entry_rule
    (fun calls entry => ∃ since,
      TrackedSince config publisher calls since ∧
        (¬ entry.Undisturbed →
          ∃ time, (time, .livelinessRevoked publisher) ∈ since))
    ?_ ?_ isEntry
  · intro earlier timed untracked isNew isActivity
    have isTimed : timed = (timed.1, .activity publisher) :=
      Prod.ext rfl isActivity
    refine ⟨[], ⟨earlier, timed.1, by rw [← isTimed], untracked, ?_⟩,
      fun disturbed => absurd ⟨rfl, rfl⟩ disturbed⟩
    intro none isNone
    rw [prefix_nil.mp isNone, ← isTimed, isNew]
    rfl
  · rintro earlier timed before next ⟨since, tracked, revoked⟩ isNext step
    refine ⟨since ++ [timed], tracked.snoc (by rw [isNext]; rfl), ?_⟩
    intro disturbed
    by_cases isRevoked : timed.2 = .livelinessRevoked publisher
    · exact ⟨timed.1, by simp [← isRevoked]⟩
    · have wasDisturbed : ¬ before.Undisturbed :=
        fun undisturbed => disturbed (step.undisturbed undisturbed isRevoked)
      obtain ⟨time, member⟩ := revoked wasDisturbed
      exact ⟨time, mem_append_left _ member⟩

theorem mem_tick_iff
    {manager : LifecycleManager}
    {now : Nat} :
    publisher ∈ (manager.tick now).2 ↔
      ∃ entry deadline,
        manager.publishers.get? publisher = some entry ∧
          entry.state = .draining ∧
          entry.drainDeadline = some deadline ∧ deadline ≤ now := by
  rw [tick, mem_filter, manager.publishers.mem_keys]
  cases manager.publishers.get? publisher with
  | none =>
    simp
  | some entry =>
    cases isDeadline : entry.drainDeadline with
    | none =>
      simp [PublisherLiveness.archivedBy, PublisherLiveness.due, isDeadline]
    | some deadline =>
      simp [PublisherLiveness.archivedBy, PublisherLiveness.due, isDeadline]

/-! ## Archiving -/

/--
A tick archives a publisher only when both timeouts have passed since its last
activity, and only if it lost its token since its entry was created.
-/
theorem archived_after_both_timeouts
    (config : LifecycleConfig)
    (calls : List TimedCall)
    (ascending : Ascending calls)
    (earlier later : List TimedCall)
    (now : Nat)
    (isTick : calls = earlier ++ (now, .tick) :: later)
    (publisher : PublisherId)
    (archived : publisher ∈ ((afterCalls config earlier).tick now).2) :
    (∀ time, (time, .activity publisher) ∈ earlier →
        time + (config.inactivityTimeout + config.drainGracePeriod) ≤ now) ∧
      ∃ since,
        TrackedSince config publisher earlier since ∧
          ∃ time, (time, .livelinessRevoked publisher) ∈ since := by
  obtain ⟨entry, deadline, isEntry, isDraining, isDeadline, passed⟩ :=
    mem_tick_iff.mp archived
  have earlierAscending : Ascending earlier := by
    rw [isTick] at ascending
    exact (pairwise_append.mp ascending).1
  have tracked := tracked_afterCalls earlierAscending isEntry
  refine ⟨?_, ?_⟩
  · intro time member
    obtain ⟨other, isOther, leaves⟩ := tracked.timely.drain isDraining
    have same : deadline = other :=
      Option.some.inj (isDeadline.symm.trans isOther)
    have notLater := tracked.latest time member
    omega
  · obtain ⟨since, trackedSince, revoked⟩ := revoked_since_creation isEntry
    refine ⟨since, trackedSince, revoked ?_⟩
    rintro ⟨isActive, _⟩
    cases isDraining.symm.trans isActive

/-- A publisher that lost its token after its last activity is archived. -/
theorem archived_after_both_timeouts_revoked :
    let config : LifecycleConfig := ⟨50, 30⟩
    let earlier : List TimedCall :=
      [(0, .activity 7), (5, .livelinessRevoked 7), (60, .tick)]
    7 ∈ ((afterCalls config earlier).tick 90).2 ∧
      (∀ time, (time, .activity 7) ∈ earlier →
        time + (config.inactivityTimeout + config.drainGracePeriod) ≤ 90) ∧
      ∃ since,
        TrackedSince config 7 earlier since ∧
          ∃ time, (time, .livelinessRevoked 7) ∈ since := by
  intro config earlier
  have archived : 7 ∈ ((afterCalls config earlier).tick 90).2 := by decide
  exact ⟨archived,
    archived_after_both_timeouts config (earlier ++ [(90, .tick)])
      (by decide) earlier [] 90 rfl 7 archived⟩

/-- A restored token does not find its publisher draining. -/
def RestoresInTime (manager : LifecycleManager) (timed : TimedCall) : Prop :=
  match timed.2 with
  | .livelinessRestored publisher =>
    manager.state publisher ≠ some .draining
  | .activity _ | .livelinessRevoked _ | .tick | .gcArchived => True

instance RestoresInTime.decidable
    (manager : LifecycleManager)
    (timed : TimedCall) :
    Decidable (manager.RestoresInTime timed) :=
  match isCall : timed.2 with
  | .livelinessRestored publisher =>
    decidable_of_iff (manager.state publisher ≠ some .draining)
      (by rw [RestoresInTime, isCall])
  | .activity _ | .livelinessRevoked _ | .tick | .gcArchived =>
    isTrue (by rw [RestoresInTime, isCall]; trivial)

/-- While restores come in time, publishers on their way out have no token. -/
theorem withdrawn_afterCalls
    (guarded : GuardedRun perform RestoresInTime (new config) calls)
    (isEntry :
      (afterCalls config calls).publishers.get? publisher = some entry) :
    entry.Withdrawn := by
  refine GuardedRun.invariant
    (fun manager : LifecycleManager => ∀ publisher entry,
      manager.publishers.get? publisher = some entry → entry.Withdrawn)
    ?_ (fun _ _ isNew => by cases isNew) guarded publisher entry isEntry
  intro manager timed withdrawn inTime publisher next isNext
  rw [get?_perform] at isNext
  cases isBefore : manager.publishers.get? publisher with
  | none =>
    rw [isBefore] at isNext
    rw [(created_of_followCall isNext).2]
    exact PublisherLiveness.withdrawn_of_active rfl
  | some before =>
    rw [isBefore] at isNext
    refine (entryStep_of_followCall isNext).withdrawn
      (withdrawn publisher before isBefore) ?_
    intro isRestored isDraining
    rw [RestoresInTime, isRestored] at inTime
    exact inTime (by rw [state, isBefore, Option.map_some, isDraining])

/-- A token that finds its publisher draining leaves it draining. -/
theorem archives_after_late_restore
    (ascending : Ascending calls)
    (now : Nat)
    (isDraining :
      (afterCalls config calls).state publisher = some .draining) :
    ∃ deadline, ∀ later, deadline ≤ later →
      publisher ∈
        ((afterCalls config
          (calls ++ [(now, .livelinessRestored publisher)])).tick later).2 := by
  obtain ⟨entry, isEntry, isState⟩ := Option.map_eq_some_iff.mp isDraining
  obtain ⟨deadline, isDeadline, -⟩ :=
    (tracked_afterCalls ascending isEntry).timely.drain isState
  refine ⟨deadline, fun later passed => mem_tick_iff.mpr
    ⟨entry.onLivelinessRestored, deadline, ?_, ?_, ?_, passed⟩⟩
  · simp [get?_afterCalls_snoc, isEntry, followCall]
  · simp [PublisherLiveness.onLivelinessRestored, isState]
  · simp [PublisherLiveness.onLivelinessRestored, isState, isDeadline]

/--
At no point of a run would a tick archive a publisher whose token is present,
exactly if every restored token comes before its publisher is draining.
-/
theorem live_not_archived_iff
    (config : LifecycleConfig)
    (calls : List TimedCall)
    (ascending : Ascending calls) :
    (∀ earlier, earlier <+: calls →
        ∀ now, (∀ timed ∈ earlier, timed.1 ≤ now) →
          ∀ publisher ∈ ((afterCalls config earlier).tick now).2,
            tokenPresent publisher earlier = false) ↔
      GuardedRun perform RestoresInTime (new config) calls := by
  constructor
  · intro neverLive
    refine GuardedRun.iff_forall_split.mpr ?_
    intro earlier timed later shape
    obtain ⟨now, call⟩ := timed
    cases call with
    | activity | livelinessRevoked | tick | gcArchived =>
      trivial
    | livelinessRestored publisher =>
      intro isDraining
      have earlierAscending : Ascending earlier := by
        rw [shape] at ascending
        exact (pairwise_append.mp ascending).1
      obtain ⟨deadline, archives⟩ :=
        archives_after_late_restore earlierAscending now isDraining
      let restored : List TimedCall :=
        earlier ++ [(now, .livelinessRestored publisher)]
      have isPrefix : restored <+: calls :=
        ⟨later, by rw [shape, append_assoc, singleton_append]⟩
      -- A tick after every call so far and after the deadline.
      have absent :=
        neverLive restored isPrefix (deadline + (restored.map Prod.fst).sum)
          (fun other member =>
            le_add_left (le_sum_of_mem (mem_map_of_mem member)))
          publisher (archives _ (Nat.le_add_right _ _))
      rw [tokenPresent_snoc] at absent
      simp [LifecycleCall.token?] at absent
  · rintro guarded earlier ⟨later, shape⟩ now _ publisher archived
    obtain ⟨entry, deadline, isEntry, isDraining, -, -⟩ :=
      mem_tick_iff.mp archived
    rw [← shape] at guarded
    have lost := withdrawn_afterCalls (GuardedRun.append_iff.mp guarded).1
      isEntry (Or.inr isDraining)
    by_contra present
    have live := live_of_tokenPresent isEntry
      (Bool.eq_true_of_not_eq_false present)
    cases live.symm.trans lost

/-- A token that returns while its publisher is suspected keeps it active. -/
theorem live_not_archived_suspected :
    let calls : List TimedCall :=
      [(0, .activity 7), (5, .livelinessRevoked 7), (40, .tick),
        (50, .livelinessRestored 7), (60, .tick), (100, .tick)]
    Ascending calls ∧
      ∀ earlier, earlier <+: calls →
        ∀ now, (∀ timed ∈ earlier, timed.1 ≤ now) →
          ∀ publisher ∈ ((afterCalls ⟨50, 30⟩ earlier).tick now).2,
            tokenPresent publisher earlier = false := by
  intro calls
  have ascending : Ascending calls := by decide
  exact ⟨ascending,
    (live_not_archived_iff ⟨50, 30⟩ calls ascending).mpr (by decide)⟩

/-- A publisher whose token returned while it was draining is archived. -/
theorem live_publisher_archived :
    let earlier : List TimedCall :=
      [(0, .activity 7), (0, .livelinessRevoked 7), (50, .tick),
        (60, .livelinessRestored 7)]
    Ascending (earlier ++ [(80, .tick)]) ∧
      tokenPresent 7 earlier = true ∧
      ((afterCalls ⟨50, 30⟩ earlier).tick 80).2 = [7] := by
  decide

end LifecycleManager

end Runs

end Mitiflow
