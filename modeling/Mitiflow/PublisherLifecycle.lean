import Mitiflow.Library.GuardedRun
import Mitiflow.Library.ListedMap
import Mitiflow.Types

namespace Mitiflow

open Library Function

/-!
# The lifecycle of publishers

The store follows each publisher through four states.  Losing the liveliness
token makes a publisher suspected, silence makes it draining and then
archived, and activity makes it active again from every state.  The manager
treats its publishers independently: what a call does to one of them depends
on the entry of that one only, so runs are followed one publisher at a time.

Instants and durations are numbers of nanoseconds without an upper bound.
-/

/-- Publisher lifecycle state. -/
inductive PublisherState where
  | active
  | suspected
  | draining
  | archived
  deriving Repr, DecidableEq

/-- Configuration of the lifecycle, five and two minutes by default. -/
structure LifecycleConfig where
  inactivityTimeout : Nat := 300000000000
  drainGracePeriod : Nat := 120000000000
  deriving Repr, DecidableEq

/-- What is tracked of one publisher. -/
structure PublisherLiveness where
  state : PublisherState
  lastActivity : Nat
  livelinessLive : Bool
  suspicionDeadline : Option Nat
  drainDeadline : Option Nat
  deriving Repr, DecidableEq

namespace PublisherLiveness

def newActive (now : Nat) : PublisherLiveness where
  state := .active
  lastActivity := now
  livelinessLive := true
  suspicionDeadline := none
  drainDeadline := none

/-- Activity of a publisher that has an entry. -/
def onActivity (entry : PublisherLiveness) (now : Nat) :
    PublisherLiveness :=
  let seen := { entry with lastActivity := now }
  match entry.state with
  | .suspected | .draining | .archived =>
    { seen with
      state := .active
      suspicionDeadline := none
      drainDeadline := none }
  | .active => seen

/-- Loss of the liveliness token. -/
def onLivelinessRevoked
    (entry : PublisherLiveness)
    (config : LifecycleConfig)
    (now : Nat) : PublisherLiveness :=
  let revoked := { entry with livelinessLive := false }
  if entry.state = .active then
    { revoked with
      state := .suspected
      suspicionDeadline := some (now + config.inactivityTimeout) }
  else
    revoked

/-- Return of the liveliness token. -/
def onLivelinessRestored (entry : PublisherLiveness) : PublisherLiveness :=
  let restored := { entry with livelinessLive := true }
  if entry.state = .suspected then
    { restored with
      state := .active
      suspicionDeadline := none }
  else
    restored

def due (deadline : Option Nat) (now : Nat) : Bool :=
  deadline.any fun instant => instant ≤ now

def tick
    (entry : PublisherLiveness)
    (config : LifecycleConfig)
    (now : Nat) : PublisherLiveness :=
  match entry.state with
  | .active =>
    if entry.livelinessLive = false ∧
        config.inactivityTimeout < now - entry.lastActivity then
      { entry with
        state := .draining
        drainDeadline := some (now + config.drainGracePeriod) }
    else
      entry
  | .suspected =>
    if due entry.suspicionDeadline now then
      { entry with
        state := .draining
        drainDeadline := some (now + config.drainGracePeriod)
        suspicionDeadline := none }
    else
      entry
  | .draining =>
    if due entry.drainDeadline now then
      { entry with
        state := .archived
        drainDeadline := none }
    else
      entry
  | .archived => entry

/-- Whether a tick moves the publisher to the archived state. -/
def archivedBy (entry : PublisherLiveness) (now : Nat) : Bool :=
  entry.state = .draining && due entry.drainDeadline now

/-- The epoch counts every change of state. -/
def transitions (before after : PublisherLiveness) : Nat :=
  if before.state = after.state then 0 else 1

end PublisherLiveness

/-- The entries of all publishers and the epoch. -/
structure LifecycleManager where
  publishers : ListedMap PublisherId PublisherLiveness
  config : LifecycleConfig
  epoch : Nat

namespace LifecycleManager

def new (config : LifecycleConfig) : LifecycleManager where
  publishers := .empty
  config := config
  epoch := 0

/-- Activity creates the entry if there is none. -/
def onActivity
    (manager : LifecycleManager)
    (publisher : PublisherId)
    (now : Nat) : LifecycleManager :=
  let (entry, created) :=
    match manager.publishers.get? publisher with
    | some entry => (entry, 0)
    | none => (.newActive now, 1)
  let seen := entry.onActivity now
  { manager with
    publishers := manager.publishers.insert publisher seen
    epoch := manager.epoch + created + entry.transitions seen }

/-- Change the entry of a publisher, if there is one. -/
def changeEntry
    (manager : LifecycleManager)
    (publisher : PublisherId)
    (change : PublisherLiveness → PublisherLiveness) : LifecycleManager :=
  { manager with
    publishers := manager.publishers.modify publisher change
    epoch :=
      manager.epoch +
        (manager.publishers.get? publisher).elim 0
          fun entry => entry.transitions (change entry) }

def onLivelinessRevoked
    (manager : LifecycleManager)
    (publisher : PublisherId)
    (now : Nat) : LifecycleManager :=
  manager.changeEntry publisher
    fun entry => entry.onLivelinessRevoked manager.config now

def onLivelinessRestored
    (manager : LifecycleManager)
    (publisher : PublisherId) : LifecycleManager :=
  manager.changeEntry publisher PublisherLiveness.onLivelinessRestored

/-- Advance every entry; returns the publishers that became archived. -/
def tick (manager : LifecycleManager) (now : Nat) :
    LifecycleManager × List PublisherId :=
  ({ manager with
      publishers :=
        manager.publishers.mapValues fun entry =>
          entry.tick manager.config now
      epoch :=
        manager.epoch +
          (manager.publishers.values.map fun entry =>
            entry.transitions (entry.tick manager.config now)).sum },
    manager.publishers.keys.filter fun publisher =>
      (manager.publishers.get? publisher).any fun entry =>
        entry.archivedBy now)

/-- Forget the archived publishers; returns how many there were. -/
def gcArchived (manager : LifecycleManager) : LifecycleManager × Nat :=
  let kept :=
    manager.publishers.retain fun entry => entry.state ≠ .archived
  ({ manager with publishers := kept },
    manager.publishers.keys.length - kept.keys.length)

def state (manager : LifecycleManager) (publisher : PublisherId) :
    Option PublisherState :=
  (manager.publishers.get? publisher).map PublisherLiveness.state

end LifecycleManager

/-- A call of the manager. -/
inductive LifecycleCall where
  | activity (publisher : PublisherId)
  | livelinessRevoked (publisher : PublisherId)
  | livelinessRestored (publisher : PublisherId)
  | tick
  | gcArchived
  deriving Repr, DecidableEq

/-- A call and the clock it reads. -/
abbrev TimedCall := Nat × LifecycleCall

namespace LifecycleManager

def perform (manager : LifecycleManager) (timed : TimedCall) :
    LifecycleManager :=
  match timed.2 with
  | .activity publisher => manager.onActivity publisher timed.1
  | .livelinessRevoked publisher =>
    manager.onLivelinessRevoked publisher timed.1
  | .livelinessRestored publisher => manager.onLivelinessRestored publisher
  | .tick => (manager.tick timed.1).1
  | .gcArchived => manager.gcArchived.1

def afterCalls (config : LifecycleConfig) (calls : List TimedCall) :
    LifecycleManager :=
  calls.foldl perform (new config)

end LifecycleManager

/-! ## One publisher at a time -/

/-- What a call does to the entry of one publisher. -/
def followCall
    (config : LifecycleConfig)
    (publisher : PublisherId)
    (entry : Option PublisherLiveness)
    (timed : TimedCall) : Option PublisherLiveness :=
  match timed.2 with
  | .activity other =>
    if publisher = other then
      some ((entry.getD (.newActive timed.1)).onActivity timed.1)
    else
      entry
  | .livelinessRevoked other =>
    if publisher = other then
      entry.map (·.onLivelinessRevoked config timed.1)
    else
      entry
  | .livelinessRestored other =>
    if publisher = other then
      entry.map PublisherLiveness.onLivelinessRestored
    else
      entry
  | .tick => entry.map (·.tick config timed.1)
  | .gcArchived => entry.filter fun tracked => tracked.state ≠ .archived

/-- A call that leaves the entry of a publisher alone, if it keeps it. -/
def LifecycleCall.Spares (publisher : PublisherId) : LifecycleCall → Prop
  | .activity other | .livelinessRevoked other | .livelinessRestored other =>
    publisher ≠ other
  | .tick => False
  | .gcArchived => True

/-- Everything a call can do to an entry that exists before and after it. -/
inductive EntryStep
    (config : LifecycleConfig)
    (publisher : PublisherId)
    (entry : PublisherLiveness) :
    TimedCall → PublisherLiveness → Prop where
  | activity (now : Nat) :
      EntryStep config publisher entry (now, .activity publisher)
        (entry.onActivity now)
  | revoked (now : Nat) :
      EntryStep config publisher entry (now, .livelinessRevoked publisher)
        (entry.onLivelinessRevoked config now)
  | restored (now : Nat) :
      EntryStep config publisher entry (now, .livelinessRestored publisher)
        entry.onLivelinessRestored
  | tick (now : Nat) :
      EntryStep config publisher entry (now, .tick) (entry.tick config now)
  | spared (timed : TimedCall) (spares : timed.2.Spares publisher) :
      EntryStep config publisher entry timed entry

variable {timed : TimedCall}

section Follow

variable {config : LifecycleConfig} {publisher : PublisherId}

theorem entryStep_of_followCall
    {entry next : PublisherLiveness}
    (follows : followCall config publisher (some entry) timed = some next) :
    EntryStep config publisher entry timed next := by
  obtain ⟨now, call⟩ := timed
  cases call with
  | activity other =>
    by_cases own : publisher = other
    · subst own
      simp only [followCall, if_true, Option.getD_some,
        Option.some.injEq] at follows
      exact follows ▸ .activity now
    · simp only [followCall, own, if_false, Option.some.injEq] at follows
      exact follows ▸ .spared _ own
  | livelinessRevoked other =>
    by_cases own : publisher = other
    · subst own
      simp only [followCall, if_true, Option.map_some,
        Option.some.injEq] at follows
      exact follows ▸ .revoked now
    · simp only [followCall, own, if_false, Option.some.injEq] at follows
      exact follows ▸ .spared _ own
  | livelinessRestored other =>
    by_cases own : publisher = other
    · subst own
      simp only [followCall, if_true, Option.map_some,
        Option.some.injEq] at follows
      exact follows ▸ .restored now
    · simp only [followCall, own, if_false, Option.some.injEq] at follows
      exact follows ▸ .spared _ own
  | tick =>
    simp only [followCall, Option.map_some, Option.some.injEq] at follows
    exact follows ▸ .tick now
  | gcArchived =>
    simp only [followCall, Option.filter_eq_some_iff] at follows
    exact Option.some.inj follows.1 ▸ .spared _ trivial

theorem created_of_followCall
    {next : PublisherLiveness}
    (follows : followCall config publisher none timed = some next) :
    timed.2 = .activity publisher ∧ next = .newActive timed.1 := by
  obtain ⟨now, call⟩ := timed
  cases call with
  | activity other =>
    by_cases own : publisher = other
    · subst own
      simp only [followCall, if_true, Option.getD_none,
        Option.some.injEq] at follows
      exact ⟨rfl, follows.symm⟩
    · simp [followCall, own] at follows
  | livelinessRevoked other | livelinessRestored other =>
    simp [followCall] at follows
  | tick | gcArchived =>
    simp [followCall] at follows

end Follow

namespace LifecycleManager

@[simp]
theorem config_perform (manager : LifecycleManager) (timed : TimedCall) :
    (manager.perform timed).config = manager.config := by
  obtain ⟨now, call⟩ := timed
  cases call <;> rfl

theorem get?_perform
    (manager : LifecycleManager)
    (timed : TimedCall)
    (publisher : PublisherId) :
    (manager.perform timed).publishers.get? publisher =
      followCall manager.config publisher
        (manager.publishers.get? publisher) timed := by
  obtain ⟨now, call⟩ := timed
  cases call with
  | activity other =>
    simp only [perform, onActivity, ListedMap.get?_insert, followCall,
      update_apply]
    by_cases own : publisher = other
    · subst own
      cases manager.publishers.get? publisher <;> rfl
    · simp [own]
  | livelinessRevoked other =>
    simp only [perform, onLivelinessRevoked, changeEntry,
      ListedMap.get?_modify, followCall, update_apply]
    by_cases own : publisher = other
    · simp [own]
    · simp [own]
  | livelinessRestored other =>
    simp only [perform, onLivelinessRestored, changeEntry,
      ListedMap.get?_modify, followCall, update_apply]
    by_cases own : publisher = other
    · simp [own]
    · simp [own]
  | tick =>
    rfl
  | gcArchived =>
    rfl

section

variable
  (config : LifecycleConfig)
  (calls : List TimedCall)

include config calls

@[simp]
theorem config_afterCalls :
    (afterCalls config calls).config = config :=
  List.foldlRecOn calls perform (motive := fun manager =>
    manager.config = config) rfl
    (fun manager same timed _ => (manager.config_perform timed).trans same)

theorem afterCalls_snoc
    (timed : TimedCall) :
    afterCalls config (calls ++ [timed]) =
      (afterCalls config calls).perform timed := by
  simp [afterCalls]

theorem get?_afterCalls_snoc
    (timed : TimedCall)
    (publisher : PublisherId) :
    (afterCalls config (calls ++ [timed])).publishers.get? publisher =
      followCall config publisher
        ((afterCalls config calls).publishers.get? publisher) timed := by
  rw [afterCalls_snoc, get?_perform, config_afterCalls]

end

/--
What holds of a new entry, and of what a call makes of an entry of which it
held, holds of every entry.
-/
theorem entry_rule
    {config : LifecycleConfig}
    {publisher : PublisherId}
    (Holds : List TimedCall → PublisherLiveness → Prop)
    (created :
      ∀ earlier timed,
        (afterCalls config earlier).publishers.get? publisher = none →
        (afterCalls config (earlier ++ [timed])).publishers.get? publisher =
          some (.newActive timed.1) →
        timed.2 = .activity publisher →
          Holds (earlier ++ [timed]) (.newActive timed.1))
    (stepped :
      ∀ earlier timed before next,
        Holds earlier before →
        (afterCalls config (earlier ++ [timed])).publishers.get? publisher =
          some next →
        EntryStep config publisher before timed next →
          Holds (earlier ++ [timed]) next)
    {calls : List TimedCall}
    {entry : PublisherLiveness}
    (isEntry :
      (afterCalls config calls).publishers.get? publisher = some entry) :
    Holds calls entry := by
  induction calls using List.reverseRecOn generalizing entry with
  | nil =>
    cases isEntry
  | append_singleton earlier timed inductionHypothesis =>
    have follows := isEntry
    rw [get?_afterCalls_snoc] at follows
    cases isBefore : (afterCalls config earlier).publishers.get? publisher with
    | none =>
      rw [isBefore] at follows
      obtain ⟨isActivity, isNew⟩ := created_of_followCall follows
      subst isNew
      exact created earlier timed isBefore isEntry isActivity
    | some before =>
      rw [isBefore] at follows
      exact stepped earlier timed before entry (inductionHypothesis isBefore)
        isEntry (entryStep_of_followCall follows)

end LifecycleManager

/-! ## Liveliness tokens -/

/-- The news of a publisher's token that a call brings. -/
def LifecycleCall.token? (publisher : PublisherId) :
    LifecycleCall → Option Bool
  | .livelinessRevoked other =>
    if publisher = other then some false else none
  | .livelinessRestored other =>
    if publisher = other then some true else none
  | .activity _ | .tick | .gcArchived => none

/--
A publisher's token is present unless the last liveliness call for it was a
revocation.
-/
def tokenPresent (publisher : PublisherId) (calls : List TimedCall) : Bool :=
  (calls.filterMap fun timed => timed.2.token? publisher).getLast?.getD true

theorem tokenPresent_snoc
    (publisher : PublisherId)
    (calls : List TimedCall)
    (timed : TimedCall) :
    tokenPresent publisher (calls ++ [timed]) =
      (timed.2.token? publisher).getD (tokenPresent publisher calls) := by
  rw [tokenPresent, List.filterMap_append]
  cases isNews : timed.2.token? publisher with
  | none =>
    simp [isNews, tokenPresent]
  | some present =>
    simp [isNews]

/-- No step keeps a token out of an entry or in it against the news. -/
theorem EntryStep.livelinessLive_eq
    {config : LifecycleConfig}
    {publisher : PublisherId}
    {entry next : PublisherLiveness}
    (step : EntryStep config publisher entry timed next) :
    next.livelinessLive =
      (timed.2.token? publisher).getD entry.livelinessLive := by
  cases step with
  | activity now =>
    simp only [PublisherLiveness.onActivity]
    cases entry.state <;> rfl
  | revoked now =>
    simp only [PublisherLiveness.onLivelinessRevoked, LifecycleCall.token?]
    split <;> simp
  | restored now =>
    simp only [PublisherLiveness.onLivelinessRestored, LifecycleCall.token?]
    split <;> simp
  | tick now =>
    simp only [PublisherLiveness.tick]
    cases entry.state
    all_goals first | rfl | (dsimp only; split <;> rfl)
  | spared _ spares =>
    obtain ⟨now, call⟩ := timed
    cases call with
    | livelinessRevoked other | livelinessRestored other =>
      simp only [LifecycleCall.Spares] at spares
      simp [LifecycleCall.token?, spares]
    | activity other | tick | gcArchived =>
      rfl

namespace LifecycleManager

/-- An entry whose token is present knows so. -/
theorem live_of_tokenPresent
    {config : LifecycleConfig}
    {calls : List TimedCall}
    {publisher : PublisherId}
    {entry : PublisherLiveness}
    (tracked :
      (afterCalls config calls).publishers.get? publisher = some entry)
    (present : tokenPresent publisher calls = true) :
    entry.livelinessLive = true := by
  refine entry_rule
    (fun calls entry =>
      tokenPresent publisher calls = true → entry.livelinessLive = true)
    (fun _ _ _ _ _ _ => rfl) ?_ tracked present
  intro earlier timed before next known _ step present
  rw [tokenPresent_snoc] at present
  rw [step.livelinessLive_eq]
  cases isNews : timed.2.token? publisher with
  | none =>
    rw [isNews] at present
    exact known present
  | some news =>
    rw [isNews] at present
    exact present

end LifecycleManager

end Mitiflow
