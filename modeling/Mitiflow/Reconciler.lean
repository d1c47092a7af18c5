import Mitiflow.Library.ListedMap
import Mitiflow.Placement

namespace Mitiflow

open Library List Function

/-!
# The reconciler

A storage agent compares the stores it should have with those it has, starts
the missing ones and drains the others.  Three kinds of tasks work on the same
map: the call that applies the actions one after the other, the timers that
remove drained stores when the grace period is over, and the recoveries of
started stores.

The actions are applied step by step, so that timers and recoveries may act
between any two of them.  Every start succeeds.
-/

/-- A partition and a replica. -/
abbrev StoreKey := U32 × U32

instance instLawfulBEqStoreKey : LawfulBEq StoreKey :=
  inferInstance

/-- The lifecycle of a managed store. -/
inductive StoreState where
  | starting
  | recovering
  | active
  | draining
  | stopped
  deriving Repr, DecidableEq

/-- The states of the stores that are listed as active. -/
def StoreState.serves : StoreState → Bool
  | .starting | .recovering | .active => true
  | .draining | .stopped => false

/-- An action of a reconciliation. -/
inductive ReconcileAction where
  | start (key : StoreKey)
  | drain (key : StoreKey)
  | stop (key : StoreKey)
  deriving Repr, DecidableEq

/-- A store and the token of its drain timer. -/
structure ManagedStore where
  state : StoreState
  drainCancel : Option Nat
  deriving Repr, DecidableEq

/-- A task that removes a store when the grace period is over. -/
structure DrainTimer where
  key : StoreKey
  token : Nat
  deriving Repr, DecidableEq

/-- A task that recovers a started store, and whether it has begun. -/
structure StoreRecovery where
  key : StoreKey
  begun : Bool
  deriving Repr, DecidableEq

/-- The status of a store as it is reported. -/
structure PartitionStatus where
  partition : U32
  replica : U32
  state : StoreState
  deriving Repr, DecidableEq

/-- The stores of an agent and the tasks that work on them. -/
structure Reconciler where
  /-- Whether stores are recovered from peers when they start. -/
  recovery : Bool
  stores : ListedMap StoreKey ManagedStore
  timers : List DrainTimer
  recoveries : List StoreRecovery
  nextToken : Nat

/-- What one step of `apply` does under the lock of the map. -/
inductive ApplyStep where
  | action (action : ReconcileAction)
  /-- The second half of a start without recovery. -/
  | markActive (key : StoreKey)
  deriving Repr, DecidableEq

def ApplyStep.key : ApplyStep → StoreKey
  | .action (.start key) | .action (.drain key) | .action (.stop key)
  | .markActive key => key

def ReconcileAction.key (action : ReconcileAction) : StoreKey :=
  (ApplyStep.action action).key

namespace Reconciler

def new (recovery : Bool) : Reconciler :=
  ⟨recovery, .empty, [], [], 0⟩

def stateOf (reconciler : Reconciler) (key : StoreKey) : Option StoreState :=
  (reconciler.stores.get? key).map ManagedStore.state

def serves (reconciler : Reconciler) (key : StoreKey) : Bool :=
  (reconciler.stateOf key).any StoreState.serves

def activeStores (reconciler : Reconciler) : List StoreKey :=
  reconciler.stores.keys.filter reconciler.serves

def partitionStatuses (reconciler : Reconciler) : List PartitionStatus :=
  reconciler.stores.keys.filterMap fun key =>
    (reconciler.stateOf key).bind fun state =>
      if state = .stopped then
        none
      else
        some ⟨key.1, key.2, state⟩

/-- The difference between the desired stores and those in the map. -/
def computeActions
    (reconciler : Reconciler)
    (listing desired : List StoreKey) : List ReconcileAction :=
  let actual := listing.filter fun key =>
    (reconciler.stateOf key).any (· ≠ .stopped)
  (desired.filter fun key => key ∉ actual).map .start ++
    (actual.filter fun key =>
      key ∉ desired ∧
        (reconciler.stateOf key).any fun state =>
          state ≠ .draining ∧ state ≠ .stopped).map .drain

def setState
    (reconciler : Reconciler)
    (key : StoreKey)
    (state : StoreState) : Reconciler :=
  { reconciler with
    stores := reconciler.stores.modify key fun managed =>
      { managed with state } }

/-- Put a new store in the map and begin its recovery. -/
def startStore (reconciler : Reconciler) (key : StoreKey) : Reconciler :=
  { reconciler with
    stores := reconciler.stores.insert key ⟨.starting, none⟩
    recoveries :=
      if reconciler.recovery then
        reconciler.recoveries ++ [⟨key, false⟩]
      else
        reconciler.recoveries }

/-- Begin to drain a store and start its timer. -/
def drainStore (reconciler : Reconciler) (key : StoreKey) : Reconciler :=
  match reconciler.stateOf key with
  | none | some .draining => reconciler
  | some _ =>
    { reconciler with
      -- A token of an earlier drain is dropped without being cancelled.
      stores := reconciler.stores.modify key fun _ =>
        ⟨.draining, some reconciler.nextToken⟩
      timers := reconciler.timers ++ [⟨key, reconciler.nextToken⟩]
      nextToken := reconciler.nextToken + 1 }

/-- Remove a store and cancel its drain timer. -/
def stopStore (reconciler : Reconciler) (key : StoreKey) : Reconciler :=
  match reconciler.stores.get? key with
  | none => reconciler
  | some managed =>
    { reconciler with
      stores := reconciler.stores.erase key
      timers := reconciler.timers.filter fun timer =>
        managed.drainCancel ≠ some timer.token }

def perform (reconciler : Reconciler) : ApplyStep → Reconciler
  | .action (.start key) => reconciler.startStore key
  | .action (.drain key) => reconciler.drainStore key
  | .action (.stop key) => reconciler.stopStore key
  | .markActive key => reconciler.setState key .active

/-- What a step of `apply` leaves to be done right after it. -/
def followUp (reconciler : Reconciler) : ApplyStep → List ApplyStep
  | .action (.start key) =>
    if reconciler.recovery then [] else [.markActive key]
  | _ => []

/-- The grace period of a timer is over. -/
def drainExpires (reconciler : Reconciler) (index : Nat) : Reconciler :=
  match reconciler.timers[index]? with
  | none => reconciler
  | some timer =>
    { reconciler with
      stores := reconciler.stores.erase timer.key
      timers := reconciler.timers.eraseIdx index }

/-- A recovery begins, or ends with whatever result. -/
def recoveryAdvances (reconciler : Reconciler) (index : Nat) : Reconciler :=
  match reconciler.recoveries[index]? with
  | none => reconciler
  | some task =>
    if task.begun then
      { reconciler.setState task.key .active with
        recoveries := reconciler.recoveries.eraseIdx index }
    else
      { reconciler.setState task.key .recovering with
        recoveries := reconciler.recoveries.set index ⟨task.key, true⟩ }

/-! ## What the steps do to the state of a store -/

/-- The state that a step of `apply` leaves of one. -/
def effect (state : Option StoreState) : ApplyStep → Option StoreState
  | .action (.start _) => some .starting
  | .action (.drain _) => state.map fun _ => .draining
  | .action (.stop _) => none
  | .markActive _ => state.map fun _ => .active

theorem stateOf_of_get?
    {before after : Reconciler}
    {key : StoreKey}
    {value : Option ManagedStore}
    (changes :
      after.stores.get? = update before.stores.get? key value) :
    after.stateOf =
      update before.stateOf key (value.map ManagedStore.state) := by
  funext other
  rw [stateOf, changes]
  by_cases same : other = key
  · subst same
    rw [update_self, update_self]
  · rw [update_of_ne same, update_of_ne same, stateOf]

theorem stateOf_setState
    (reconciler : Reconciler)
    (key : StoreKey)
    (state : StoreState) :
    (reconciler.setState key state).stateOf =
      update reconciler.stateOf key
        ((reconciler.stateOf key).map fun _ => state) := by
  rw [stateOf_of_get? (reconciler.stores.get?_modify key _), stateOf,
    Option.map_map, Option.map_map]
  rfl

theorem stateOf_drainStore (reconciler : Reconciler) (key : StoreKey) :
    (reconciler.drainStore key).stateOf =
      update reconciler.stateOf key
        ((reconciler.stateOf key).map fun _ => .draining) := by
  rw [drainStore]
  split
  · next absent =>
      rw [absent, Option.map_none, ← absent, update_eq_self]
  · next draining =>
      rw [draining, Option.map_some, ← draining, update_eq_self]
  · rw [stateOf_of_get? (reconciler.stores.get?_modify key _), stateOf,
      Option.map_map, Option.map_map]
    rfl

theorem stateOf_stopStore (reconciler : Reconciler) (key : StoreKey) :
    (reconciler.stopStore key).stateOf =
      update reconciler.stateOf key none := by
  rw [stopStore]
  split
  · grind [stateOf]
  · exact @stateOf_of_get? reconciler _ key none
      (reconciler.stores.get?_erase key)

theorem stateOf_perform (reconciler : Reconciler) (step : ApplyStep) :
    (reconciler.perform step).stateOf =
      update reconciler.stateOf step.key
        (effect (reconciler.stateOf step.key) step) := by
  match step with
  | .action (.start key) =>
    exact @stateOf_of_get? reconciler (reconciler.startStore key) key
      (some _) (reconciler.stores.get?_insert key _)
  | .action (.drain key) => exact reconciler.stateOf_drainStore key
  | .action (.stop key) => exact reconciler.stateOf_stopStore key
  | .markActive key => exact reconciler.stateOf_setState key .active

variable {step : ApplyStep}

section

variable {reconciler : Reconciler}

theorem stateOf_drainExpires
    {index : Nat}
    {timer : DrainTimer}
    (pending : reconciler.timers[index]? = some timer) :
    (reconciler.drainExpires index).stateOf =
      update reconciler.stateOf timer.key none := by
  rw [drainExpires, pending]
  exact @stateOf_of_get? reconciler _ timer.key none
    (reconciler.stores.get?_erase timer.key)

theorem stateOf_recoveryAdvances
    {index : Nat}
    {task : StoreRecovery}
    (pending : reconciler.recoveries[index]? = some task) :
    (reconciler.recoveryAdvances index).stateOf =
      update reconciler.stateOf task.key
        ((reconciler.stateOf task.key).map fun _ =>
          if task.begun then .active else .recovering) := by
  rw [recoveryAdvances, pending]
  by_cases begun : task.begun
  · simp only [begun, if_true]
    exact reconciler.stateOf_setState task.key .active
  · simp only [begun]
    exact reconciler.stateOf_setState task.key .recovering

variable {key : StoreKey}

theorem exists_state_of_serves
    (serves : reconciler.serves key) :
    ∃ state, reconciler.stateOf key = some state := by
  refine Option.ne_none_iff_exists'.mp fun absent => ?_
  rw [Reconciler.serves, absent] at serves
  cases serves

/-- A store serves after its start, and until it is drained or stopped. -/
theorem serves_perform
    (due : reconciler.serves key ∨ step = .action (.start key))
    (undrained : step ≠ .action (.drain key))
    (goesOn : step ≠ .action (.stop key)) :
    (reconciler.perform step).serves key := by
  rw [serves, stateOf_perform]
  by_cases same : key = step.key
  · subst same
    rw [update_self]
    match step with
    | .action (.start _) => rfl
    | .action (.drain _) => exact absurd rfl undrained
    | .action (.stop _) => exact absurd rfl goesOn
    | .markActive key =>
      obtain ⟨state, present⟩ :=
        exists_state_of_serves (due.resolve_right nofun)
      rw [present]
      rfl
  · rw [update_of_ne same]
    refine due.resolve_right ?_
    rintro rfl
    exact same rfl

/-- A recovery stops no store from serving. -/
theorem serves_recoveryAdvances
    (serves : reconciler.serves key)
    (index : Nat) :
    (reconciler.recoveryAdvances index).serves key := by
  cases pending : reconciler.recoveries[index]? with
  | none => rwa [recoveryAdvances, pending]
  | some task =>
    rw [Reconciler.serves, stateOf_recoveryAdvances pending]
    by_cases same : key = task.key
    · grind [exists_state_of_serves, StoreState.serves]
    · rwa [update_of_ne same]

theorem mem_timers_perform
    {timer : DrainTimer}
    (pending : timer ∈ (reconciler.perform step).timers) :
    timer ∈ reconciler.timers ∨ step = .action (.drain timer.key) := by
  match step with
  | .action (.start _) | .markActive _ => exact Or.inl pending
  | .action (.drain key) =>
    grind [perform, drainStore]
  | .action (.stop key) =>
    rw [perform, stopStore] at pending
    split at pending
    · exact Or.inl pending
    · exact Or.inl (mem_of_mem_filter pending)

end

/-- Only a stop cancels a timer. -/
theorem timers_prefix_perform
    (reconciler : Reconciler)
    (goesOn : ∀ key, step ≠ .action (.stop key)) :
    reconciler.timers <+: (reconciler.perform step).timers := by
  match step with
  | .action (.start _) | .markActive _ => exact prefix_rfl
  | .action (.drain key) =>
    rw [perform, drainStore]
    split
    · exact prefix_rfl
    · exact prefix_rfl
    · exact prefix_append ..
  | .action (.stop key) => exact absurd rfl (goesOn key)

theorem exists_timer_drainStore
    {reconciler : Reconciler}
    {key : StoreKey}
    {state : StoreState}
    (present : reconciler.stateOf key = some state)
    (goesOn : state ≠ .draining) :
    ∃ timer ∈ (reconciler.drainStore key).timers, timer.key = key := by
  rw [drainStore, present]
  cases state with
  | draining => exact absurd rfl goesOn
  | starting | recovering | active | stopped =>
    exact ⟨⟨key, reconciler.nextToken⟩, mem_append_right _
      (mem_singleton_self _), rfl⟩

theorem timers_recoveryAdvances (reconciler : Reconciler) (index : Nat) :
    (reconciler.recoveryAdvances index).timers = reconciler.timers := by
  rw [recoveryAdvances]
  split
  · rfl
  · split <;> rfl

/-- At most the second half of a start follows a step. -/
theorem followUp_cases (reconciler : Reconciler) (next : ApplyStep) :
    reconciler.followUp next = [] ∨
      reconciler.followUp next = [.markActive next.key] := by
  match next with
  | .action (.start key) =>
    rw [followUp]
    split
    · exact Or.inl rfl
    · exact Or.inr rfl
  | .action (.drain _) | .action (.stop _) | .markActive _ =>
    exact Or.inl rfl

theorem mem_followUp
    {reconciler : Reconciler}
    {next step : ApplyStep}
    (pending : step ∈ reconciler.followUp next) :
    step = .markActive next.key := by
  rcases reconciler.followUp_cases next with follows | follows
  · rw [follows] at pending
    cases pending
  · rw [follows] at pending
    exact mem_singleton.mp pending

/-! ## What holds of a reconciler at any time -/

/-- A draining store has a timer, and no store stays in the map stopped. -/
structure Sound (reconciler : Reconciler) : Prop where
  timed :
    ∀ key, reconciler.stateOf key = some .draining →
      ∃ timer ∈ reconciler.timers, timer.key = key
  unstopped : ∀ key, reconciler.stateOf key ≠ some .stopped

theorem sound_new (recovery : Bool) : Sound (new recovery) where
  timed := fun _ draining => nomatch draining
  unstopped := fun _ stopped => nomatch stopped

/-- A store that is not draining is absent or serves. -/
theorem serves_iff
    {reconciler : Reconciler}
    {key : StoreKey}
    (unstopped : reconciler.stateOf key ≠ some .stopped) :
    reconciler.serves key ↔
      reconciler.stateOf key ≠ none ∧
        reconciler.stateOf key ≠ some .draining := by
  cases present : reconciler.stateOf key with
  | none => simp [serves, present]
  | some state =>
    cases state with
    | stopped => exact absurd present unstopped
    | starting | recovering | active | draining =>
      simp [serves, present, StoreState.serves]

/-- A change of one store keeps the others sound if it keeps their timers. -/
theorem Sound.update
    {before after : Reconciler}
    (sound : Sound before)
    {key : StoreKey}
    {value : Option StoreState}
    (states : after.stateOf = update before.stateOf key value)
    (unstopped : value ≠ some .stopped)
    (timed :
      value = some .draining → ∃ timer ∈ after.timers, timer.key = key)
    (kept :
      ∀ timer ∈ before.timers, timer.key ≠ key → timer ∈ after.timers) :
    Sound after where
  timed := by
    intro other draining
    by_cases same : other = key
    · subst same
      rw [states, update_self] at draining
      exact timed draining
    · rw [states, update_of_ne same] at draining
      obtain ⟨timer, pending, isKey⟩ := sound.timed other draining
      exact ⟨timer, kept timer pending (isKey ▸ same), isKey⟩
  unstopped := by
    intro other
    by_cases same : other = key
    · subst same
      rwa [states, update_self]
    · rw [states, update_of_ne same]
      exact sound.unstopped other

theorem effect_ne_stopped
    {state : Option StoreState}
    (step : ApplyStep) :
    effect state step ≠ some .stopped := by
  match step with
  | .action (.start _) | .action (.stop _) => simp [effect]
  | .action (.drain _) | .markActive _ => cases state <;> simp [effect]

/-- Only a drain leaves a store draining. -/
theorem drains_of_effect
    {state : Option StoreState}
    (draining : effect state step = some .draining) :
    step = .action (.drain step.key) ∧ state.isSome := by
  match step with
  | .action (.start _) | .action (.stop _) => cases draining
  | .markActive _ => cases state <;> simp [effect] at draining
  | .action (.drain _) => cases state <;> simp_all [effect, ApplyStep.key]

section

variable
  {reconciler : Reconciler}
  (sound : Sound reconciler)

include sound

theorem sound_perform
    (goesOn : ∀ key, step ≠ .action (.stop key)) :
    Sound (reconciler.perform step) := by
  have keeps := (reconciler.timers_prefix_perform goesOn).subset
  refine sound.update (reconciler.stateOf_perform step)
    (effect_ne_stopped step) (fun draining => ?_) fun _ pending _ =>
      keeps pending
  obtain ⟨drains, isPresent⟩ := drains_of_effect draining
  obtain ⟨state, present⟩ := Option.isSome_iff_exists.mp isPresent
  by_cases before : state = .draining
  · obtain ⟨timer, pending, isKey⟩ := sound.timed step.key (before ▸ present)
    exact ⟨timer, keeps pending, isKey⟩
  · rw [drains]
    exact exists_timer_drainStore present before

theorem sound_drainExpires
    (index : Nat) :
    Sound (reconciler.drainExpires index) := by
  cases pending : reconciler.timers[index]? with
  | none =>
    rw [drainExpires, pending]
    exact sound
  | some timer =>
    refine sound.update (stateOf_drainExpires pending) nofun nofun ?_
    intro other isPending differs
    rw [drainExpires, pending]
    obtain ⟨place, isPlace⟩ := mem_iff_getElem?.mp isPending
    refine mem_eraseIdx_iff_getElem?.mpr ⟨place, ?_, isPlace⟩
    rintro rfl
    rw [pending] at isPlace
    cases isPlace
    exact differs rfl

theorem sound_recoveryAdvances
    (index : Nat) :
    Sound (reconciler.recoveryAdvances index) := by
  cases pending : reconciler.recoveries[index]? with
  | none =>
    rw [recoveryAdvances, pending]
    exact sound
  | some task =>
    have revived : ∀ state,
        (reconciler.stateOf task.key).map (fun _ =>
          if task.begun then StoreState.active else .recovering) =
            some state → state.serves := by
      intro state isState
      obtain ⟨_, -, rfl⟩ := Option.map_eq_some_iff.mp isState
      split <;> rfl
    refine sound.update (stateOf_recoveryAdvances pending)
      (fun stopped => nomatch revived _ stopped)
      (fun draining => nomatch revived _ draining) fun timer isPending _ => ?_
    rwa [timers_recoveryAdvances]

end

/-! ## The actions of a reconciliation -/

section Actions

variable
  {reconciler : Reconciler}
  {listing : List StoreKey}

theorem mem_listing_iff
    (lists : listing.Perm reconciler.stores.keys)
    (key : StoreKey) :
    key ∈ listing ↔ (reconciler.stateOf key).isSome := by
  rw [lists.mem_iff, reconciler.stores.mem_keys, stateOf, Option.isSome_map]

variable {desired : List StoreKey}

theorem start_mem_computeActions
    (lists : listing.Perm reconciler.stores.keys)
    {key : StoreKey}
    (unstopped : reconciler.stateOf key ≠ some .stopped) :
    .start key ∈ reconciler.computeActions listing desired ↔
      key ∈ desired ∧ reconciler.stateOf key = none := by
  have listed := mem_listing_iff lists key
  cases present : reconciler.stateOf key <;> simp_all [computeActions]

/-- The stores that serve without being desired are drained. -/
theorem drain_mem_computeActions
    (lists : listing.Perm reconciler.stores.keys)
    {key : StoreKey} :
    .drain key ∈ reconciler.computeActions listing desired ↔
      key ∉ desired ∧ reconciler.serves key := by
  have listed := mem_listing_iff lists key
  cases present : reconciler.stateOf key with
  | none => simp_all [computeActions, serves]
  | some state =>
    cases state <;> simp_all [computeActions, serves, StoreState.serves]

theorem stop_not_mem_computeActions
    {key : StoreKey} :
    .stop key ∉ reconciler.computeActions listing desired := by
  simp [computeActions]

theorem nodup_keys_computeActions
    (lists : listing.Perm reconciler.stores.keys)
    (distinct : desired.Nodup) :
    ((reconciler.computeActions listing desired).map
      ReconcileAction.key).Nodup := by
  have listed : listing.Nodup := lists.nodup_iff.mpr reconciler.stores.nodup
  simp only [computeActions, map_append, map_map]
  refine nodup_append.mpr ⟨?_, ?_, ?_⟩
  · exact (distinct.filter _).map fun _ _ same => same
  · exact ((listed.filter _).filter _).map fun _ _ same => same
  · intro started isStarted drained isDrained same
    obtain ⟨first, isFirst, rfl⟩ := mem_map.mp isStarted
    obtain ⟨second, isSecond, rfl⟩ := mem_map.mp isDrained
    obtain rfl : first = second := same
    have undesired := (mem_filter.mp isSecond).2
    simp only [decide_eq_true_eq] at undesired
    exact undesired.1 (mem_filter.mp isFirst).1

end Actions

/-! ## A call by itself -/

/-- An action with what follows it, and nothing between them. -/
def applyAction (reconciler : Reconciler) (action : ReconcileAction) :
    Reconciler :=
  (reconciler.followUp (.action action)).foldl perform
    (reconciler.perform (.action action))

def apply (reconciler : Reconciler) (actions : List ReconcileAction) :
    Reconciler :=
  actions.foldl applyAction reconciler

def reconcile (reconciler : Reconciler) (listing desired : List StoreKey) :
    Reconciler × List ReconcileAction :=
  let actions := reconciler.computeActions listing desired
  (reconciler.apply actions, actions)

/-- The state in which a start leaves its store. -/
def startedState (reconciler : Reconciler) : StoreState :=
  if reconciler.recovery then .starting else .active

/-- The state in which an action leaves its store. -/
def outcome
    (reconciler : Reconciler)
    (state : Option StoreState) : ReconcileAction → Option StoreState
  | .start _ => some reconciler.startedState
  | .drain _ => state.map fun _ => .draining
  | .stop _ => none

theorem applyAction_spec
    (reconciler : Reconciler)
    (action : ReconcileAction) :
    (reconciler.applyAction action).startedState = reconciler.startedState ∧
      (reconciler.applyAction action).stateOf =
        update reconciler.stateOf action.key
          (reconciler.outcome (reconciler.stateOf action.key) action) := by
  cases action with
  | start key =>
    cases recovers : reconciler.recovery with
    | true =>
      rw [applyAction, followUp, if_pos recovers, foldl_nil, stateOf_perform]
      simp [perform, startStore, startedState, outcome, effect, recovers,
        ReconcileAction.key]
    | false =>
      rw [applyAction, followUp, recovers, if_neg Bool.false_ne_true,
        foldl_cons, foldl_nil, stateOf_perform, stateOf_perform]
      simp [perform, startStore, setState, startedState, outcome, effect,
        recovers, ReconcileAction.key, ApplyStep.key]
  | drain key =>
    refine ⟨?_, reconciler.stateOf_drainStore key⟩
    simp only [applyAction, followUp, foldl_nil, perform, drainStore]
    split <;> rfl
  | stop key =>
    refine ⟨?_, reconciler.stateOf_stopStore key⟩
    simp only [applyAction, followUp, foldl_nil, perform, stopStore]
    split <;> rfl

/-- Actions on different stores are all done, and nothing else is. -/
theorem stateOf_apply
    (reconciler : Reconciler)
    {actions : List ReconcileAction}
    (distinct : (actions.map ReconcileAction.key).Nodup) :
    (∀ action ∈ actions,
        (reconciler.apply actions).stateOf action.key =
          reconciler.outcome (reconciler.stateOf action.key) action) ∧
      ∀ key, key ∉ actions.map ReconcileAction.key →
        (reconciler.apply actions).stateOf key = reconciler.stateOf key := by
  induction actions generalizing reconciler with
  | nil =>
    exact ⟨fun _ isAction => absurd isAction not_mem_nil, fun _ _ => rfl⟩
  | cons action rest inductionHypothesis =>
    obtain ⟨isNew, restDistinct⟩ := nodup_cons.mp distinct
    obtain ⟨sameStart, states⟩ := reconciler.applyAction_spec action
    obtain ⟨restDone, restOthers⟩ :=
      inductionHypothesis (reconciler.applyAction action) restDistinct
    rw [apply, foldl_cons, ← apply]
    constructor
    · intro other isAction
      rcases mem_cons.mp isAction with rfl | isRest
      · rw [restOthers _ isNew, states, update_self]
      · have differs : other.key ≠ action.key := fun same =>
          isNew (mem_map.mpr ⟨other, isRest, same⟩)
        rw [restDone other isRest, states, update_of_ne differs]
        cases other <;> simp only [outcome, sameStart]
    · intro key isOther
      rw [map_cons, mem_cons, not_or] at isOther
      rw [restOthers key isOther.2, states, update_of_ne isOther.1]

section Reconcile

variable
  {reconciler : Reconciler}
  (unstopped : ∀ key, reconciler.stateOf key ≠ some .stopped)
  {listing desired : List StoreKey}
  (lists : listing.Perm reconciler.stores.keys)
  (distinct : desired.Nodup)

include unstopped lists distinct

theorem stateOf_reconcile (key : StoreKey) :
    (reconciler.reconcile listing desired).1.stateOf key =
      if key ∈ desired then
        some ((reconciler.stateOf key).getD reconciler.startedState)
      else
        (reconciler.stateOf key).map fun _ => .draining := by
  have started :
      .start key ∈ reconciler.computeActions listing desired ↔ _ :=
    start_mem_computeActions lists (unstopped key)
  have drained :
      .drain key ∈ reconciler.computeActions listing desired ↔ _ :=
    drain_mem_computeActions lists
  rw [serves_iff (unstopped key)] at drained
  obtain ⟨done, others⟩ :=
    reconciler.stateOf_apply (nodup_keys_computeActions lists distinct)
  by_cases isStarted :
      .start key ∈ reconciler.computeActions listing desired
  · obtain ⟨wanted, absent⟩ := started.mp isStarted
    rw [if_pos wanted, absent]
    exact done _ isStarted
  by_cases isDrained :
      .drain key ∈ reconciler.computeActions listing desired
  · rw [if_neg (drained.mp isDrained).1]
    exact done _ isDrained
  · have untouched : (reconciler.reconcile listing desired).1.stateOf key =
        reconciler.stateOf key := by
      refine others key fun isKey => ?_
      obtain ⟨action, isAction, rfl⟩ := mem_map.mp isKey
      cases action with
      | start _ => exact isStarted isAction
      | drain _ => exact isDrained isAction
      | stop _ => exact stop_not_mem_computeActions isAction
    rw [untouched]
    cases present : reconciler.stateOf key with
    | none => simp_all
    | some state => by_cases isDraining : state = .draining <;> simp_all

/-- A call starts what is missing, drains what is not wanted, and leaves
nothing to do for a call that repeats it. -/
theorem reconcile_exact :
    let after := (reconciler.reconcile listing desired).1
    let actions := (reconciler.reconcile listing desired).2
    ((actions.map ReconcileAction.key).Nodup ∧
        ∀ key,
          (.start key ∈ actions ↔
            key ∈ desired ∧ reconciler.stateOf key = none) ∧
          (.drain key ∈ actions ↔
            key ∉ desired ∧ reconciler.stateOf key ≠ none ∧
              reconciler.stateOf key ≠ some .draining) ∧
          .stop key ∉ actions) ∧
      (∀ key, after.stateOf key ≠ none ↔
        reconciler.stateOf key ≠ none ∨ key ∈ desired) ∧
      (∀ key, after.stateOf key ≠ none ∧ after.stateOf key ≠ some .draining ↔
        key ∈ desired ∧ reconciler.stateOf key ≠ some .draining) ∧
      ∀ again, again.Perm after.stores.keys →
        (after.reconcile again desired).2 = [] := by
  intro after actions
  have states := stateOf_reconcile unstopped lists distinct
  have unstoppedAfter (key : StoreKey) :
      after.stateOf key ≠ some .stopped := by
    have before := unstopped key
    rw [states]
    cases present : reconciler.stateOf key with
    | none => simp [startedState]; grind
    | some state => simp_all; grind
  have managed (key : StoreKey) : after.stateOf key ≠ none ↔
      reconciler.stateOf key ≠ none ∨ key ∈ desired := by
    rw [states]
    split <;> simp_all
  have undrained (key : StoreKey) :
      after.stateOf key ≠ none ∧ after.stateOf key ≠ some .draining ↔
        key ∈ desired ∧ reconciler.stateOf key ≠ some .draining := by
    rw [states]
    cases present : reconciler.stateOf key with
    | none => simp [startedState]; grind
    | some state => by_cases wanted : key ∈ desired <;> simp [wanted]
  refine ⟨⟨nodup_keys_computeActions lists distinct, fun key => ⟨?_, ?_, ?_⟩⟩,
    managed, undrained, fun again relists => ?_⟩
  · exact start_mem_computeActions lists (unstopped key)
  · rw [← serves_iff (unstopped key)]
    exact drain_mem_computeActions lists
  · exact stop_not_mem_computeActions
  · refine eq_nil_iff_forall_not_mem.mpr fun action isAction => ?_
    cases action with
    | start key =>
      obtain ⟨wanted, absent⟩ :=
        (start_mem_computeActions relists (unstoppedAfter key)).mp isAction
      exact (managed key).mpr (Or.inr wanted) absent
    | drain key =>
      obtain ⟨unwanted, serves⟩ :=
        (drain_mem_computeActions relists).mp isAction
      exact unwanted
        ((undrained key).mp ((serves_iff (unstoppedAfter key)).mp serves)).1
    | stop key =>
      exact stop_not_mem_computeActions isAction

end Reconcile

/-- Two stores are started, and a repeated call does nothing. -/
theorem reconcile_exact_twoStores :
    let after := ((new false).reconcile [] [(0, 0), (1, 0)]).1
    ((new false).reconcile [] [(0, 0), (1, 0)]).2 =
        [.start (0, 0), .start (1, 0)] ∧
      ∀ again, again.Perm after.stores.keys →
        (after.reconcile again [(0, 0), (1, 0)]).2 = [] :=
  ⟨rfl, (reconcile_exact (sound_new false).unstopped (Perm.refl _)
    (by decide)).2.2.2⟩

end Reconciler

end Mitiflow
