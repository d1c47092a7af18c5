import Mitiflow.Library.ReadModifyWrite
import Mitiflow.Placement

namespace Mitiflow

open Library List

/-!
# The override manager

The orchestrator keeps the table of overrides in memory and publishes it whole
after every change, with the next epoch.  A change reads the current entries,
edits them, and publishes the result; the lock is taken for the read and again
for the publication.  The agents take over a table whose epoch is higher than
that of the one they have.
-/

/-- The table that managers and agents begin with. -/
def OverrideTable.default : OverrideTable where
  entries := []
  epoch := 0
  expiresAt := none

/-- The longest duration of the calendar library, in nanoseconds. -/
def timeDeltaMax : Nat := (2 ^ 63 - 1) * 10 ^ 6

/-- The end of a time to live; one that is too long counts as none. -/
def expiresAt (ttl : Option Nat) (now : DateTime) : Option DateTime :=
  ttl.map fun duration => now + if duration ≤ timeDeltaMax then duration else 0

/-- The manager and its current table. -/
structure OverrideManager where
  current : OverrideTable
  deriving Repr, DecidableEq

namespace OverrideManager

def new : OverrideManager where
  current := .default

/-- Replace all entries under the next epoch; the new table is published. -/
def publishEntries
    (manager : OverrideManager)
    (entries : List OverrideEntry)
    (ttl : Option Nat)
    (now : DateTime) : OverrideManager :=
  { manager with
    current :=
      { entries := entries
        epoch := manager.current.epoch + 1
        expiresAt := expiresAt ttl now } }

end OverrideManager

/-! ## Changes of the entries -/

/-- Two entries for the same replica. -/
def OverrideEntry.sameReplica (first second : OverrideEntry) : Bool :=
  first.partition = second.partition ∧ first.replica = second.replica

/-- A new entry takes the place of those for its replica. -/
def mergeEntry
    (merged : List OverrideEntry)
    (new : OverrideEntry) : List OverrideEntry :=
  (merged.filter fun entry => !entry.sameReplica new) ++ [new]

/-- The reason that a drain gives its entries. -/
def drainReason (nodeId : String) : String :=
  "drain " ++ nodeId

/-- A call that changes the entries. -/
inductive OverrideCall where
  | addEntries (newEntries : List OverrideEntry) (ttl : Option Nat)
  | removeEntriesForNode (nodeId : String)
  | undrainNode (nodeId : String)
  deriving Repr, DecidableEq

namespace OverrideCall

/-- What a call makes of the entries it read. -/
def edit :
    OverrideCall → List OverrideEntry → List OverrideEntry
  | .addEntries newEntries _, entries =>
    newEntries.foldl mergeEntry entries
  | .removeEntriesForNode nodeId, entries =>
    entries.filter fun entry => entry.nodeId ≠ nodeId
  | .undrainNode nodeId, entries =>
    entries.filter fun entry => entry.reason ≠ drainReason nodeId

/-- The time to live that a call publishes with. -/
def ttl : OverrideCall → Option Nat
  | .addEntries _ ttl => ttl
  | .removeEntriesForNode _ => none
  | .undrainNode _ => none

/-- A call neither removes nor replaces an entry. -/
def Spares (entry : OverrideEntry) : OverrideCall → Prop
  | .addEntries newEntries _ =>
    ∀ new ∈ newEntries, entry.sameReplica new = false
  | .removeEntriesForNode nodeId => entry.nodeId ≠ nodeId
  | .undrainNode nodeId => entry.reason ≠ drainReason nodeId

end OverrideCall

namespace OverrideManager

/-- The publication of a call that read some entries. -/
def publishCall
    (manager : OverrideManager)
    (call : OverrideCall)
    (now : DateTime)
    (seen : List OverrideEntry) : OverrideManager :=
  manager.publishEntries (call.edit seen) call.ttl now

/-- What a call reads. -/
def entries (manager : OverrideManager) : List OverrideEntry :=
  manager.current.entries

def runCall
    (manager : OverrideManager)
    (call : OverrideCall × DateTime) : OverrideManager :=
  manager.publishCall call.1 call.2 manager.entries

/-- Merging keeps the entries for other replicas. -/
theorem mem_mergeEntry
    {merged : List OverrideEntry}
    {new entry : OverrideEntry} :
    entry ∈ mergeEntry merged new ↔
      entry ∈ merged ∧ entry.sameReplica new = false ∨ entry = new := by
  simp [mergeEntry]

theorem mem_foldl_mergeEntry
    {newEntries merged : List OverrideEntry}
    {entry : OverrideEntry}
    (isMerged : entry ∈ merged)
    (spared : ∀ new ∈ newEntries, entry.sameReplica new = false) :
    entry ∈ newEntries.foldl mergeEntry merged := by
  induction newEntries generalizing merged with
  | nil =>
    exact isMerged
  | cons new rest inductionHypothesis =>
    grind [mem_mergeEntry]

/-- No two entries are for the same replica. -/
def OneEach (entries : List OverrideEntry) : Prop :=
  (entries.map fun entry => (entry.partition, entry.replica)).Nodup

section

variable
  {entries : List OverrideEntry}
  (oneEach : OneEach entries)

include oneEach

theorem OneEach.filter
    (keeps : OverrideEntry → Bool) :
    OneEach (entries.filter keeps) :=
  oneEach.sublist (filter_sublist.map _)

theorem OneEach.mergeEntry
    (new : OverrideEntry) :
    OneEach (mergeEntry entries new) := by
  unfold OneEach Mitiflow.mergeEntry
  rw [map_append, nodup_append]
  refine ⟨oneEach.filter _, nodup_singleton _, ?_⟩
  rintro _ isKept _ isNew same
  obtain ⟨entry, isEntry, rfl⟩ := mem_map.mp isKept
  rw [map_singleton, mem_singleton] at isNew
  have other := (mem_filter.mp isEntry).2
  rw [isNew, Prod.mk.injEq] at same
  simp [OverrideEntry.sameReplica, same] at other

theorem OneEach.edit
    (call : OverrideCall) :
    OneEach (call.edit entries) := by
  cases call with
  | addEntries newEntries ttl =>
    simp only [OverrideCall.edit]
    induction newEntries generalizing entries with
    | nil =>
      exact oneEach
    | cons new rest inductionHypothesis =>
      exact inductionHypothesis (oneEach.mergeEntry new)
  | removeEntriesForNode nodeId =>
    exact oneEach.filter _
  | undrainNode nodeId =>
    exact oneEach.filter _

end

/-- Merging different entries puts them in the place of those for their
replicas. -/
theorem mem_foldl_mergeEntry_iff
    {newEntries merged : List OverrideEntry}
    (oneEach : OneEach newEntries)
    {entry : OverrideEntry} :
    entry ∈ newEntries.foldl Mitiflow.mergeEntry merged ↔
      entry ∈ newEntries ∨
        entry ∈ merged ∧
          ∀ new ∈ newEntries, entry.sameReplica new = false := by
  induction newEntries generalizing merged with
  | nil => simp
  | cons new rest inductionHypothesis =>
    obtain ⟨absent, restOnce⟩ := nodup_cons.mp oneEach
    have newSpared : ∀ other ∈ rest, new.sameReplica other = false := by
      intro other isRest
      refine decide_eq_false fun same => absent ?_
      exact mem_map.mpr ⟨other, isRest, Prod.ext same.1.symm same.2.symm⟩
    rw [foldl_cons, inductionHypothesis restOnce, mem_mergeEntry,
      mem_cons, forall_mem_cons]
    constructor
    · rintro (isRest | ⟨⟨isMerged, spared⟩ | rfl, others⟩)
      · exact Or.inl (Or.inr isRest)
      · exact Or.inr ⟨isMerged, spared, others⟩
      · exact Or.inl (Or.inl rfl)
    · rintro ((rfl | isRest) | ⟨isMerged, spared, others⟩)
      · exact Or.inr ⟨Or.inr rfl, newSpared⟩
      · exact Or.inl isRest
      · exact Or.inr ⟨Or.inl ⟨isMerged, spared⟩, others⟩

theorem mem_edit_of_spares
    {call : OverrideCall}
    {entries : List OverrideEntry}
    {entry : OverrideEntry}
    (isEntry : entry ∈ entries)
    (spares : call.Spares entry) :
    entry ∈ call.edit entries := by
  cases call with
  | addEntries newEntries ttl =>
    exact mem_foldl_mergeEntry isEntry spares
  | removeEntriesForNode nodeId =>
    exact mem_filter.mpr ⟨isEntry, decide_eq_true spares⟩
  | undrainNode nodeId =>
    exact mem_filter.mpr ⟨isEntry, decide_eq_true spares⟩

theorem mem_edit_addEntries
    {before after entries : List OverrideEntry}
    {entry : OverrideEntry}
    (ttl : Option Nat)
    (lasts : ∀ later ∈ after, entry.sameReplica later = false) :
    entry ∈
      (OverrideCall.addEntries (before ++ entry :: after) ttl).edit
        entries := by
  simp only [OverrideCall.edit, foldl_append, foldl_cons]
  refine mem_foldl_mergeEntry ?_ lasts
  exact mem_mergeEntry.mpr (Or.inr rfl)

/-- Calls in sequence keep an entry that they all spare. -/
theorem mem_foldl_runCall
    {order : List (OverrideCall × DateTime)}
    {manager : OverrideManager}
    {entry : OverrideEntry}
    (isEntry : entry ∈ manager.entries)
    (spares : ∀ call ∈ order, call.1.Spares entry) :
    entry ∈ (order.foldl runCall manager).entries := by
  induction order generalizing manager with
  | nil =>
    exact isEntry
  | cons call rest inductionHypothesis =>
    refine inductionHypothesis ?_ fun other isRest =>
      spares other (mem_cons_of_mem _ isRest)
    exact mem_edit_of_spares isEntry (spares call mem_cons_self)

/-- In sequence, an entry stays if the calls after its own spare it. -/
theorem mem_foldl_of_added
    {earlier later : List (OverrideCall × DateTime)}
    {before after : List OverrideEntry}
    {entry : OverrideEntry}
    (ttl : Option Nat)
    (now : DateTime)
    (lasts : ∀ later ∈ after, entry.sameReplica later = false)
    (spared : ∀ call ∈ later, call.1.Spares entry)
    (manager : OverrideManager) :
    entry ∈
      ((earlier ++
          (.addEntries (before ++ entry :: after) ttl, now) ::
            later).foldl runCall manager).entries := by
  rw [foldl_append, foldl_cons]
  exact mem_foldl_runCall (mem_edit_addEntries ttl lasts) spared

/-! ## Concurrent calls -/

/-- A manager with calls under way. -/
abbrev Calls := Race OverrideManager (List OverrideEntry) DateTime

/-- One call reads or publishes. -/
def callStep (calls : List OverrideCall) (race : Calls) :
    RaceStep DateTime → Calls :=
  race.step entries publishCall calls

/-- The calls under way after some steps of a new manager. -/
def runCalls
    (calls : List OverrideCall)
    (steps : List (RaceStep DateTime)) : Calls :=
  steps.foldl (callStep calls) (.start new)

theorem oneEach_runCalls
    (calls : List OverrideCall)
    (steps : List (RaceStep DateTime)) :
    OneEach (runCalls calls steps).register.entries := by
  have initially : OneEach new.entries := nodup_nil
  refine Race.invariant_run
    (fun manager : OverrideManager => OneEach manager.entries) OneEach
    (fun _ oneEach => oneEach) ?_ initially steps
  intro manager call stamp seen _ oneEach
  exact oneEach.edit call

/-- In sequence, an entry that one call adds and the others spare is there. -/
theorem mem_of_serial
    {calls : List OverrideCall}
    {race : Calls}
    (wellFormed : race.WellFormed calls)
    {index : Nat}
    {before after : List OverrideEntry}
    {entry : OverrideEntry}
    {ttl : Option Nat}
    (isCall :
      calls[index]? = some (.addEntries (before ++ entry :: after) ttl))
    (completed : index ∈ race.written.map Prod.fst)
    (lasts : ∀ later ∈ after, entry.sameReplica later = false)
    (spared :
      ∀ other call,
        other ≠ index → calls[other]? = some call → call.Spares entry)
    (manager : OverrideManager) :
    entry ∈ ((race.serial calls).foldl runCall manager).entries := by
  obtain ⟨⟨number, now⟩, isWritten, rfl⟩ := mem_map.mp completed
  obtain ⟨earlier, later, isOrder⟩ := append_of_mem isWritten
  have once := wellFormed.once
  rw [isOrder, map_append, map_cons, nodup_append,
    nodup_cons] at once
  simp only [Race.serial, isOrder, filterMap_append,
    filterMap_cons, isCall, Option.map_some]
  refine mem_foldl_of_added ttl now lasts ?_ manager
  rintro ⟨call, stamp⟩ isLater
  obtain ⟨⟨other, otherNow⟩, isOther, looked⟩ := mem_filterMap.mp isLater
  obtain ⟨_, isOtherCall, ⟨⟩⟩ := Option.map_eq_some_iff.mp looked
  refine spared other call ?_ isOtherCall
  rintro rfl
  exact once.2.1.1 (mem_map.mpr ⟨(other, otherNow), isOther, rfl⟩)

/--
Whatever calls come in between, there is one entry for a replica.  If every
publication finds the entries that its call read, the table is the one that
the completed calls give one after the other, and an entry that no other call
removes or replaces is there from the end of the call that adds it.
-/
theorem updates_kept
    (calls : List OverrideCall)
    (steps : List (RaceStep DateTime)) :
    OneEach (runCalls calls steps).register.entries ∧
      (GuardedRun (callStep calls) (Race.Unbroken entries) (.start new)
          steps →
        (runCalls calls steps).register =
            ((runCalls calls steps).serial calls).foldl runCall new ∧
          ((∀ index < calls.length,
              index ∈ (runCalls calls steps).written.map Prod.fst) →
            (((runCalls calls steps).serial calls).map Prod.fst).Perm
              calls) ∧
          ∀ index before entry after ttl,
            calls[index]? = some (.addEntries (before ++ entry :: after) ttl) →
            index ∈ (runCalls calls steps).written.map Prod.fst →
            (∀ later ∈ after, entry.sameReplica later = false) →
            (∀ other call,
              other ≠ index → calls[other]? = some call →
                call.Spares entry) →
            entry ∈ (runCalls calls steps).register.entries) := by
  refine ⟨oneEach_runCalls calls steps, fun unbroken => ?_⟩
  have serial :
      (runCalls calls steps).register =
        ((runCalls calls steps).serial calls).foldl runCall new :=
    Race.register_eq_serial unbroken
  have wellFormed : (runCalls calls steps).WellFormed calls :=
    Race.wellFormed_run new steps
  refine ⟨serial, Race.perm_serial wellFormed, ?_⟩
  intro index before entry after ttl isCall completed lasts spared
  rw [serial]
  exact mem_of_serial wellFormed isCall completed lasts spared new

/-- Two calls that each add an entry for another replica. -/
def twoAdds : List OverrideCall :=
  [.addEntries [⟨0, 0, "a", "pin"⟩] none,
    .addEntries [⟨1, 0, "b", "pin"⟩] none]

theorem updates_kept_twoAdds :
    (runCalls twoAdds
        [.read 0, .write 0 10, .read 1, .write 1 20]).register =
      ((runCalls twoAdds
        [.read 0, .write 0 10, .read 1, .write 1 20]).serial
          twoAdds).foldl runCall new :=
  ((updates_kept twoAdds
    [.read 0, .write 0 10, .read 1, .write 1 20]).2 (by decide)).1

/-- Both calls read before either publishes: the first entry is lost. -/
theorem update_lost :
    (runCalls twoAdds
        [.read 0, .read 1, .write 0 10, .write 1 20]).register.entries =
        [⟨1, 0, "b", "pin"⟩] ∧
      ¬ ∃ order : List (OverrideCall × DateTime),
        (order.map Prod.fst).Perm twoAdds ∧
          (runCalls twoAdds
              [.read 0, .read 1, .write 0 10, .write 1 20]).register =
            order.foldl runCall new := by
  refine ⟨by decide, ?_⟩
  rintro ⟨order, isOrder, same⟩
  have isFirst :
      OverrideCall.addEntries [⟨0, 0, "a", "pin"⟩] none ∈ order.map Prod.fst :=
    isOrder.mem_iff.mpr (by decide)
  obtain ⟨⟨_, now⟩, isCall, rfl⟩ := mem_map.mp isFirst
  obtain ⟨earlier, later, rfl⟩ := append_of_mem isCall
  have once : (twoAdds : List OverrideCall).Nodup := by decide
  rw [← isOrder.nodup_iff, map_append, map_cons,
    nodup_append, nodup_cons] at once
  have present :=
    @mem_foldl_of_added earlier later [] [] ⟨0, 0, "a", "pin"⟩ none now
      (fun _ isLater => nomatch isLater) ?_ new
  · rw [nil_append, ← same] at present
    revert present
    decide
  · rintro ⟨call, stamp⟩ isLater
    have isOne : call ∈ twoAdds :=
      isOrder.mem_iff.mp (mem_map.mpr ⟨(call, stamp),
        mem_append_right _ (mem_cons_of_mem _ isLater), rfl⟩)
    rcases mem_cons.mp isOne with rfl | isSecond
    · exact absurd (mem_map.mpr ⟨_, isLater, rfl⟩) once.2.1.1
    · rw [mem_singleton.mp isSecond]
      exact fun new isNew => by
        rw [mem_singleton.mp isNew]
        decide

end OverrideManager

end Mitiflow
