import Mitiflow.StoreReopen

namespace Mitiflow

open Library List

/-!
# Retention, compaction and restart

`gc`, `compact` and `compact_keyed` delete events and leave the tracking
states alone; a restart then rebuilds the states from whatever survived.  This
module models the three deleting operations, runs them together with stores
and restarts, and settles when a publisher's durability progress survives.
-/

/-- An entry of the events keyspace. -/
abbrev EventEntry := EventKey × (EventMetadata × Bytes)

/-- Statistics returned by a compaction run. -/
structure CompactionStats where
  removed : Nat := 0
  retained : Nat := 0
  deriving Repr, DecidableEq

/-- The replay index entry of an event, if it carries a clock value. -/
def removeReplayOf (key : EventKey) (metadata : EventMetadata) :
    List WriteOp :=
  match metadata.hlcTimestamp with
  | some hlc => [.removeReplay ⟨hlc, key.publisherId, key.seq⟩]
  | none => []

/--
The latest event key of each group, by sequence number; the entry met first
wins a tie.  Events outside every group are skipped.
-/
def latestByGroup
    (group : EventMetadata → Option String)
    (entries : List EventEntry) : String → Option EventKey :=
  entries.foldl
    (fun latest entry =>
      match group entry.2.1 with
      | none => latest
      | some name =>
        match latest name with
        | none => Function.update latest name (some entry.1)
        | some current =>
          if entry.1.seq > current.seq then
            Function.update latest name (some entry.1)
          else
            latest)
    (fun _ => none)

/-- Grouped entries, with whether each is the latest of its group. -/
def groupedEntries
    (group : EventMetadata → Option String)
    (entries : List EventEntry) : List (EventKey × Bool) :=
  entries.filterMap fun entry =>
    match group entry.2.1 with
    | none => none
    | some name =>
      match latestByGroup group entries name with
      | none => none
      | some latest => some (entry.1, decide (entry.1 = latest))

/-- Keys of the grouped entries that a later one supersedes. -/
def supersededKeys
    (group : EventMetadata → Option String)
    (entries : List EventEntry) : List EventKey :=
  ((groupedEntries group entries).filter (fun entry => !entry.2)).map Prod.fst

/-- Removed and retained counts over the grouped entries. -/
def compactionStats
    (group : EventMetadata → Option String)
    (entries : List EventEntry) : CompactionStats where
  removed := (groupedEntries group entries).countP (fun entry => !entry.2)
  retained := (groupedEntries group entries).countP (fun entry => entry.2)

namespace FjallBackend

/-- Entries older than a given instant. -/
def expiredEntries
    (backend : FjallBackend)
    (olderThan : DateTime) : List EventEntry :=
  backend.db.events.entries.filter (·.2.1.timestamp < olderThan)

/-- The deletions of `gc`, in all three keyspaces. -/
def gcWrites (backend : FjallBackend) (olderThan : DateTime) : List WriteOp :=
  (backend.expiredEntries olderThan).flatMap fun entry =>
    [.removeEvent entry.1, .removeKey entry.2.1.keyExpr.toUTF8.toList] ++
      removeReplayOf entry.1 entry.2.1

/-- Remove events older than a given instant; returns how many. -/
def gc
    (backend : FjallBackend)
    (olderThan : DateTime)
    (outcome : Except String Unit) : FjallBackend × Except Error Nat :=
  let (committed, result) :=
    backend.commitBatch (backend.gcWrites olderThan) outcome
      "gc batch commit failed: "
  (committed, result.map fun _ => (backend.expiredEntries olderThan).length)

/-- `compact` groups by key expression and deletes from events only. -/
def compactWrites (backend : FjallBackend) : List WriteOp :=
  (supersededKeys (fun metadata => some metadata.keyExpr)
    backend.db.events.entries).map .removeEvent

/-- Keep only the latest event per key expression. -/
def compact
    (backend : FjallBackend)
    (outcome : Except String Unit) :
    FjallBackend × Except Error CompactionStats :=
  let (committed, result) :=
    backend.commitBatch backend.compactWrites outcome
      "compact batch commit failed: "
  (committed, result.map fun _ =>
    compactionStats (fun metadata => some metadata.keyExpr)
      backend.db.events.entries)

/--
`compact_keyed` groups by application key and also deletes the replay entry.
Its deletion from the `keys` keyspace uses the encoded event key, although
that keyspace is keyed by key expression.
-/
def compactKeyedWrites (backend : FjallBackend) : List WriteOp :=
  (supersededKeys EventMetadata.key backend.db.events.entries).flatMap
    fun key =>
      (match backend.db.events.get? key with
        | some value => removeReplayOf key value.1
        | none => []) ++
      [.removeEvent key, .removeKey (encodeEventKey key)]

/-- Keep only the latest event per application key. -/
def compactKeyed
    (backend : FjallBackend)
    (outcome : Except String Unit) :
    FjallBackend × Except Error CompactionStats :=
  let (committed, result) :=
    backend.commitBatch backend.compactKeyedWrites outcome
      "compact_keyed batch commit failed: "
  (committed, result.map fun _ =>
    compactionStats EventMetadata.key backend.db.events.entries)

end FjallBackend

/-! ## Histories with deletions and restarts -/

/-- One successful step in the life of a backend. -/
inductive StoreAction where
  | store (call : StoreCall)
  | gc (olderThan : DateTime)
  | compact
  | compactKeyed
  | reopen
  deriving Repr, DecidableEq

namespace FjallBackend

/-- Perform one step, every storage engine operation succeeding. -/
def act (backend : FjallBackend) : StoreAction → FjallBackend
  | .store call => backend.runCall call
  | .gc olderThan => (backend.gc olderThan (.ok ())).1
  | .compact => (backend.compact (.ok ())).1
  | .compactKeyed => (backend.compactKeyed (.ok ())).1
  | .reopen => rebuild backend.db backend.partition

/-- The backend of a fresh database after some steps. -/
def afterActions (partition : U32) (actions : List StoreAction) :
    FjallBackend :=
  actions.foldl act (fresh partition)

end FjallBackend

/-- Sequences of one publisher stored along a history. -/
def recordedSeqs (publisher : PublisherId) (actions : List StoreAction) :
    Finset Nat :=
  storedSeqs publisher (actions.filterMap fun action =>
    match action with
    | .store call => some call
    | _ => none)

theorem recordedSeqs_append
    (publisher : PublisherId)
    (first second : List StoreAction) :
    recordedSeqs publisher (first ++ second) =
      recordedSeqs publisher first ∪ recordedSeqs publisher second := by
  simp [recordedSeqs, storedSeqs_append]

theorem recordedSeqs_store (publisher : PublisherId) (call : StoreCall) :
    recordedSeqs publisher [.store call] = storedSeqs publisher [call] :=
  rfl

theorem recordedSeqs_reopen (publisher : PublisherId) :
    recordedSeqs publisher [.reopen] = ∅ :=
  rfl

theorem recordedSeqs_subset_append
    (publisher : PublisherId)
    (first second : List StoreAction) :
    recordedSeqs publisher first ⊆
      recordedSeqs publisher (first ++ second) := by
  rw [recordedSeqs_append]
  exact Finset.subset_union_left

/-- A write that only deletes. -/
def WriteOp.removes : WriteOp → Bool
  | .removeEvent _ => true
  | .removeKey _ => true
  | .removeReplay _ => true
  | _ => false

theorem WriteOp.wellFormed_of_removes
    {op : WriteOp}
    (removes : op.removes = true) :
    op.WellFormed := by
  cases op with
  | insertEvent key metadata payload =>
    cases removes
  | insertReplay key target =>
    cases removes
  | _ =>
    trivial

/-- A batch of deletions keeps the records it does not name. -/
theorem Database.mem_commit_removals
    {db : Database}
    {batch : List WriteOp}
    (removals : ∀ op ∈ batch, op.removes = true) :
    (∀ entry, entry ∈ (db.commit batch).events.entries ↔
        entry ∈ db.events.entries ∧ .removeEvent entry.1 ∉ batch) ∧
      ∀ index, index ∈ (db.commit batch).replay.entries ↔
        index ∈ db.replay.entries ∧ .removeReplay index.1 ∉ batch := by
  induction batch generalizing db with
  | nil =>
    simp
  | cons op rest inductionHypothesis =>
    have restRemovals : ∀ later ∈ rest, later.removes = true :=
      fun later member => removals later (by simp [member])
    have opRemoves := removals op (by simp)
    obtain ⟨ofEvents, ofReplay⟩ :=
      @inductionHypothesis (db.apply op) restRemovals
    simp only [commit, foldl_cons] at ofEvents ofReplay ⊢
    simp only [ofEvents, ofReplay]
    cases op with
    | removeEvent removed =>
      simp [apply, OrderedMap.erase, and_assoc]
    | removeReplay removed =>
      simp [apply, OrderedMap.erase, and_assoc]
    | removeKey removed =>
      simp [apply]
    | _ =>
      cases opRemoves

theorem Database.holds_of_commit_removals
    {db : Database}
    {batch : List WriteOp}
    (removals : ∀ op ∈ batch, op.removes = true)
    {key : EventKey}
    (held : (db.commit batch).holds key = true) :
    db.holds key = true := by
  obtain ⟨value, member⟩ := (holds_iff_mem _ _).mp held
  exact (holds_iff_mem _ _).mpr
    ⟨value, (((mem_commit_removals removals).1 _).mp member).1⟩

theorem removes_removeReplayOf
    {key : EventKey}
    {metadata : EventMetadata}
    {op : WriteOp}
    (member : op ∈ removeReplayOf key metadata) :
    op.removes = true := by
  unfold removeReplayOf at member
  split at member
  · rw [mem_singleton.mp member]
    rfl
  · cases member

namespace FjallBackend

variable {backend : FjallBackend} {op : WriteOp}

theorem removes_gcWrites
    {olderThan : DateTime}
    (member : op ∈ backend.gcWrites olderThan) :
    op.removes = true := by
  obtain ⟨entry, _, written⟩ := mem_flatMap.mp member
  rcases mem_append.mp written with direct | replay
  · grind [WriteOp.removes]
  · exact removes_removeReplayOf replay

theorem removes_compactWrites
    (member : op ∈ backend.compactWrites) :
    op.removes = true := by
  obtain ⟨key, _, isRemoval⟩ := mem_map.mp member
  rw [← isRemoval]
  rfl

theorem removes_compactKeyedWrites
    (member : op ∈ backend.compactKeyedWrites) :
    op.removes = true := by
  obtain ⟨key, _, written⟩ := mem_flatMap.mp member
  rcases mem_append.mp written with replay | direct
  · split at replay
    · exact removes_removeReplayOf replay
    · cases replay
  · grind [WriteOp.removes]

/--
Everything a step can do: make a store call, rebuild the states of the same
database, or commit a batch of deletions under unchanged states.
-/
theorem act_cases (backend : FjallBackend) (action : StoreAction) :
    (∃ call, action = .store call) ∨
      action = .reopen ∨
      ((∀ publisher, recordedSeqs publisher [action] = ∅) ∧
        ∃ batch,
          (∀ op ∈ batch, WriteOp.removes op = true) ∧
            backend.act action =
              { backend with db := backend.db.commit batch }) := by
  cases action with
  | store call =>
    exact Or.inl ⟨call, rfl⟩
  | reopen =>
    exact Or.inr (Or.inl rfl)
  | gc olderThan =>
    exact Or.inr (Or.inr ⟨fun _ => rfl, backend.gcWrites olderThan,
      fun _ => removes_gcWrites, rfl⟩)
  | compact =>
    exact Or.inr (Or.inr ⟨fun _ => rfl, backend.compactWrites,
      fun _ => removes_compactWrites, rfl⟩)
  | compactKeyed =>
    exact Or.inr (Or.inr ⟨fun _ => rfl, backend.compactKeyedWrites,
      fun _ => removes_compactKeyedWrites, rfl⟩)

theorem afterActions_snoc
    (partition : U32)
    (actions : List StoreAction)
    (action : StoreAction) :
    afterActions partition (actions ++ [action]) =
      (afterActions partition actions).act action := by
  simp [afterActions]

theorem wellFormed_act
    (wellFormed : backend.db.WellFormed)
    (action : StoreAction) :
    (backend.act action).db.WellFormed := by
  rcases backend.act_cases action with
    ⟨call, isStore⟩ | isReopen | ⟨_, batch, removals, shape⟩
  · grind [runCall_eq, wellFormed.commit, backend.beginStoreBatch_wellFormed,
      act]
  · subst isReopen
    exact wellFormed
  · rw [shape]
    exact wellFormed.commit
      (fun op member => WriteOp.wellFormed_of_removes (removals op member))

/-- Every database a history reaches has values that agree with their keys. -/
theorem wellFormed_afterActions
    (partition : U32)
    (actions : List StoreAction) :
    (afterActions partition actions).db.WellFormed :=
  List.foldlRecOn actions act (motive := fun backend => backend.db.WellFormed)
    Database.wellFormed_empty
    (fun _ wellFormed action _ => wellFormed_act wellFormed action)

/-- One step holds no sequence that was neither held nor stored by it. -/
theorem heldSeqs_act_subset
    (backend : FjallBackend)
    (action : StoreAction)
    (publisher : PublisherId) :
    heldSeqs (backend.act action).db publisher ⊆
      heldSeqs backend.db publisher ∪ recordedSeqs publisher [action] := by
  rcases backend.act_cases action with
    ⟨call, isStore⟩ | isReopen | ⟨_, batch, removals, shape⟩
  · subst isStore
    rw [recordedSeqs_store, ← heldSeqs_runCall]
    exact Finset.Subset.refl _
  · subst isReopen
    exact Finset.subset_union_left
  · grind [Database.holds_of_commit_removals, mem_heldSeqs]

/-- Only sequences stored along the history are ever held. -/
theorem heldSeqs_afterActions_subset
    (partition : U32)
    (actions : List StoreAction)
    (publisher : PublisherId) :
    heldSeqs (afterActions partition actions).db publisher ⊆
      recordedSeqs publisher actions := by
  induction actions using List.reverseRecOn with
  | nil =>
    exact Finset.Subset.refl _
  | append_singleton earlier action inductionHypothesis =>
    grind [afterActions_snoc, recordedSeqs_append, heldSeqs_act_subset]

end FjallBackend

/-! ## Durability progress across restarts -/

section Progress

variable (partition : U32) (publisher : PublisherId)

/-- At every moment the stored sequences are an initial segment. -/
def ContiguousFromZero (actions : List StoreAction) : Prop :=
  ∀ earlier later,
    actions = earlier ++ later →
    ∀ seq ∈ recordedSeqs publisher earlier,
      ∀ smaller < seq, smaller ∈ recordedSeqs publisher earlier

/-- At every restart all sequences stored so far are still held. -/
def KeptAtReopen (actions : List StoreAction) : Prop :=
  ∀ earlier later,
    actions = earlier ++ .reopen :: later →
    recordedSeqs publisher earlier ⊆
      heldSeqs (FjallBackend.afterActions partition earlier).db publisher

/--
A reported watermark never disappears and its committed sequence never
decreases.
-/
def NeverDecreases (actions : List StoreAction) : Prop :=
  ∀ earlier between later,
    actions = earlier ++ between ++ later →
    ∀ before,
      (FjallBackend.afterActions partition earlier).publisherWatermarks
          publisher =
        some before →
      ∃ after,
        (FjallBackend.afterActions partition
            (earlier ++ between)).publisherWatermarks publisher =
          some after ∧
        before.committedSeq ≤ after.committedSeq

/-- Every newly stored sequence is reported durable right after its store. -/
def ConfirmsNext (actions : List StoreAction) : Prop :=
  ∀ earlier call later,
    actions = earlier ++ .store call :: later →
    ∀ seq ∈ storedSeqs publisher [call],
      seq ∉ recordedSeqs publisher earlier →
      ∃ watermark,
        (FjallBackend.afterActions partition
            (earlier ++ [.store call])).publisherWatermarks publisher =
          some watermark ∧
        watermark.isDurable seq = true

variable {partition publisher}

variable {earlier actions : List StoreAction}

theorem ContiguousFromZero.of_append
    {later : List StoreAction}
    (contiguous : ContiguousFromZero publisher (earlier ++ later)) :
    ContiguousFromZero publisher earlier := by
  intro first second shape
  subst shape
  exact contiguous first (second ++ later) (append_assoc _ _ _)

theorem KeptAtReopen.of_append
    {later : List StoreAction}
    (kept : KeptAtReopen partition publisher (earlier ++ later)) :
    KeptAtReopen partition publisher earlier := by
  intro first second shape
  subst shape
  exact kept first (second ++ later) (by simp)

/-- Stored sequences kept by a last step extend to the whole history. -/
theorem KeptAtReopen.snoc
    {action : StoreAction}
    (kept : KeptAtReopen partition publisher earlier)
    (keptByLast :
      action = .reopen →
      recordedSeqs publisher earlier ⊆
        heldSeqs (FjallBackend.afterActions partition earlier).db publisher) :
    KeptAtReopen partition publisher (earlier ++ [action]) := by
  intro first second shape
  by_cases isLast : second = []
  · grind [append_inj']
  · obtain ⟨middle, last, secondShape⟩ :=
      (eq_nil_or_concat second).resolve_left isLast
    subst secondShape
    have regrouped :
        earlier ++ [action] = (first ++ .reopen :: middle) ++ [last] := by
      rw [shape]
      simp
    exact kept first middle (append_inj' regrouped rfl).1

/-- A stored sequence of a contiguous history has all positive ones below. -/
theorem ContiguousFromZero.contiguous
    (contiguous : ContiguousFromZero publisher actions)
    {seq : Nat}
    (stored : seq ∈ recordedSeqs publisher actions) :
    Contiguous (recordedSeqs publisher actions) seq := by
  intro number _ atMost
  rcases Nat.lt_or_eq_of_le atMost with below | isSeq
  · exact contiguous actions [] (append_nil _).symm seq stored number below
  · exact isSeq ▸ stored

theorem ContiguousFromZero.zero_mem
    (contiguous : ContiguousFromZero publisher actions)
    (nonempty : (recordedSeqs publisher actions).Nonempty) :
    0 ∈ recordedSeqs publisher actions := by
  obtain ⟨seq, stored⟩ := nonempty
  rcases Nat.eq_zero_or_pos seq with isZero | positive
  · exact isZero ▸ stored
  · exact contiguous actions [] (append_nil _).symm seq stored 0 positive

/--
As long as restarts find everything stored, the tracking state describes the
stored sequences, whatever was deleted in between.
-/
theorem stateFor_afterActions
    (contiguous : ContiguousFromZero publisher actions)
    (kept : KeptAtReopen partition publisher actions) :
    StateFor (recordedSeqs publisher actions)
      ((FjallBackend.afterActions partition actions).publisherStates
        publisher) := by
  induction actions using List.reverseRecOn with
  | nil =>
    exact FjallBackend.stateFor_fresh partition publisher
  | append_singleton earlier action inductionHypothesis =>
    have described := inductionHypothesis contiguous.of_append kept.of_append
    rw [FjallBackend.afterActions_snoc, recordedSeqs_append]
    rcases FjallBackend.act_cases
        (FjallBackend.afterActions partition earlier) action with
      ⟨call, isStore⟩ | isReopen | ⟨silent, batch, _, shape⟩
    · subst isStore
      exact FjallBackend.stateFor_runCall described call
    · subst isReopen
      have allHeld :
          heldSeqs (FjallBackend.afterActions partition earlier).db
              publisher =
            recordedSeqs publisher earlier :=
        Finset.Subset.antisymm
          (FjallBackend.heldSeqs_afterActions_subset
            partition earlier publisher)
          (kept earlier [] rfl)
      have rebuilt :=
        FjallBackend.stateFor_rebuildStates
          (fun nonempty => by
            rw [allHeld] at nonempty ⊢
            exact contiguous.of_append.zero_mem nonempty)
      rw [allHeld] at rebuilt
      rw [recordedSeqs_reopen, Finset.union_empty]
      exact rebuilt
    · rw [shape, silent publisher, Finset.union_empty]
      exact described

/--
A restart that does not lower a contiguous publisher's committed sequence
finds everything stored for it.
-/
theorem recordedSeqs_subset_heldSeqs
    (contiguous : ContiguousFromZero publisher earlier)
    (kept : KeptAtReopen partition publisher earlier)
    (survives :
      ∀ before,
        (FjallBackend.afterActions partition earlier).publisherWatermarks
            publisher =
          some before →
        ∃ after,
          (FjallBackend.afterActions partition
              (earlier ++ [.reopen])).publisherWatermarks publisher =
            some after ∧
          before.committedSeq ≤ after.committedSeq) :
    recordedSeqs publisher earlier ⊆
      heldSeqs (FjallBackend.afterActions partition earlier).db publisher := by
  intro seq stored
  let db := (FjallBackend.afterActions partition earlier).db
  obtain ⟨state, reported, tracks, settled⟩ :=
    (stateFor_afterActions contiguous kept).watermark ⟨seq, stored⟩
  obtain ⟨after, reopened, notLower⟩ := survives _ reported
  rw [FjallBackend.afterActions_snoc] at reopened
  change (rebuildStates db publisher).map PublisherSeqState.watermark =
    some after at reopened
  have heldNonempty : (heldSeqs db publisher).Nonempty := by
    by_contra noneHeld
    rw [rebuildStates_eq_none
      (Finset.not_nonempty_iff_eq_empty.mp noneHeld)] at reopened
    cases reopened
  obtain ⟨rebuilt, rebuiltEq, rebuiltTracks, _, uncommitted⟩ :=
    rebuildStates_eq_some heldNonempty
  rw [rebuiltEq, Option.map_some, Option.some.injEq] at reopened
  subst reopened
  have greatest :=
    (recordedSeqs publisher earlier).isGreatest_max' ⟨seq, stored⟩
  -- Contiguity puts every stored sequence at or below the committed one.
  have withinCommitted :
      ∀ number ∈ recordedSeqs publisher earlier,
        number ≤ rebuilt.committedSeq := by
    intro number recorded
    exact le_trans
      ((tracks.isGreatest_committedSeq settled greatest).2
        ⟨greatest.2 recorded, contiguous.contiguous recorded⟩)
      notLower
  rcases Nat.eq_zero_or_pos seq with isZero | positive
  · grind [FjallBackend.heldSeqs_afterActions_subset]
  · exact rebuiltTracks.contiguous seq positive (withinCommitted seq stored)

/-- If no restart lowers the committed sequence, each one finds everything. -/
theorem keptAtReopen_of_neverDecreases
    (contiguous : ContiguousFromZero publisher actions)
    (neverDecreases : NeverDecreases partition publisher actions) :
    KeptAtReopen partition publisher actions := by
  have keptUpTo :
      ∀ earlier later,
        actions = earlier ++ later →
        KeptAtReopen partition publisher earlier := by
    intro earlier
    induction earlier using List.reverseRecOn with
    | nil =>
      intro _ _ first second shape
      simp at shape
    | append_singleton earlier action inductionHypothesis =>
      intro later shape
      have regrouped : actions = earlier ++ ([action] ++ later) := by
        rw [shape, append_assoc]
      have kept := inductionHypothesis _ regrouped
      apply kept.snoc
      intro isReopen
      subst isReopen
      apply recordedSeqs_subset_heldSeqs
        (ContiguousFromZero.of_append (regrouped ▸ contiguous)) kept
      exact neverDecreases earlier [.reopen] later shape
  exact keptUpTo actions [] (append_nil _).symm

/--
For a publisher stored contiguously from zero, progress survives a history of
stores, deletions and restarts exactly when every restart still finds all
sequences stored so far.
-/
theorem progress_survives_iff
    (partition : U32)
    (publisher : PublisherId)
    (actions : List StoreAction)
    (contiguous : ContiguousFromZero publisher actions) :
    (NeverDecreases partition publisher actions ∧
        ConfirmsNext partition publisher actions) ↔
      KeptAtReopen partition publisher actions := by
  constructor
  · rintro ⟨neverDecreases, _⟩
    exact keptAtReopen_of_neverDecreases contiguous neverDecreases
  · intro kept
    constructor
    · intro earlier between later shape before reported
      subst shape
      have described := stateFor_afterActions
        contiguous.of_append.of_append kept.of_append.of_append
      have laterDescribed := stateFor_afterActions
        contiguous.of_append kept.of_append
      exact described.committedSeq_mono laterDescribed
        (recordedSeqs_subset_append publisher earlier between) reported
    · intro earlier call later shape seq stored _
      have regrouped :
          actions = (earlier ++ [.store call]) ++ later := by
        rw [shape, append_assoc, singleton_append]
      subst regrouped
      have recorded :
          seq ∈ recordedSeqs publisher (earlier ++ [.store call]) := by
        rw [recordedSeqs_append, recordedSeqs_store]
        exact Finset.mem_union_right _ stored
      obtain ⟨state, reported, tracks, settled⟩ :=
        (stateFor_afterActions contiguous.of_append
          kept.of_append).watermark ⟨seq, recorded⟩
      refine ⟨_, reported, ?_⟩
      exact (tracks.isDurable_iff settled ⟨seq, recorded⟩ seq).mpr
        ⟨recorded, contiguous.of_append.contiguous recorded⟩

end Progress

/-- Progress survives a restart after a collection that deletes nothing. -/
theorem progress_survives_emptyCollection :
    let actions : List StoreAction :=
      [.store (.store (plainEvent 7 0)), .gc 0, .reopen,
        .store (.store (plainEvent 7 1))]
    ContiguousFromZero 7 actions ∧
      NeverDecreases 0 7 actions ∧ ConfirmsNext 0 7 actions := by
  intro actions
  have contiguous : ContiguousFromZero 7 actions := by
    have checked :
        ∀ earlier ∈ actions.inits, ∀ seq ∈ recordedSeqs 7 earlier,
          ∀ smaller < seq, smaller ∈ recordedSeqs 7 earlier := by
      decide
    intro earlier later shape
    exact checked earlier ((mem_inits _ _).mpr ⟨later, shape.symm⟩)
  refine ⟨contiguous, (progress_survives_iff 0 7 actions contiguous).mpr ?_⟩
  have checked :
      ∀ earlier ∈ actions.inits,
        earlier ++ [.reopen] ∈ actions.inits →
        recordedSeqs 7 earlier ⊆
          heldSeqs (FjallBackend.afterActions 0 earlier).db 7 := by
    decide
  intro earlier later shape
  apply checked earlier ((mem_inits _ _).mpr ⟨_, shape.symm⟩)
  exact (mem_inits _ _).mpr ⟨later, by rw [shape]; simp⟩

/--
Compaction followed by a restart: three sequences are confirmed, then only
the last event survives, the committed sequence falls back to zero and the
next sequence is not confirmed.
-/
theorem compaction_restart_loses_progress :
    let stored : List StoreAction :=
      [.store (.store (plainEvent 7 0)), .store (.store (plainEvent 7 1)),
        .store (.store (plainEvent 7 2))]
    let restarted := stored ++ [.compact, .reopen]
    ((FjallBackend.afterActions 0 stored).publisherWatermarks 7).map
        (·.committedSeq) = some 2 ∧
      ((FjallBackend.afterActions 0 restarted).publisherWatermarks 7).map
        (·.committedSeq) = some 0 ∧
      ((FjallBackend.afterActions 0
          (restarted ++
            [.store (.store (plainEvent 7 3))])).publisherWatermarks 7).map
        (·.isDurable 3) = some false := by
  decide

end Mitiflow
