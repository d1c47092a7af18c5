import Mitiflow.StoreWatermark

namespace Mitiflow

open Library

/-!
# Reopening a database

`open` forgets the tracking states and rebuilds them by one ordered scan of
the events keyspace followed by a separate pass for the committed sequences.
The scan tracks exactly the sequences held in the keyspace.  The second pass
settles the committed sequence only for publishers whose sequence zero is
held, so reopening agrees with the incremental states up to that case.
-/

/-- Sequences of one publisher among some event keys. -/
def keySeqs (publisher : PublisherId) (keys : List EventKey) : Finset Nat :=
  ((keys.filter (·.publisherId = publisher)).map (·.seq.val)).toFinset

/-- Sequences of one publisher held in the events keyspace. -/
def heldSeqs (db : Database) (publisher : PublisherId) : Finset Nat :=
  keySeqs publisher (db.events.entries.map Prod.fst)

variable {publisher : PublisherId} {db : Database}

theorem mem_keySeqs
    {keys : List EventKey}
    {seq : Nat} :
    seq ∈ keySeqs publisher keys ↔
      ∃ key ∈ keys, key.publisherId = publisher ∧ key.seq.val = seq := by
  simp [keySeqs, and_assoc]

theorem mem_heldSeqs
    {seq : Nat} :
    seq ∈ heldSeqs db publisher ↔
      ∃ key, db.holds key = true ∧
        key.publisherId = publisher ∧ key.seq.val = seq := by
  rw [heldSeqs, mem_keySeqs]
  simp only [List.mem_map, Prod.exists, exists_and_right, exists_eq_right,
    db.holds_iff_mem]

/-- A state of the scan before its committed sequence is computed. -/
def ScannedFor (seen : Finset Nat) : Option PublisherSeqState → Prop
  | none => seen = ∅
  | some state =>
    seen.Nonempty ∧
      PublisherSeqState.Tracks seen state ∧
      state.committedSeq = 0

section

variable
  {seen : PublisherId → Finset Nat}
  {states : PublisherStates}
  (scanned : ∀ publisher, ScannedFor (seen publisher) (states publisher))

include scanned

/-- One entry above everything scanned so far enlarges its publisher's set. -/
theorem scannedFor_scanEntry
    {key : EventKey}
    (above : ∀ seq ∈ seen key.publisherId, seq < key.seq.val)
    (publisher : PublisherId) :
    ScannedFor (seen publisher ∪ keySeqs publisher [key])
      (scanEntry states key publisher) := by
  by_cases isKey : publisher = key.publisherId
  · subst isKey
    have enlarged :
        seen key.publisherId ∪ keySeqs key.publisherId [key] =
          insert key.seq.val (seen key.publisherId) := by
      simp [keySeqs]
    have before := scanned key.publisherId
    rw [enlarged, scanEntry, Function.update_self]
    cases known : states key.publisherId with
    | none =>
      grind [Finset.insert_nonempty, PublisherSeqState.tracks_empty.scanSeq,
        ScannedFor, PublisherSeqState.scanSeq]
    | some state =>
      rw [known] at before
      exact ⟨Finset.insert_nonempty _ _, before.2.1.scanSeq above, before.2.2⟩
  · have unchanged : keySeqs publisher [key] = ∅ := by
      simp [keySeqs, Ne.symm isKey]
    rw [unchanged, Finset.union_empty, scanEntry, Function.update_of_ne isKey]
    exact scanned publisher

/-- Scanning keys in ascending order tracks all of them. -/
theorem scannedFor_foldl_scanEntry
    {keys : List EventKey}
    (ordered : keys.Pairwise (· < ·))
    (above :
      ∀ key ∈ keys, ∀ seq ∈ seen key.publisherId, seq < key.seq.val)
    (publisher : PublisherId) :
    ScannedFor (seen publisher ∪ keySeqs publisher keys)
      (keys.foldl scanEntry states publisher) := by
  induction keys generalizing seen states with
  | nil =>
    simpa [keySeqs] using scanned publisher
  | cons first rest inductionHypothesis =>
    obtain ⟨firstBelow, restOrdered⟩ := List.pairwise_cons.mp ordered
    have later := inductionHypothesis
      (scannedFor_scanEntry scanned (above first (by simp)))
      restOrdered
      (by
        intro key member seq old
        rcases Finset.mem_union.mp old with before | atFirst
        · exact above key (by simp [member]) seq before
        · obtain ⟨witness, isFirst, samePublisher, sameSeq⟩ :=
            mem_keySeqs.mp atFirst
          rw [List.mem_singleton.mp isFirst] at samePublisher sameSeq
          rw [← sameSeq]
          exact EventKey.seq_lt_of_lt (firstBelow key member) samePublisher)
    have split :
        keySeqs publisher (first :: rest) =
          keySeqs publisher [first] ∪ keySeqs publisher rest := by
      ext seq
      simp [mem_keySeqs]
    rw [split, ← Finset.union_assoc]
    exact later

end

/-- The ordered scan of a whole database. -/
theorem scannedFor_heldSeqs (db : Database) (publisher : PublisherId) :
    ScannedFor (heldSeqs db publisher)
      ((db.events.entries.map Prod.fst).foldl scanEntry (fun _ => none)
        publisher) := by
  have nothingScanned :
      ∀ publisher : PublisherId,
        ScannedFor ((fun _ => ∅ : PublisherId → Finset Nat) publisher)
          ((fun _ => none : PublisherStates) publisher) :=
    fun _ => rfl
  have scanned :=
    scannedFor_foldl_scanEntry nothingScanned
      (List.pairwise_map.mpr db.events.sorted) (by simp) publisher
  simpa [heldSeqs] using scanned

theorem rebuildStates_eq_none
    (isEmpty : heldSeqs db publisher = ∅) :
    rebuildStates db publisher = none := by
  have scanned := scannedFor_heldSeqs db publisher
  unfold rebuildStates
  cases known :
      (db.events.entries.map Prod.fst).foldl scanEntry (fun _ => none)
        publisher with
  | none =>
    rfl
  | some state =>
    rw [known, isEmpty] at scanned
    exact absurd scanned.1 Finset.not_nonempty_empty

/--
A rebuilt state tracks the held sequences.  Its committed sequence is settled
when zero is held and stays zero otherwise.
-/
theorem rebuildStates_eq_some
    (nonempty : (heldSeqs db publisher).Nonempty) :
    ∃ state,
      rebuildStates db publisher = some state ∧
        PublisherSeqState.Tracks (heldSeqs db publisher) state ∧
        (0 ∈ heldSeqs db publisher → state.Settled) ∧
        (0 ∉ heldSeqs db publisher → state.committedSeq = 0) := by
  have scanned := scannedFor_heldSeqs db publisher
  unfold rebuildStates
  cases known :
      (db.events.entries.map Prod.fst).foldl scanEntry (fun _ => none)
        publisher with
  | none =>
    rw [known] at scanned
    have isEmpty : heldSeqs db publisher = ∅ := scanned
    simp [isEmpty] at nonempty
  | some state =>
    rw [known] at scanned
    obtain ⟨_, tracks, uncommitted⟩ := scanned
    refine ⟨state.rebuildCommitted, rfl, tracks.rebuildCommitted, ?_, ?_⟩
    · intro zeroHeld
      apply PublisherSeqState.settled_rebuildCommitted
      intro zeroGap
      exact ((tracks.gaps 0).mp zeroGap).1 zeroHeld
    · intro zeroMissing
      have greatest := (heldSeqs db publisher).isGreatest_max' nonempty
      have zeroGap : 0 ∈ state.gaps := by
        apply (tracks.gaps 0).mpr
        refine ⟨zeroMissing, _, greatest.1, ?_⟩
        apply Nat.pos_of_ne_zero
        intro topIsZero
        exact zeroMissing (topIsZero ▸ greatest.1)
      rw [PublisherSeqState.rebuildCommitted_of_zeroGap zeroGap]
      exact uncommitted

namespace FjallBackend

/-- When the storage engine refuses nothing, `open` returns the rebuild. -/
theorem openDatabase_ok (db : Database) (partition : U32) :
    openDatabase db partition (fun _ => .ok ()) =
      .ok (rebuild db partition) :=
  rfl

/-- Where zero is held, a rebuilt state describes the held sequences. -/
theorem stateFor_rebuildStates
    {db : Database}
    {publisher : PublisherId}
    (anchored : (heldSeqs db publisher).Nonempty → 0 ∈ heldSeqs db publisher) :
    StateFor (heldSeqs db publisher) (rebuildStates db publisher) := by
  by_cases isEmpty : heldSeqs db publisher = ∅
  · rw [rebuildStates_eq_none isEmpty]
    exact isEmpty
  · have nonempty := Finset.nonempty_iff_ne_empty.mpr isEmpty
    obtain ⟨state, rebuilt, tracks, settled, _⟩ :=
      rebuildStates_eq_some nonempty
    rw [rebuilt]
    exact ⟨nonempty, tracks, settled (anchored nonempty)⟩

theorem holds_runCall
    (backend : FjallBackend)
    (call : StoreCall)
    (key : EventKey) :
    (backend.runCall call).db.holds key = true ↔
      key.seq.val ∈ storedSeqs key.publisherId [call] ∨
        backend.db.holds key = true := by
  have stored :
      (∃ event ∈ call.events, event.metadata.eventKey = key) ↔
        key.seq.val ∈ storedSeqs key.publisherId [call] := by
    simp [mem_storedSeqs, EventMetadata.eventKey, EventKey.ext_iff, Fin.val_inj]
  rw [runCall_eq, ← stored]
  exact backend.holds_commit_beginStoreBatch call.events backend.db key

theorem heldSeqs_runCall
    (backend : FjallBackend)
    (call : StoreCall)
    (publisher : PublisherId) :
    heldSeqs (backend.runCall call).db publisher =
      heldSeqs backend.db publisher ∪ storedSeqs publisher [call] := by
  ext seq
  rw [Finset.mem_union, mem_heldSeqs, mem_heldSeqs]
  constructor
  · rintro ⟨key, held, rfl, rfl⟩
    rcases (backend.holds_runCall call key).mp held with stored | before
    · exact Or.inr stored
    · exact Or.inl ⟨key, before, rfl, rfl⟩
  · rintro (⟨key, before, rfl, rfl⟩ | stored)
    · exact ⟨key, (backend.holds_runCall call key).mpr (Or.inr before),
        rfl, rfl⟩
    · obtain ⟨_, _, event, _, rfl, rfl⟩ := mem_storedSeqs.mp stored
      exact ⟨event.metadata.eventKey,
        (backend.holds_runCall call _).mpr (Or.inl stored), rfl, rfl⟩

/-- Without deletions the held sequences are the stored ones. -/
theorem heldSeqs_runCalls
    (backend : FjallBackend)
    (calls : List StoreCall)
    (publisher : PublisherId) :
    heldSeqs (backend.runCalls calls).db publisher =
      heldSeqs backend.db publisher ∪ storedSeqs publisher calls := by
  induction calls generalizing backend with
  | nil =>
    simp [runCalls, storedSeqs_nil]
  | cons call rest inductionHypothesis =>
    have later := inductionHypothesis (backend.runCall call)
    rw [heldSeqs_runCall, Finset.union_assoc, ← storedSeqs_append] at later
    exact later

theorem heldSeqs_fresh_runCalls
    (partition : U32)
    (calls : List StoreCall)
    (publisher : PublisherId) :
    heldSeqs ((fresh partition).runCalls calls).db publisher =
      storedSeqs publisher calls := by
  have nothingHeld : heldSeqs (fresh partition).db publisher = ∅ := rfl
  rw [heldSeqs_runCalls, nothingHeld, Finset.empty_union]

theorem publisherWatermarks_rebuild
    (db : Database)
    (partition : U32)
    (publisher : PublisherId) :
    (rebuild db partition).publisherWatermarks publisher =
      (rebuildStates db publisher).map PublisherSeqState.watermark :=
  rfl

/--
One publisher's watermark survives reopening unless sequence one is stored
for it and sequence zero is not.
-/
theorem rebuild_publisherWatermarks_iff
    (partition : U32)
    (calls : List StoreCall)
    (publisher : PublisherId) :
    (rebuild ((fresh partition).runCalls calls).db
        partition).publisherWatermarks publisher =
        ((fresh partition).runCalls calls).publisherWatermarks publisher ↔
      (1 ∈ storedSeqs publisher calls → 0 ∈ storedSeqs publisher calls) := by
  have described := stateFor_fresh_runCalls partition calls publisher
  have held := heldSeqs_fresh_runCalls partition calls publisher
  by_cases isEmpty : storedSeqs publisher calls = ∅
  · grind [publisherWatermarks_rebuild, described.watermark_eq_none,
      rebuildStates_eq_none]
  · have nonempty := Finset.nonempty_iff_ne_empty.mpr isEmpty
    obtain ⟨state, reported, tracks, settled⟩ := described.watermark nonempty
    obtain ⟨rebuilt, rebuiltEq, rebuiltTracks, rebuiltSettled, uncommitted⟩ :=
      rebuildStates_eq_some (held ▸ nonempty)
    rw [held] at rebuiltTracks rebuiltSettled uncommitted
    rw [reported, publisherWatermarks_rebuild, rebuiltEq, Option.map_some,
      Option.some.injEq]
    by_cases zeroStored : 0 ∈ storedSeqs publisher calls
    · have same := rebuiltTracks.watermark_unique
        (rebuiltSettled zeroStored) tracks settled nonempty
      simp [same, zeroStored]
    · constructor
      · intro same oneStored
        have committed : state.committedSeq = 0 := by
          rw [← state.watermark_committedSeq, ← same]
          exact uncommitted zeroStored
        have positive := tracks.committedSeq_pos settled oneStored
        omega
      · grind [rebuiltTracks.settled_of_one_missing,
          rebuiltTracks.watermark_unique]

@[simp]
theorem partition_runCalls (backend : FjallBackend) (calls : List StoreCall) :
    (backend.runCalls calls).partition = backend.partition :=
  List.foldlRecOn calls runCall
    (motive := fun later => later.partition = backend.partition) rfl
    (fun before same call _ => (partition_runCall before call).trans same)

/--
Closing and opening reports, for every publisher, the watermark reported just
before closing exactly when no publisher has sequence one stored and sequence
zero missing.
-/
theorem openDatabase_agrees_iff
    (partition : U32)
    (calls : List StoreCall) :
    let backend := (fresh partition).runCalls calls
    (∃ reopened,
      openDatabase backend.db backend.partition (fun _ => .ok ()) =
          .ok reopened ∧
        ∀ publisher,
          reopened.publisherWatermarks publisher =
            backend.publisherWatermarks publisher) ↔
      ∀ publisher,
        1 ∈ storedSeqs publisher calls → 0 ∈ storedSeqs publisher calls := by
  intro backend
  have samePartition : backend.partition = partition := by
    simp [backend, fresh, rebuild]
  rw [openDatabase_ok, samePartition]
  constructor
  · rintro ⟨reopened, opened, agrees⟩ publisher
    rw [Except.ok.injEq] at opened
    subst opened
    exact (rebuild_publisherWatermarks_iff partition calls publisher).mp
      (agrees publisher)
  · intro anchored
    refine ⟨_, rfl, ?_⟩
    intro publisher
    exact (rebuild_publisherWatermarks_iff partition calls publisher).mpr
      (anchored publisher)

/-- A publisher first heard from at sequence one loses it on reopening. -/
theorem openDatabase_forgets_one :
    let backend := (fresh 0).runCalls [.store (plainEvent 7 1)]
    ∃ reopened,
      openDatabase backend.db backend.partition (fun _ => .ok ()) =
          .ok reopened ∧
        (backend.publisherWatermarks 7).map (·.committedSeq) = some 1 ∧
        (reopened.publisherWatermarks 7).map (·.committedSeq) = some 0 :=
  ⟨_, rfl, by decide, by decide⟩

end FjallBackend

end Mitiflow
