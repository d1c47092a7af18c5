import Mitiflow.Library.CursorPulls
import Mitiflow.ReplayIndex
import Mitiflow.ReplayResume

namespace Mitiflow

open Library List

/-!
# Polling through a backend

Polling until a batch is empty reads the log by pages above a clock value.
Several events may share one, since a store that receives a sample sets the
logical part to zero, and a page that ends inside such a group moves the
cursor past the rest of it.  This module says exactly when polling returns
every event.
-/

section Log

variable {db : Database} {scope : ReplayScope}

/-- All clock values are later than the start of a replay. -/
def ClocksPositive (db : Database) : Prop :=
  ∀ entry ∈ db.events.entries, ∃ hlc ∈ entry.2.1.hlcTimestamp, ⟨0, 0⟩ < hlc

instance (db : Database) : Decidable (ClocksPositive db) :=
  inferInstanceAs (Decidable (∀ entry ∈ db.events.entries,
    ∃ hlc ∈ entry.2.1.hlcTimestamp, ⟨0, 0⟩ < hlc))

theorem ClocksPositive.indexedContent
    (positive : ClocksPositive db)
    (wellFormed : db.WellFormed)
    (indexed : db.ReplayIndexed) :
    IndexedContent db := by
  refine ⟨wellFormed, ?_, fun index member => indexed.current wellFormed member⟩
  intro entry held
  obtain ⟨hlc, isHlc, _⟩ := positive entry held
  exact ⟨hlc, isHlc, (indexed hlc entry.1).mpr
    ⟨entry.2, OrderedMap.get?_eq_some.mpr held, isHlc⟩⟩

end Log

namespace EventReplayer

/-! ## Polls as pulls -/

section Via

variable {Place : Type} [LinearOrder Place] {place : StoredEvent → Place}
  {fetch :
    EventReplayer → Nat → Option HlcTimestamp →
      Except Error (List StoredEvent)}
  {pool : List StoredEvent}
  {batchOf : Nat → HlcTimestamp → List StoredEvent}
  {start replayer : EventReplayer}

/-- What the polls of a replayer fetch: batches of a pool of stamped events. -/
structure FetchesFrom
    (fetch :
      EventReplayer → Nat → Option HlcTimestamp →
        Except Error (List StoredEvent))
    (start : EventReplayer)
    (place : StoredEvent → Place)
    (pool : List StoredEvent)
    (batchOf : Nat → HlcTimestamp → List StoredEvent) : Prop where
  fetched :
    ∀ replayer, SameSettings replayer start → ∀ limit,
      1 ≤ limit → limit ≤ start.batchSize →
        fetch replayer limit replayer.replayEnd.beforeHlc =
          .ok (batchOf limit replayer.cursor)
  whole :
    ∀ limit cursor, (above hlcOf cursor pool).length ≤ limit →
      batchOf (min limit start.batchSize) cursor =
        batchOf start.batchSize cursor
  stamped :
    ∀ event ∈ pool, event.metadata.hlcTimestamp = some (hlcOf event)
  distinct : pool.Nodup
  pulls : PullsFrom hlcOf place pool (batchOf start.batchSize)

/-- The replay is not over and its end allows for all that is left. -/
structure Unstopped (replayer : EventReplayer) (pool : List StoredEvent) :
    Prop where
  goesOn : replayer.exhausted = false
  allows :
    ∀ limit, replayer.replayEnd = .bounded limit →
      replayer.delivered + (above hlcOf replayer.cursor pool).length < limit

section

variable
  (fetches : FetchesFrom fetch start place pool batchOf)
  (same : SameSettings replayer start)

include fetches same

theorem FetchesFrom.exists_pollLimit
    (unstopped : replayer.Unstopped pool) :
    ∃ limit,
      replayer.pollLimit = some limit ∧ 1 ≤ limit ∧
        limit ≤ start.batchSize ∧
        batchOf limit replayer.cursor =
          batchOf start.batchSize replayer.cursor := by
  have batchPositive := replayer.batchPositive
  have sameSize := same.batchSize
  cases isEnd : replayer.replayEnd with
  | bounded limit =>
    grind [pollLimit, FetchesFrom, Unstopped]
  | _ =>
    exact ⟨start.batchSize, by simp only [pollLimit, isEnd, sameSize],
      sameSize ▸ batchPositive, le_rfl, rfl⟩

/-- A poll that the end does not cut short returns the next batch. -/
theorem FetchesFrom.pollVia_eq
    (unstopped : replayer.Unstopped pool) :
    replayer.pollVia (fetch replayer) =
      ({ replayer with
          cursor :=
            nextCursor hlcOf (batchOf start.batchSize) replayer.cursor
          delivered :=
            replayer.delivered +
              (batchOf start.batchSize replayer.cursor).length
          exhausted :=
            replayer.exhaustedAfter (batchOf start.batchSize replayer.cursor) },
        .ok (batchOf start.batchSize replayer.cursor)) := by
  obtain ⟨limit, isLimit, positive, fits, whole⟩ :=
    fetches.exists_pollLimit same unstopped
  have next :
      replayer.cursorAfter (batchOf start.batchSize replayer.cursor) =
        nextCursor hlcOf (batchOf start.batchSize) replayer.cursor := by
    rw [cursorAfter, getLast?_bind_hlcTimestamp]
    · rfl
    · intro event inBatch
      exact fetches.stamped event (fetches.pulls.fromAbove _ event inBatch).1
  simp only [pollVia, unstopped.goesOn, Bool.false_eq_true, ↓reduceIte,
    isLimit, fetches.fetched replayer same limit positive fits, whole, next]

/-- A poll that returns something leaves the replay unstopped. -/
theorem FetchesFrom.unstopped_pollVia
    (unstopped : replayer.Unstopped pool)
    (nonempty : batchOf start.batchSize replayer.cursor ≠ []) :
    (replayer.pollVia (fetch replayer)).1.Unstopped pool := by
  have fits :=
    fetches.pulls.length_batch_add_le fetches.distinct replayer.cursor
  rw [fetches.pollVia_eq same unstopped]
  refine ⟨?_, ?_⟩
  · cases isEnd : replayer.replayEnd with
    | bounded limit =>
      have allows := unstopped.allows limit isEnd
      simp only [exhaustedAfter, isEnd, nonempty, decide_false,
        Bool.false_or, decide_eq_false_iff_not]
      omega
    | _ =>
      simp [exhaustedAfter, isEnd, nonempty]
  · intro limit isEnd
    have allows := unstopped.allows limit isEnd
    change replayer.delivered +
        (batchOf start.batchSize replayer.cursor).length +
        (above hlcOf
          (nextCursor hlcOf (batchOf start.batchSize) replayer.cursor)
          pool).length <
      limit
    omega

end

/-- Polling is pulling. -/
theorem FetchesFrom.untilEmpty_eq_pullAll
    (fetches : FetchesFrom fetch start place pool batchOf)
    (unstopped : start.Unstopped pool)
    (fuel : Nat) :
    untilEmpty (fun replayer => replayer.pollVia (fetch replayer)) fuel start =
      pullAll hlcOf (batchOf start.batchSize) fuel start.cursor := by
  refine Library.untilEmpty_eq_pullAll
    (fun replayer => SameSettings replayer start ∧ replayer.Unstopped pool)
    EventReplayer.cursor ?_ ?_ ⟨⟨rfl, rfl, rfl⟩, unstopped⟩ fuel
  · rintro replayer ⟨same, goesOn⟩
    rw [fetches.pollVia_eq same goesOn]
  · rintro replayer ⟨same, goesOn⟩ nonempty
    refine ⟨⟨?_, fetches.unstopped_pollVia same goesOn nonempty⟩, ?_⟩
    · rw [fetches.pollVia_eq same goesOn]
      exact ⟨same.scope, same.replayEnd, same.batchSize⟩
    · rw [fetches.pollVia_eq same goesOn]

end Via

/-! ## A local backend -/

variable {backend : FjallBackend} {replayer : EventReplayer}

/-- A replayer of all events, from the start and one event at a time. -/
def oneByOne : EventReplayer where
  scope := .all
  replayEnd := .bounded u64Max
  cursor := ⟨0, 0⟩
  batchSize := 1
  batchPositive := by decide
  buffer := []
  delivered := 0
  exhausted := false

end EventReplayer

end Mitiflow
