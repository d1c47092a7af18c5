import Mitiflow.Attachment
import Mitiflow.Library.CursorFilter

namespace Mitiflow

open Library List

/-!
# The gap detector

Per publisher and partition the detector remembers the highest sequence it has
seen.  A sample at or below it is a duplicate; every other sample moves it,
whether or not sequences were skipped on the way.
-/

/-- What sequences are tracked by: a publisher on a partition. -/
abbrev CursorKey := PublisherId × U32

/-- Missed sequences of one publisher on a partition, as `[start, stop)`. -/
structure MissInfo where
  source : PublisherId
  partition : U32
  missed : Nat × Nat
  deriving Repr, DecidableEq

def MissInfo.cursorKey (miss : MissInfo) : CursorKey :=
  (miss.source, miss.partition)

/-- Result of presenting a sample to the detector. -/
inductive SampleResult where
  | deliver
  | duplicate
  | gap (miss : MissInfo)
  deriving Repr, DecidableEq

/-- Last sequence seen per publisher and partition. -/
structure GapDetector where
  lastSeen : Cursors CursorKey := fun _ => none

namespace GapDetector

/-- The next sequence of a key; `last + 1` overflows for the largest one. -/
def expected (detector : GapDetector) (key : CursorKey) : Option Nat :=
  match detector.lastSeen key with
  | none => some 0
  | some last => if last < u64Max then some (last + 1) else none

/-- Record a sample; `none` is the arithmetic overflow. -/
def onSample
    (detector : GapDetector)
    (publisher : PublisherId)
    (partition : U32)
    (seq : U64) : Option (GapDetector × SampleResult) :=
  let key := (publisher, partition)
  match detector.expected key with
  | none => none
  | some expected =>
    let seen : GapDetector :=
      { lastSeen :=
          Function.update detector.lastSeen key (some seq.val) }
    if seq.val = expected then
      some (seen, .deliver)
    else if seq.val > expected then
      some (seen, .gap ⟨publisher, partition, (expected, seq.val)⟩)
    else
      some (detector, .duplicate)

/-- The miss a heartbeat reveals on one partition; `none` is an overflow. -/
def heartbeatMiss
    (detector : GapDetector)
    (publisher : PublisherId)
    (announced : U32 × U64) : Option (Option MissInfo) :=
  match detector.expected (publisher, announced.1) with
  | none => none
  | some expected =>
    if expected ≤ announced.2.val then
      if announced.2.val < u64Max then
        some (some ⟨publisher, announced.1,
          (expected, announced.2.val + 1)⟩)
      else
        none
    else
      some none

/-- The misses a heartbeat reveals; no position moves. -/
def onHeartbeat
    (detector : GapDetector)
    (publisher : PublisherId)
    (partitionSeqs : List (U32 × U64)) : Option (List MissInfo) :=
  (partitionSeqs.mapM (detector.heartbeatMiss publisher)).map
    List.reduceOption

def snapshotCursors (detector : GapDetector) : Cursors CursorKey :=
  detector.lastSeen

variable {detector next : GapDetector} {key : CursorKey}
  {publisher : PublisherId} {partition : U32} {seq : U64}
  {result : SampleResult}

theorem passed_iff_lt_expected
    {expected : Nat}
    (isExpected : detector.expected key = some expected)
    (seq : Nat) :
    detector.lastSeen.passed key seq = true ↔ seq < expected := by
  unfold GapDetector.expected at isExpected
  cases found : detector.lastSeen key with
  | none =>
    simp only [found, Option.some.injEq] at isExpected
    simp [Cursors.passed, found, ← isExpected]
  | some last =>
    simp only [found] at isExpected
    split at isExpected
    · cases isExpected
      simp only [Cursors.passed, found, decide_eq_true_eq]
      exact Nat.lt_succ_iff.symm
    · cases isExpected

theorem update_eq_advance
    {cursors : Cursors CursorKey}
    {seq : Nat}
    (notPassed : cursors.passed key seq = false) :
    Function.update cursors key (some seq) = cursors.advance key seq := by
  cases found : cursors key with
  | none =>
    simp [Cursors.advance, found]
  | some last =>
    have above : last < seq := by
      simpa [Cursors.passed, found] using notPassed
    simp [Cursors.advance, found, max_eq_right above.le]

section

variable
  (recorded :
    detector.onSample publisher partition seq = some (next, result))

include recorded

/--
A sample either was passed and changes nothing, or moves the position of its
key and is not a duplicate.
-/
theorem onSample_cases :
    (detector.lastSeen.passed (publisher, partition) seq.val = true ∧
        next = detector ∧ result = .duplicate) ∨
      (detector.lastSeen.passed (publisher, partition) seq.val = false ∧
        next.lastSeen =
          detector.lastSeen.advance (publisher, partition) seq.val ∧
        result ≠ .duplicate) := by
  simp only [onSample] at recorded
  split at recorded
  · cases recorded
  · rename_i expected isExpected
    have passedIff := passed_iff_lt_expected isExpected seq.val
    cases isPassed :
        detector.lastSeen.passed (publisher, partition) seq.val with
    | true =>
      have below := passedIff.mp isPassed
      rw [if_neg (ne_of_lt below), if_neg (not_lt.mpr below.le)] at recorded
      cases recorded
      exact Or.inl ⟨rfl, rfl, rfl⟩
    | false =>
      rw [← update_eq_advance isPassed]
      split at recorded
      · cases recorded
        exact Or.inr ⟨rfl, rfl, fun same => by cases same⟩
      · split at recorded
        · cases recorded
          exact Or.inr ⟨rfl, rfl, fun same => by cases same⟩
        · rename_i notNext notAbove
          have below := lt_of_le_of_ne (not_lt.mp notAbove) notNext
          rw [passedIff.mpr below] at isPassed
          cases isPassed

theorem expected_le_of_onSample
    (isNew : result ≠ .duplicate) :
    detector.lastSeen.passed (publisher, partition) seq.val = false ∧
      ∃ expected,
        detector.expected (publisher, partition) = some expected ∧
          expected ≤ seq.val := by
  have notPassed :
      detector.lastSeen.passed (publisher, partition) seq.val = false := by
    rcases onSample_cases recorded with ⟨_, _, isDuplicate⟩ | ⟨notPassed, _⟩
    · exact absurd isDuplicate isNew
    · exact notPassed
  refine ⟨notPassed, ?_⟩
  cases isExpected : detector.expected (publisher, partition) with
  | none =>
    simp [onSample, isExpected] at recorded
  | some expected =>
    refine ⟨expected, rfl, not_lt.mp fun below => ?_⟩
    rw [(passed_iff_lt_expected isExpected seq.val).mpr below] at notPassed
    cases notPassed

theorem passed_of_onSample :
    next.lastSeen.passed (publisher, partition) seq.val = true := by
  rcases onSample_cases recorded with
    ⟨isPassed, same, _⟩ | ⟨_, moved, _⟩
  · rw [same]
    exact isPassed
  · rw [moved]
    exact (detector.lastSeen.passed_advance _ _ _ _).mpr (Or.inr ⟨rfl, le_rfl⟩)

theorem passed_mono_onSample
    {position : Nat}
    (isPassed : detector.lastSeen.passed key position = true) :
    next.lastSeen.passed key position = true := by
  rcases onSample_cases recorded with ⟨_, same, _⟩ | ⟨_, moved, _⟩
  · rw [same]
    exact isPassed
  · rw [moved]
    exact (detector.lastSeen.passed_advance _ _ _ _).mpr (Or.inl isPassed)

end

/-- A gap starts at the expected sequence and ends before the sample. -/
theorem onSample_gap
    {miss : MissInfo}
    (recorded :
      detector.onSample publisher partition seq = some (next, .gap miss)) :
    ∃ expected,
      detector.expected (publisher, partition) = some expected ∧
        miss = ⟨publisher, partition, (expected, seq.val)⟩ := by
  simp only [onSample] at recorded
  split at recorded
  · cases recorded
  · rename_i expected isExpected
    split at recorded
    · cases recorded
    · split at recorded
      · cases recorded
        exact ⟨expected, isExpected, rfl⟩
      · cases recorded

theorem onSample_new
    (recorded :
      detector.onSample publisher partition seq = some (next, result))
    (isNew : result ≠ .duplicate) :
    ∃ expected,
      detector.expected (publisher, partition) = some expected ∧
        expected ≤ seq.val ∧
        ((result = .deliver ∧ seq.val = expected) ∨
          result = .gap ⟨publisher, partition, (expected, seq.val)⟩) := by
  obtain ⟨_, expected, isExpected, atLeast⟩ :=
    expected_le_of_onSample recorded isNew
  refine ⟨expected, isExpected, atLeast, ?_⟩
  cases result with
  | duplicate =>
    exact absurd rfl isNew
  | gap miss =>
    obtain ⟨other, isOther, isMiss⟩ := onSample_gap recorded
    rw [isExpected] at isOther
    cases isOther
    exact Or.inr (congrArg SampleResult.gap isMiss)
  | deliver =>
    simp only [onSample, isExpected] at recorded
    split at recorded
    · rename_i isNext
      exact Or.inl ⟨rfl, isNext⟩
    · split at recorded
      · cases recorded
      · cases recorded

/-- A miss revealed on a partition runs from its expected sequence. -/
theorem heartbeatMiss_eq_some
    {announced : U32 × U64}
    {miss : MissInfo}
    (reveals : detector.heartbeatMiss publisher announced = some (some miss)) :
    ∃ expected,
      detector.expected (publisher, announced.1) = some expected ∧
        expected ≤ announced.2.val ∧
        miss =
          ⟨publisher, announced.1, (expected, announced.2.val + 1)⟩ := by
  simp only [heartbeatMiss] at reveals
  split at reveals
  · cases reveals
  · rename_i expected isExpected
    split at reveals
    · rename_i beyond
      split at reveals
      · cases reveals
        exact ⟨expected, isExpected, beyond, rfl⟩
      · cases reveals
    · cases reveals

theorem onHeartbeat_cons
    {announced : U32 × U64}
    {rest : List (U32 × U64)}
    {misses : List MissInfo}
    (revealed :
      detector.onHeartbeat publisher (announced :: rest) = some misses) :
    ∃ first others,
      detector.heartbeatMiss publisher announced = some first ∧
        detector.onHeartbeat publisher rest = some others ∧
        misses = first.toList ++ others := by
  simp only [onHeartbeat, mapM_cons, Option.map_eq_some_iff] at revealed
  obtain ⟨all, collected, isMisses⟩ := revealed
  obtain ⟨first, isFirst, collectedRest⟩ := Option.bind_eq_some_iff.mp collected
  obtain ⟨others, isOthers, isAll⟩ := Option.bind_eq_some_iff.mp collectedRest
  cases isAll
  refine ⟨first, others.reduceOption, isFirst, ?_, ?_⟩
  · rw [onHeartbeat, isOthers]
    rfl
  · rw [← isMisses]
    cases first with
    | none =>
      exact reduceOption_cons_of_none others
    | some miss =>
      exact reduceOption_cons_of_some miss others

/-- A heartbeat reveals at most one miss per partition it announces. -/
theorem onHeartbeat_spec
    {partitionSeqs : List (U32 × U64)}
    {misses : List MissInfo}
    (revealed :
      detector.onHeartbeat publisher partitionSeqs = some misses) :
    (misses.map MissInfo.cursorKey).Sublist
        (partitionSeqs.map fun announced => (publisher, announced.1)) ∧
      ∀ miss ∈ misses, ∃ announced ∈ partitionSeqs,
        detector.heartbeatMiss publisher announced = some (some miss) := by
  induction partitionSeqs generalizing misses with
  | nil =>
    cases revealed
    simp
  | cons announced rest inductionHypothesis =>
    obtain ⟨first, others, isFirst, isRest, isMisses⟩ :=
      onHeartbeat_cons revealed
    obtain ⟨sublist, ofRest⟩ := inductionHypothesis isRest
    subst isMisses
    have later (miss : MissInfo) (member : miss ∈ others) :
        ∃ other ∈ announced :: rest,
          detector.heartbeatMiss publisher other = some (some miss) := by
      obtain ⟨other, inRest, reveals⟩ := ofRest miss member
      exact ⟨other, mem_cons_of_mem _ inRest, reveals⟩
    cases first with
    | none =>
      exact ⟨sublist.cons _, later⟩
    | some miss =>
      obtain ⟨expected, _, _, isMiss⟩ := heartbeatMiss_eq_some isFirst
      have sameKey : miss.cursorKey = (publisher, announced.1) := by
        rw [isMiss]
        rfl
      constructor
      · rw [Option.toList_some, singleton_append, map_cons,
          map_cons, sameKey]
        exact sublist.cons_cons _
      · rw [Option.toList_some, singleton_append, forall_mem_cons]
        exact ⟨⟨announced, mem_cons_self, isFirst⟩, later⟩

end GapDetector

end Mitiflow
