import Mitiflow.GapDetector

namespace Mitiflow

open Library List Function

/-!
# What the detector accounts for

A run of detector calls is logged with its answers.  For each publisher and
partition every sequence up to the last one seen is accounted for once: by the
sample that was let through, or by the gap that reported it.  Each call adds to
the account exactly what it moves the position over.
-/

/-- A call on the detector. -/
inductive DetectorCall where
  | sample (key : CursorKey) (seq : U64)
  | heartbeat (publisher : PublisherId) (partitionSeqs : List (U32 × U64))
  deriving Repr, DecidableEq

/-- A call together with its answer. -/
inductive DetectorAnswer where
  | sample (key : CursorKey) (seq : U64) (result : SampleResult)
  | heartbeat
      (publisher : PublisherId)
      (partitionSeqs : List (U32 × U64))
      (misses : List MissInfo)
  deriving Repr, DecidableEq

namespace GapDetector

/-- Answer one call; `none` is an arithmetic overflow. -/
def answer (detector : GapDetector) :
    DetectorCall → Option (GapDetector × DetectorAnswer)
  | .sample key seq =>
    match detector.onSample key.1 key.2 seq with
    | none => none
    | some (next, result) => some (next, .sample key seq result)
  | .heartbeat publisher partitionSeqs =>
    match detector.onHeartbeat publisher partitionSeqs with
    | none => none
    | some misses =>
      some (detector, .heartbeat publisher partitionSeqs misses)

def answers (detector : GapDetector) :
    List DetectorCall → Option (GapDetector × List DetectorAnswer)
  | [] => some (detector, [])
  | call :: rest =>
    match detector.answer call with
    | none => none
    | some (next, answered) =>
      match next.answers rest with
      | none => none
      | some (last, later) => some (last, answered :: later)

theorem answers_cons
    {detector last : GapDetector}
    {call : DetectorCall}
    {rest : List DetectorCall}
    {log : List DetectorAnswer}
    (answered : detector.answers (call :: rest) = some (last, log)) :
    ∃ next first later,
      detector.answer call = some (next, first) ∧
        next.answers rest = some (last, later) ∧
        log = first :: later := by
  simp only [answers] at answered
  split at answered
  · cases answered
  · rename_i next first isFirst
    split at answered
    · cases answered
    · rename_i final later isLater
      cases answered
      exact ⟨next, first, later, isFirst, isLater, rfl⟩

end GapDetector

variable {sampleSeq : U64}

namespace DetectorAnswer

/-- A sample of the key with this sequence was let through. -/
def accepts (key : CursorKey) (seq : Nat) : DetectorAnswer → Bool
  | .sample sampleKey sampleSeq result =>
    sampleKey = key && sampleSeq.val = seq && result ≠ .duplicate
  | .heartbeat _ _ _ => false

/-- A sample of the key revealed a gap that contains this sequence. -/
def reportsMissing (key : CursorKey) (seq : Nat) : DetectorAnswer → Bool
  | .sample sampleKey _ (.gap miss) =>
    sampleKey = key && miss.missed.1 ≤ seq && seq < miss.missed.2
  | _ => false

/-- How often an answer accounts for a sequence. -/
def account (key : CursorKey) (seq : Nat) (answer : DetectorAnswer) : Nat :=
  (answer.accepts key seq).toNat + (answer.reportsMissing key seq).toNat

theorem account_of_ne
    {sampleKey key : CursorKey}
    (elsewhere : sampleKey ≠ key)
    (sampleSeq : U64)
    (result : SampleResult)
    (seq : Nat) :
    (DetectorAnswer.sample sampleKey sampleSeq result).account key seq = 0 := by
  cases result with
  | deliver =>
    simp [account, accepts, reportsMissing, elsewhere]
  | duplicate =>
    simp [account, accepts, reportsMissing]
  | gap miss =>
    simp [account, accepts, reportsMissing, elsewhere]

theorem account_deliver (key : CursorKey) (sampleSeq : U64) (seq : Nat) :
    (DetectorAnswer.sample key sampleSeq .deliver).account key seq =
      (decide (seq = sampleSeq.val)).toNat := by
  simp [account, accepts, reportsMissing, eq_comm]

theorem account_gap
    {key : CursorKey}
    {miss : MissInfo}
    (upTo : miss.missed.2 = sampleSeq.val)
    (atLeast : miss.missed.1 ≤ sampleSeq.val)
    (seq : Nat) :
    (DetectorAnswer.sample key sampleSeq (.gap miss)).account key seq =
      (decide (miss.missed.1 ≤ seq ∧ seq ≤ sampleSeq.val)).toNat := by
  rcases lt_trichotomy seq sampleSeq.val with below | isSeq | beyond
  · simp [account, accepts, reportsMissing, upTo, below, below.ne', below.le]
  · simp [account, accepts, reportsMissing, upTo, isSeq, atLeast]
  · simp [account, accepts, reportsMissing, upTo, beyond.ne,
      not_lt.mpr beyond.le, not_le.mpr beyond]

end DetectorAnswer

namespace GapDetector

variable {detector next last : GapDetector} {key : CursorKey}
  {result : SampleResult} {call : DetectorCall} {answered : DetectorAnswer}
  {calls : List DetectorCall} {log : List DetectorAnswer}

/-- A sample let through accounts for what it moves the position over. -/
theorem account_new
    (recorded :
      detector.onSample key.1 key.2 sampleSeq = some (next, result))
    (isNew : result ≠ .duplicate)
    (moved :
      next.lastSeen = detector.lastSeen.advance key sampleSeq.val)
    (seq : Nat) :
    (detector.lastSeen.passed key seq).toNat +
        (DetectorAnswer.sample key sampleSeq result).account key seq =
      (next.lastSeen.passed key seq).toNat := by
  obtain ⟨expected, isExpected, atLeast, shape⟩ := onSample_new recorded isNew
  have before :
      detector.lastSeen.passed key seq = decide (seq < expected) := by
    rw [Bool.eq_iff_iff, passed_iff_lt_expected isExpected, decide_eq_true_eq]
  have after :
      next.lastSeen.passed key seq = decide (seq ≤ sampleSeq.val) := by
    rw [Bool.eq_iff_iff, moved, Cursors.passed_advance, before,
      decide_eq_true_eq, decide_eq_true_eq]
    constructor
    · rintro (below | ⟨_, within⟩)
      · omega
      · exact within
    · intro within
      exact Or.inr ⟨rfl, within⟩
  have accounted :
      (DetectorAnswer.sample key sampleSeq result).account key seq =
        (decide (expected ≤ seq ∧ seq ≤ sampleSeq.val)).toNat := by
    rcases shape with ⟨isDeliver, isNext⟩ | isGap
    · rw [isDeliver, DetectorAnswer.account_deliver]
      congr 2
      rw [eq_iff_iff]
      omega
    · rw [isGap]
      exact DetectorAnswer.account_gap rfl atLeast seq
  rw [before, after, accounted]
  by_cases below : seq < expected
  · simp [below, not_le.mpr below, below.le.trans atLeast]
  · simp [below, not_lt.mp below]

/-- A sample accounts for what it moves the position over. -/
theorem account_sample
    {sampleKey : CursorKey}
    (recorded :
      detector.onSample sampleKey.1 sampleKey.2 sampleSeq =
        some (next, result))
    (key : CursorKey)
    (seq : Nat) :
    (detector.lastSeen.passed key seq).toNat +
        (DetectorAnswer.sample sampleKey sampleSeq result).account key seq =
      (next.lastSeen.passed key seq).toNat := by
  rcases onSample_cases recorded with
    ⟨_, same, isDuplicate⟩ | ⟨_, moved, isNew⟩
  · subst same isDuplicate
    simp [DetectorAnswer.account, DetectorAnswer.accepts,
      DetectorAnswer.reportsMissing]
  · by_cases own : sampleKey = key
    · subst own
      exact account_new recorded isNew moved seq
    · rw [DetectorAnswer.account_of_ne own, Cursors.passed, Cursors.passed,
        moved, Cursors.advance_of_ne _ (Ne.symm own), Nat.add_zero]

/-- What a call can do: record a sample, or report what a heartbeat shows. -/
theorem answer_cases
    (isAnswer : detector.answer call = some (next, answered)) :
    (∃ key seq result,
        call = .sample key seq ∧
          detector.onSample key.1 key.2 seq = some (next, result) ∧
          answered = .sample key seq result) ∨
      ∃ publisher partitionSeqs misses,
        call = .heartbeat publisher partitionSeqs ∧
          detector.onHeartbeat publisher partitionSeqs = some misses ∧
          next = detector ∧
          answered = .heartbeat publisher partitionSeqs misses := by
  cases call with
  | sample key seq =>
    grind [answer]
  | heartbeat publisher partitionSeqs =>
    grind [answer]

/-- A call accounts for what it moves the position over. -/
theorem account_answer
    (isAnswer : detector.answer call = some (next, answered))
    (key : CursorKey)
    (seq : Nat) :
    (detector.lastSeen.passed key seq).toNat + answered.account key seq =
      (next.lastSeen.passed key seq).toNat := by
  rcases answer_cases isAnswer with
    ⟨sampleKey, sampleSeq, result, _, recorded, shape⟩ |
      ⟨publisher, partitionSeqs, misses, _, _, same, shape⟩
  · rw [shape]
    exact account_sample recorded key seq
  · rw [same, shape]
    rfl

theorem account_answers
    (answered : detector.answers calls = some (last, log))
    (key : CursorKey)
    (seq : Nat) :
    (detector.lastSeen.passed key seq).toNat +
        (log.countP (·.accepts key seq) +
          log.countP (·.reportsMissing key seq)) =
      (last.lastSeen.passed key seq).toNat := by
  induction calls generalizing detector log with
  | nil =>
    cases answered
    rfl
  | cons call rest inductionHypothesis =>
    obtain ⟨next, first, later, isFirst, isLater, isLog⟩ :=
      answers_cons answered
    have firstAccount := account_answer isFirst key seq
    have laterAccount := inductionHypothesis isLater
    have counted (holds : Bool) :
        (if holds = true then 1 else 0) = holds.toNat := by
      cases holds with
      | true => rfl
      | false => rfl
    rw [DetectorAnswer.account] at firstAccount
    rw [isLog, countP_cons, countP_cons, counted, counted]
    omega

def presented (key : CursorKey) (calls : List DetectorCall) : Set Nat :=
  { seq | ∃ presented : U64,
      DetectorCall.sample key presented ∈ calls ∧ presented.val = seq }

/-- What a call passes: everything up to the sample it presents. -/
theorem passed_answer
    (isAnswer : detector.answer call = some (next, answered))
    (key : CursorKey)
    (seq : Nat) :
    next.lastSeen.passed key seq = true ↔
      detector.lastSeen.passed key seq = true ∨
        ∃ reached : U64, call = .sample key reached ∧ seq ≤ reached.val := by
  rcases answer_cases isAnswer with
    ⟨sampleKey, sampleSeq, result, isSample, recorded, _⟩ |
      ⟨publisher, partitionSeqs, misses, isHeartbeat, _, same, _⟩
  · subst isSample
    have presents :
        (∃ reached : U64,
            DetectorCall.sample sampleKey sampleSeq = .sample key reached ∧
              seq ≤ reached.val) ↔
          key = sampleKey ∧ seq ≤ sampleSeq.val := by
      constructor
      · rintro ⟨reached, isSample, within⟩
        cases isSample
        exact ⟨rfl, within⟩
      · rintro ⟨isKey, within⟩
        subst isKey
        exact ⟨sampleSeq, rfl, within⟩
    rw [presents]
    rcases onSample_cases recorded with ⟨isPassed, same, _⟩ | ⟨_, moved, _⟩
    · grind [Cursors.passed]
    · rw [moved]
      exact Cursors.passed_advance _ _ _ _ _
  · grind

/-- A position is passed when a sample at or above it was presented. -/
theorem passed_answers
    (answered : detector.answers calls = some (last, log))
    (key : CursorKey)
    (seq : Nat) :
    last.lastSeen.passed key seq = true ↔
      detector.lastSeen.passed key seq = true ∨
        ∃ reached ∈ presented key calls, seq ≤ reached := by
  induction calls generalizing detector log with
  | nil =>
    cases answered
    simp [presented]
  | cons call rest inductionHypothesis =>
    obtain ⟨next, first, later, isFirst, isLater, _⟩ := answers_cons answered
    rw [inductionHypothesis isLater, passed_answer isFirst, or_assoc]
    refine or_congr_right ?_
    constructor
    · rintro (⟨reached, isCall, within⟩ | ⟨reached, ⟨value, member, isValue⟩,
        within⟩)
      · exact ⟨reached.val, ⟨reached, by simp [isCall], rfl⟩, within⟩
      · exact ⟨reached, ⟨value, mem_cons_of_mem _ member, isValue⟩, within⟩
    · grind [presented]

/-- The last sequence seen by a fresh detector is the highest presented. -/
theorem isGreatest_presented
    (answered : ({} : GapDetector).answers calls = some (last, log))
    {top : Nat}
    (isTop : last.lastSeen key = some top) :
    IsGreatest (presented key calls) top := by
  have passed_iff (seq : Nat) :
      seq ≤ top ↔ ∃ reached ∈ presented key calls, seq ≤ reached := by
    have fresh : ({} : GapDetector).lastSeen.passed key seq = false := rfl
    have passed := passed_answers answered key seq
    rw [fresh] at passed
    simpa [Cursors.passed, isTop] using passed
  have upper (reached : Nat) (member : reached ∈ presented key calls) :
      reached ≤ top :=
    (passed_iff reached).mpr ⟨reached, member, le_rfl⟩
  obtain ⟨reached, member, atLeast⟩ := (passed_iff top).mp le_rfl
  rw [le_antisymm atLeast (upper reached member)]
  exact ⟨member, fun other isOther => (upper other isOther).trans atLeast⟩

/-! ## Independence of keys -/

/-- The answer to a sample depends on its key's position alone. -/
theorem onSample_congr
    {alone : GapDetector}
    (agree : alone.lastSeen key = detector.lastSeen key)
    {seq : U64}
    (recorded : detector.onSample key.1 key.2 seq = some (next, result)) :
    ∃ aloneNext,
      alone.onSample key.1 key.2 seq = some (aloneNext, result) ∧
        aloneNext.lastSeen key = next.lastSeen key := by
  have sameExpected : alone.expected key = detector.expected key := by
    rw [expected, expected, agree]
  simp only [onSample] at recorded ⊢
  rw [sameExpected]
  split at recorded
  · cases recorded
  · rename_i expected isExpected
    rw [isExpected]
    simp only
    split at recorded
    · rename_i isNext
      cases recorded
      rw [if_pos isNext]
      exact ⟨_, rfl, by simp⟩
    · rename_i notNext
      rw [if_neg notNext]
      split at recorded
      · rename_i isAbove
        cases recorded
        rw [if_pos isAbove]
        exact ⟨_, rfl, by simp⟩
      · rename_i notAbove
        cases recorded
        rw [if_neg notAbove]
        exact ⟨alone, rfl, agree⟩

/-- What a heartbeat reveals of a key depends on its position alone. -/
theorem onHeartbeat_filter
    {alone : GapDetector}
    (agree : alone.lastSeen key = detector.lastSeen key)
    {partitionSeqs : List (U32 × U64)}
    {misses : List MissInfo}
    (revealed : detector.onHeartbeat key.1 partitionSeqs = some misses) :
    alone.onHeartbeat key.1
        (partitionSeqs.filter fun announced => announced.1 = key.2) =
      some (misses.filter fun miss => miss.cursorKey = key) := by
  induction partitionSeqs generalizing misses with
  | nil =>
    cases revealed
    rfl
  | cons announced rest inductionHypothesis =>
    obtain ⟨first, others, isFirst, isRest, isMisses⟩ :=
      onHeartbeat_cons revealed
    have laterSame := inductionHypothesis isRest
    subst isMisses
    have firstKey :
        ∀ miss, first = some miss →
          (miss.cursorKey = key ↔ announced.1 = key.2) := by
      intro miss isMiss
      rw [isMiss] at isFirst
      obtain ⟨_, _, _, shape⟩ := heartbeatMiss_eq_some isFirst
      rw [shape, MissInfo.cursorKey]
      constructor
      · exact congrArg Prod.snd
      · intro samePartition
        exact Prod.ext rfl samePartition
    by_cases own : announced.1 = key.2
    · have sameMiss : alone.heartbeatMiss key.1 announced = some first := by
        rw [← isFirst, heartbeatMiss, heartbeatMiss, expected, expected,
          own, agree]
      rw [filter_cons_of_pos (by simpa using own), filter_append]
      simp only [onHeartbeat, Option.map_eq_some_iff] at laterSame
      obtain ⟨collected, isCollected, isFiltered⟩ := laterSame
      rw [onHeartbeat, mapM_cons, sameMiss, isCollected]
      simp only [Option.bind_eq_bind, Option.bind_some, Option.pure_def,
        Option.map_some, Option.some.injEq]
      rw [← isFiltered]
      cases first with
      | none =>
        exact reduceOption_cons_of_none collected
      | some miss =>
        grind [reduceOption_cons_of_some]
    · rw [filter_cons_of_neg (by simpa using own), filter_append,
        laterSame]
      cases first with
      | none =>
        rfl
      | some miss =>
        rw [Option.toList_some, filter_cons_of_neg
          (by simpa using fun isKey => own ((firstKey miss rfl).mp isKey))]
        rfl

end GapDetector

/-- The part of a call that concerns one key. -/
def DetectorCall.restrict (key : CursorKey) :
    DetectorCall → Option DetectorCall
  | .sample sampleKey seq =>
    if sampleKey = key then some (.sample sampleKey seq) else none
  | .heartbeat publisher partitionSeqs =>
    if publisher = key.1 then
      some (.heartbeat publisher
        (partitionSeqs.filter fun announced => announced.1 = key.2))
    else
      none

/-- The part of an answer that concerns one key. -/
def DetectorAnswer.restrict (key : CursorKey) :
    DetectorAnswer → Option DetectorAnswer
  | .sample sampleKey seq result =>
    if sampleKey = key then some (.sample sampleKey seq result) else none
  | .heartbeat publisher partitionSeqs misses =>
    if publisher = key.1 then
      some (.heartbeat publisher
        (partitionSeqs.filter fun announced => announced.1 = key.2)
        (misses.filter fun miss => miss.cursorKey = key))
    else
      none

namespace GapDetector

variable {key : CursorKey}

/-- Calls that do not concern a key leave its position alone. -/
theorem lastSeen_answer_of_elsewhere
    {detector next : GapDetector}
    {call : DetectorCall}
    {answered : DetectorAnswer}
    (isAnswer : detector.answer call = some (next, answered))
    (elsewhere : call.restrict key = none) :
    next.lastSeen key = detector.lastSeen key ∧
      answered.restrict key = none := by
  rcases answer_cases isAnswer with
    ⟨sampleKey, seq, result, isSample, recorded, shape⟩ |
      ⟨publisher, partitionSeqs, misses, isHeartbeat, _, same, shape⟩
  · subst isSample shape
    have other : sampleKey ≠ key := by
      intro isKey
      simp [DetectorCall.restrict, isKey] at elsewhere
    refine ⟨?_, if_neg other⟩
    rcases onSample_cases recorded with ⟨_, unmoved, _⟩ | ⟨_, moved, _⟩
    · rw [unmoved]
    · rw [moved]
      exact Cursors.advance_of_ne _ (Ne.symm other) _
  · grind [DetectorCall.restrict, DetectorAnswer.restrict]

/-- The part of a call that concerns a key has the same answer by itself. -/
theorem answer_restrict
    {detector alone next : GapDetector}
    {call own : DetectorCall}
    {answered : DetectorAnswer}
    (isAnswer : detector.answer call = some (next, answered))
    (agree : alone.lastSeen key = detector.lastSeen key)
    (concerns : call.restrict key = some own) :
    ∃ aloneNext ownAnswered,
      alone.answer own = some (aloneNext, ownAnswered) ∧
        answered.restrict key = some ownAnswered ∧
        aloneNext.lastSeen key = next.lastSeen key := by
  rcases answer_cases isAnswer with
    ⟨sampleKey, seq, result, isSample, recorded, shape⟩ |
      ⟨publisher, partitionSeqs, misses, isHeartbeat, revealed, same, shape⟩
  · subst isSample shape
    simp only [DetectorCall.restrict] at concerns
    split at concerns
    · rename_i isKey
      cases concerns
      subst isKey
      obtain ⟨aloneNext, aloneRecorded, sameLast⟩ :=
        onSample_congr agree recorded
      refine ⟨aloneNext, .sample sampleKey seq result, ?_, if_pos rfl, sameLast⟩
      simp only [answer, aloneRecorded]
    · cases concerns
  · subst isHeartbeat shape
    simp only [DetectorCall.restrict] at concerns
    split at concerns
    · rename_i isPublisher
      cases concerns
      subst isPublisher
      have aloneRevealed := onHeartbeat_filter agree revealed
      refine ⟨alone, _, ?_, if_pos rfl, by rw [same, agree]⟩
      simp only [answer, aloneRevealed]
    · cases concerns

/-- Without the calls for other keys, a key gets the same answers. -/
theorem answers_restrict
    {detector alone last : GapDetector}
    {calls : List DetectorCall}
    {log : List DetectorAnswer}
    (answered : detector.answers calls = some (last, log))
    (agree : alone.lastSeen key = detector.lastSeen key) :
    ∃ aloneLast,
      alone.answers (calls.filterMap (·.restrict key)) =
          some (aloneLast, log.filterMap (·.restrict key)) ∧
        aloneLast.lastSeen key = last.lastSeen key := by
  induction calls generalizing detector alone log with
  | nil =>
    cases answered
    exact ⟨alone, rfl, agree⟩
  | cons call rest inductionHypothesis =>
    obtain ⟨next, first, later, isFirst, isLater, isLog⟩ :=
      answers_cons answered
    subst isLog
    cases concerns : call.restrict key with
    | none =>
      grind [lastSeen_answer_of_elsewhere]
    | some own =>
      obtain ⟨aloneNext, ownAnswered, isOwn, isAnswered, nextAgree⟩ :=
        answer_restrict isFirst agree concerns
      obtain ⟨aloneLast, isRest, lastAgree⟩ :=
        inductionHypothesis isLater nextAgree
      rw [filterMap_cons_some concerns,
        filterMap_cons_some isAnswered]
      refine ⟨aloneLast, ?_, lastAgree⟩
      simp only [answers, isOwn, isRest]

/-! ## Calls below the largest sequence -/

end GapDetector

/-- Every sequence of a call is below the largest one. -/
def DetectorCall.BelowMax : DetectorCall → Prop
  | .sample _ seq => seq.val < u64Max
  | .heartbeat _ partitionSeqs =>
    ∀ announced ∈ partitionSeqs, announced.2.val < u64Max

namespace GapDetector

/-- No position is at the largest sequence. -/
def BelowMax (detector : GapDetector) : Prop :=
  ∀ key last, detector.lastSeen key = some last → last < u64Max

variable {detector : GapDetector}

section

variable (below : detector.BelowMax)

include below

theorem BelowMax.expected
    (key : CursorKey) :
    ∃ expected, detector.expected key = some expected := by
  unfold GapDetector.expected
  cases found : detector.lastSeen key with
  | none =>
    exact ⟨0, rfl⟩
  | some last =>
    exact ⟨last + 1, if_pos (below key last found)⟩

theorem BelowMax.onHeartbeat
    (publisher : PublisherId)
    {partitionSeqs : List (U32 × U64)}
    (announcedBelow :
      ∀ announced ∈ partitionSeqs, announced.2.val < u64Max) :
    ∃ misses, detector.onHeartbeat publisher partitionSeqs = some misses := by
  have each :
      ∀ announced ∈ partitionSeqs, ∃ revealed,
        detector.heartbeatMiss publisher announced = some revealed := by
    intro announced member
    obtain ⟨expected, isExpected⟩ := below.expected (publisher, announced.1)
    simp only [heartbeatMiss, isExpected, announcedBelow announced member,
      if_true]
    split
    · exact ⟨_, rfl⟩
    · exact ⟨_, rfl⟩
  induction partitionSeqs with
  | nil =>
    exact ⟨[], rfl⟩
  | cons announced rest inductionHypothesis =>
    obtain ⟨first, isFirst⟩ := each announced mem_cons_self
    obtain ⟨others, isOthers⟩ :=
      inductionHypothesis
        (fun other member =>
          announcedBelow other (mem_cons_of_mem _ member))
        (fun other member => each other (mem_cons_of_mem _ member))
    simp only [GapDetector.onHeartbeat, Option.map_eq_some_iff] at isOthers
    obtain ⟨collected, isCollected, _⟩ := isOthers
    exact ⟨(first :: collected).reduceOption,
      by simp [GapDetector.onHeartbeat, isFirst, isCollected]⟩

theorem BelowMax.answer
    {call : DetectorCall}
    (callBelow : call.BelowMax) :
    ∃ next answered,
      detector.answer call = some (next, answered) ∧ next.BelowMax := by
  cases call with
  | sample key seq =>
    obtain ⟨expected, isExpected⟩ := below.expected key
    have movedBelow :
        BelowMax
          { lastSeen :=
              update detector.lastSeen key (some seq.val) } := by
      intro other last found
      change update detector.lastSeen key (some seq.val) other =
        some last at found
      by_cases isKey : other = key
      · subst isKey
        rw [update_self] at found
        rw [← Option.some.inj found]
        exact callBelow
      · rw [update_of_ne isKey] at found
        exact below other last found
    simp only [GapDetector.answer, onSample, isExpected]
    split_ifs
    · exact ⟨_, _, rfl, movedBelow⟩
    · exact ⟨_, _, rfl, movedBelow⟩
    · exact ⟨_, _, rfl, below⟩
  | heartbeat publisher partitionSeqs =>
    obtain ⟨misses, revealed⟩ := below.onHeartbeat publisher callBelow
    refine ⟨detector, .heartbeat publisher partitionSeqs misses, ?_, below⟩
    simp only [GapDetector.answer, revealed]

theorem BelowMax.answers
    {calls : List DetectorCall}
    (callsBelow : ∀ call ∈ calls, call.BelowMax) :
    ∃ last log, detector.answers calls = some (last, log) := by
  induction calls generalizing detector with
  | nil =>
    exact ⟨detector, [], rfl⟩
  | cons call rest inductionHypothesis =>
    grind [GapDetector.answers, below.answer, mem_cons_self]

end

/--
A run of calls on a fresh detector accounts for every sequence up to the last
one seen of a key: either exactly one of its samples was let through with it,
or exactly one of its gaps reports it.  Nothing beyond is accounted for, the
last one seen is the highest presented, and the calls for other keys make no
difference.
-/
theorem answers_account
    (calls : List DetectorCall)
    (callsBelow : ∀ call ∈ calls, call.BelowMax) :
    ∃ last log,
      ({} : GapDetector).answers calls = some (last, log) ∧
        ∀ key,
          (∀ top, last.lastSeen key = some top →
            (∀ seq, seq ≤ top →
              (log.countP (·.accepts key seq) = 1 ∧
                  log.countP (·.reportsMissing key seq) = 0) ∨
                (log.countP (·.accepts key seq) = 0 ∧
                  log.countP (·.reportsMissing key seq) = 1)) ∧
              (∀ seq, top < seq →
                log.countP (·.accepts key seq) = 0 ∧
                  log.countP (·.reportsMissing key seq) = 0) ∧
              IsGreatest (presented key calls) top) ∧
            ∃ alone,
              ({} : GapDetector).answers (calls.filterMap (·.restrict key)) =
                  some (alone, log.filterMap (·.restrict key)) ∧
                alone.lastSeen key = last.lastSeen key := by
  have freshBelow : ({} : GapDetector).BelowMax := by
    intro key last found
    cases found
  obtain ⟨last, log, answered⟩ := freshBelow.answers callsBelow
  refine ⟨last, log, answered, fun key => ⟨?_, ?_⟩⟩
  · intro top isTop
    have account (seq : Nat) :
        log.countP (·.accepts key seq) +
            log.countP (·.reportsMissing key seq) =
          (decide (seq ≤ top)).toNat := by
      have counted := account_answers answered key seq
      have fresh : ({} : GapDetector).lastSeen.passed key seq = false := rfl
      rw [fresh, Cursors.passed, isTop] at counted
      simpa using counted
    refine ⟨?_, ?_, isGreatest_presented answered isTop⟩
    · intro seq within
      have counted := account seq
      rw [decide_eq_true within, Bool.toNat_true] at counted
      omega
    · intro seq beyond
      have counted := account seq
      rw [decide_eq_false (not_le.mpr beyond), Bool.toNat_false] at counted
      omega
  · exact answers_restrict answered rfl

/-- A jump, a duplicate, a heartbeat and another partition. -/
theorem answers_account_jump :
    ∃ last log,
      ({} : GapDetector).answers
          [.sample (7, 0) 2, .sample (7, 1) 0, .heartbeat 7 [(0, 4)],
            .sample (7, 0) 1, .sample (7, 0) 3] = some (last, log) ∧
        log.countP (·.reportsMissing (7, 0) 1) = 1 ∧
        log.countP (·.accepts (7, 0) 1) = 0 ∧
        IsGreatest (presented (7, 0)
          [.sample (7, 0) 2, .sample (7, 1) 0, .heartbeat 7 [(0, 4)],
            .sample (7, 0) 1, .sample (7, 0) 3]) 3 := by
  obtain ⟨last, log, answered, accounts⟩ :=
    answers_account
      [.sample (7, 0) 2, .sample (7, 1) 0, .heartbeat 7 [(0, 4)],
        .sample (7, 0) 1, .sample (7, 0) 3]
      (by
        intro call member
        fin_cases member <;> simp [DetectorCall.BelowMax, u64Max])
  refine ⟨last, log, answered, ?_⟩
  cases answered
  obtain ⟨_, _, greatest⟩ := (accounts (7, 0)).1 3 rfl
  exact ⟨by decide, by decide, greatest⟩

end GapDetector

end Mitiflow
