import Mitiflow.Library.BinarySearch
import Mitiflow.Library.SequenceSet

namespace Mitiflow

open Library

/-!
# Per-publisher sequence tracking

The store keeps, for each publisher, the highest sequence seen, the missing
sequences below it and a committed sequence, and reports them as a watermark.
This module models the two ways the store fills that record, the incremental
update of `store` and the ordered rebuild scan of `open`, and relates both to
the finite set of sequences that have been recorded.

Sequence arithmetic is on natural numbers: every increment of the source is
taken strictly below another 64-bit sequence, so none overflows.
-/

/-- Durability progress of one publisher. -/
structure PublisherWatermark where
  committedSeq : Nat
  gaps : List Nat
  deriving Repr, DecidableEq

/-- Check whether a sequence number is confirmed durable. -/
def PublisherWatermark.isDurable
    (watermark : PublisherWatermark)
    (seq : Nat) : Bool :=
  decide (seq ≤ watermark.committedSeq) &&
    match binarySearch watermark.gaps seq with
    | .error _ => true
    | .ok _ => false

/-- Sequence tracking state of one publisher. -/
structure PublisherSeqState where
  /-- Highest sequence ever seen, `none` before the first event. -/
  highestSeen : Option Nat := none
  /-- Highest contiguous sequence. -/
  committedSeq : Nat := 0
  /-- Missing sequences below `highestSeen`. -/
  gaps : Finset Nat := ∅
  deriving DecidableEq

/-- Insert every sequence of a half-open range into a gap set. -/
def insertGaps (gaps : Finset Nat) (low high : Nat) : Finset Nat :=
  (List.range' low (high - low)).foldl (fun known seq => insert seq known) gaps

/--
The catch-up loop on the committed sequence.  The first argument bounds the
number of iterations; `highest - committed` of them always suffice.
-/
def advancePast (gaps : Finset Nat) (highest : Nat) : Nat → Nat → Nat
  | 0, committed => committed
  | fuel + 1, committed =>
    if committed < highest ∧ committed + 1 ∉ gaps then
      advancePast gaps highest fuel (committed + 1)
    else
      committed

namespace PublisherSeqState

/-- Record one arriving sequence: fill its gap, or extend beyond the top. -/
def recordSeq (state : PublisherSeqState) (seq : Nat) : PublisherSeqState :=
  let filled := { state with gaps := state.gaps.erase seq }
  match filled.highestSeen with
  | none =>
    { filled with
      gaps := insertGaps filled.gaps 0 seq
      highestSeen := some seq }
  | some highest =>
    if seq > highest then
      { filled with
        gaps := insertGaps filled.gaps (highest + 1) seq
        highestSeen := some seq }
    else
      filled

/-- Advance the committed sequence past any filled positions. -/
def advanceCommitted (state : PublisherSeqState) : PublisherSeqState :=
  match state.highestSeen with
  | none => state
  | some highest =>
    { state with
      committedSeq :=
        advancePast state.gaps highest
          (highest - state.committedSeq) state.committedSeq }

/-- One step of the rebuild scan, which meets sequences in order. -/
def scanSeq (state : PublisherSeqState) (seq : Nat) : PublisherSeqState :=
  let expected := (state.highestSeen.map (· + 1)).getD 0
  { state with
    gaps := insertGaps state.gaps expected seq
    highestSeen := some seq }

/-- The committed sequence computed after the rebuild scan. -/
def rebuildCommitted (state : PublisherSeqState) : PublisherSeqState :=
  match state.highestSeen with
  | none => state
  | some highest =>
    let committed := advancePast state.gaps highest highest 0
    if 0 ∉ state.gaps then
      { state with committedSeq := committed }
    else
      state

/-- The watermark reported for a tracking state, gaps in ascending order. -/
def watermark (state : PublisherSeqState) : PublisherWatermark where
  committedSeq := state.committedSeq
  gaps := state.gaps.sort

end PublisherSeqState

variable {gaps : Finset Nat}

theorem mem_insertGaps
    {low high seq : Nat} :
    seq ∈ insertGaps gaps low high ↔
      seq ∈ gaps ∨ (low ≤ seq ∧ seq < high) := by
  have folded :
      ∀ (range : List Nat) (known : Finset Nat),
        seq ∈ range.foldl (fun known seq => insert seq known) known ↔
          seq ∈ known ∨ seq ∈ range := by
    intro range
    induction range with
    | nil =>
      simp
    | cons head tail inductionHypothesis =>
      intro known
      simp only [List.foldl_cons, inductionHypothesis, Finset.mem_insert,
        List.mem_cons]
      tauto
  rw [insertGaps, folded, List.mem_range'_1]
  constructor
  · rintro (known | inRange)
    · exact Or.inl known
    · exact Or.inr (by omega)
  · rintro (known | inRange)
    · exact Or.inl known
    · exact Or.inr (by omega)

/-- A property kept by each iteration holds of the loop's result. -/
theorem advancePast_invariant
    {highest : Nat}
    {property : Nat → Prop}
    (kept :
      ∀ committed,
        property committed →
        committed < highest →
        committed + 1 ∉ gaps →
        property (committed + 1))
    {fuel committed : Nat}
    (initially : property committed) :
    property (advancePast gaps highest fuel committed) := by
  induction fuel generalizing committed with
  | zero =>
    exact initially
  | succ fuel inductionHypothesis =>
    grind [advancePast]

/-- With enough iterations the loop ends at the top or below a gap. -/
theorem advancePast_stops
    {highest fuel committed : Nat}
    (enough : highest - committed ≤ fuel)
    (belowTop : advancePast gaps highest fuel committed < highest) :
    advancePast gaps highest fuel committed + 1 ∈ gaps := by
  induction fuel generalizing committed with
  | zero =>
    simp only [advancePast] at belowTop
    omega
  | succ fuel inductionHypothesis =>
    grind [advancePast]

namespace PublisherSeqState

/--
A tracking state describes a finite set of recorded sequences: its top is the
greatest one, its gaps are the missing ones, and its committed sequence is
contiguous.
-/
structure Tracks (seen : Finset Nat) (state : PublisherSeqState) : Prop where
  highest :
    ∀ top,
      state.highestSeen = some top ↔ IsGreatest (seen : Set Nat) top
  gaps : ∀ seq, seq ∈ state.gaps ↔ Missing seen seq
  contiguous : Contiguous seen state.committedSeq

/-- The committed sequence cannot advance any further. -/
def Settled (state : PublisherSeqState) : Prop :=
  ∀ top,
    state.highestSeen = some top →
    state.committedSeq < top →
    state.committedSeq + 1 ∈ state.gaps

theorem tracks_empty : Tracks ∅ {} where
  highest := by
    intro top
    simp [IsGreatest]
  gaps := by
    intro seq
    simp [not_missing_empty]
  contiguous := contiguous_zero ∅

namespace Tracks

variable {seen : Finset Nat} {state : PublisherSeqState} {seq : Nat}

section

variable (tracks : Tracks seen state)

include tracks

theorem seen_eq_empty
    (unseen : state.highestSeen = none) :
    seen = ∅ := by
  by_contra nonempty
  have greatest :=
    seen.isGreatest_max' (Finset.nonempty_iff_ne_empty.mpr nonempty)
  have reported := (tracks.highest _).mpr greatest
  rw [unseen] at reported
  cases reported

/--
A state whose top is `seq` and whose gaps were the missing sequences of the
old set, extended up to `seq`, tracks the set enlarged by `seq`.
-/
theorem of_newTop
    {extended : PublisherSeqState}
    (low : Nat)
    (above : ∀ number ∈ seen, number < seq)
    (covered : ∀ number, number < low → number ∈ seen ∨ Missing seen number)
    (reaches : ∀ number ∈ seen, number < low)
    (top : extended.highestSeen = some seq)
    (gaps :
      ∀ number,
        number ∈ extended.gaps ↔
          number ∈ state.gaps ∨ (low ≤ number ∧ number < seq))
    (committed : extended.committedSeq = state.committedSeq) :
    Tracks (insert seq seen) extended := by
  have greatest : IsGreatest (↑(insert seq seen) : Set Nat) seq := by
    refine ⟨by simp, ?_⟩
    intro number member
    rcases Finset.mem_insert.mp member with isSeq | old
    · exact isSeq.le
    · exact (above number old).le
  refine ⟨?_, ?_, ?_⟩
  · intro candidate
    rw [top]
    constructor
    · intro same
      cases same
      exact greatest
    · intro candidateGreatest
      rw [greatest.unique candidateGreatest]
  · intro number
    rw [gaps, tracks.gaps, missing_iff_of_isGreatest greatest,
      Finset.mem_insert, not_or]
    constructor
    · rintro (⟨unseen, later, laterSeen, below⟩ | ⟨fromLow, below⟩)
      · have belowSeq := below.trans (above later laterSeen)
        exact ⟨⟨belowSeq.ne, unseen⟩, belowSeq⟩
      · refine ⟨⟨below.ne, ?_⟩, below⟩
        intro old
        exact absurd (reaches number old) (not_lt.mpr fromLow)
    · rintro ⟨⟨_, unseen⟩, below⟩
      by_cases fromLow : low ≤ number
      · exact Or.inr ⟨fromLow, below⟩
      · rcases covered number (not_le.mp fromLow) with old | missing
        · exact (unseen old).elim
        · exact Or.inl missing
  · rw [committed]
    exact tracks.contiguous.mono_set (Finset.subset_insert seq seen)

/-- Sequences met in ascending order are tracked by the rebuild scan. -/
theorem scanSeq
    (above : ∀ number ∈ seen, number < seq) :
    Tracks (insert seq seen) (state.scanSeq seq) := by
  cases top : state.highestSeen with
  | none =>
    have isEmpty := tracks.seen_eq_empty top
    subst isEmpty
    refine tracks.of_newTop 0 above ?_ ?_ rfl ?_ rfl
    · intro number negative
      exact (Nat.not_lt_zero number negative).elim
    · intro number member
      simp at member
    · intro number
      simp [PublisherSeqState.scanSeq, top, mem_insertGaps]
  | some highest =>
    have greatest := (tracks.highest highest).mp top
    refine tracks.of_newTop (highest + 1) above ?_ ?_ rfl ?_ rfl
    · intro number belowLow
      by_cases old : number ∈ seen
      · exact Or.inl old
      · have notTop : number ≠ highest := by
          rintro rfl
          exact old greatest.1
        exact Or.inr ((missing_iff_of_isGreatest greatest).mpr ⟨old, by omega⟩)
    · intro number member
      exact Nat.lt_succ_of_le (greatest.2 member)
    · intro number
      simp [PublisherSeqState.scanSeq, top, mem_insertGaps]

theorem not_mem_gaps_of_above
    (above : ∀ number ∈ seen, number < seq) :
    seq ∉ state.gaps := by
  intro gap
  obtain ⟨_, later, laterSeen, below⟩ := (tracks.gaps seq).mp gap
  exact lt_asymm below (above later laterSeen)

/-- Extending beyond the top is one step of the rebuild scan. -/
theorem recordSeq_eq_scanSeq
    (above : ∀ number ∈ seen, number < seq) :
    state.recordSeq seq = state.scanSeq seq := by
  have unchanged := Finset.erase_eq_of_notMem
    (tracks.not_mem_gaps_of_above above)
  cases top : state.highestSeen with
  | none =>
    simp [PublisherSeqState.recordSeq, PublisherSeqState.scanSeq, top,
      unchanged]
  | some highest =>
    have greatest := (tracks.highest highest).mp top
    have exceeds := above highest greatest.1
    simp [PublisherSeqState.recordSeq, PublisherSeqState.scanSeq, top,
      unchanged, exceeds]

theorem recordSeq
    (seq : Nat) :
    Tracks (insert seq seen) (state.recordSeq seq) := by
  by_cases above : ∀ number ∈ seen, number < seq
  · rw [tracks.recordSeq_eq_scanSeq above]
    exact tracks.scanSeq above
  · push Not at above
    obtain ⟨later, laterSeen, notAbove⟩ := above
    cases top : state.highestSeen with
    | none =>
      rw [tracks.seen_eq_empty top] at laterSeen
      simp at laterSeen
    | some highest =>
      have greatest := (tracks.highest highest).mp top
      have withinTop : seq ≤ highest := notAbove.trans (greatest.2 laterSeen)
      have filled :
          state.recordSeq seq =
            { state with gaps := state.gaps.erase seq } := by
        simp [PublisherSeqState.recordSeq, top, not_lt.mpr withinTop]
      have stillGreatest :
          IsGreatest (↑(insert seq seen) : Set Nat) highest := by
        refine ⟨Finset.mem_insert_of_mem greatest.1, ?_⟩
        intro number member
        rcases Finset.mem_insert.mp member with isSeq | old
        · exact isSeq ▸ withinTop
        · exact greatest.2 old
      rw [filled]
      refine ⟨?_, ?_, ?_⟩
      · intro candidate
        rw [tracks.highest]
        constructor
        · intro candidateGreatest
          rw [candidateGreatest.unique greatest]
          exact stillGreatest
        · intro candidateGreatest
          rw [candidateGreatest.unique stillGreatest]
          exact greatest
      · intro number
        rw [Finset.mem_erase, tracks.gaps,
          missing_iff_of_isGreatest greatest,
          missing_iff_of_isGreatest stillGreatest, Finset.mem_insert]
        tauto
      · exact tracks.contiguous.mono_set (Finset.subset_insert seq seen)

/-- A sequence above a contiguous bound that is no gap extends the bound. -/
theorem contiguous_succ
    {highest committed : Nat}
    (top : state.highestSeen = some highest)
    (contiguous : Contiguous seen committed)
    (belowTop : committed < highest)
    (noGap : committed + 1 ∉ state.gaps) :
    Contiguous seen (committed + 1) := by
  have greatest := (tracks.highest highest).mp top
  apply contiguous.succ
  by_contra unseen
  have notTop : committed + 1 ≠ highest := by
    intro isTop
    exact unseen (isTop ▸ greatest.1)
  exact noGap ((tracks.gaps _).mpr
    ((missing_iff_of_isGreatest greatest).mpr ⟨unseen, by omega⟩))

theorem advanceCommitted :
    Tracks seen state.advanceCommitted := by
  unfold PublisherSeqState.advanceCommitted
  cases top : state.highestSeen with
  | none =>
    exact tracks
  | some highest =>
    refine ⟨by simpa [top] using tracks.highest, tracks.gaps, ?_⟩
    exact advancePast_invariant
      (fun _ contiguous => tracks.contiguous_succ top contiguous)
      tracks.contiguous

theorem rebuildCommitted :
    Tracks seen state.rebuildCommitted := by
  unfold PublisherSeqState.rebuildCommitted
  cases top : state.highestSeen with
  | none =>
    exact tracks
  | some highest =>
    simp only
    split
    · refine ⟨by simpa [top] using tracks.highest, tracks.gaps, ?_⟩
      exact advancePast_invariant
        (fun _ contiguous => tracks.contiguous_succ top contiguous)
        (contiguous_zero seen)
    · exact tracks

end

end Tracks

/-- After the catch-up loop the committed sequence is settled. -/
theorem settled_advanceCommitted (state : PublisherSeqState) :
    Settled state.advanceCommitted := by
  intro top reported below
  unfold PublisherSeqState.advanceCommitted at reported below ⊢
  cases highestSeen : state.highestSeen with
  | none =>
    simp [highestSeen] at reported
  | some highest =>
    simp only [highestSeen, Option.some.injEq] at reported below ⊢
    subst reported
    exact advancePast_stops le_rfl below

/-- Without a gap at zero the rebuilt committed sequence is settled. -/
theorem settled_rebuildCommitted
    {state : PublisherSeqState}
    (noZeroGap : 0 ∉ state.gaps) :
    Settled state.rebuildCommitted := by
  intro top reported below
  unfold PublisherSeqState.rebuildCommitted at reported below ⊢
  cases highestSeen : state.highestSeen with
  | none =>
    simp [highestSeen] at reported
  | some highest =>
    simp only [highestSeen, noZeroGap, not_false_eq_true, if_true,
      Option.some.injEq] at reported below ⊢
    subst reported
    exact advancePast_stops (by omega) below

/-- A gap at zero leaves the committed sequence of the scan in place. -/
theorem rebuildCommitted_of_zeroGap
    {state : PublisherSeqState}
    (zeroGap : 0 ∈ state.gaps) :
    state.rebuildCommitted = state := by
  unfold PublisherSeqState.rebuildCommitted
  split
  · rfl
  · simp [zeroGap]

theorem watermark_gaps_sorted (state : PublisherSeqState) :
    state.watermark.gaps.Pairwise (· < ·) :=
  state.gaps.sortedLT_sort.pairwise

@[simp]
theorem mem_watermark_gaps (state : PublisherSeqState) (seq : Nat) :
    seq ∈ state.watermark.gaps ↔ seq ∈ state.gaps := by
  simp [watermark]

@[simp]
theorem watermark_committedSeq (state : PublisherSeqState) :
    state.watermark.committedSeq = state.committedSeq :=
  rfl

theorem watermark_isDurable (state : PublisherSeqState) (seq : Nat) :
    state.watermark.isDurable seq = true ↔
      seq ≤ state.committedSeq ∧ seq ∉ state.gaps := by
  have missed := binarySearch_isErr_iff state.watermark_gaps_sorted seq
  rw [mem_watermark_gaps] at missed
  rw [← missed, PublisherWatermark.isDurable, Bool.and_eq_true,
    decide_eq_true_eq]
  cases binarySearch state.watermark.gaps seq with
  | error index =>
    simp
  | ok index =>
    simp

namespace Tracks

variable {seen : Finset Nat} {state : PublisherSeqState}

section

variable (tracks : Tracks seen state)

include tracks

/-- A settled committed sequence is the greatest contiguous bound. -/
theorem isGreatest_committedSeq
    (settled : Settled state)
    {top : Nat}
    (greatest : IsGreatest (seen : Set Nat) top) :
    IsGreatest {candidate | candidate ≤ top ∧ Contiguous seen candidate}
      state.committedSeq := by
  apply isGreatest_contiguous greatest tracks.contiguous
  intro below
  exact (tracks.gaps _).mp
    (settled top ((tracks.highest top).mpr greatest) below)

/-- A sequence reported durable has been recorded, with all before it. -/
theorem seen_of_isDurable
    (nonempty : seen.Nonempty)
    {seq : Nat}
    (durable : state.watermark.isDurable seq = true) :
    seq ∈ seen ∧ Contiguous seen seq := by
  obtain ⟨withinCommitted, noGap⟩ := (state.watermark_isDurable seq).mp durable
  refine ⟨?_, tracks.contiguous.mono withinCommitted⟩
  by_contra unseen
  have greatest := seen.isGreatest_max' nonempty
  have withinTop : seq ≤ seen.max' nonempty :=
    withinCommitted.trans (tracks.contiguous.le_top greatest.2)
  have notTop : seq ≠ seen.max' nonempty := by
    intro isTop
    exact unseen (isTop ▸ greatest.1)
  exact noGap ((tracks.gaps seq).mpr
    ((missing_iff_of_isGreatest greatest).mpr
      ⟨unseen, lt_of_le_of_ne withinTop notTop⟩))

/-- A settled state reports exactly the contiguously recorded sequences. -/
theorem isDurable_iff
    (settled : Settled state)
    (nonempty : seen.Nonempty)
    (seq : Nat) :
    state.watermark.isDurable seq = true ↔
      seq ∈ seen ∧ Contiguous seen seq := by
  constructor
  · exact tracks.seen_of_isDurable nonempty
  · rintro ⟨recorded, contiguous⟩
    have greatest := seen.isGreatest_max' nonempty
    have largest := tracks.isGreatest_committedSeq settled greatest
    refine (state.watermark_isDurable seq).mpr ⟨?_, ?_⟩
    · exact largest.2 ⟨greatest.2 recorded, contiguous⟩
    · intro gap
      exact ((tracks.gaps seq).mp gap).1 recorded

/-- Two settled states tracking one set report the same watermark. -/
theorem watermark_unique
    {other : PublisherSeqState}
    (settled : Settled state)
    (otherTracks : Tracks seen other)
    (otherSettled : Settled other)
    (nonempty : seen.Nonempty) :
    state.watermark = other.watermark := by
  have greatest := seen.isGreatest_max' nonempty
  have sameGaps : state.gaps = other.gaps := by
    ext seq
    rw [tracks.gaps, otherTracks.gaps]
  have sameCommitted : state.committedSeq = other.committedSeq :=
    (tracks.isGreatest_committedSeq settled greatest).unique
      (otherTracks.isGreatest_committedSeq otherSettled greatest)
  simp only [PublisherSeqState.watermark, sameGaps, sameCommitted]

/-- Where one is missing, a committed sequence of zero cannot advance. -/
theorem settled_of_one_missing
    (uncommitted : state.committedSeq = 0)
    (oneMissing : 1 ∉ seen) :
    Settled state := by
  intro top isTop belowTop
  rw [uncommitted] at belowTop ⊢
  have greatest := (tracks.highest top).mp isTop
  apply (tracks.gaps 1).mpr
  refine ⟨oneMissing, top, greatest.1, ?_⟩
  apply Nat.lt_of_le_of_ne belowTop
  rintro rfl
  exact oneMissing greatest.1

/-- Where one is recorded, a settled committed sequence is positive. -/
theorem committedSeq_pos
    (settled : Settled state)
    (oneSeen : 1 ∈ seen) :
    0 < state.committedSeq := by
  have greatest := seen.isGreatest_max' ⟨1, oneSeen⟩
  have largest := tracks.isGreatest_committedSeq settled greatest
  exact largest.2 ⟨greatest.2 oneSeen, (contiguous_zero seen).succ oneSeen⟩

end

end Tracks

end PublisherSeqState

end Mitiflow
