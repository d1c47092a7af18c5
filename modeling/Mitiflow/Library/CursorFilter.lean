import Mathlib

namespace Mitiflow.Library

/-!
# Cursor filters

A consumer that keeps, per key, the highest position it has passed and drops
everything at or below it.  Two consumers fed by each other stay consistent
because the cursors only depend on which items were let through, not on their
order.  The module is independent of what keys and items are.
-/

/-- Highest position passed, per key. -/
abbrev Cursors (Key : Type) := Key → Option Nat

namespace Cursors

variable {Key : Type}

/-- Whether a position is at or below the cursor of its key. -/
def passed (cursors : Cursors Key) (key : Key) (position : Nat) : Bool :=
  match cursors key with
  | some cursor => position ≤ cursor
  | none => false

variable {key : Key}

theorem passed_iff
    {cursors : Cursors Key}
    {position : Nat} :
    cursors.passed key position = true ↔
      ∃ cursor, cursors key = some cursor ∧ position ≤ cursor := by
  cases found : cursors key with
  | none =>
    simp [passed, found]
  | some cursor =>
    simp [passed, found]

theorem passed_of_le
    {cursors : Cursors Key}
    {position lower : Nat}
    (isPassed : cursors.passed key position = true)
    (below : lower ≤ position) :
    cursors.passed key lower = true := by
  obtain ⟨cursor, found, within⟩ := passed_iff.mp isPassed
  exact passed_iff.mpr ⟨cursor, found, below.trans within⟩

variable [DecidableEq Key]

/-- Move the cursor of a key up to a position. -/
def advance (cursors : Cursors Key) (key : Key) (position : Nat) :
    Cursors Key :=
  Function.update cursors key
    (some (max ((cursors key).getD 0) position))

theorem advance_self
    (cursors : Cursors Key)
    (key : Key)
    (position : Nat) :
    cursors.advance key position key =
      some (max ((cursors key).getD 0) position) := by
  simp [advance]

theorem advance_of_ne
    (cursors : Cursors Key)
    {other : Key}
    (differs : other ≠ key)
    (position : Nat) :
    cursors.advance key position other = cursors other := by
  simp [advance, differs]

/-- After an advance, what is passed is what was or what the advance covers. -/
theorem passed_advance
    (cursors : Cursors Key)
    (key other : Key)
    (position target : Nat) :
    (cursors.advance key position).passed other target = true ↔
      cursors.passed other target = true ∨
        (other = key ∧ target ≤ position) := by
  by_cases same : other = key
  · subst same
    cases found : cursors other with
    | none =>
      simp [passed, advance_self, found]
    | some cursor =>
      simp [passed, advance_self, found]
  · simp [passed, advance_of_ne cursors same, same]

theorem advance_comm
    (cursors : Cursors Key)
    (first second : Key)
    (firstPosition secondPosition : Nat) :
    (cursors.advance first firstPosition).advance second secondPosition =
      (cursors.advance second secondPosition).advance first
        firstPosition := by
  funext key
  by_cases same : first = second
  · subst same
    by_cases isFirst : key = first
    · subst isFirst
      simp [advance_self, max_assoc, max_comm firstPosition]
    · simp [advance_of_ne, isFirst]
  · by_cases isFirst : key = first
    · subst isFirst
      simp [advance_self, advance_of_ne, same]
    · by_cases isSecond : key = second
      · subst isSecond
        simp [advance_self, advance_of_ne, isFirst]
      · simp [advance_of_ne, isFirst, isSecond]

end Cursors

section Filter

variable
    {Key Item : Type}
    [DecidableEq Key]
    (keyOf : Item → Key)
    (positionOf : Item → Nat)

/-- Let one item through unless its cursor has passed it. -/
def letItemThrough
    (state : Cursors Key × List Item)
    (item : Item) : Cursors Key × List Item :=
  if state.1.passed (keyOf item) (positionOf item) then
    state
  else
    (state.1.advance (keyOf item) (positionOf item), state.2 ++ [item])

/-- Filter a list of items, appending what is let through. -/
def letThrough (state : Cursors Key × List Item) (items : List Item) :
    Cursors Key × List Item :=
  items.foldl (letItemThrough keyOf positionOf) state

/-- The cursors after some items were let through. -/
def advanceAll (cursors : Cursors Key) (items : List Item) : Cursors Key :=
  items.foldl
    (fun cursors item => cursors.advance (keyOf item) (positionOf item))
    cursors

/-- No item had been passed when its turn came. -/
def Ascends (cursors : Cursors Key) : List Item → Prop
  | [] => True
  | item :: rest =>
    cursors.passed (keyOf item) (positionOf item) = false ∧
      Ascends (cursors.advance (keyOf item) (positionOf item)) rest

variable {keyOf positionOf}

/-- Whatever is let through ascends, and moved the cursors. -/
theorem letThrough_spec
    (cursors : Cursors Key)
    (results items : List Item) :
    ∃ admitted,
      letThrough keyOf positionOf (cursors, results) items =
          (advanceAll keyOf positionOf cursors admitted,
            results ++ admitted) ∧
        Ascends keyOf positionOf cursors admitted := by
  induction items generalizing cursors results with
  | nil =>
    exact ⟨[], by simp [letThrough, advanceAll], trivial⟩
  | cons item rest inductionHypothesis =>
    cases isPassed : cursors.passed (keyOf item) (positionOf item) with
    | true =>
      obtain ⟨admitted, shape, ascends⟩ := inductionHypothesis cursors results
      refine ⟨admitted, ?_, ascends⟩
      rw [← shape]
      simp [letThrough, letItemThrough, isPassed]
    | false =>
      obtain ⟨admitted, shape, ascends⟩ :=
        inductionHypothesis
          (cursors.advance (keyOf item) (positionOf item))
          (results ++ [item])
      refine ⟨item :: admitted, ?_, isPassed, ascends⟩
      rw [List.append_assoc, List.singleton_append] at shape
      change _ = (advanceAll keyOf positionOf
        (cursors.advance (keyOf item) (positionOf item)) admitted, _)
      rw [← shape]
      simp [letThrough, letItemThrough, isPassed]

theorem advanceAll_append
    (cursors : Cursors Key)
    (first second : List Item) :
    advanceAll keyOf positionOf cursors (first ++ second) =
      advanceAll keyOf positionOf
        (advanceAll keyOf positionOf cursors first) second :=
  List.foldl_append

variable {cursors start finish : Cursors Key}
  {first second items sent : List Item} {item : Item}

theorem Ascends.append
    (firstAscends : Ascends keyOf positionOf cursors first)
    (secondAscends :
      Ascends keyOf positionOf (advanceAll keyOf positionOf cursors first)
        second) :
    Ascends keyOf positionOf cursors (first ++ second) := by
  induction first generalizing cursors with
  | nil =>
    exact secondAscends
  | cons item rest inductionHypothesis =>
    exact ⟨firstAscends.1, inductionHypothesis firstAscends.2 secondAscends⟩

theorem advanceAll_perm
    (cursors : Cursors Key)
    (reordered : first.Perm second) :
    advanceAll keyOf positionOf cursors first =
      advanceAll keyOf positionOf cursors second := by
  refine reordered.foldl_eq' ?_ cursors
  intro item _ other _ current
  exact current.advance_comm _ _ _ _

theorem Ascends.not_passed
    (ascends : Ascends keyOf positionOf cursors items)
    (member : item ∈ items) :
    cursors.passed (keyOf item) (positionOf item) = false := by
  induction items generalizing cursors with
  | nil =>
    cases member
  | cons first rest inductionHypothesis =>
    rcases List.mem_cons.mp member with isFirst | inRest
    · rw [isFirst]
      exact ascends.1
    · by_contra isPassed
      have stillPassed := inductionHypothesis ascends.2 inRest
      rw [(cursors.passed_advance _ _ _ _).mpr
        (Or.inl (Bool.not_eq_false _ ▸ isPassed))] at stillPassed
      cases stillPassed

theorem Ascends.pairwise
    (ascends : Ascends keyOf positionOf cursors items) :
    items.Pairwise fun first second =>
      keyOf first = keyOf second → positionOf first < positionOf second := by
  induction items generalizing cursors with
  | nil =>
    exact List.Pairwise.nil
  | cons first rest inductionHypothesis =>
    refine List.pairwise_cons.mpr ⟨?_, inductionHypothesis ascends.2⟩
    intro second member sameKey
    by_contra notBelow
    have stillPassed := ascends.2.not_passed member
    rw [(cursors.passed_advance _ _ _ _).mpr
      (Or.inr ⟨sameKey.symm, not_lt.mp notBelow⟩)] at stillPassed
    cases stillPassed

theorem ascends_of_pairwise
    (above :
      ∀ item ∈ items,
        cursors.passed (keyOf item) (positionOf item) = false)
    (increasing :
      items.Pairwise fun first second =>
        keyOf first = keyOf second → positionOf first < positionOf second) :
    Ascends keyOf positionOf cursors items := by
  induction items generalizing cursors with
  | nil =>
    trivial
  | cons first rest inductionHypothesis =>
    obtain ⟨firstBelow, restIncreasing⟩ := List.pairwise_cons.mp increasing
    refine ⟨above first (by simp), inductionHypothesis ?_ restIncreasing⟩
    intro item member
    have itemAbove := above item (by simp [member])
    by_contra isPassed
    rcases (cursors.passed_advance _ _ _ _).mp
        (Bool.not_eq_false _ ▸ isPassed) with
      earlier | ⟨sameKey, covered⟩
    · rw [itemAbove] at earlier
      cases earlier
    · have below := firstBelow item member sameKey.symm
      omega

/-- Reordering by position keeps a list ascending. -/
theorem Ascends.perm
    {reordered : List Item}
    (ascends : Ascends keyOf positionOf cursors items)
    (permuted : reordered.Perm items)
    (sorted :
      reordered.Pairwise fun first second =>
        positionOf first ≤ positionOf second) :
    Ascends keyOf positionOf cursors reordered := by
  apply ascends_of_pairwise
  · intro item member
    exact ascends.not_passed (permuted.mem_iff.mp member)
  · have distinct :
        items.Pairwise fun first second =>
          keyOf first = keyOf second → positionOf first ≠ positionOf second :=
      ascends.pairwise.imp fun below sameKey => ne_of_lt (below sameKey)
    have reorderedDistinct :=
      (permuted.pairwise_iff fun differs sameKey same =>
        differs sameKey.symm same.symm).mpr distinct
    refine (sorted.and reorderedDistinct).imp ?_
    intro first second ordered sameKey
    exact lt_of_le_of_ne ordered.1 (ordered.2 sameKey)

/-! ### Delivering what was let through -/

/--
The cursors moved from `start` to `finish` along an ascending list, of which
`sent` was delivered.
-/
def Leads
    (keyOf : Item → Key)
    (positionOf : Item → Nat)
    (start finish : Cursors Key)
    (sent : List Item) : Prop :=
  ∃ accepted,
    Ascends keyOf positionOf start accepted ∧
      finish = advanceAll keyOf positionOf start accepted ∧
      sent.Sublist accepted

theorem Leads.refl (cursors : Cursors Key) :
    Leads keyOf positionOf cursors cursors [] :=
  ⟨[], trivial, rfl, List.Sublist.slnil⟩

theorem Leads.trans
    {middle : Cursors Key}
    (earlier : Leads keyOf positionOf start middle first)
    (later : Leads keyOf positionOf middle finish second) :
    Leads keyOf positionOf start finish (first ++ second) := by
  obtain ⟨firstAccepted, firstAscends, isMiddle, firstSent⟩ := earlier
  obtain ⟨secondAccepted, secondAscends, isFinish, secondSent⟩ := later
  subst isMiddle isFinish
  exact ⟨firstAccepted ++ secondAccepted,
    firstAscends.append secondAscends,
    (advanceAll_append start firstAccepted secondAccepted).symm,
    firstSent.append secondSent⟩

theorem Leads.single
    (notPassed : cursors.passed (keyOf item) (positionOf item) = false)
    (isSent : sent.Sublist [item]) :
    Leads keyOf positionOf cursors
      (cursors.advance (keyOf item) (positionOf item)) sent :=
  ⟨[item], ⟨notPassed, trivial⟩, rfl, isSent⟩

theorem Leads.not_passed
    (leads : Leads keyOf positionOf start finish sent)
    (member : item ∈ sent) :
    start.passed (keyOf item) (positionOf item) = false := by
  obtain ⟨accepted, ascends, _, isSent⟩ := leads
  exact ascends.not_passed (isSent.subset member)

theorem Leads.nodup
    (leads : Leads keyOf positionOf start finish sent) :
    (sent.map fun item => (keyOf item, positionOf item)).Nodup := by
  obtain ⟨accepted, ascends, _, isSent⟩ := leads
  refine List.pairwise_map.mpr ((ascends.pairwise.sublist isSent).imp ?_)
  intro first second increasing same
  rw [Prod.mk.injEq] at same
  exact ne_of_lt (increasing same.1) same.2

end Filter

end Mitiflow.Library
