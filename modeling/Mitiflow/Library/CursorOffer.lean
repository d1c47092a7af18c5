import Mitiflow.Library.CursorFilter

namespace Mitiflow.Library

open List

/-!
# What a cursor filter lets through

A filtered list seen from one key: which of the positions offered for the key
get through, when any of them does, and when none of some wanted positions is
jumped over.
-/

section Offer

variable
    {Key Item : Type}
    [DecidableEq Key]
    {keyOf : Item → Key}
    {positionOf : Item → Nat}

variable {item : Item} {cursors : Cursors Key} {items : List Item} {key : Key}
  {position : Nat}

/-- An occurrence after allowed items only is the head or is in the tail. -/
theorem exists_occurrence_cons_iff
    {allowed : Item → Prop}
    {first : Item}
    {rest : List Item} :
    (∃ before after,
        first :: rest = before ++ item :: after ∧
          ∀ earlier ∈ before, allowed earlier) ↔
      item = first ∨
        (allowed first ∧
          ∃ before after,
            rest = before ++ item :: after ∧
              ∀ earlier ∈ before, allowed earlier) := by
  constructor
  · rintro ⟨before, after, shape, allAllowed⟩
    cases before with
    | nil =>
      cases shape
      exact Or.inl rfl
    | cons head before =>
      grind
  · rintro (isFirst | ⟨firstAllowed, before, after, shape, allAllowed⟩)
    · subst isFirst
      exact ⟨[], rest, rfl, by simp⟩
    · grind

/--
An item is let through exactly if it was not passed at the start and some
occurrence of it is above all earlier items of its key.
-/
theorem mem_letThrough
    {results : List Item} :
    item ∈ (letThrough keyOf positionOf (cursors, results) items).2 ↔
      item ∈ results ∨
        (cursors.passed (keyOf item) (positionOf item) = false ∧
          ∃ before after,
            items = before ++ item :: after ∧
            ∀ earlier ∈ before,
              keyOf earlier = keyOf item →
              positionOf earlier < positionOf item) := by
  induction items generalizing cursors results with
  | nil =>
    simp [letThrough]
  | cons first rest inductionHypothesis =>
    change item ∈ (letThrough keyOf positionOf
      (letItemThrough keyOf positionOf (cursors, results) first) rest).2 ↔ _
    rw [exists_occurrence_cons_iff]
    cases isPassed : cursors.passed (keyOf first) (positionOf first) with
    | true =>
      simp only [letItemThrough, isPassed, ↓reduceIte]
      rw [inductionHypothesis]
      refine or_congr Iff.rfl (and_congr_right fun notPassed => ?_)
      have notFirst : item ≠ first := by
        intro isFirst
        rw [isFirst, isPassed] at notPassed
        cases notPassed
      have firstBelow :
          keyOf first = keyOf item → positionOf first < positionOf item := by
        intro sameKey
        by_contra notBelow
        have reached := Cursors.passed_of_le isPassed (not_lt.mp notBelow)
        rw [sameKey, notPassed] at reached
        cases reached
      rw [or_iff_right notFirst, and_iff_right firstBelow]
    | false =>
      simp only [letItemThrough, isPassed, Bool.false_eq_true, ↓reduceIte]
      rw [inductionHypothesis, mem_append, mem_singleton, or_assoc]
      refine or_congr Iff.rfl ?_
      have stillNew :
          (cursors.advance (keyOf first) (positionOf first)).passed
                (keyOf item) (positionOf item) = false ↔
            cursors.passed (keyOf item) (positionOf item) = false ∧
              (keyOf first = keyOf item →
                positionOf first < positionOf item) := by
        rw [← Bool.not_eq_true, Cursors.passed_advance, not_or,
          Bool.not_eq_true, not_and, not_le, eq_comm (a := keyOf item)]
      rw [stillNew, and_assoc, and_or_left]
      refine or_congr ?_ Iff.rfl
      constructor
      · intro isFirst
        exact ⟨isFirst ▸ isPassed, isFirst⟩
      · exact And.right

theorem mem_of_mem_letThrough
    (member : item ∈ (letThrough keyOf positionOf (cursors, []) items).2) :
    item ∈ items := by
  obtain ⟨_, before, after, shape, _⟩ :=
    (mem_letThrough.mp member).resolve_left (by simp)
  simp [shape]

/-- Filtering passes what was passed and what some item covers. -/
theorem passed_letThrough
    {results : List Item} :
    (letThrough keyOf positionOf (cursors, results) items).1.passed key
          position = true ↔
      cursors.passed key position = true ∨
        ∃ item ∈ items, keyOf item = key ∧ position ≤ positionOf item := by
  induction items generalizing cursors results with
  | nil =>
    simp [letThrough]
  | cons first rest inductionHypothesis =>
    change (letThrough keyOf positionOf
      (letItemThrough keyOf positionOf (cursors, results) first)
        rest).1.passed key position = true ↔ _
    rw [exists_mem_cons_iff]
    cases isPassed : cursors.passed (keyOf first) (positionOf first) with
    | true =>
      grind [Cursors.passed, letItemThrough]
    | false =>
      grind [letItemThrough, Cursors.passed_advance]

/-! ## What reaches one key -/

/-- The positions offered for one key, in order. -/
def offered
    (keyOf : Item → Key)
    (positionOf : Item → Nat)
    (items : List Item)
    (key : Key) : List Nat :=
  (items.filter fun item => keyOf item = key).map positionOf

theorem mem_offered :
    position ∈ offered keyOf positionOf items key ↔
      ∃ item ∈ items, keyOf item = key ∧ positionOf item = position := by
  simp [offered, and_assoc]

/-- What each of several sources with distinct keys offers for its key. -/
theorem offered_flatMap
    {Entry : Type}
    {entries : List Entry}
    {source : Entry → Key}
    {items : Entry → List Item}
    (owned :
      ∀ entry ∈ entries, ∀ item ∈ items entry, keyOf item = source entry)
    (distinct : (entries.map source).Nodup)
    {entry : Entry}
    (member : entry ∈ entries) :
    offered keyOf positionOf (entries.flatMap items) (source entry) =
      (items entry).map positionOf := by
  have keepsOwn (own : Entry) (isOwn : own ∈ entries) :
      (items own).filter (fun item => keyOf item = source own) = items own := by
    apply filter_eq_self.mpr
    intro item inItems
    exact decide_eq_true (owned own isOwn item inItems)
  have dropsOther (other : Entry) (isOther : other ∈ entries)
      (differs : source other ≠ source entry) :
      (items other).filter (fun item => keyOf item = source entry) = [] := by
    apply filter_eq_nil_iff.mpr
    intro item inItems sameKey
    exact differs ((owned other isOther item inItems).symm.trans
      (of_decide_eq_true sameKey))
  obtain ⟨before, after, shape⟩ := append_of_mem member
  have others :
      ∀ other ∈ before ++ after, source other ≠ source entry := by
    intro other inOthers same
    rw [shape, map_append, map_cons, nodup_middle,
      nodup_cons, ← map_append] at distinct
    exact distinct.1 (same ▸ mem_map_of_mem inOthers)
  have silent (part : List Entry)
      (within : ∀ other ∈ part, other ∈ before ++ after) :
      part.flatMap (fun other =>
        (items other).filter fun item => keyOf item = source entry) = [] := by
    apply flatMap_eq_nil_iff.mpr
    intro other inPart
    apply dropsOther other
    · grind
    · exact others other (within other inPart)
  unfold offered
  rw [filter_flatMap]
  nth_rewrite 1 [shape]
  rw [flatMap_append, flatMap_cons,
    silent before fun _ early => mem_append_left _ early,
    silent after fun _ late => mem_append_right _ late,
    nil_append, append_nil, keepsOwn entry member]

/--
A position of a key gets through exactly if it is above the cursor and offered
before every other position at or above it.
-/
theorem exists_mem_letThrough_iff :
    (∃ item ∈ (letThrough keyOf positionOf (cursors, []) items).2,
        keyOf item = key ∧ positionOf item = position) ↔
      cursors.passed key position = false ∧
        ∃ before after,
          offered keyOf positionOf items key =
              before ++ position :: after ∧
            ∀ earlier ∈ before, earlier < position := by
  constructor
  · rintro ⟨item, member, sameKey, samePosition⟩
    subst sameKey samePosition
    obtain ⟨notPassed, before, after, shape, highest⟩ :=
      (mem_letThrough.mp member).resolve_left (by simp)
    refine ⟨notPassed, offered keyOf positionOf before (keyOf item),
      offered keyOf positionOf after (keyOf item), ?_, ?_⟩
    · simp [offered, shape]
    · grind [offered]
  · rintro ⟨notPassed, before, after, shape, highest⟩
    obtain ⟨front, back, filterShape, frontShape, backShape⟩ :=
      map_eq_append_iff.mp shape
    obtain ⟨item, rest, backCons, samePosition, _⟩ :=
      map_eq_cons_iff.mp backShape
    subst backCons
    obtain ⟨first, second, split, firstFilter, secondFilter⟩ :=
      filter_eq_append_iff.mp filterShape
    obtain ⟨skipped, last, secondSplit, noneSkipped, isKey, _⟩ :=
      filter_eq_cons_iff.mp secondFilter
    have sameKey : keyOf item = key := of_decide_eq_true isKey
    refine ⟨item,
      mem_letThrough.mpr (Or.inr ⟨?_, first ++ skipped, last, ?_, ?_⟩),
      sameKey, samePosition⟩
    · rw [sameKey, samePosition]
      exact notPassed
    · rw [split, secondSplit, append_assoc]
    · intro earlier member earlierKey
      have matched : decide (keyOf earlier = key) = true :=
        decide_eq_true (earlierKey.trans sameKey)
      rcases mem_append.mp member with inFirst | inSkipped
      · rw [samePosition]
        apply highest
        rw [← frontShape, ← firstFilter]
        exact mem_map_of_mem (mem_filter.mpr ⟨inFirst, matched⟩)
      · exact absurd matched (noneSkipped earlier inSkipped)

/-- Something of a tracked key gets through if anything above is offered. -/
theorem exists_above_letThrough_iff
    {cursor : Nat}
    (tracked : cursors key = some cursor) :
    (∃ item ∈ (letThrough keyOf positionOf (cursors, []) items).2,
        keyOf item = key ∧ cursor < positionOf item) ↔
      ∃ position ∈ offered keyOf positionOf items key, cursor < position := by
  constructor
  · rintro ⟨item, member, sameKey, above⟩
    obtain ⟨_, before, after, shape, _⟩ :=
      exists_mem_letThrough_iff.mp ⟨item, member, sameKey, rfl⟩
    exact ⟨positionOf item, by simp [shape], above⟩
  · rintro ⟨position, isOffered, above⟩
    -- The first position above the cursor is the one that gets through.
    have someAbove :
        ((offered keyOf positionOf items key).find?
          fun position => cursor < position).isSome := by
      rw [List.find?_isSome]
      exact ⟨position, isOffered, by simpa using above⟩
    obtain ⟨first, isFirst⟩ := Option.isSome_iff_exists.mp someAbove
    obtain ⟨firstAbove, before, after, shape, noneBefore⟩ :=
      List.find?_eq_some_iff_append.mp isFirst
    have isAbove : cursor < first := of_decide_eq_true firstAbove
    have notPassed : cursors.passed key first = false := by
      simp [Cursors.passed, tracked, isAbove]
    obtain ⟨item, member, sameKey, samePosition⟩ :=
      exists_mem_letThrough_iff.mpr ⟨notPassed, before, after, shape, by
        intro earlier inBefore
        have notAbove : ¬cursor < earlier := by
          simpa using noneBefore earlier inBefore
        exact lt_of_le_of_lt (not_lt.mp notAbove) isAbove⟩
    exact ⟨item, member, sameKey, samePosition ▸ isAbove⟩

/--
Of two positions of a list, the lower one comes first if nothing before it is
higher.
-/
theorem mem_before_of_highest
    {before after front back : List Nat}
    {reached : Nat}
    (split : before ++ reached :: after = front ++ position :: back)
    (below : position < reached)
    (highest : ∀ earlier ∈ front, earlier < position) :
    position ∈ before := by
  rcases append_eq_append_iff.mp split with
    ⟨between, frontShape, rest⟩ | ⟨between, beforeShape, rest⟩
  · -- The higher position would come first.
    cases between with
    | nil =>
      simp only [nil_append, List.cons.injEq] at rest
      exact absurd rest.1 (ne_of_gt below)
    | cons head tail =>
      simp only [cons_append, List.cons.injEq] at rest
      have tooHigh := highest head (by simp [frontShape])
      rw [← rest.1] at tooHigh
      exact absurd tooHigh (lt_asymm below)
  · cases between with
    | nil =>
      simp only [nil_append, List.cons.injEq] at rest
      exact absurd rest.1 (ne_of_lt below)
    | cons head tail =>
      simp only [cons_append, List.cons.injEq] at rest
      rw [beforeShape, rest.1]
      simp

/--
A tracked key skips none of some wanted positions exactly if, before every
offered position, all wanted ones between the cursor and it were offered.
-/
theorem letThrough_skips_none_iff
    {cursor : Nat}
    (tracked : cursors key = some cursor)
    (wanted : Nat → Prop) :
    (∀ position,
        wanted position →
        cursor < position →
        (letThrough keyOf positionOf (cursors, []) items).1.passed key
          position = true →
        ∃ item ∈ (letThrough keyOf positionOf (cursors, []) items).2,
          keyOf item = key ∧ positionOf item = position) ↔
      ∀ before reached after,
        offered keyOf positionOf items key = before ++ reached :: after →
        ∀ position,
          wanted position →
          cursor < position →
          position < reached →
          position ∈ before := by
  have notPassed {position : Nat} (above : cursor < position) :
      cursors.passed key position = false := by
    simp [Cursors.passed, tracked, above]
  constructor
  · intro noneSkipped before reached after shape position isWanted above below
    have covered :
        (letThrough keyOf positionOf (cursors, []) items).1.passed key
          position = true := by
      have isOffered : reached ∈ offered keyOf positionOf items key := by
        simp [shape]
      obtain ⟨item, member, sameKey, isReached⟩ := mem_offered.mp isOffered
      exact passed_letThrough.mpr (Or.inr
        ⟨item, member, sameKey, isReached ▸ below.le⟩)
    obtain ⟨_, front, back, split, highest⟩ :=
      exists_mem_letThrough_iff.mp (noneSkipped position isWanted above covered)
    exact mem_before_of_highest (shape.symm.trans split) below highest
  · intro ordered position isWanted above covered
    have isOffered : position ∈ offered keyOf positionOf items key := by
      rcases passed_letThrough.mp covered with
        earlier | ⟨item, member, sameKey, atMost⟩
      · rw [notPassed above] at earlier
        cases earlier
      · have itemOffered :
            positionOf item ∈ offered keyOf positionOf items key :=
          mem_offered.mpr ⟨item, member, sameKey, rfl⟩
        rcases lt_or_eq_of_le atMost with below | same
        · obtain ⟨before, after, shape⟩ := append_of_mem itemOffered
          rw [shape]
          exact mem_append_left _
            (ordered before _ after shape position isWanted above below)
        · exact same ▸ itemOffered
    obtain ⟨before, after, shape, notBefore⟩ :=
      eq_append_cons_of_mem isOffered
    apply exists_mem_letThrough_iff.mpr
    refine ⟨notPassed above, before, after, shape, ?_⟩
    intro earlier inBefore
    by_contra notBelow
    rcases lt_or_eq_of_le (not_lt.mp notBelow) with higher | same
    · obtain ⟨front, back, split⟩ := append_of_mem inBefore
      have regrouped :
          offered keyOf positionOf items key =
            front ++ earlier :: (back ++ position :: after) := by
        rw [shape, split, append_assoc, cons_append]
      have inFront :=
        ordered front earlier _ regrouped position isWanted above higher
      exact notBefore (by simp [split, inFront])
    · exact notBefore (same ▸ inBefore)

end Offer

end Mitiflow.Library
