import Mathlib

namespace Mitiflow.Library

open List

/-!
# Texts cut into chunks

A text over any alphabet is cut at every separator.  A text joined from two by
a separator has the chunks of both, and one text followed by a separator begins
another exactly if its chunks begin the other's.

Chunk patterns have two wildcards: one stands for a single chunk, the other
for any number of chunks.
-/

section Chunks

variable {Symbol : Type} [DecidableEq Symbol] (separator : Symbol)

/-- The pieces of a text between its separators. -/
def chunks (text : List Symbol) : List (List Symbol) :=
  text.splitOn separator

variable {separator}

theorem chunks_append (front back : List Symbol) :
    chunks separator (front ++ separator :: back) =
      chunks separator front ++ chunks separator back :=
  splitOnP_append_cons front back (beq_self_eq_true separator)

variable {text : List Symbol}

theorem chunks_eq_singleton
    (absent : separator ∉ text) :
    chunks separator text = [text] := by
  refine splitOnP_eq_singleton ?_
  intro symbol isIn
  refine beq_eq_false_iff_ne.mpr ?_
  intro isSeparator
  exact absent (isSeparator ▸ isIn)

theorem chunks_ne_nil (text : List Symbol) : chunks separator text ≠ [] :=
  splitOnP_ne_nil _ _

theorem chunks_induction
    (separator : Symbol)
    {motive : List Symbol → Prop}
    (single : ∀ text, separator ∉ text → motive text)
    (join :
      ∀ head rest,
        separator ∉ head → motive rest → motive (head ++ separator :: rest))
    (text : List Symbol) :
    motive text := by
  -- What was read since the last separator is kept in front.
  have generalized : ∀ head, separator ∉ head → motive (head ++ text) := by
    induction text with
    | nil =>
      intro head absent
      rw [append_nil]
      exact single head absent
    | cons symbol rest inductionHypothesis =>
      intro head absent
      by_cases isSeparator : symbol = separator
      · rw [isSeparator]
        exact join head rest absent (inductionHypothesis [] not_mem_nil)
      · rw [append_cons]
        refine inductionHypothesis (head ++ [symbol]) ?_
        simp [absent, Ne.symm isSeparator]
  exact generalized [] not_mem_nil

theorem chunks_join
    {head : List Symbol}
    (absent : separator ∉ head)
    (rest : List Symbol) :
    chunks separator (head ++ separator :: rest) =
      head :: chunks separator rest := by
  rw [chunks_append, chunks_eq_singleton absent, singleton_append]

/-- A chunk has no separator, and separators or the ends around it. -/
theorem infix_of_mem_chunks
    {piece : List Symbol}
    (isChunk : piece ∈ chunks separator text) :
    separator ∉ piece ∧
      separator :: (piece ++ [separator]) <:+:
        separator :: (text ++ [separator]) := by
  induction text using chunks_induction separator with
  | single text absent =>
    rw [chunks_eq_singleton absent, mem_singleton] at isChunk
    rw [isChunk]
    exact ⟨absent, infix_refl _⟩
  | join head rest absent inductionHypothesis =>
    rw [chunks_join absent, mem_cons] at isChunk
    rcases isChunk with isHead | inRest
    · rw [isHead]
      refine ⟨absent, ⟨[], rest ++ [separator], ?_⟩⟩
      simp
    · grind

/-- The chunks after the first are the pieces between separators. -/
theorem mem_tail_chunks_iff {piece : List Symbol} :
    piece ∈ (chunks separator text).tail ↔
      separator ∉ piece ∧
        separator :: (piece ++ [separator]) <:+: text ++ [separator] := by
  constructor
  · intro isLater
    induction text using chunks_induction separator with
    | single text absent =>
      rw [chunks_eq_singleton absent] at isLater
      cases isLater
    | join head rest absent _ =>
      grind [chunks_join, infix_of_mem_chunks]
  · rintro ⟨pieceAbsent, front, back, split⟩
    have sameChunks :
        chunks separator text ++ [[]] =
          chunks separator front ++ piece :: chunks separator back := by
      rw [← chunks_join pieceAbsent, ← chunks_append]
      have ended := @chunks_append _ _ separator text []
      rw [chunks_eq_singleton not_mem_nil] at ended
      rw [← ended, ← split]
      simp
    have isText :
        chunks separator text =
          chunks separator front ++
            piece :: (chunks separator back).dropLast := by
      have shorter := congrArg List.dropLast sameChunks
      rw [dropLast_concat, dropLast_append_cons,
        dropLast_cons_of_ne_nil (chunks_ne_nil back)] at shorter
      exact shorter
    rw [isText, tail_append_of_ne_nil (chunks_ne_nil front)]
    exact mem_append_right _ mem_cons_self

/-- The chunks of a text begin those of another if the text does, up to a
separator. -/
theorem chunks_prefix_iff {first second : List Symbol} :
    chunks separator first <+: chunks separator second ↔
      first = second ∨ first ++ [separator] <+: second := by
  constructor
  · intro begins
    induction first using chunks_induction separator generalizing second with
    | single first absent =>
      rw [chunks_eq_singleton absent] at begins
      induction second using chunks_induction separator with
      | single second secondAbsent =>
        rw [chunks_eq_singleton secondAbsent] at begins
        exact Or.inl (cons_prefix_cons.mp begins).1
      | join head rest headAbsent _ =>
        grind [append_cons, chunks_join]
    | join head rest absent inductionHypothesis =>
      rw [chunks_join absent] at begins
      induction second using chunks_induction separator with
      | single second secondAbsent =>
        grind [chunks_eq_singleton, chunks_ne_nil]
      | join other more otherAbsent _ =>
        grind [prefix_append_right_inj, chunks_join]
  · rintro (same | ⟨rest, isSecond⟩)
    · rw [same]
    · rw [← isSecond, append_assoc, singleton_append, chunks_append]
      exact prefix_append _ _

omit [DecidableEq Symbol] in
/-- A symbol right after a separator, in a text joined from two. -/
theorem pair_infix_append_iff
    {symbol : Symbol}
    (other : symbol ≠ separator)
    (front back : List Symbol) :
    [separator, symbol] <:+: front ++ separator :: back ↔
      [separator, symbol] <:+: front ∨
        [symbol] <+: back ∨ [separator, symbol] <:+: back := by
  induction front with
  | nil =>
    rw [nil_append, infix_cons_iff, cons_prefix_cons]
    simp
  | cons first rest inductionHypothesis =>
    have sameStart :
        [separator, symbol] <+: first :: (rest ++ separator :: back) ↔
          [separator, symbol] <+: first :: rest := by
      rw [cons_prefix_cons, cons_prefix_cons]
      cases rest with
      | nil =>
        simp [cons_prefix_cons, other]
      | cons second more =>
        simp [cons_prefix_cons]
    rw [cons_append, infix_cons_iff, infix_cons_iff,
      inductionHypothesis, sameStart, or_assoc]

end Chunks

section Patterns

variable {Chunk : Type} [DecidableEq Chunk] (single many : Chunk)

/-- Whether chunks match a pattern: one wildcard stands for a single chunk,
the other for any number of them. -/
def matchesChunks : List Chunk → List Chunk → Bool
  | [], texts => texts.isEmpty
  | pattern :: patterns, texts =>
    if pattern = many then
      texts.tails.any (matchesChunks patterns)
    else
      match texts with
      | [] => false
      | text :: more =>
        (pattern = single || pattern = text) &&
          matchesChunks patterns more

variable {single many}

theorem matchesChunks_many (patterns texts : List Chunk) :
    matchesChunks single many (many :: patterns) texts = true ↔
      ∃ rest,
        rest <:+ texts ∧ matchesChunks single many patterns rest = true := by
  simp only [matchesChunks, ↓reduceIte, any_eq_true, mem_tails]

variable {pattern : Chunk}

theorem matchesChunks_cons_cons
    (bounded : pattern ≠ many)
    (patterns : List Chunk)
    (text : Chunk)
    (texts : List Chunk) :
    matchesChunks single many (pattern :: patterns) (text :: texts) = true ↔
      (pattern = single ∨ pattern = text) ∧
        matchesChunks single many patterns texts = true := by
  rw [matchesChunks, if_neg bounded]
  simp

theorem matchesChunks_cons_nil
    (bounded : pattern ≠ many)
    (patterns : List Chunk) :
    matchesChunks single many (pattern :: patterns) [] = false := by
  rw [matchesChunks, if_neg bounded]

/-- A wildcard for any number of chunks at the end lets the text go on. -/
theorem matchesChunks_snoc_many (patterns texts : List Chunk) :
    matchesChunks single many (patterns ++ [many]) texts = true ↔
      ∃ front,
        front <+: texts ∧
          matchesChunks single many patterns front = true := by
  induction patterns generalizing texts with
  | nil =>
    grind [matchesChunks_many, matchesChunks]
  | cons pattern patterns inductionHypothesis =>
    rw [cons_append]
    by_cases isMany : pattern = many
    · subst isMany
      rw [matchesChunks_many]
      simp only [inductionHypothesis, matchesChunks_many]
      constructor
      · rintro ⟨rest, ⟨skipped, isTexts⟩, front, ⟨after, isRest⟩, found⟩
        refine ⟨skipped ++ front, ⟨after, ?_⟩, front,
          suffix_append _ _, found⟩
        rw [append_assoc, isRest, isTexts]
      · rintro ⟨_, ⟨after, isTexts⟩, rest, ⟨skipped, isFront⟩, found⟩
        refine ⟨rest ++ after, ⟨skipped, ?_⟩, rest,
          prefix_append _ _, found⟩
        rw [← append_assoc, isFront, isTexts]
    · cases texts with
      | nil =>
        grind [matchesChunks]
      | cons text texts =>
        rw [matchesChunks_cons_cons isMany, inductionHypothesis]
        constructor
        · rintro ⟨fits, front, begins, found⟩
          refine ⟨text :: front, ?_, ?_⟩
          · exact cons_prefix_cons.mpr ⟨rfl, begins⟩
          · exact (matchesChunks_cons_cons isMany _ _ _).mpr ⟨fits, found⟩
        · rintro ⟨front, begins, found⟩
          cases front with
          | nil =>
            rw [matchesChunks_cons_nil isMany] at found
            exact absurd found Bool.false_ne_true
          | cons first front =>
            grind [matchesChunks]

/-- A pattern whose last chunk stands for one chunk takes the last chunk. -/
theorem matchesChunks_snoc
    (bounded : pattern ≠ many)
    (patterns texts : List Chunk) :
    matchesChunks single many (patterns ++ [pattern]) texts = true ↔
      ∃ front text,
        texts = front ++ [text] ∧
          (pattern = single ∨ pattern = text) ∧
          matchesChunks single many patterns front = true := by
  induction patterns generalizing texts with
  | nil =>
    rw [nil_append]
    cases texts with
    | nil =>
      rw [matchesChunks_cons_nil bounded]
      refine iff_of_false Bool.false_ne_true ?_
      rintro ⟨front, text, isNil, _⟩
      simp at isNil
    | cons text more =>
      rw [matchesChunks_cons_cons bounded]
      constructor
      · rintro ⟨fits, isEmpty⟩
        rw [matchesChunks, List.isEmpty_iff] at isEmpty
        exact ⟨[], text, by rw [isEmpty]; rfl, fits, rfl⟩
      · rintro ⟨front, last, isTexts, fits, isEmpty⟩
        rw [matchesChunks, List.isEmpty_iff] at isEmpty
        rw [isEmpty, List.nil_append, List.cons.injEq] at isTexts
        rw [isTexts.1, isTexts.2]
        exact ⟨fits, rfl⟩
  | cons first patterns inductionHypothesis =>
    rw [cons_append]
    by_cases isMany : first = many
    · subst isMany
      rw [matchesChunks_many]
      simp only [inductionHypothesis, matchesChunks_many]
      constructor
      · rintro ⟨_, ⟨skipped, isTexts⟩, front, text, rfl, fits, found⟩
        refine ⟨skipped ++ front, text, ?_, fits, front,
          suffix_append _ _, found⟩
        rw [append_assoc, isTexts]
      · rintro ⟨_, text, rfl, fits, front, ⟨skipped, rfl⟩, found⟩
        refine ⟨front ++ [text], ⟨skipped, ?_⟩, front, text, rfl, fits, found⟩
        rw [append_assoc]
    · cases texts with
      | nil =>
        rw [matchesChunks_cons_nil isMany]
        refine iff_of_false Bool.false_ne_true ?_
        rintro ⟨front, text, isNil, _⟩
        simp at isNil
      | cons text texts =>
        rw [matchesChunks_cons_cons isMany, inductionHypothesis]
        constructor
        · rintro ⟨firstFits, front, last, isTexts, fits, found⟩
          exact ⟨text :: front, last, by rw [isTexts]; rfl, fits,
            (matchesChunks_cons_cons isMany _ _ _).mpr ⟨firstFits, found⟩⟩
        · rintro ⟨front, last, isTexts, fits, found⟩
          cases front with
          | nil =>
            rw [matchesChunks_cons_nil isMany] at found
            exact absurd found Bool.false_ne_true
          | cons head front =>
            rw [cons_append, List.cons.injEq] at isTexts
            obtain ⟨firstFits, restFound⟩ :=
              (matchesChunks_cons_cons isMany _ _ _).mp found
            exact ⟨isTexts.1 ▸ firstFits, front, last, isTexts.2,
              fits, restFound⟩

theorem matchesChunks_self (patterns : List Chunk) :
    matchesChunks single many patterns patterns = true := by
  induction patterns with
  | nil =>
    rfl
  | cons pattern patterns inductionHypothesis =>
    grind [matchesChunks_many, matchesChunks_cons_cons]

/-- A literal chunk at the end of a pattern is missed in the text before it. -/
theorem matchesChunks_without_last
    {literal : Chunk}
    (notSingle : literal ≠ single)
    (notMany : literal ≠ many)
    (texts : List Chunk) :
    matchesChunks single many (texts ++ [literal]) texts = false := by
  induction texts using List.reverseRecOn with
  | nil =>
    exact matchesChunks_cons_nil notMany []
  | append_singleton front last inductionHypothesis =>
    rw [Bool.eq_false_iff]
    intro found
    obtain ⟨before, text, isFront, fits, foundBefore⟩ :=
      (matchesChunks_snoc notMany _ _).mp found
    obtain ⟨sameFront, sameLast⟩ := append_inj' isFront rfl
    have isLiteral : literal = last := by
      rcases fits with isSingle | isText
      · exact absurd isSingle notSingle
      · rw [isText]
        exact (singleton_inj.mp sameLast).symm
    rw [← isLiteral, ← sameFront, inductionHypothesis] at foundBefore
    cases foundBefore

end Patterns

end Mitiflow.Library
