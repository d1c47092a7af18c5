import Mathlib

namespace Mitiflow.Library.Text

open List

/-!
# Text operations

The string operations of the systems language that the modelled code relies
on, over character lists: trimming, splitting, substring search, and decimal
parsing with its error cases.  Every piece a splitting operation returns is
shown to be an infix of the text it was cut from, and decimal parsing is shown
to invert decimal rendering.
-/

/-- Characters with the Unicode property `White_Space`. -/
def isWhitespace (c : Char) : Bool :=
  let code := c.toNat
  (9 ≤ code && code ≤ 13) || code == 32 || code == 133 || code == 160 ||
    code == 5760 || (8192 ≤ code && code ≤ 8202) || code == 8232 ||
    code == 8233 || code == 8239 || code == 8287 || code == 12288

/-- Drop leading and trailing white space. -/
def trim (text : List Char) : List Char :=
  (((text.dropWhile isWhitespace).reverse).dropWhile isWhitespace).reverse

/-- Cut a text at the first occurrence of a character. -/
def splitOnce (separator : Char) :
    List Char → Option (List Char × List Char)
  | [] => none
  | c :: rest =>
    if c = separator then
      some ([], rest)
    else
      (splitOnce separator rest).map
        (fun pieces => (c :: pieces.1, pieces.2))

/-- Cut a text at the first occurrence of a pattern, dropping the pattern. -/
def cutAt (pattern : List Char) :
    List Char → Option (List Char × List Char)
  | [] => if pattern = [] then some ([], []) else none
  | c :: rest =>
    if pattern <+: c :: rest then
      some ([], (c :: rest).drop pattern.length)
    else
      (cutAt pattern rest).map
        (fun pieces => (c :: pieces.1, pieces.2))

/-- Whether a pattern occurs anywhere in a text. -/
def contains (text pattern : List Char) : Bool :=
  decide (pattern <:+: text)

/-- Why a decimal literal was rejected. -/
inductive ParseIntError where
  | empty
  | invalidDigit
  | posOverflow
  deriving Repr, DecidableEq

def ParseIntError.message : ParseIntError → String
  | .empty => "cannot parse integer from empty string"
  | .invalidDigit => "invalid digit found in string"
  | .posOverflow => "number too large to fit in target type"

/-- Accumulate decimal digits, failing as soon as the bound is exceeded. -/
def parseDigits (bound : Nat) :
    Nat → List Char → Except ParseIntError Nat
  | value, [] => .ok value
  | value, c :: rest =>
    if c.isDigit then
      let next := 10 * value + (c.toNat - '0'.toNat)
      if next ≤ bound then
        parseDigits bound next rest
      else
        .error .posOverflow
    else
      .error .invalidDigit

/-- Parse an unsigned decimal literal of at most `bound`. -/
def parseUnsigned (bound : Nat) (text : List Char) :
    Except ParseIntError Nat :=
  match text with
  | [] => .error .empty
  | ['+'] => .error .invalidDigit
  | '+' :: digits => parseDigits bound 0 digits
  | digits => parseDigits bound 0 digits

/-! ## Pieces are infixes -/

theorem trim_infix (text : List Char) : trim text <:+: text := by
  have front : text.dropWhile isWhitespace <:+ text := dropWhile_suffix _
  have back :
      trim text <+: text.dropWhile isWhitespace := by
    rw [← reverse_suffix]
    simpa [trim] using
      dropWhile_suffix
        (l := (text.dropWhile isWhitespace).reverse) isWhitespace
  exact back.isInfix.trans front.isInfix

/--
Splitting a text yields a first piece that is a prefix of it and further
pieces that are infixes of it.
-/
theorem splitOnP_shape (isSeparator : Char → Bool) (text : List Char) :
    ∃ first rest,
      text.splitOnP isSeparator = first :: rest ∧
        first <+: text ∧ ∀ piece ∈ rest, piece <:+: text := by
  induction text with
  | nil =>
    exact ⟨[], [], by simp⟩
  | cons c tail inductionHypothesis =>
    obtain ⟨first, rest, shape, firstPrefix, restInfix⟩ := inductionHypothesis
    have tailInfix : tail <:+: c :: tail := (suffix_cons c tail).isInfix
    rw [splitOnP_cons_eq_if_modifyHead, shape]
    split
    · refine ⟨[], first :: rest, rfl, nil_prefix, ?_⟩
      intro piece member
      rcases mem_cons.mp member with isFirst | inRest
      · exact isFirst ▸ firstPrefix.isInfix.trans tailInfix
      · exact (restInfix piece inRest).trans tailInfix
    · exact ⟨c :: first, rest, rfl,
        cons_prefix_cons.mpr ⟨rfl, firstPrefix⟩,
        fun piece member => (restInfix piece member).trans tailInfix⟩

variable {text pattern : List Char} {separator : Char}

theorem infix_of_mem_splitOnP
    {isSeparator : Char → Bool}
    {piece : List Char}
    (member : piece ∈ text.splitOnP isSeparator) :
    piece <:+: text := by
  obtain ⟨first, rest, shape, firstPrefix, restInfix⟩ :=
    splitOnP_shape isSeparator text
  rw [shape] at member
  rcases mem_cons.mp member with isFirst | inRest
  · exact isFirst ▸ firstPrefix.isInfix
  · exact restInfix piece inRest

theorem fst_prefix_of_splitOnce
    {pieces : List Char × List Char}
    (cut : splitOnce separator text = some pieces) :
    pieces.1 <+: text := by
  induction text generalizing pieces with
  | nil =>
    simp [splitOnce] at cut
  | cons c rest inductionHypothesis =>
    unfold splitOnce at cut
    split at cut
    · cases cut
      exact nil_prefix
    · obtain ⟨inner, innerCut, shape⟩ := Option.map_eq_some_iff.mp cut
      subst shape
      exact cons_prefix_cons.mpr ⟨rfl, inductionHypothesis innerCut⟩

/-! ## Rendering followed by parsing -/

theorem trim_eq_self
    (solid : ∀ c ∈ text, isWhitespace c = false) :
    trim text = text := by
  have keep
      (chars : List Char)
      (solid : ∀ c ∈ chars, isWhitespace c = false) :
      chars.dropWhile isWhitespace = chars := by
    cases chars with
    | nil =>
      rfl
    | cons c rest =>
      simp [solid c (by simp)]
  have reversed :
      ∀ c ∈ text.reverse, isWhitespace c = false := by
    intro c member
    exact solid c (mem_reverse.mp member)
  simp [trim, keep text solid, keep text.reverse reversed]

/-- Cutting at a separator that does not occur earlier. -/
theorem splitOnce_append
    {before : List Char}
    (absent : ∀ c ∈ before, c ≠ separator)
    (after : List Char) :
    splitOnce separator (before ++ separator :: after) =
      some (before, after) := by
  induction before with
  | nil =>
    simp [splitOnce]
  | cons c rest inductionHypothesis =>
    have headDiffers : c ≠ separator := absent c (by simp)
    have restAbsent : ∀ c ∈ rest, c ≠ separator :=
      fun c member => absent c (by simp [member])
    simp [splitOnce, headDiffers, inductionHypothesis restAbsent]

/-- A text fixes what stands before and after its last separator. -/
theorem append_separator_inj
    {first second firstTail secondTail : List Char}
    (firstAbsent : ∀ c ∈ firstTail, c ≠ separator)
    (secondAbsent : ∀ c ∈ secondTail, c ≠ separator)
    (same :
      first ++ separator :: firstTail = second ++ separator :: secondTail) :
    first = second ∧ firstTail = secondTail := by
  have cut (before : List Char) {tail : List Char}
      (absent : ∀ c ∈ tail, c ≠ separator) :
      splitOnce separator (before ++ separator :: tail).reverse =
        some (tail.reverse, before.reverse) := by
    rw [reverse_append, reverse_cons, append_assoc]
    exact splitOnce_append
      (fun c member => absent c (mem_reverse.mp member)) _
  have sameCut := cut first firstAbsent
  rw [same, cut second secondAbsent, Option.some.injEq, Prod.mk.injEq,
    reverse_inj, reverse_inj] at sameCut
  exact ⟨sameCut.2.symm, sameCut.1.symm⟩

theorem splitOnce_eq_none
    (absent : ∀ c ∈ text, c ≠ separator) :
    splitOnce separator text = none := by
  induction text with
  | nil =>
    rfl
  | cons c rest inductionHypothesis =>
    have headDiffers : c ≠ separator := absent c (by simp)
    have restAbsent : ∀ c ∈ rest, c ≠ separator :=
      fun c member => absent c (by simp [member])
    simp [splitOnce, headDiffers, inductionHypothesis restAbsent]

/-- A cut is made in the front part if that has the separator. -/
theorem splitOnce_append_of_mem
    {front : List Char}
    (present : separator ∈ front) :
    ∃ before after,
      ∀ rest,
        splitOnce separator (front ++ rest) =
          some (before, after ++ rest) := by
  obtain ⟨before, after, isFront, absent⟩ := eq_append_cons_of_mem present
  refine ⟨before, after, fun rest => ?_⟩
  rw [isFront, append_assoc, cons_append]
  refine splitOnce_append ?_ (after ++ rest)
  intro c member isSeparator
  exact absent (isSeparator ▸ member)

/-! ## Cutting at a pattern -/

section

variable (nonempty : pattern ≠ [])

include nonempty

theorem cutAt_pattern
    (after : List Char) :
    cutAt pattern (pattern ++ after) = some ([], after) := by
  obtain ⟨c, rest, isPattern⟩ := exists_cons_of_ne_nil nonempty
  rw [isPattern, cons_append, cutAt, if_pos (by simp)]
  simp

/-- A pattern that does not begin earlier is cut out. -/
theorem cutAt_append
    {before : List Char}
    (absent : ¬ pattern <:+: before ++ pattern.dropLast)
    (after : List Char) :
    cutAt pattern (before ++ (pattern ++ after)) = some (before, after) := by
  induction before with
  | nil =>
    exact cutAt_pattern nonempty after
  | cons c rest inductionHypothesis =>
    have restAbsent : ¬ pattern <:+: rest ++ pattern.dropLast :=
      fun found => absent (found.trans (suffix_cons _ _).isInfix)
    -- A pattern that begins here ends before the later one does.
    have notHere : ¬ pattern <+: c :: (rest ++ (pattern ++ after)) := by
      intro begins
      have shorter :
          c :: (rest ++ pattern.dropLast) <+:
            c :: (rest ++ (pattern ++ after)) := by
        refine cons_prefix_cons.mpr ⟨rfl, ?_⟩
        refine (prefix_append_right_inj rest).mpr ?_
        exact ( dropLast_prefix pattern).trans
          (prefix_append pattern after)
      have fits :
          pattern.length ≤ (c :: (rest ++ pattern.dropLast)).length := by
        simp only [length_cons, length_append, length_dropLast]
        omega
      exact absent (prefix_of_prefix_length_le begins shorter fits).isInfix
    rw [cons_append, cutAt, if_neg notHere, inductionHypothesis restAbsent]
    rfl

theorem cutAt_eq_none
    (absent : ¬ pattern <:+: text) :
    cutAt pattern text = none := by
  induction text with
  | nil =>
    rw [cutAt, if_neg nonempty]
  | cons c rest inductionHypothesis =>
    have restAbsent : ¬ pattern <:+: rest :=
      fun found => absent (found.trans (suffix_cons _ _).isInfix)
    rw [cutAt, if_neg fun begins => absent begins.isInfix,
      inductionHypothesis restAbsent]
    rfl

/-- The cut is made in the front part if that has the pattern. -/
theorem cutAt_append_of_infix
    {front : List Char}
    (present : pattern <:+: front) :
    ∃ before after,
      front = before ++ pattern ++ after ∧
        ∀ rest,
          cutAt pattern (front ++ rest) = some (before, after ++ rest) := by
  induction front with
  | nil =>
    exact absurd (infix_nil.mp present) nonempty
  | cons c tail inductionHypothesis =>
    by_cases begins : pattern <+: c :: tail
    · obtain ⟨after, isFront⟩ := begins
      refine ⟨[], after, by rw [nil_append, isFront], fun rest => ?_⟩
      rw [← isFront, append_assoc]
      exact cutAt_pattern nonempty (after ++ rest)
    · have inTail : pattern <:+: tail :=
        (infix_cons_iff.mp present).resolve_left begins
      obtain ⟨before, after, isTail, cuts⟩ := inductionHypothesis inTail
      refine ⟨c :: before, after, by simp [isTail], fun rest => ?_⟩
      have notHere : ¬ pattern <+: c :: (tail ++ rest) := by
        intro beginsLonger
        have fits : pattern.length ≤ (c :: tail).length :=
          inTail.length_le.trans (Nat.le_succ _)
        exact begins (prefix_of_prefix_length_le beginsLonger
          (prefix_append (c :: tail) rest) fits)
      rw [cons_append, cutAt, if_neg notHere, cuts rest]
      rfl

end

theorem le_ofDigitChars (digits : List Char) (value : Nat) :
    value ≤ Nat.ofDigitChars 10 digits value := by
  induction digits generalizing value with
  | nil =>
    simp
  | cons c rest inductionHypothesis =>
    rw [Nat.ofDigitChars_cons]
    have grown := inductionHypothesis (10 * value + (c.toNat - '0'.toNat))
    omega

/-- Digit accumulation succeeds when the number fits the bound. -/
theorem parseDigits_eq_ok
    {bound : Nat}
    {digits : List Char}
    (allDigits : ∀ c ∈ digits, c.isDigit = true)
    {value : Nat}
    (fits : Nat.ofDigitChars 10 digits value ≤ bound) :
    parseDigits bound value digits =
      .ok (Nat.ofDigitChars 10 digits value) := by
  induction digits generalizing value with
  | nil =>
    simp [parseDigits]
  | cons c rest inductionHypothesis =>
    rw [Nat.ofDigitChars_cons] at fits ⊢
    have nextFits :
        10 * value + (c.toNat - '0'.toNat) ≤ bound :=
      (le_ofDigitChars rest _).trans fits
    simp only [parseDigits, allDigits c (by simp), ↓reduceIte, nextFits]
    exact inductionHypothesis
      (fun c member => allDigits c (by simp [member])) fits

/-- Parsing the decimal rendering of a number gives the number back. -/
theorem parseUnsigned_repr
    {bound number : Nat}
    (fits : number ≤ bound) :
    parseUnsigned bound (Nat.repr number).toList = .ok number := by
  have digitsOnly :
      ∀ c ∈ Nat.toDigits 10 number, c.isDigit = true :=
    fun c member => Nat.isDigit_of_mem_toDigits (by decide) (by decide) member
  have parsed :
      parseDigits bound 0 (Nat.toDigits 10 number) = .ok number := by
    rw [parseDigits_eq_ok digitsOnly (by simpa using fits)]
    simp
  rw [Nat.toList_repr]
  unfold parseUnsigned
  split
  · rename_i isEmpty
    exact absurd isEmpty Nat.toDigits_ne_nil
  · rename_i isPlus
    have plusDigit := digitsOnly '+' (by simp [isPlus])
    simp at plusDigit
  · rename_i digits isPlus
    have plusDigit := digitsOnly '+' (by simp [isPlus])
    simp at plusDigit
  · exact parsed

end Mitiflow.Library.Text
