import Mitiflow.Attachment
import Mitiflow.StoreQuery

namespace Mitiflow

open Library List

/-!
# The text of selectors

A client writes the parameters of a query as `name=value` parts joined by
ampersands, and the store reads them back.  Values without white space and
separators are read back as they were written.
-/

/-- The text form of publisher identifiers, read back by the library parser. -/
structure UuidText where
  display : PublisherId → String
  parse : List Char → Except String PublisherId
  plain :
    ∀ publisher, ∀ c ∈ (display publisher).toList,
      Text.isWhitespace c = false ∧ c ≠ ';' ∧ c ≠ '&'
  parse_display :
    ∀ publisher, parse (display publisher).toList = .ok publisher

variable {c : Char} {value : List Char} {params : String}
  {parts : List (Parameter × List Char)}

theorem isWhitespace_eq_false
    (lower : 33 ≤ c.toNat)
    (upper : c.toNat ≤ 132) :
    Text.isWhitespace c = false := by
  simp only [Text.isWhitespace, Bool.or_eq_false_iff, Bool.and_eq_false_iff,
    decide_eq_false_iff_not, beq_eq_false_iff_ne]
  omega

theorem plain_of_isDigit
    (digit : c.isDigit = true) :
    Text.isWhitespace c = false ∧ c ≠ ';' ∧ c ≠ '&' := by
  refine ⟨?_, ?_, ?_⟩
  · simp only [Char.isDigit, Bool.and_eq_true, decide_eq_true_eq,
      UInt32.le_iff_toNat_le] at digit
    change 48 ≤ c.toNat ∧ c.toNat ≤ 57 at digit
    exact isWhitespace_eq_false (by omega) (by omega)
  · intro same
    rw [same] at digit
    cases digit
  · intro same
    rw [same] at digit
    cases digit

/-- Parameter names consist of underscores and lower case letters. -/
theorem Parameter.name_bounds (parameter : Parameter) :
    ∀ c ∈ parameter.name.toList, 95 ≤ c.toNat ∧ c.toNat ≤ 122 := by
  cases parameter <;> simp [Parameter.name]

theorem Parameter.name_plain
    (parameter : Parameter)
    (member : c ∈ parameter.name.toList) :
    Text.isWhitespace c = false ∧ c ≠ ';' ∧ c ≠ '&' ∧ c ≠ '=' := by
  obtain ⟨lower, upper⟩ := parameter.name_bounds c member
  have notBelow {other : Char} (below : other.toNat < 95) : c ≠ other := by
    intro same
    rw [same] at lower
    exact absurd lower (not_le.mpr below)
  exact ⟨isWhitespace_eq_false (by omega) (by omega),
    notBelow (by decide), notBelow (by decide), notBelow (by decide)⟩

theorem Parameter.ofName?_name (parameter : Parameter) :
    Parameter.ofName? parameter.name.toList = some parameter := by
  cases parameter <;> decide

/-- A parameter as it is written in a selector. -/
def Parameter.assign (parameter : Parameter) (value : List Char) :
    List Char :=
  parameter.name.toList ++ '=' :: value

theorem parsePart_assign
    (parameter : Parameter)
    (plain : ∀ c ∈ value, Text.isWhitespace c = false) :
    parsePart (parameter.assign value) = some (parameter, value) := by
  have namePlain : ∀ c ∈ parameter.name.toList, Text.isWhitespace c = false :=
    fun c member => (parameter.name_plain member).1
  have partPlain :
      ∀ c ∈ parameter.assign value, Text.isWhitespace c = false := by
    intro c member
    simp only [Parameter.assign, mem_append, mem_cons] at member
    rcases member with inName | isEquals | inValue
    · exact namePlain c inName
    · rw [isEquals]
      rfl
    · exact plain c inValue
  have cut :
      Text.splitOnce '=' (parameter.assign value) =
        some (parameter.name.toList, value) :=
    Text.splitOnce_append
      (fun c member => (parameter.name_plain member).2.2.2) value
  simp only [parsePart, Text.trim_eq_self partPlain, cut,
    Text.trim_eq_self namePlain, Text.trim_eq_self plain,
    Parameter.ofName?_name, Option.map_some]

theorem assign_noSeparator
    (parameter : Parameter)
    (plain : ∀ c ∈ value, c ≠ ';' ∧ c ≠ '&') :
    ∀ c ∈ parameter.assign value, (c = ';' || c = '&') = false := by
  intro c member
  simp only [Parameter.assign, mem_append, mem_cons] at member
  rcases member with inName | isEquals | inValue
  · obtain ⟨_, notSemicolon, notAmpersand, _⟩ := parameter.name_plain inName
    simp [notSemicolon, notAmpersand]
  · rw [isEquals]
    decide
  · obtain ⟨notSemicolon, notAmpersand⟩ := plain c inValue
    simp [notSemicolon, notAmpersand]

/-- Values that selectors carry unchanged. -/
def PlainText (value : List Char) : Prop :=
  ∀ c ∈ value, Text.isWhitespace c = false ∧ c ≠ ';' ∧ c ≠ '&'

theorem plainText_repr (number : Nat) : PlainText (Nat.repr number).toList :=
  fun _ member => plain_of_isDigit (isDigit_of_mem_repr member)

/-- Parameters joined by ampersands. -/
def joined : List (Parameter × List Char) → List Char
  | [] => []
  | [part] => part.1.assign part.2
  | part :: next :: rest =>
    part.1.assign part.2 ++ '&' :: joined (next :: rest)

/-- Joined parameters are read back. -/
theorem recognised_of_joined
    (isJoined : params.toList = joined parts)
    (plain : ∀ part ∈ parts, PlainText part.2) :
    recognised params = parts := by
  unfold recognised
  rw [isJoined]
  clear isJoined
  induction parts using joined.induct with
  | case1 =>
    rfl
  | case2 part =>
    have partPlain := plain part mem_cons_self
    rw [joined, splitOnP_eq_singleton
      (assign_noSeparator part.1 fun c member => (partPlain c member).2)]
    simp [parsePart_assign part.1 fun c member => (partPlain c member).1]
  | case3 part next rest inductionHypothesis =>
    have partPlain := plain part mem_cons_self
    rw [joined,
      splitOnP_append_cons_of_forall_mem
        (assign_noSeparator part.1 fun c member => (partPlain c member).2)
        '&' (by decide),
      filterMap_cons,
      parsePart_assign part.1 fun c member => (partPlain c member).1,
      inductionHypothesis fun other member =>
        plain other (mem_cons_of_mem _ member)]

theorem name_infix_joined
    {part : Parameter × List Char}
    (member : part ∈ parts) :
    part.1.name.toList <:+: joined parts := by
  have inAssign (other : Parameter × List Char) :
      other.1.name.toList <+: other.1.assign other.2 :=
    prefix_append _ _
  induction parts using joined.induct with
  | case1 =>
    cases member
  | case2 only =>
    rw [mem_singleton.mp member]
    exact (inAssign only).isInfix
  | case3 first next rest inductionHypothesis =>
    rw [joined]
    rcases mem_cons.mp member with isFirst | inRest
    · rw [isFirst]
      exact ((inAssign first).trans (prefix_append _ _)).isInfix
    · refine (inductionHypothesis inRest).trans ?_
      exact (suffix_cons _ _).isInfix.trans
        (suffix_append _ _).isInfix

theorem contains_of_joined
    (isJoined : params.toList = joined parts)
    {part : Parameter × List Char}
    (member : part ∈ parts) :
    Text.contains params.toList part.1.name.toList = true := by
  rw [isJoined]
  exact decide_eq_true (name_infix_joined member)

/-- A selector that names a publisher goes to the replay index. -/
theorem routesToReplay_of_publisherId
    (isJoined : params.toList = joined parts)
    (member : (.publisherId, value) ∈ parts) :
    routesToReplay params = true := by
  have contained := contains_of_joined isJoined member
  unfold routesToReplay
  rw [Parameter.name] at contained
  rw [contained, Bool.or_true]

theorem decimal_repr
    {bound number : Nat}
    (fits : number ≤ bound) :
    decimal bound (Nat.repr number).toList = .ok number := by
  simp only [decimal, Text.parseUnsigned_repr fits]

end Mitiflow
