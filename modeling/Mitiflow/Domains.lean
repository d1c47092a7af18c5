import Mitiflow.KeyExpressions
import Mitiflow.SampleCodec

namespace Mitiflow

open Library List

/-!
# Domains and namespaces

A domain is named by an identifier and owns a namespace, a root under which
the key prefixes of its topics are derived.  Identifiers, roots and suffixes
are validated separately.  This module proves when the topics of two domains
are kept apart, and which events published under a derived prefix are not
taken for internal ones.
-/

/-! ## Validation -/

inductive DomainError where
  | invalid (message : String)
  deriving Repr, DecidableEq

/-- Report the first check that is violated. -/
def firstViolation (checks : List (Bool × String)) :
    Except DomainError Unit :=
  match checks.find? (·.1) with
  | some (_, message) => .error (.invalid message)
  | none => .ok ()

def maxLen : Nat := 64

def validateDomainId (text : String) : Except DomainError Unit :=
  let chars := text.toList
  firstViolation
    [(chars.isEmpty, "domain id must not be empty"),
      (maxLen < chars.length,
        "domain id must not exceed " ++ toString maxLen ++ " characters"),
      (chars.contains '*', "domain id must not contain '*'"),
      (chars.contains '$', "domain id must not contain '$'"),
      (chars.head? = some '_', "domain id must not start with '_'"),
      (chars.any Text.isWhitespace,
        "domain id must not contain whitespace")]

def validateNamespaceRoot (text : String) : Except DomainError Unit :=
  let chars := text.toList
  firstViolation
    [(chars.isEmpty, "namespace root must not be empty"),
      (chars.head? = some '/',
        "namespace root must not have leading slash"),
      (chars.getLast? = some '/',
        "namespace root must not have trailing slash"),
      (Text.contains chars "//".toList,
        "namespace root must not contain empty segments"),
      (chars.contains '*', "namespace root must not contain '*'"),
      (chars.contains '$', "namespace root must not contain '$'"),
      (chars.head? = some '_', "namespace root must not start with '_'"),
      (chars.any Text.isWhitespace,
        "namespace root must not contain whitespace")]

def validateSuffix (text : String) : Except DomainError Unit :=
  let chars := text.toList
  firstViolation
    [(chars.isEmpty, "suffix must not be empty"),
      (Text.contains chars "//".toList,
        "suffix must not contain empty segments"),
      (chars.contains '*', "suffix must not contain '*'"),
      (chars.contains '$', "suffix must not contain '$'"),
      (chars.any Text.isWhitespace, "suffix must not contain whitespace")]

theorem firstViolation_eq_ok_iff {checks : List (Bool × String)} :
    firstViolation checks = .ok () ↔
      ∀ check ∈ checks, check.1 = false := by
  unfold firstViolation
  constructor
  · intro passed check isCheck
    split at passed
    · cases passed
    · rename_i none
      have notViolated := List.find?_eq_none.mp none check isCheck
      simpa using notViolated
  · intro passed
    have none : checks.find? (·.1) = none :=
      List.find?_eq_none.mpr fun check isCheck => by
        simp [passed check isCheck]
    rw [none]

/-- A text that can be part of a key expression, up to its ends. -/
structure Clean (chars : List Char) : Prop where
  noEmptySegment : ¬ "//".toList <:+: chars
  noStar : '*' ∉ chars
  noDollar : '$' ∉ chars
  noWhitespace : ∀ c ∈ chars, Text.isWhitespace c = false

theorem Clean.of_infix
    {part chars : List Char}
    (clean : Clean chars)
    (isPart : part <:+: chars) :
    Clean part where
  noEmptySegment := fun found => clean.noEmptySegment (found.trans isPart)
  noStar := fun isIn => clean.noStar (isPart.subset isIn)
  noDollar := fun isIn => clean.noDollar (isPart.subset isIn)
  noWhitespace := fun c isIn => clean.noWhitespace c (isPart.subset isIn)

theorem validateNamespaceRoot_eq_ok
    {text : String}
    (valid : validateNamespaceRoot text = .ok ()) :
    Clean text.toList ∧ text.toList.getLast? ≠ some '/' := by
  have passed := firstViolation_eq_ok_iff.mp valid
  simp only [forall_mem_cons, not_mem_nil, false_imp_iff,
    implies_true, and_true, decide_eq_false_iff_not, Text.contains,
    contains_eq_mem, any_eq_false, Bool.not_eq_true] at passed
  obtain ⟨_, _, notAtEnd, noEmpty, noStar, noDollar, _, noWhitespace⟩ := passed
  exact ⟨⟨noEmpty, noStar, noDollar, noWhitespace⟩, notAtEnd⟩

theorem validateSuffix_eq_ok_iff {text : String} :
    validateSuffix text = .ok () ↔
      text.toList ≠ [] ∧ Clean text.toList := by
  unfold validateSuffix
  rw [firstViolation_eq_ok_iff]
  simp only [forall_mem_cons, not_mem_nil, false_imp_iff,
    implies_true, and_true, decide_eq_false_iff_not, Text.contains,
    contains_eq_mem, any_eq_false, Bool.not_eq_true,
    isEmpty_eq_false_iff]
  constructor
  · rintro ⟨nonempty, noEmpty, noStar, noDollar, noWhitespace⟩
    exact ⟨nonempty, noEmpty, noStar, noDollar, noWhitespace⟩
  · rintro ⟨nonempty, noEmpty, noStar, noDollar, noWhitespace⟩
    exact ⟨nonempty, noEmpty, noStar, noDollar, noWhitespace⟩

/-- A validated domain identifier. -/
structure DomainId where
  text : String
  valid : validateDomainId text = .ok ()

def DomainId.new (text : String) : Except DomainError DomainId :=
  match passed : validateDomainId text with
  | .ok () => .ok ⟨text, passed⟩
  | .error failure => .error failure

/-- A validated root of key prefixes. -/
structure Namespace where
  root : String
  valid : validateNamespaceRoot root = .ok ()

variable {domainId : DomainId}

namespace Namespace

def fromRoot (root : String) : Except DomainError Namespace :=
  match passed : validateNamespaceRoot root with
  | .ok () => .ok ⟨root, passed⟩
  | .error failure => .error failure

/-- The default namespace of a domain, `mitiflow/{domain_id}`. -/
def new (domainId : DomainId) : Except DomainError Namespace :=
  fromRoot ("mitiflow/" ++ domainId.text)

/-- The key prefix of a topic. -/
def derive (space : Namespace) (suffix : String) :
    Except DomainError String :=
  match validateSuffix suffix with
  | .error failure => .error failure
  | .ok () =>
    if suffix.toList.head? = some '/' then
      .error (.invalid "suffix must not start with '/'")
    else if suffix.toList.getLast? = some '/' then
      .error (.invalid "suffix must not end with '/'")
    else
      .ok (space.root ++ "/" ++ suffix)

theorem new_eq_ok
    (valid : validateNamespaceRoot ("mitiflow/" ++ domainId.text) = .ok ()) :
    new domainId = .ok ⟨"mitiflow/" ++ domainId.text, valid⟩ := by
  unfold new fromRoot
  split
  · rfl
  · rename_i failure rejected
    cases valid.symm.trans rejected

theorem root_of_new
    {space : Namespace}
    (created : new domainId = .ok space) :
    space.root = "mitiflow/" ++ domainId.text := by
  unfold new fromRoot at created
  split at created
  · cases created
    rfl
  · cases created

/-- A derived prefix joins root and suffix; the suffix passed its checks. -/
theorem derive_eq_ok_iff {space : Namespace} {suffix keyPrefix : String} :
    space.derive suffix = .ok keyPrefix ↔
      validateSuffix suffix = .ok () ∧
        suffix.toList.head? ≠ some '/' ∧
        suffix.toList.getLast? ≠ some '/' ∧
        keyPrefix = space.root ++ "/" ++ suffix := by
  unfold derive
  cases passed : validateSuffix suffix with
  | error failure =>
    simp
  | ok _ =>
    simp only [true_and]
    split
    · simp_all
    · split
      · simp_all
      · simp_all [eq_comm]

end Namespace

/-! ## Separate domains -/

/-- Neither text is the other one or that one followed by a slash and more. -/
def Separate (first second : String) : Prop :=
  first ≠ second ∧
    ¬ first.toList ++ ['/'] <+: second.toList ∧
    ¬ second.toList ++ ['/'] <+: first.toList

/-- Separate texts are those whose chunks do not begin each other's. -/
theorem separate_iff {first second : String} :
    Separate first second ↔
      ¬ keyChunks first <+: keyChunks second ∧
        ¬ keyChunks second <+: keyChunks first := by
  simp only [Separate, keyChunks, chunks_prefix_iff, String.toList_inj]
  tauto

theorem keyChunks_derived
    {space : Namespace}
    (created : Namespace.new domainId = .ok space)
    {suffix keyPrefix : String}
    (derived : space.derive suffix = .ok keyPrefix) :
    keyChunks keyPrefix =
      "mitiflow".toList :: (keyChunks domainId.text ++ keyChunks suffix) := by
  obtain ⟨_, _, _, isPrefix⟩ := Namespace.derive_eq_ok_iff.mp derived
  have shape :
      keyPrefix.toList =
        "mitiflow".toList ++
          '/' :: (domainId.text.toList ++ '/' :: suffix.toList) := by
    rw [isPrefix, Namespace.root_of_new created]
    simp
  rw [keyChunks, shape, chunks_append, chunks_append]
  rfl

theorem separate_of_separate
    {first second : DomainId}
    {firstSpace secondSpace : Namespace}
    (firstCreated : Namespace.new first = .ok firstSpace)
    (secondCreated : Namespace.new second = .ok secondSpace)
    (separate : Separate first.text second.text)
    {firstSuffix secondSuffix firstPrefix secondPrefix : String}
    (firstDerived : firstSpace.derive firstSuffix = .ok firstPrefix)
    (secondDerived : secondSpace.derive secondSuffix = .ok secondPrefix) :
    Separate firstPrefix secondPrefix := by
  rw [separate_iff] at separate ⊢
  rw [keyChunks_derived firstCreated firstDerived,
    keyChunks_derived secondCreated secondDerived]
  -- Two beginnings of one list begin each other.
  have comparable
      {left right leftRest rightRest : List (List Char)}
      (begins :
        "mitiflow".toList :: (left ++ leftRest) <+:
          "mitiflow".toList :: (right ++ rightRest)) :
      left <+: right ∨ right <+: left := by
    have whole := (cons_prefix_cons.mp begins).2
    exact prefix_or_prefix_of_prefix
      ((prefix_append _ _).trans whole) (prefix_append _ _)
  constructor
  · intro begins
    rcases comparable begins with forth | back
    · exact separate.1 forth
    · exact separate.2 back
  · intro begins
    rcases comparable begins with back | forth
    · exact separate.2 back
    · exact separate.1 forth

/-- A clean text that does not end in a slash can be continued. -/
theorem Clean.append_topic
    {chars : List Char}
    (clean : Clean chars)
    (noSlashAtEnd : chars.getLast? ≠ some '/') :
    Clean (chars ++ ['/', 't']) where
  noEmptySegment := by
    intro found
    rw [append_cons, infix_concat_iff] at found
    rcases found with atEnd | found
    · have sameLast := atEnd.getLast (by simp)
      simp at sameLast
    · rcases infix_concat_iff.mp found with atEnd | inside
      · obtain ⟨front, isEnd⟩ := atEnd
        have isChars : chars = front ++ ['/'] := by
          have both := isEnd.symm.trans (append_cons front '/' ['/'])
          exact append_cancel_right both
        rw [isChars] at noSlashAtEnd
        exact noSlashAtEnd List.getLast?_concat
      · exact clean.noEmptySegment inside
  noStar := by simp [clean.noStar]
  noDollar := by simp [clean.noDollar]
  noWhitespace := by
    intro c isIn
    rcases mem_append.mp isIn with inChars | isLast
    · exact clean.noWhitespace c inChars
    · rcases mem_pair.mp isLast with isSlash | isLetter
      · rw [isSlash]
        rfl
      · rw [isLetter]
        rfl

/-- What follows a slash of a clean text that does not end with one. -/
theorem Clean.after_slash
    {front rest : List Char}
    (clean : Clean (front ++ '/' :: rest))
    (notAtEnd : (front ++ '/' :: rest).getLast? ≠ some '/') :
    Clean rest ∧ rest ≠ [] ∧ rest.head? ≠ some '/' ∧
      rest.getLast? ≠ some '/' := by
  have afterSlash : Clean ('/' :: rest) :=
    clean.of_infix (suffix_append _ _).isInfix
  have nonempty : rest ≠ [] := by
    rintro rfl
    exact notAtEnd List.getLast?_concat
  refine ⟨afterSlash.of_infix (suffix_cons _ _).isInfix, nonempty, ?_, ?_⟩
  · intro isSlash
    obtain ⟨tail, isRest⟩ := List.head?_eq_some_iff.mp isSlash
    refine afterSlash.noEmptySegment ?_
    rw [isRest]
    exact ⟨[], tail, rfl⟩
  · rwa [List.getLast?_append_of_ne_nil _ (cons_ne_nil _ _),
      List.getLast?_cons_of_ne_nil nonempty] at notAtEnd

/-- If one identifier continues another after a slash, a topic of one is a
topic of the other. -/
theorem exists_shared_prefix
    {first second : DomainId}
    {firstSpace secondSpace : Namespace}
    (firstCreated : Namespace.new first = .ok firstSpace)
    (secondCreated : Namespace.new second = .ok secondSpace)
    (continues : first.text.toList ++ ['/'] <+: second.text.toList) :
    ∃ suffix keyPrefix,
      firstSpace.derive suffix = .ok keyPrefix ∧
        secondSpace.derive "t" = .ok keyPrefix := by
  obtain ⟨rest, isSecond⟩ := continues
  have rootIs :
      secondSpace.root.toList =
        ("mitiflow/".toList ++ first.text.toList) ++ '/' :: rest := by
    rw [Namespace.root_of_new secondCreated, String.toList_append, ← isSecond]
    simp
  obtain ⟨rootClean, notAtEnd⟩ := validateNamespaceRoot_eq_ok secondSpace.valid
  rw [rootIs] at rootClean notAtEnd
  obtain ⟨restClean, nonempty, noSlashAtStart, noSlashAtEnd⟩ :=
    rootClean.after_slash notAtEnd
  let suffix := String.ofList (rest ++ ['/', 't'])
  have suffixIs : suffix.toList = rest ++ ['/', 't'] := String.toList_ofList
  refine ⟨suffix, firstSpace.root ++ "/" ++ suffix, ?_, ?_⟩
  · refine Namespace.derive_eq_ok_iff.mpr ⟨?_, ?_, ?_, rfl⟩
    · rw [validateSuffix_eq_ok_iff, suffixIs]
      exact ⟨by simp, restClean.append_topic noSlashAtEnd⟩
    · rw [suffixIs, List.head?_append_of_ne_nil _ nonempty]
      exact noSlashAtStart
    · rw [suffixIs, append_cons, List.getLast?_concat]
      decide
  · refine Namespace.derive_eq_ok_iff.mpr ⟨by decide, by decide, by decide, ?_⟩
    apply String.toList_inj.mp
    rw [String.toList_append, String.toList_append, String.toList_append,
      String.toList_append, suffixIs, rootIs,
      Namespace.root_of_new firstCreated]
    simp

/-- The topics of two domains are kept apart exactly if neither identifier
continues the other after a slash. -/
theorem domains_separate_iff
    {first second : DomainId}
    (distinct : first ≠ second)
    {firstSpace secondSpace : Namespace}
    (firstCreated : Namespace.new first = .ok firstSpace)
    (secondCreated : Namespace.new second = .ok secondSpace) :
    (∀ firstSuffix secondSuffix firstPrefix secondPrefix,
        firstSpace.derive firstSuffix = .ok firstPrefix →
          secondSpace.derive secondSuffix = .ok secondPrefix →
            firstPrefix ≠ secondPrefix ∧
              ¬ firstPrefix.toList ++ ['/'] <+: secondPrefix.toList ∧
              ¬ secondPrefix.toList ++ ['/'] <+: firstPrefix.toList) ↔
      ¬ first.text.toList ++ ['/'] <+: second.text.toList ∧
        ¬ second.text.toList ++ ['/'] <+: first.text.toList := by
  constructor
  · intro apart
    constructor
    · intro continues
      obtain ⟨suffix, keyPrefix, firstDerived, secondDerived⟩ :=
        exists_shared_prefix firstCreated secondCreated continues
      exact (apart _ _ _ _ firstDerived secondDerived).1 rfl
    · intro continues
      obtain ⟨suffix, keyPrefix, secondDerived, firstDerived⟩ :=
        exists_shared_prefix secondCreated firstCreated continues
      exact (apart _ _ _ _ firstDerived secondDerived).1 rfl
  · intro neither _ _ _ _ firstDerived secondDerived
    have differ : first.text ≠ second.text := by
      intro same
      cases first
      cases second
      exact distinct (by cases same; rfl)
    exact separate_of_separate firstCreated secondCreated ⟨differ, neither⟩
      firstDerived secondDerived

theorem domains_separate_staging :
    ∃ (production staging : DomainId) (first second : Namespace),
      Namespace.new production = .ok first ∧
        Namespace.new staging = .ok second ∧
        ∀ firstSuffix secondSuffix firstPrefix secondPrefix,
          first.derive firstSuffix = .ok firstPrefix →
            second.derive secondSuffix = .ok secondPrefix →
              firstPrefix ≠ secondPrefix := by
  have validProduction : validateDomainId "production" = .ok () := by
    decide +kernel
  have validStaging : validateDomainId "staging" = .ok () := by
    decide +kernel
  have productionRoot :
      validateNamespaceRoot ("mitiflow/" ++ "production") = .ok () := by
    decide +kernel
  have stagingRoot :
      validateNamespaceRoot ("mitiflow/" ++ "staging") = .ok () := by
    decide +kernel
  have neither :
      ¬ "production".toList ++ ['/'] <+: "staging".toList ∧
        ¬ "staging".toList ++ ['/'] <+: "production".toList := by
    decide
  have first := @Namespace.new_eq_ok ⟨_, validProduction⟩ productionRoot
  have second := @Namespace.new_eq_ok ⟨_, validStaging⟩ stagingRoot
  refine ⟨_, _, _, _, first, second, ?_⟩
  intro _ _ _ _ firstDerived secondDerived
  exact ((domains_separate_iff (by simp) first second).mpr neither _ _ _ _
    firstDerived secondDerived).1

def topicPrefix (domain suffix : String) : Except DomainError String := do
  let domainId ← DomainId.new domain
  let space ← Namespace.new domainId
  space.derive suffix

/-- Two domains share a topic. -/
theorem domains_share_topic :
    topicPrefix "a" "b/t" = .ok "mitiflow/a/b/t" ∧
      topicPrefix "a/b" "t" = .ok "mitiflow/a/b/t" := by
  decide +kernel

/-! ## Visible events -/

/-- No segment of a text begins with an underscore. -/
structure NoInternalSegment (chars : List Char) : Prop where
  atStart : ¬ ['_'] <+: chars
  later : ¬ "/_".toList <:+: chars

theorem NoInternalSegment.append
    {front back : List Char}
    (frontPlain : NoInternalSegment front)
    (backPlain : NoInternalSegment back) :
    NoInternalSegment (front ++ '/' :: back) where
  atStart := by
    cases front with
    | nil =>
      simp [cons_prefix_cons]
    | cons first rest =>
      grind [NoInternalSegment]
  later := by
    grind [frontPlain.later, backPlain.atStart, backPlain.later,
      pair_infix_append_iff]

theorem noInternalSegment_repr (number : Nat) :
    NoInternalSegment (Nat.repr number).toList where
  atStart := by
    intro begins
    have isDigit := isDigit_of_mem_repr (begins.subset mem_cons_self)
    cases isDigit
  later := by
    intro found
    exact ne_slash_of_mem_repr number '/' (found.subset mem_cons_self) rfl

theorem not_internal_append
    {keyPrefix rest : List Char}
    (external : ¬ "/_".toList <:+: keyPrefix)
    (plain : NoInternalSegment rest) :
    ¬ "/_".toList <:+: keyPrefix ++ '/' :: rest := by
  intro found
  rcases (pair_infix_append_iff (by decide) keyPrefix rest).mp found with
    inPrefix | atRest | inRest
  · exact external inPrefix
  · exact plain.atStart atRest
  · exact plain.later inRest

/-- Under a derived prefix without internal segments, both sides accept every
unkeyed event, and every keyed one whose key has no internal segment. -/
theorem published_visible
    {space : Namespace}
    {suffix keyPrefix : String}
    (_derived : space.derive suffix = .ok keyPrefix)
    (external : ¬ "/_".toList <:+: keyPrefix.toList)
    (put : Put)
    (timestamp : Option U64)
    (partition : U32)
    (seq : U64) :
    (put.keyExpr = eventKeyExpr keyPrefix partition seq →
        (EventStore.decodeSample (put.sample timestamp)).isSome ∧
          (EventSubscriber.decodeSample (put.sample timestamp)).isSome) ∧
      ∀ key,
        validateKey key = .ok () →
          NoInternalSegment key.toList →
            put.keyExpr = keyedEventKeyExpr keyPrefix partition key seq →
              (EventStore.decodeSample (put.sample timestamp)).isSome ∧
                (EventSubscriber.decodeSample
                  (put.sample timestamp)).isSome := by
  have plainP : NoInternalSegment ['p'] := ⟨by decide, by decide⟩
  have plainK : NoInternalSegment ['k'] := ⟨by decide, by decide⟩
  have plainPartition := noInternalSegment_repr partition.val
  have plainSeq := noInternalSegment_repr seq.val
  constructor
  · intro isEvent
    refine put.visible ?_ timestamp
    rw [isEvent, toList_eventKeyExpr]
    exact not_internal_append external
      (plainP.append (plainPartition.append plainSeq))
  · intro key _ plainKey isKeyed
    refine put.visible ?_ timestamp
    rw [isKeyed, toList_keyedEventKeyExpr]
    exact not_internal_append external
      (plainP.append (plainPartition.append
        (plainK.append (plainKey.append plainSeq))))

/-- An event with empty payload on a key expression. -/
def emptyPut (keyExpr : String) : Put where
  partition := 0
  keyExpr := keyExpr
  payload := []
  attachment :=
    { seq := 0
      pubId := 1
      eventId := 2
      timestamp := 0
      urgencyMs := noUrgency
      hlcPhysicalNs := none
      hlcLogical := none }

theorem published_visible_orders :
    (EventStore.decodeSample
        ((emptyPut (keyedEventKeyExpr "mitiflow/production/orders" 0
          "user/42" 0)).sample none)).isSome ∧
      (EventSubscriber.decodeSample
        ((emptyPut (keyedEventKeyExpr "mitiflow/production/orders" 0
          "user/42" 0)).sample none)).isSome := by
  have validRoot : validateNamespaceRoot "mitiflow/production" = .ok () := by
    decide +kernel
  have derived :
      Namespace.derive ⟨"mitiflow/production", validRoot⟩ "orders" =
        .ok "mitiflow/production/orders" :=
    Namespace.derive_eq_ok_iff.mpr
      ⟨by decide +kernel, by decide, by decide, rfl⟩
  exact (published_visible derived (by decide) _ none 0 0).2 "user/42"
    (by decide) ⟨by decide, by decide⟩ rfl

/-- A prefix derived with an internal suffix: its events are dropped. -/
theorem internal_suffix_dropped :
    topicPrefix "production" "_store" = .ok "mitiflow/production/_store" ∧
      EventStore.decodeSample
          ((emptyPut (eventKeyExpr "mitiflow/production/_store" 0
            0)).sample none) =
        none ∧
      EventSubscriber.decodeSample
          ((emptyPut (eventKeyExpr "mitiflow/production/_store" 0
            0)).sample none) =
        none := by
  decide +kernel

end Mitiflow
