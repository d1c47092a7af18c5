import Mitiflow.Attachment
import Mitiflow.Library.Chunks
import Mitiflow.StoreQuery

namespace Mitiflow

open Library List

/-!
# Reading key expressions back

The publisher writes partition and application key into a key expression, and
the stores and subscribers read them back by searching for the first `/p/` and
`/k/`.  A chunk `p` or `k` inside the configured prefix is found first.
-/

/-- The part of the configuration builder that is validated. -/
structure EventBusConfigBuilder where
  keyPrefix : String
  deriving Repr, DecidableEq

/-- The part of the configuration that key expressions are built from. -/
structure EventBusConfig where
  keyPrefix : String
  deriving Repr, DecidableEq

/-- Build the configuration, validating its fields. -/
def EventBusConfigBuilder.build (builder : EventBusConfigBuilder) :
    Except Error EventBusConfig :=
  if builder.keyPrefix.toList = [] then
    .error (.invalidConfig "key_prefix must not be empty")
  else
    .ok { keyPrefix := builder.keyPrefix }

def keyChunks (keyExpr : String) : List (List Char) :=
  chunks '/' keyExpr.toList

theorem keyChunks_ne_nil (keyExpr : String) : keyChunks keyExpr ≠ [] :=
  chunks_ne_nil keyExpr.toList

/-- The prefix has no chunk of its own that is found first. -/
def MarkerFree (marker : Char) (keyPrefix : String) : Prop :=
  [marker] ∉ (keyChunks keyPrefix).tail

theorem toList_eventKeyExpr
    (keyPrefix : String)
    (partition : U32)
    (seq : U64) :
    (eventKeyExpr keyPrefix partition seq).toList =
      keyPrefix.toList ++
        '/' :: (['p'] ++
          '/' :: ((Nat.repr partition.val).toList ++
            '/' :: (Nat.repr seq.val).toList)) := by
  simp [eventKeyExpr, toString]

theorem toList_keyedEventKeyExpr
    (keyPrefix : String)
    (partition : U32)
    (key : String)
    (seq : U64) :
    (keyedEventKeyExpr keyPrefix partition key seq).toList =
      keyPrefix.toList ++
        '/' :: (['p'] ++
          '/' :: ((Nat.repr partition.val).toList ++
            '/' :: (['k'] ++
              '/' :: (key.toList ++
                '/' :: (Nat.repr seq.val).toList)))) := by
  simp [keyedEventKeyExpr, toString]

theorem chunks_repr (number : Nat) :
    chunks '/' (Nat.repr number).toList = [(Nat.repr number).toList] :=
  chunks_eq_singleton fun isSlash => ne_slash_of_mem_repr number '/' isSlash rfl

variable {marker : Char} {keyPrefix key : String}

/-- A number is not a marker. -/
theorem repr_ne_singleton
    (notDigit : marker.isDigit = false)
    (number : Nat) :
    [marker] ≠ (Nat.repr number).toList := by
  intro same
  have isDigit := isDigit_of_mem_repr (same ▸ mem_singleton_self marker)
  rw [notDigit] at isDigit
  cases isDigit

theorem keyChunks_eventKeyExpr
    (keyPrefix : String)
    (partition : U32)
    (seq : U64) :
    keyChunks (eventKeyExpr keyPrefix partition seq) =
      keyChunks keyPrefix ++
        [['p'], (Nat.repr partition.val).toList,
          (Nat.repr seq.val).toList] := by
  rw [keyChunks, toList_eventKeyExpr, chunks_append, chunks_append,
    chunks_append, chunks_repr, chunks_repr]
  rfl

/-- The first `/m/` is the one after a text without a later chunk `m`. -/
theorem cutAt_marker
    (isMarker : marker ≠ '/')
    {front : List Char}
    (free : [marker] ∉ (chunks '/' front).tail)
    (rest : List Char) :
    Text.cutAt ['/', marker, '/'] (front ++ (['/', marker, '/'] ++ rest)) =
      some (front, rest) := by
  refine Text.cutAt_append (by simp) ?_ rest
  intro found
  have shape :
      front ++ ['/', marker, '/'].dropLast = (front ++ ['/']) ++ [marker] := by
    simp
  rw [shape, infix_concat_iff] at found
  rcases found with atEnd | earlier
  · have sameLast := atEnd.getLast (by simp)
    simp at sameLast
    exact isMarker sameLast.symm
  · refine free (mem_tail_chunks_iff.mpr ⟨?_, earlier⟩)
    simp [Ne.symm isMarker]

/-! ## Prefixes without markers -/

theorem extractPartition_of_markerFree
    {keyExpr : String}
    (free : MarkerFree 'p' keyPrefix)
    {partition : U32}
    {rest : List Char}
    (shape :
      keyExpr.toList =
        keyPrefix.toList ++
          '/' :: (['p'] ++
            '/' :: ((Nat.repr partition.val).toList ++ '/' :: rest))) :
    extractPartition keyExpr = partition := by
  have cut :
      Text.cutAt "/p/".toList keyExpr.toList =
        some (keyPrefix.toList,
          (Nat.repr partition.val).toList ++ '/' :: rest) := by
    rw [shape]
    exact cutAt_marker (by decide) free _
  exact extractPartition_of_cut partition cut (Or.inr ⟨rest, rfl⟩)

/-- What stands between the first `/k/` and the last slash is the key. -/
theorem extractKey_of_cut
    {keyExpr : String}
    {before key last : List Char}
    (cut :
      Text.cutAt "/k/".toList keyExpr.toList =
        some (before, key ++ '/' :: last))
    (noSlash : ∀ c ∈ last, c ≠ '/') :
    extractKey keyExpr =
      if key = [] then none else some (String.ofList key) := by
  have split :
      Text.splitOnce '/' (key ++ '/' :: last).reverse =
        some (last.reverse, key.reverse) := by
    rw [reverse_append, reverse_cons, append_assoc]
    refine Text.splitOnce_append ?_ key.reverse
    intro c isLast
    exact noSlash c (mem_reverse.mp isLast)
  simp only [extractKey, cut, split, reverse_eq_nil_iff,
    reverse_reverse]

theorem extractKey_keyedEventKeyExpr
    (free : MarkerFree 'k' keyPrefix)
    (nonempty : key.toList ≠ [])
    (partition : U32)
    (seq : U64) :
    extractKey (keyedEventKeyExpr keyPrefix partition key seq) =
      some key := by
  let front :=
    keyPrefix.toList ++ '/' :: (['p'] ++ '/' :: (Nat.repr partition.val).toList)
  have isFree : ['k'] ∉ (chunks '/' front).tail := by
    have isTail :
        (chunks '/' front).tail =
          (keyChunks keyPrefix).tail ++
            [['p'], (Nat.repr partition.val).toList] := by
      rw [chunks_append, chunks_append, chunks_repr,
        tail_append_of_ne_nil (chunks_ne_nil _)]
      rfl
    rw [isTail]
    have notNumber := @repr_ne_singleton 'k' (by decide) partition.val
    simp only [mem_append, mem_cons, not_mem_nil, or_false,
      not_or]
    exact ⟨free, by decide, notNumber⟩
  have cut :
      Text.cutAt "/k/".toList
          (keyedEventKeyExpr keyPrefix partition key seq).toList =
        some (front, key.toList ++ '/' :: (Nat.repr seq.val).toList) := by
    have shape :
        (keyedEventKeyExpr keyPrefix partition key seq).toList =
          front ++
            (['/', 'k', '/'] ++
              (key.toList ++ '/' :: (Nat.repr seq.val).toList)) := by
      rw [toList_keyedEventKeyExpr]
      simp [front]
    rw [shape]
    exact cutAt_marker (by decide) isFree _
  rw [extractKey_of_cut cut (ne_slash_of_mem_repr seq.val),
    if_neg nonempty, String.ofList_toList]

theorem extractKey_eventKeyExpr
    (free : MarkerFree 'k' keyPrefix)
    (partition : U32)
    (seq : U64) :
    extractKey (eventKeyExpr keyPrefix partition seq) = none := by
  have absent :
      ¬ "/k/".toList <:+: (eventKeyExpr keyPrefix partition seq).toList := by
    intro found
    have isChunk :
        ['k'] ∈ (keyChunks (eventKeyExpr keyPrefix partition seq)).tail :=
      mem_tail_chunks_iff.mpr
        ⟨by decide, found.trans (prefix_append _ _).isInfix⟩
    rw [keyChunks_eventKeyExpr,
      tail_append_of_ne_nil (keyChunks_ne_nil _)] at isChunk
    simp only [mem_append, mem_cons, not_mem_nil,
      or_false] at isChunk
    rcases isChunk with inPrefix | isP | isPartition | isSeq
    · exact free inPrefix
    · exact absurd isP (by decide)
    · exact repr_ne_singleton (by decide) _ isPartition
    · exact repr_ne_singleton (by decide) _ isSeq
  simp only [extractKey, Text.cutAt_eq_none (by decide) absent]

/-! ## Prefixes with a marker -/

/-- With a chunk of its own before it, the marker after the prefix is never
reached. -/
theorem cutAt_of_not_markerFree
    (shadowed : ¬ MarkerFree marker keyPrefix) :
    ∃ before after,
      ∀ rest,
        Text.cutAt ['/', marker, '/'] (keyPrefix.toList ++ '/' :: rest) =
          some (before, after ++ rest) := by
  have isChunk : [marker] ∈ (keyChunks keyPrefix).tail := not_not.mp shadowed
  obtain ⟨_, found⟩ := mem_tail_chunks_iff.mp isChunk
  obtain ⟨before, after, _, cuts⟩ := Text.cutAt_append_of_infix (by simp) found
  refine ⟨before, after, fun rest => ?_⟩
  rw [append_cons]
  exact cuts rest

/-- The partition is then read from the prefix, whatever was published. -/
theorem extractPartition_constant
    (shadowed : ¬ MarkerFree 'p' keyPrefix) :
    ∃ constant,
      ∀ partition seq,
        extractPartition (eventKeyExpr keyPrefix partition seq) =
          constant := by
  obtain ⟨before, after, cuts⟩ := cutAt_of_not_markerFree shadowed
  have slashed : '/' ∈ after ++ ['p', '/'] := by simp
  obtain ⟨digits, more, splits⟩ := Text.splitOnce_append_of_mem slashed
  refine ⟨extractPartition (eventKeyExpr keyPrefix 0 0), ?_⟩
  have cut (partition : U32) (seq : U64) :
      Text.cutAt "/p/".toList (eventKeyExpr keyPrefix partition seq).toList =
        some (before, (after ++ ['p', '/']) ++
          ((Nat.repr partition.val).toList ++
            '/' :: (Nat.repr seq.val).toList)) := by
    rw [toList_eventKeyExpr]
    simpa using cuts _
  intro partition seq
  simp only [extractPartition, cut, splits]

/-- An unkeyed event then seems to have a key. -/
theorem extractKey_ne_none
    (shadowed : ¬ MarkerFree 'k' keyPrefix)
    (partition : U32)
    (seq : U64) :
    extractKey (eventKeyExpr keyPrefix partition seq) ≠ none := by
  obtain ⟨before, after, cuts⟩ := cutAt_of_not_markerFree shadowed
  have cut :
      Text.cutAt "/k/".toList (eventKeyExpr keyPrefix partition seq).toList =
        some (before,
          (after ++ ['p', '/'] ++ (Nat.repr partition.val).toList) ++
            '/' :: (Nat.repr seq.val).toList) := by
    rw [toList_eventKeyExpr]
    simpa using cuts _
  rw [extractKey_of_cut cut (ne_slash_of_mem_repr seq.val), if_neg (by simp)]
  exact Option.some_ne_none _

theorem validateKey_nonempty
    (valid : validateKey key = .ok ()) :
    key.toList ≠ [] := by
  intro isEmpty
  rw [validateKey, if_pos isEmpty] at valid
  cases valid

/-- What `publish` and `publish_keyed` write is read back, for every event,
exactly if no chunk of the prefix after the first is `p` or `k`. -/
theorem keyExpr_roundTrip_iff
    {builder : EventBusConfigBuilder}
    {config : EventBusConfig}
    (_built : builder.build = .ok config) :
    (∀ partition seq key,
        validateKey key = .ok () →
          extractPartition (eventKeyExpr config.keyPrefix partition seq) =
              partition ∧
            extractPartition
                (keyedEventKeyExpr config.keyPrefix partition key seq) =
              partition ∧
            extractKey
                (keyedEventKeyExpr config.keyPrefix partition key seq) =
              some key ∧
            extractKey (eventKeyExpr config.keyPrefix partition seq) =
              none) ↔
      MarkerFree 'p' config.keyPrefix ∧ MarkerFree 'k' config.keyPrefix := by
  constructor
  · intro readBack
    constructor
    · by_contra shadowed
      obtain ⟨constant, always⟩ := extractPartition_constant shadowed
      have zero := (readBack 0 0 "x" (by decide)).1
      have one := (readBack 1 0 "x" (by decide)).1
      rw [always] at zero one
      exact absurd (zero.symm.trans one) (by decide)
    · by_contra shadowed
      exact extractKey_ne_none shadowed 0 0 (readBack 0 0 "x" (by decide)).2.2.2
  · rintro ⟨partitionFree, keyFree⟩ partition seq key valid
    refine ⟨?_, ?_, ?_, ?_⟩
    · exact extractPartition_of_markerFree partitionFree
        (toList_eventKeyExpr _ _ _)
    · exact extractPartition_of_markerFree partitionFree
        (toList_keyedEventKeyExpr _ _ _ _)
    · exact extractKey_keyedEventKeyExpr keyFree (validateKey_nonempty valid)
        partition seq
    · exact extractKey_eventKeyExpr keyFree partition seq

theorem keyExpr_roundTrip_events :
    extractKey (keyedEventKeyExpr "app/events" 3 "p/k/7" 5) =
      some "p/k/7" := by
  have free :
      MarkerFree 'p' "app/events" ∧ MarkerFree 'k' "app/events" := by
    unfold MarkerFree
    decide
  have readBack :=
    (@keyExpr_roundTrip_iff ⟨"app/events"⟩ ⟨"app/events"⟩ rfl).mpr free
  exact (readBack 3 5 "p/k/7" (by decide)).2.2.1

/-- A prefix with a chunk `p`: every event is read as one of partition zero. -/
theorem partition_lost_in_prefix :
    EventBusConfigBuilder.build ⟨"app/p/events"⟩ = .ok ⟨"app/p/events"⟩ ∧
      extractPartition (eventKeyExpr "app/p/events" 3 5) = 0 := by
  decide +kernel

/-! ## Key prefixes -/

/-- Whether a key expression includes a key: `*` stands for one chunk and `**`
for any number of chunks. -/
def keyExprIncludes (keyExpr key : String) : Bool :=
  matchesChunks ['*'] ['*', '*'] (keyChunks keyExpr) (keyChunks key)

end Mitiflow
