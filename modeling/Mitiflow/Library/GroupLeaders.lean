import Mathlib

namespace Mitiflow.Library

open List

/-!
# The leader of each group of a list

One pass over a list keeps, for every group, the item of highest rank met so
far; an item takes the lead only by ranking strictly higher, so the first one
wins a tie.  The module is independent of what is ranked and grouped.
-/

section Leaders

variable {Item Group Rank : Type} [DecidableEq Group] [LinearOrder Rank]

/-- Let one item compete for the lead of its group. -/
def challenge
    (group : Item → Option Group)
    (rank : Item → Rank)
    (leaders : Group → Option Item)
    (item : Item) : Group → Option Item :=
  match group item with
  | none => leaders
  | some name =>
    match leaders name with
    | none => Function.update leaders name (some item)
    | some current =>
      if rank current < rank item then
        Function.update leaders name (some item)
      else
        leaders

/-- The leader of each group after a whole pass. -/
def leaders
    (group : Item → Option Group)
    (rank : Item → Rank)
    (items : List Item) : Group → Option Item :=
  items.foldl (challenge group rank) (fun _ => none)

/-- An item whose lead no item of a list can take away or could have had. -/
def Prevails
    (group : Item → Option Group)
    (rank : Item → Rank)
    (items : List Item)
    (name : Group)
    (item : Item) : Prop :=
  group item = some name ∧
    ∃ before after,
      items = before ++ item :: after ∧
        (∀ earlier ∈ before,
          group earlier = some name → rank earlier < rank item) ∧
        ∀ later ∈ after, group later = some name → rank later ≤ rank item

variable {group : Item → Option Group} {rank : Item → Rank}

theorem leaders_snoc (items : List Item) (item : Item) :
    leaders group rank (items ++ [item]) =
      challenge group rank (leaders group rank items) item := by
  simp [leaders]

theorem challenge_apply
    (current : Group → Option Item)
    (item : Item)
    (name : Group) :
    challenge group rank current item name =
      if group item = some name ∧
          ∀ leader, current name = some leader → rank leader < rank item then
        some item
      else
        current name := by
  unfold challenge
  cases itemGroup : group item with
  | none =>
    simp
  | some itemName =>
    by_cases sameName : itemName = name
    · subst sameName
      cases led : current itemName with
      | none =>
        simp [led]
      | some leader =>
        by_cases higher : rank leader < rank item
        · simp [led, higher]
        · simp [led, higher]
    · have otherName : ¬some itemName = some name := by
        simpa using sameName
      cases led : current itemName with
      | none =>
        simp [led, otherName, Ne.symm sameName]
      | some leader =>
        by_cases higher : rank leader < rank item
        · simp [led, higher, otherName, Ne.symm sameName]
        · simp [led, higher, otherName]

variable {items : List Item} {name : Group}

theorem leaders_eq_none_iff :
    leaders group rank items name = none ↔
      ∀ item ∈ items, group item ≠ some name := by
  induction items using List.reverseRecOn with
  | nil =>
    simp [leaders]
  | append_singleton earlier item inductionHypothesis =>
    rw [leaders_snoc, challenge_apply]
    by_cases takes :
        group item = some name ∧
          ∀ leader, leaders group rank earlier name = some leader →
            rank leader < rank item
    · rw [if_pos takes]
      simp [takes.1]
    · rw [if_neg takes, inductionHypothesis]
      simp only [mem_append, mem_singleton]
      constructor
      · intro noneEarlier other member
        rcases member with isEarlier | isItem
        · exact noneEarlier other isEarlier
        · subst isItem
          intro inGroup
          have unled := inductionHypothesis.mpr noneEarlier
          exact takes ⟨inGroup, by simp [unled]⟩
      · intro noneAtAll other member
        exact noneAtAll other (Or.inl member)

/-- The pass ends with a leader of the group, if with any item. -/
theorem prevails_of_leaders
    {item : Item}
    (led : leaders group rank items name = some item) :
    Prevails group rank items name item := by
  induction items using List.reverseRecOn generalizing item with
  | nil =>
    cases led
  | append_singleton earlier last inductionHypothesis =>
    rw [leaders_snoc, challenge_apply] at led
    split at led
    · rename_i takes
      cases led
      refine ⟨takes.1, earlier, [], rfl, ?_, by simp⟩
      intro other member inGroup
      cases before : leaders group rank earlier name with
      | none =>
        exact absurd inGroup (leaders_eq_none_iff.mp before other member)
      | some leader =>
        obtain ⟨_, first, rest, shape, below, notAbove⟩ :=
          inductionHypothesis before
        have leaderBelow := takes.2 leader before
        rw [shape, mem_append, mem_cons] at member
        rcases member with inFirst | isLeader | inRest
        · exact (below other inFirst inGroup).trans leaderBelow
        · exact isLeader ▸ leaderBelow
        · exact (notAbove other inRest inGroup).trans_lt leaderBelow
    · rename_i keeps
      obtain ⟨inGroup, before, after, shape, below, notAbove⟩ :=
        inductionHypothesis led
      refine ⟨inGroup, before, after ++ [last], by simp [shape], below, ?_⟩
      intro other member otherGroup
      rcases mem_append.mp member with isAfter | isLast
      · exact notAbove other isAfter otherGroup
      · rw [mem_singleton.mp isLast] at otherGroup ⊢
        by_contra above
        apply keeps ⟨otherGroup, ?_⟩
        intro leader isLeader
        rw [led, Option.some.injEq] at isLeader
        exact isLeader ▸ not_le.mp above

/-- Leaders among images are the images of leaders. -/
theorem leaders_map
    {Source : Type}
    (convert : Source → Item)
    (sources : List Source)
    (name : Group) :
    leaders group rank (sources.map convert) name =
      (leaders (fun source => group (convert source))
        (fun source => rank (convert source)) sources name).map convert := by
  induction sources using List.reverseRecOn with
  | nil =>
    rfl
  | append_singleton earlier last inductionHypothesis =>
    rw [map_append, map_singleton, leaders_snoc, leaders_snoc,
      challenge_apply, challenge_apply, inductionHypothesis]
    cases leaders (fun source => group (convert source))
        (fun source => rank (convert source)) earlier name with
    | none =>
      by_cases inGroup : group (convert last) = some name
      · simp [inGroup]
      · simp [inGroup]
    | some leader =>
      by_cases takes :
          group (convert last) = some name ∧
            rank (convert leader) < rank (convert last)
      · simp [takes]
      · simp only [Option.map_some, Option.some.injEq, forall_eq',
          takes, ↓reduceIte]

/-- An item that precedes every other of its group in rank, then in key. -/
def Foremost
    {Key : Type} [LinearOrder Key]
    (group : Item → Option Group)
    (rank : Item → Rank)
    (key : Item → Key)
    (items : List Item)
    (name : Group)
    (item : Item) : Prop :=
  item ∈ items ∧
    group item = some name ∧
    ∀ other ∈ items,
      group other = some name →
      rank other < rank item ∨ rank other = rank item ∧ key item ≤ key other

/--
Over a list in strictly increasing key order, the leader is the item of
highest rank, and of smallest key among equals.
-/
theorem leaders_eq_some_iff
    {Key : Type} [LinearOrder Key]
    {key : Item → Key}
    (sorted : items.Pairwise (fun first second => key first < key second))
    {item : Item} :
    leaders group rank items name = some item ↔
      Foremost group rank key items name item := by
  have foremost_of_led {leader : Item}
      (led : leaders group rank items name = some leader) :
      Foremost group rank key items name leader := by
    obtain ⟨inGroup, before, after, shape, below, notAbove⟩ :=
      prevails_of_leaders led
    refine ⟨by simp [shape], inGroup, ?_⟩
    intro other member otherGroup
    rw [shape, mem_append, mem_cons] at member
    rcases member with isBefore | isLeader | isAfter
    · exact Or.inl (below other isBefore otherGroup)
    · subst isLeader
      exact Or.inr ⟨rfl, le_rfl⟩
    · rw [shape, pairwise_append, pairwise_cons] at sorted
      have keyBelow := sorted.2.1.1 other isAfter
      rcases (notAbove other isAfter otherGroup).lt_or_eq with lower | same
      · exact Or.inl lower
      · exact Or.inr ⟨same, keyBelow.le⟩
  constructor
  · exact foremost_of_led
  · rintro ⟨member, inGroup, precedes⟩
    obtain ⟨leader, led⟩ :
        ∃ leader, leaders group rank items name = some leader := by
      apply Option.ne_none_iff_exists'.mp
      intro unled
      exact leaders_eq_none_iff.mp unled item member inGroup
    obtain ⟨leaderMember, leaderGroup, leaderPrecedes⟩ := foremost_of_led led
    -- Each precedes the other, so rank and key agree; keys are distinct.
    have sameKey : key leader = key item := by
      rcases precedes leader leaderMember leaderGroup with
        lower | ⟨sameRank, itemFirst⟩
      · rcases leaderPrecedes item member inGroup with above | ⟨same, _⟩
        · exact absurd above lower.asymm
        · exact absurd same lower.ne'
      · rcases leaderPrecedes item member inGroup with above | ⟨_, leaderFirst⟩
        · exact absurd sameRank above.ne'
        · exact le_antisymm leaderFirst itemFirst
    have distinct : (items.map key).Nodup :=
      pairwise_map.mpr (sorted.imp ne_of_lt)
    rw [led, inj_on_of_nodup_map distinct leaderMember member sameKey]

end Leaders

end Mitiflow.Library
