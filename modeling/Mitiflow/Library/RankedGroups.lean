import Mathlib

namespace Mitiflow.Library

open List

/-!
# The best of each group first

Items are ranked by a score and belong to groups.  The first item of every
group comes before all others, and within both parts the order of the ranking
is kept.  The module says when the order depends on how equal scores are
ranked, and where an item stands in it.
-/

/-- A group that is seen already may be noted again. -/
theorem mem_note
    {Group : Type}
    {seen : List Group}
    {name : Group}
    (isSeen : name ∈ seen)
    (other : Group) :
    other ∈ seen ↔ other ∈ seen ++ [name] := by
  rw [mem_append, mem_singleton]
  constructor
  · exact Or.inl
  · rintro (before | rfl)
    · exact before
    · exact isSeen

section Groups

variable {Item Group : Type} [DecidableEq Group] (group : Item → Group)

/-- The items whose group does not occur before them. -/
def firsts (seen : List Group) : List Item → List Item
  | [] => []
  | item :: rest =>
    if group item ∈ seen then
      firsts seen rest
    else
      item :: firsts (seen ++ [group item]) rest

/-- The items whose group occurs before them. -/
def others (seen : List Group) : List Item → List Item
  | [] => []
  | item :: rest =>
    if group item ∈ seen then
      item :: others seen rest
    else
      others (seen ++ [group item]) rest

/-- The first item of each group, then the other items. -/
def groupOrder (items : List Item) : List Item :=
  firsts group [] items ++ others group [] items

variable {group}

section

variable
  {seen seen' : List Group}
  (same : ∀ name, name ∈ seen ↔ name ∈ seen')
  (items : List Item)

include same items

theorem firsts_congr :
    firsts group seen items = firsts group seen' items := by
  induction items generalizing seen seen' with
  | nil =>
    rfl
  | cons item rest inductionHypothesis =>
    grind [firsts]

theorem others_congr :
    others group seen items = others group seen' items := by
  induction items generalizing seen seen' with
  | nil =>
    rfl
  | cons item rest inductionHypothesis =>
    grind [others]

end

theorem firsts_append
    (seen : List Group)
    (front back : List Item) :
    firsts group seen (front ++ back) =
      firsts group seen front ++
        firsts group (seen ++ front.map group) back := by
  induction front generalizing seen with
  | nil =>
    simp [firsts]
  | cons item rest inductionHypothesis =>
    have regroup :
        seen ++ (item :: rest).map group =
          seen ++ [group item] ++ rest.map group := by
      simp
    rw [cons_append, firsts, firsts, regroup]
    split
    · rename_i isSeen
      rw [firsts_congr (mem_note isSeen), inductionHypothesis,
        firsts_congr (mem_note isSeen) rest]
    · rw [inductionHypothesis, cons_append]

theorem others_append
    (seen : List Group)
    (front back : List Item) :
    others group seen (front ++ back) =
      others group seen front ++
        others group (seen ++ front.map group) back := by
  induction front generalizing seen with
  | nil =>
    simp [others]
  | cons item rest inductionHypothesis =>
    have regroup :
        seen ++ (item :: rest).map group =
          seen ++ [group item] ++ rest.map group := by
      simp
    rw [cons_append, others, others, regroup]
    split
    · rename_i isSeen
      rw [others_congr (mem_note isSeen), inductionHypothesis,
        others_congr (mem_note isSeen) rest, cons_append]
    · rw [inductionHypothesis]

theorem perm_firsts_others (seen : List Group) (items : List Item) :
    (firsts group seen items ++ others group seen items).Perm items := by
  induction items generalizing seen with
  | nil =>
    rfl
  | cons item rest inductionHypothesis =>
    rw [firsts, others]
    split
    · exact perm_middle.trans ((inductionHypothesis seen).cons item)
    · exact (inductionHypothesis _).cons item

theorem perm_groupOrder (items : List Item) :
    (groupOrder group items).Perm items :=
  perm_firsts_others [] items

/-- Without new groups there are no first items. -/
theorem firsts_others_of_seen
    {seen : List Group}
    {items : List Item}
    (known : ∀ item ∈ items, group item ∈ seen) :
    firsts group seen items = [] ∧ others group seen items = items := by
  induction items with
  | nil =>
    exact ⟨rfl, rfl⟩
  | cons item rest inductionHypothesis =>
    grind [firsts, others]

/-- With one group the order is that of the list. -/
theorem groupOrder_of_one
    {items : List Item}
    {name : Group}
    (same : ∀ item ∈ items, group item = name) :
    groupOrder group items = items := by
  cases items with
  | nil =>
    rfl
  | cons item rest =>
    grind [groupOrder, firsts, others, firsts_others_of_seen]

theorem firsts_sublist (seen : List Group) (items : List Item) :
    (firsts group seen items).Sublist items := by
  induction items generalizing seen with
  | nil =>
    exact List.Sublist.refl _
  | cons item rest inductionHypothesis =>
    rw [firsts]
    split
    · exact (inductionHypothesis seen).cons item
    · exact (inductionHypothesis _).cons_cons item

theorem others_sublist (seen : List Group) (items : List Item) :
    (others group seen items).Sublist items := by
  induction items generalizing seen with
  | nil =>
    exact List.Sublist.refl _
  | cons item rest inductionHypothesis =>
    rw [others]
    split
    · exact (inductionHypothesis seen).cons_cons item
    · exact (inductionHypothesis _).cons item

/-- The first items have every new group once. -/
theorem map_firsts (seen : List Group) (items : List Item) :
    ((firsts group seen items).map group).Nodup ∧
      ∀ name,
        name ∈ (firsts group seen items).map group ↔
          name ∉ seen ∧ name ∈ items.map group := by
  induction items generalizing seen with
  | nil =>
    simp [firsts]
  | cons item rest inductionHypothesis =>
    rw [firsts]
    split
    · rename_i isSeen
      obtain ⟨distinct, members⟩ := inductionHypothesis seen
      refine ⟨distinct, fun name => ?_⟩
      rw [members, map_cons, mem_cons]
      refine and_congr_right fun unseen => ?_
      have differs : name ≠ group item := by
        rintro rfl
        exact unseen isSeen
      exact (or_iff_right differs).symm
    · rename_i unseen
      obtain ⟨distinct, members⟩ := inductionHypothesis (seen ++ [group item])
      rw [map_cons, nodup_cons]
      refine ⟨⟨?_, distinct⟩, fun name => ?_⟩
      · rw [members]
        simp
      · rw [mem_cons, members, map_cons, mem_cons]
        simp only [mem_append, mem_singleton]
        by_cases isGroup : name = group item
        · simp [isGroup, unseen]
        · simp [isGroup]

theorem length_firsts (items : List Item) :
    (firsts group [] items).length = (items.map group).dedup.length := by
  obtain ⟨distinct, members⟩ := @map_firsts _ _ _ group [] items
  rw [← length_map group]
  refine ((perm_ext_iff_of_nodup distinct
    (nodup_dedup _)).mpr fun name => ?_).length_eq
  rw [members, mem_dedup]
  simp

/-- The best items are of as many groups as there can be. -/
theorem length_dedup_take_groupOrder (count : Nat) (items : List Item) :
    (((groupOrder group items).take count).map group).dedup.length =
      min count (items.map group).dedup.length := by
  obtain ⟨distinct, members⟩ := @map_firsts _ _ _ group [] items
  rw [groupOrder, take_append, map_append, ← length_firsts]
  rcases le_or_gt count (firsts group [] items).length with few | many
  · rw [Nat.sub_eq_zero_of_le few, take_zero, map_nil,
      append_nil, map_take,
      (distinct.sublist (take_sublist _ _)).dedup, length_take,
      length_map]
  · rw [take_of_length_le many.le, length_firsts, Nat.min_eq_right]
    · refine ((perm_ext_iff_of_nodup (nodup_dedup _)
        (nodup_dedup _)).mpr fun name => ?_).length_eq
      rw [mem_dedup, mem_dedup, mem_append, members]
      constructor
      · rintro (⟨_, isGroup⟩ | isGroup)
        · exact isGroup
        · exact ((take_sublist _ _).trans
            (others_sublist [] items)).map group |>.subset isGroup
      · exact fun isGroup => Or.inl ⟨not_mem_nil, isGroup⟩
    · rw [← length_firsts]
      exact many.le

/-- If a group is seen beforehand, its first item moves among the others. -/
theorem noted_cases
    (seen : List Group)
    (name : Group)
    (items : List Item) :
    (firsts group (seen ++ [name]) items = firsts group seen items ∧
        others group (seen ++ [name]) items = others group seen items) ∨
      ∃ front item back early late,
        firsts group seen items = front ++ item :: back ∧
          firsts group (seen ++ [name]) items = front ++ back ∧
          others group seen items = early ++ late ∧
          others group (seen ++ [name]) items = early ++ item :: late := by
  induction items generalizing seen with
  | nil =>
    exact Or.inl ⟨rfl, rfl⟩
  | cons item rest inductionHypothesis =>
    simp only [firsts, others, mem_append, mem_singleton]
    by_cases isSeen : group item ∈ seen
    · simp only [isSeen, true_or, if_true]
      rcases inductionHypothesis seen with ⟨sameFirsts, sameOthers⟩ | moved
      · exact Or.inl ⟨sameFirsts, by rw [sameOthers]⟩
      · obtain ⟨front, first, back, early, late, old, new, oldRest,
          newRest⟩ := moved
        exact Or.inr ⟨front, first, back, item :: early, late, old, new,
          by rw [oldRest, cons_append],
          by rw [newRest, cons_append]⟩
    · by_cases isName : group item = name
      · -- This item was the first of the group.
        subst isName
        simp only [isSeen, false_or, if_true, if_false]
        exact Or.inr ⟨[], item, _, [], _, rfl, rfl, rfl, rfl⟩
      · simp only [isSeen, isName, or_self, if_false]
        have swap : ∀ other,
            other ∈ seen ++ [name] ++ [group item] ↔
              other ∈ seen ++ [group item] ++ [name] := by
          intro other
          simp only [mem_append]
          tauto
        rw [firsts_congr swap, others_congr swap]
        rcases inductionHypothesis (seen ++ [group item]) with
          ⟨sameFirsts, sameOthers⟩ | moved
        · exact Or.inl ⟨by rw [sameFirsts], sameOthers⟩
        · obtain ⟨front, first, back, early, late, old, new, oldRest,
            newRest⟩ := moved
          exact Or.inr ⟨item :: front, first, back, early, late,
            by rw [old, cons_append], by rw [new, cons_append],
            oldRest, newRest⟩

theorem mem_take_append
    {front back : List Item}
    {count : Nat}
    {item : Item} :
    item ∈ (front ++ back).take count ↔
      item ∈ front.take count ∨ item ∈ back.take (count - front.length) := by
  rw [take_append, mem_append]

theorem mem_take_cons
    {first : Item}
    {rest : List Item}
    {count : Nat}
    {item : Item} :
    item ∈ (first :: rest).take count ↔
      0 < count ∧ (item = first ∨ item ∈ rest.take (count - 1)) := by
  cases count with
  | zero => simp
  | succ count => simp

theorem mem_take_of_le
    {items : List Item}
    {fewer count : Nat}
    (le : fewer ≤ count)
    {item : Item}
    (isTaken : item ∈ items.take fewer) :
    item ∈ items.take count :=
  (take_sublist_take_left le).subset isTaken

theorem mem_take_of_insert
    {front back : List Item}
    {added item : Item}
    {count : Nat}
    (isTaken : item ∈ (front ++ added :: back).take count) :
    item = added ∨ item ∈ (front ++ back).take count := by
  rw [mem_take_append, mem_take_cons] at isTaken
  rw [mem_take_append]
  rcases isTaken with inFront | ⟨_, isAdded | inBack⟩
  · exact Or.inr (Or.inl inFront)
  · exact Or.inl isAdded
  · exact Or.inr (Or.inr (mem_take_of_le (Nat.sub_le _ _) inBack))

/-- An item moves back over others while another is added before them. -/
theorem mem_take_of_move
    {front before middle back : List Item}
    {added moved item : Item}
    {count : Nat}
    (isTaken :
      item ∈
        (front ++ added :: (before ++ (middle ++ moved :: back))).take
          count) :
    item = added ∨
      item ∈ (front ++ (before ++ moved :: (middle ++ back))).take count := by
  simp only [mem_take_append, mem_take_cons] at isTaken ⊢
  rcases isTaken with inFront |
    ⟨room, isAdded | inBefore | inMiddle | ⟨roomLeft, isMoved | inBack⟩⟩
  · exact Or.inr (Or.inl inFront)
  · exact Or.inl isAdded
  · exact Or.inr (Or.inr (Or.inl (mem_take_of_le (Nat.sub_le _ _) inBefore)))
  · have roomLeft : 0 < count - front.length - before.length := by
      by_contra noRoom
      have none : count - front.length - 1 - before.length = 0 := by omega
      rw [none, take_zero] at inMiddle
      exact not_mem_nil inMiddle
    refine Or.inr (Or.inr (Or.inr ⟨roomLeft, Or.inr (Or.inl ?_)⟩))
    exact mem_take_of_le (by omega) inMiddle
  · exact Or.inr (Or.inr (Or.inr ⟨by omega, Or.inl isMoved⟩))
  · refine Or.inr (Or.inr (Or.inr ⟨by omega, Or.inr (Or.inr ?_)⟩))
    exact mem_take_of_le (by omega) inBack

/-- An added item pushes out others and lets no other item in. -/
theorem mem_take_groupOrder_of_insert
    {front back : List Item}
    {added item : Item}
    {count : Nat}
    (isTaken :
      item ∈ (groupOrder group (front ++ added :: back)).take count) :
    item = added ∨
      item ∈ (groupOrder group (front ++ back)).take count := by
  unfold groupOrder at isTaken ⊢
  rw [firsts_append, others_append] at isTaken ⊢
  rw [firsts, others] at isTaken
  split at isTaken
  · rw [← append_assoc] at isTaken ⊢
    exact mem_take_of_insert isTaken
  · rcases @noted_cases _ _ _ group ([] ++ front.map group) (group added)
      back with ⟨sameFirsts, sameOthers⟩ | moved
    · rw [sameFirsts, sameOthers, append_assoc,
        cons_append] at isTaken
      rw [append_assoc]
      exact mem_take_of_insert isTaken
    · -- The former first of the group is now among the others.
      obtain ⟨before, first, after, early, late, old, new, oldRest,
        newRest⟩ := moved
      rw [new, newRest] at isTaken
      rw [old, oldRest]
      simp only [append_assoc, cons_append] at isTaken ⊢
      rw [← append_assoc _ early, ← append_assoc after] at isTaken
      rw [← append_assoc _ early, ← append_assoc after]
      exact mem_take_of_move isTaken

end Groups

/-! ## Equal scores -/

section Ties

variable {Item Score : Type} [LinearOrder Score] (score : Item → Score)

/-- The scores never rise. -/
def Ranked (items : List Item) : Prop :=
  items.Pairwise fun first second => score second ≤ score first

/-- The items that score higher. -/
def higher (level : Score) (items : List Item) : List Item :=
  items.filter fun item => level < score item

variable {score}

theorem Ranked.swap
    {front back : List Item}
    {first second : Item}
    (ranked : Ranked score (front ++ first :: second :: back))
    (tied : score first = score second) :
    Ranked score (front ++ second :: first :: back) := by
  unfold Ranked at ranked ⊢
  rw [pairwise_append, pairwise_cons, pairwise_cons] at ranked ⊢
  obtain ⟨isFront, ⟨belowFirst, belowSecond, isBack⟩, across⟩ := ranked
  refine ⟨isFront, ⟨?_, ?_, isBack⟩, ?_⟩
  · intro other isOther
    rcases mem_cons.mp isOther with rfl | inBack
    · exact tied.le
    · exact belowSecond other inBack
  · intro other inBack
    exact belowFirst other (mem_cons_of_mem _ inBack)
  · intro other inFront last isLast
    refine across other inFront last ?_
    simp only [mem_cons] at isLast ⊢
    tauto

/-- An item moves to the front past items of the same score. -/
theorem move_to_front
    {Result : Type}
    (result : List Item → Result)
    {items front back : List Item}
    {item : Item}
    (exchange :
      ∀ front first second back,
        (front ++ first :: second :: back).Perm items →
        Ranked score (front ++ first :: second :: back) →
        score first = score second →
          result (front ++ first :: second :: back) =
            result (front ++ second :: first :: back))
    (same : (front ++ item :: back).Perm items)
    (ranked : Ranked score (front ++ item :: back))
    (tied : ∀ other ∈ front, score other = score item) :
    result (front ++ item :: back) = result (item :: (front ++ back)) := by
  induction front using List.reverseRecOn generalizing back with
  | nil =>
    rfl
  | append_singleton earlier last inductionHypothesis =>
    have lastTied : score last = score item :=
      tied last (mem_append_right _ mem_cons_self)
    rw [← append_cons] at same ranked
    rw [← append_cons, exchange earlier last item back same ranked
      lastTied]
    rw [inductionHypothesis, ← append_cons]
    · exact ((List.Perm.swap _ _ _).append_left earlier).trans same
    · exact ranked.swap lastTied
    · intro other isEarlier
      exact tied other (mem_append_left _ isEarlier)

/--
Two rankings of the same items differ by exchanges of neighbours with equal
scores: what no such exchange changes is the same for both.
-/
theorem eq_of_ranked_perm
    {Result : Type}
    (result : List Item → Result)
    {items items' : List Item}
    (same : items.Perm items')
    (ranked : Ranked score items)
    (ranked' : Ranked score items')
    (exchange :
      ∀ front first second back,
        (front ++ first :: second :: back).Perm items →
        Ranked score (front ++ first :: second :: back) →
        score first = score second →
          result (front ++ first :: second :: back) =
            result (front ++ second :: first :: back)) :
    result items = result items' := by
  induction items generalizing items' result with
  | nil =>
    rw [same.nil_eq]
  | cons item rest inductionHypothesis =>
    obtain ⟨front, back, rfl⟩ :=
      append_of_mem (same.mem_iff.mp mem_cons_self)
    have sameRest : rest.Perm (front ++ back) :=
      (same.trans perm_middle).cons_inv
    have belowItem := (pairwise_cons.mp ranked).1
    have tied : ∀ other ∈ front, score other = score item := by
      grind [Ranked]
    rw [move_to_front result exchange same.symm ranked' tied]
    refine inductionHypothesis (fun others => result (item :: others))
      sameRest (pairwise_cons.mp ranked).2 ?_ ?_
    · exact ranked'.sublist
        ((List.Sublist.refl front).append (sublist_cons_self _ _))
    · intro earlier first second later isRest isRanked isTied
      refine exchange (item :: earlier) first second later
        (isRest.cons item) (pairwise_cons.mpr ⟨?_, isRanked⟩) isTied
      intro other isOther
      exact belowItem other (isRest.mem_iff.mp isOther)

/-- What scores higher than an item of a ranking comes before it. -/
theorem higher_of_ranked
    {front back : List Item}
    {item : Item}
    (ranked : Ranked score (front ++ item :: back)) :
    higher score (score item) (front ++ item :: back) =
      higher score (score item) front := by
  have noneBehind :
      (item :: back).filter (fun other => score item < score other) = [] := by
    rw [filter_eq_nil_iff]
    intro other isBehind
    have notAbove : score other ≤ score item := by
      rcases mem_cons.mp isBehind with rfl | inBack
      · exact le_refl _
      · exact (pairwise_cons.mp
          (pairwise_append.mp ranked).2.1).1 other inBack
    simpa using notAbove
  rw [higher, filter_append, noneBehind, append_nil, higher]

/-- Two items of the same score can be ranked next to each other, right after
those that score higher. -/
theorem exists_adjacent
    {items : List Item}
    (ranked : Ranked score items)
    {first second : Item}
    (isFirst : first ∈ items)
    (isSecond : second ∈ items)
    (differ : first ≠ second)
    (tied : score first = score second) :
    ∃ rest,
      (higher score (score first) items ++ first :: second :: rest).Perm
          items ∧
        Ranked score
          (higher score (score first) items ++ first :: second :: rest) := by
  let below := items.filter fun item => !decide (score first < score item)
  have firstBelow : first ∈ below := mem_filter.mpr ⟨isFirst, by simp⟩
  have secondBelow : second ∈ below :=
    mem_filter.mpr ⟨isSecond, by simp [tied]⟩
  obtain ⟨front, back, isBelow⟩ := append_of_mem firstBelow
  have secondOther : second ∈ front ++ back := by
    rw [isBelow] at secondBelow
    simpa [differ.symm] using secondBelow
  obtain ⟨earlier, later, isOthers⟩ := append_of_mem secondOther
  have isPerm : (first :: second :: (earlier ++ later)).Perm below := by
    rw [isBelow]
    refine (List.Perm.cons first ?_).trans perm_middle.symm
    rw [isOthers]
    exact perm_middle.symm
  refine ⟨earlier ++ later, ?_, ?_⟩
  · exact (isPerm.append_left _).trans (filter_append_perm _ items)
  · have belowRanked : Ranked score below := ranked.filter _
    have atMost : ∀ item ∈ below, score item ≤ score first := by
      intro item isItem
      simpa using (mem_filter.mp isItem).2
    refine pairwise_append.mpr ⟨ranked.filter _, ?_, ?_⟩
    · refine pairwise_cons.mpr ⟨?_, pairwise_cons.mpr ⟨?_, ?_⟩⟩
      · intro item isItem
        exact atMost item (isPerm.mem_iff.mp (mem_cons_of_mem _ isItem))
      · grind
      · refine belowRanked.sublist ?_
        have removeSecond : (earlier ++ later).Sublist (front ++ back) := by
          rw [isOthers]
          exact (List.Sublist.refl earlier).append (sublist_cons_self _ _)
        rw [isBelow]
        exact removeSecond.trans
          ((List.Sublist.refl front).append (sublist_cons_self _ _))
    · grind [higher]

end Ties

/-! ## Whether the order depends on how ties are ranked -/

section Tops

variable {Item Group Score : Type} [LinearOrder Score]
  (score : Item → Score)
  (group : Item → Group)

/-- No item of its group scores higher. -/
def Tops (items : List Item) (item : Item) : Prop :=
  ∀ other ∈ items, group other = group item → score other ≤ score item

instance Tops.decidable
    [DecidableEq Group]
    (items : List Item)
    (item : Item) :
    Decidable (Tops score group items item) :=
  inferInstanceAs (Decidable (∀ other ∈ items,
    group other = group item → score other ≤ score item))

variable {score group}

theorem tops_perm
    {items items' : List Item}
    (same : items.Perm items')
    (item : Item) :
    Tops score group items item ↔ Tops score group items' item :=
  forall_congr' fun _ => imp_congr_left same.mem_iff

/-- An item leads if its group is new after some items and no item behind them
is better. -/
theorem tops_of_new
    {items front back : List Item}
    (isItems : (front ++ back).Perm items)
    {item : Item}
    (isNew : group item ∉ front.map group)
    (notBetter : ∀ other ∈ back, score other ≤ score item) :
    Tops score group items item := by
  intro other isOther sameGroup
  rcases mem_append.mp (isItems.mem_iff.mpr isOther) with
    isFront | isBehind
  · exact absurd (mem_map.mpr ⟨other, isFront, sameGroup⟩) isNew
  · exact notBetter other isBehind

/-- No better item is of the group of a leader. -/
theorem group_notMem_higher
    {items : List Item}
    {leader : Item}
    (leads : Tops score group items leader) :
    group leader ∉ (higher score (score leader) items).map group := by
  intro isSeen
  obtain ⟨other, isHigher, sameGroup⟩ := mem_map.mp isSeen
  obtain ⟨isOther, isAbove⟩ := mem_filter.mp isHigher
  exact absurd (of_decide_eq_true isAbove)
    (not_lt.mpr (leads other isOther sameGroup))

end Tops

section TieOrder

variable {Item Group Score : Type} [DecidableEq Group] [LinearOrder Score]
  {score : Item → Score}
  {group : Item → Group}

/-- Neighbours may change places where the beginning of the order does not
reach them. -/
theorem take_groupOrder_swap
    {count : Nat}
    {front back : List Item}
    {first second : Item}
    (behind : count ≤ front.length)
    (notLeading :
      group first ∉ front.map group → group second ∉ front.map group →
        count ≤ (firsts group [] front).length) :
    (groupOrder group (front ++ first :: second :: back)).take count =
      (groupOrder group (front ++ second :: first :: back)).take count := by
  have isLength := (@perm_groupOrder _ _ _ group front).length_eq
  simp only [groupOrder, length_append] at isLength
  simp only [groupOrder, firsts_append, others_append, nil_append]
  by_cases firstSeen : group first ∈ front.map group
  · by_cases secondSeen : group second ∈ front.map group
    · have inside :
          count ≤
            (firsts group [] front ++
              firsts group (front.map group) back ++
                others group [] front).length := by
        simp only [length_append]
        omega
      simp only [firsts, others, firstSeen, secondSeen, ↓reduceIte,
        ← append_assoc]
      rw [take_append_of_le_length inside,
        take_append_of_le_length inside]
    · simp [firsts, others, firstSeen, secondSeen]
  · by_cases secondSeen : group second ∈ front.map group
    · simp [firsts, others, firstSeen, secondSeen]
    · have short := notLeading firstSeen secondSeen
      rw [append_assoc, append_assoc,
        take_append_of_le_length short,
        take_append_of_le_length short]

/-- The condition on ties under which the first items are always the same. -/
def TiesBehind
    (score : Item → Score)
    (group : Item → Group)
    (count : Nat)
    (items : List Item)
    (first second : Item) : Prop :=
  score first = score second →
    count ≤ (higher score (score first) items).length ∧
      (Tops score group items first → Tops score group items second →
        count ≤
          ((higher score (score first) items).map group).dedup.length)

instance TiesBehind.decidable
    (count : Nat)
    (items : List Item)
    (first second : Item) :
    Decidable (TiesBehind score group count items first second) :=
  inferInstanceAs (Decidable (_ → _ ∧ (_ → _ → _)))

theorem tiesBehind_perm
    {count : Nat}
    {items items' : List Item}
    (same : items.Perm items')
    (first second : Item) :
    TiesBehind score group count items first second ↔
      TiesBehind score group count items' first second := by
  have sameAbove :
      (higher score (score first) items).Perm
        (higher score (score first) items') :=
    same.filter _
  unfold TiesBehind
  rw [tops_perm same, tops_perm same, sameAbove.length_eq,
    (sameAbove.map group).dedup.length_eq]

theorem take_eq_of_tiesBehind
    {count : Nat}
    {items items' : List Item}
    (ranked : Ranked score items)
    (ranked' : Ranked score items')
    (same : items.Perm items')
    (behind :
      ∀ first ∈ items, ∀ second ∈ items,
        first ≠ second → TiesBehind score group count items first second) :
    items.take count = items'.take count ∧
      (groupOrder group items).take count =
        (groupOrder group items').take count := by
  refine Prod.ext_iff.mp (eq_of_ranked_perm
    (fun order => (order.take count, (groupOrder group order).take count))
    same ranked ranked' ?_)
  intro front first second back isItems isRanked tied
  by_cases isSame : first = second
  · rw [isSame]
  · obtain ⟨nodesAbove, groupsAbove⟩ :=
      behind first (isItems.mem_iff.mp (by simp)) second
        (isItems.mem_iff.mp (by simp)) isSame tied
    have isAbove :
        (higher score (score first) items).Perm
          (higher score (score first) front) := by
      rw [← higher_of_ranked isRanked]
      exact (isItems.filter _).symm
    have inFront : count ≤ front.length := by
      rw [isAbove.length_eq] at nodesAbove
      exact nodesAbove.trans (length_filter_le _ _)
    refine Prod.ext ?_ ?_
    · rw [take_append_of_le_length inFront,
        take_append_of_le_length inFront]
    · refine take_groupOrder_swap inFront fun firstNew secondNew => ?_
      obtain ⟨-, rankedBack, -⟩ := pairwise_append.mp isRanked
      have inBack : ∀ other ∈ first :: second :: back,
          score other ≤ score first :=
        forall_mem_cons.mpr ⟨le_rfl, (pairwise_cons.mp rankedBack).1⟩
      refine (groupsAbove (tops_of_new isItems firstNew inBack)
        (tops_of_new isItems secondNew (tied ▸ inBack))).trans ?_
      rw [length_firsts]
      refine ((nodup_dedup _).subperm ?_).length_le
      intro name isName
      rw [mem_dedup] at isName ⊢
      have inAbove := (isAbove.map group).mem_iff.mp isName
      exact (filter_sublist.map group).subset inAbove

/-- A leader comes right after the leaders before it. -/
theorem exists_groupOrder
    {front back : List Item}
    {item : Item}
    (isNew : group item ∉ front.map group) :
    ∃ later,
      groupOrder group (front ++ item :: back) =
        firsts group [] front ++ item :: later := by
  simp only [groupOrder, firsts_append, nil_append, firsts, isNew,
    ↓reduceIte, append_assoc, cons_append]
  exact ⟨_, rfl⟩

/-- Lists that agree agree in the item after a common part. -/
theorem label_eq_of_take_eq
    {Label : Type}
    {label : Item → Label}
    {count : Nat}
    {front back back' : List Item}
    {item item' : Item}
    (short : front.length < count)
    (same :
      ((front ++ item :: back).take count).map label =
        ((front ++ item' :: back').take count).map label) :
    label item = label item' := by
  have sameAt := congrArg (·[front.length]?) same
  simp only [List.getElem?_map, List.getElem?_take_of_lt short,
    List.getElem?_append_right le_rfl, Nat.sub_self,
    List.getElem?_cons_zero, Option.map_some] at sameAt
  exact Option.some.inj sameAt

/--
The first items of a ranking and of its order by groups are the same however
equal scores are ranked exactly if ties stand behind them.
-/
theorem order_free_iff
    {Label : Type}
    (label : Item → Label)
    {items : List Item}
    (distinct : (items.map label).Nodup)
    (ranked : Ranked score items)
    (count : Nat) :
    (∀ items',
        items'.Perm items → Ranked score items' →
          (items'.take count).map label = (items.take count).map label ∧
            ((groupOrder group items').take count).map label =
              ((groupOrder group items).take count).map label) ↔
      ∀ first ∈ items, ∀ second ∈ items,
        label first ≠ label second →
          TiesBehind score group count items first second := by
  constructor
  · intro always first isFirst second isSecond differ tied
    have notSame : first ≠ second := fun same => differ (congrArg label same)
    obtain ⟨rest, isItems, isRanked⟩ :=
      exists_adjacent ranked isFirst isSecond notSame tied
    let better := higher score (score first) items
    have isSwapped : (better ++ second :: first :: rest).Perm items :=
      ((List.Perm.swap _ _ _).append_left better).trans isItems
    obtain ⟨sameTaken, sameGrouped⟩ := always _ isItems isRanked
    obtain ⟨sameTaken', sameGrouped'⟩ := always _ isSwapped (isRanked.swap tied)
    refine ⟨?_, fun firstLeads secondLeads => ?_⟩
    · by_contra tooFew
      exact differ (label_eq_of_take_eq (Nat.lt_of_not_le tooFew)
        (sameTaken.trans sameTaken'.symm))
    · by_contra tooFew
      have short := Nat.lt_of_not_le tooFew
      rw [← length_firsts] at short
      obtain ⟨later, isOrder⟩ :=
        @exists_groupOrder _ _ _ group better (second :: rest) first
          (group_notMem_higher firstLeads)
      have secondNew : group second ∉ better.map group := by
        grind [group_notMem_higher]
      obtain ⟨later', isOrder'⟩ :=
        @exists_groupOrder _ _ _ group better (first :: rest) second secondNew
      have sameOrder := sameGrouped.trans sameGrouped'.symm
      rw [isOrder, isOrder'] at sameOrder
      exact differ (label_eq_of_take_eq short sameOrder)
  · intro behind items' isItems isRanked
    obtain ⟨sameTaken, sameGrouped⟩ :=
      take_eq_of_tiesBehind ranked isRanked isItems.symm
        fun first isFirst second isSecond differ =>
          behind first isFirst second isSecond fun sameLabel =>
            differ (inj_on_of_nodup_map distinct isFirst isSecond
              sameLabel)
    rw [sameTaken, sameGrouped]
    exact ⟨rfl, rfl⟩

end TieOrder

end Mitiflow.Library
