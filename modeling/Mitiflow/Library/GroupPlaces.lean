import Mitiflow.Library.RankedGroups

namespace Mitiflow.Library

open List

/-!
# Places in the order of groups

When all scores differ, the items that lead their groups come first, by score,
and then the others, by score.  The place of an item is the number of items
before it.  When an item is lost, the items behind it move up by one, except
where the next of its group takes a place before them.
-/

section Before

variable {Item Group Score : Type} [LinearOrder Score]
  (score : Item → Score)
  (group : Item → Group)

/-- Leaders come before the others; otherwise the score decides. -/
def Before (items : List Item) (first second : Item) : Prop :=
  (Tops score group items first ∧ ¬ Tops score group items second) ∨
    ((Tops score group items first ↔ Tops score group items second) ∧
      score second < score first)

instance Before.decidable
    [DecidableEq Group]
    (items : List Item)
    (first second : Item) :
    Decidable (Before score group items first second) :=
  inferInstanceAs (Decidable (_ ∨ _))

variable {score group} {items : List Item} {first second : Item}

theorem Before.asymm
    (isBefore : Before score group items first second) :
    ¬ Before score group items second first := by
  unfold Before at isBefore ⊢
  rcases isBefore with ⟨leads, follows⟩ | ⟨alike, lower⟩
  · rintro (⟨leads', _⟩ | ⟨alike', _⟩)
    · exact follows leads'
    · exact follows (alike'.mpr leads)
  · rintro (⟨leads', follows'⟩ | ⟨_, lower'⟩)
    · exact follows' (alike.mpr leads')
    · exact lower.asymm lower'

theorem Before.total (differ : score first ≠ score second) :
    Before score group items first second ∨
      Before score group items second first := by
  unfold Before
  have either := lt_or_gt_of_ne differ
  by_cases firstLeads : Tops score group items first
  · by_cases secondLeads : Tops score group items second
    · simpa [firstLeads, secondLeads] using either.symm
    · simp [firstLeads, secondLeads]
  · by_cases secondLeads : Tops score group items second
    · simp [firstLeads, secondLeads]
    · simpa [firstLeads, secondLeads] using either.symm

theorem before_perm
    {items' : List Item}
    (same : items.Perm items')
    (first second : Item) :
    Before score group items first second ↔
      Before score group items' first second := by
  unfold Before
  rw [tops_perm same, tops_perm same]

end Before

section Places

variable {Item Group Score : Type} [DecidableEq Group] [LinearOrder Score]
  (score : Item → Score)
  (group : Item → Group)

def place (items : List Item) (item : Item) : Nat :=
  items.countP fun other => Before score group items other item

variable {score group} {items : List Item}

/-! ## The place in the list -/

theorem mem_firsts
    {seen : List Group}
    {item : Item}
    (isFirst : item ∈ firsts group seen items) :
    group item ∉ seen ∧
      ∃ front back,
        items = front ++ item :: back ∧ group item ∉ front.map group := by
  induction items generalizing seen with
  | nil =>
    cases isFirst
  | cons head rest inductionHypothesis =>
    rw [firsts] at isFirst
    split at isFirst
    · grind
    · rename_i headUnseen
      rcases mem_cons.mp isFirst with rfl | isLater
      · exact ⟨headUnseen, [], rest, rfl, not_mem_nil⟩
      · grind

theorem mem_others
    {seen : List Group}
    {item : Item}
    (isOther : item ∈ others group seen items) :
    ∃ front back,
      items = front ++ item :: back ∧
        (group item ∈ seen ∨ group item ∈ front.map group) := by
  induction items generalizing seen with
  | nil =>
    cases isOther
  | cons head rest inductionHypothesis =>
    rw [others] at isOther
    split at isOther
    · rename_i isSeen
      rcases mem_cons.mp isOther with rfl | isLater
      · exact ⟨[], rest, rfl, Or.inl isSeen⟩
      · grind
    · grind

theorem tops_of_mem_firsts
    (ranked : Ranked score items)
    {item : Item}
    (isFirst : item ∈ firsts group [] items) :
    Tops score group items item := by
  obtain ⟨_, front, back, rfl, isNew⟩ := mem_firsts isFirst
  obtain ⟨-, rankedBack, -⟩ := pairwise_append.mp ranked
  exact tops_of_new (List.Perm.refl _) isNew (forall_mem_cons.mpr
    ⟨le_rfl, (pairwise_cons.mp rankedBack).1⟩)

theorem not_tops_of_mem_others
    (ranked : Ranked score items)
    (distinct : (items.map score).Nodup)
    {item : Item}
    (isOther : item ∈ others group [] items) :
    ¬ Tops score group items item := by
  obtain ⟨front, back, rfl, known⟩ := mem_others isOther
  intro leads
  obtain ⟨leader, inFront, sameGroup⟩ :=
    mem_map.mp (known.resolve_left not_mem_nil)
  have higher :=
    (pairwise_append.mp ranked).2.2 leader inFront item mem_cons_self
  have differ :=
    (pairwise_append.mp (pairwise_map.mp distinct)).2.2 leader
      inFront item mem_cons_self
  exact differ (le_antisymm
    (leads leader (mem_append_left _ inFront) sameGroup) higher)

/-- In the order by groups every item comes before those behind it. -/
theorem pairwise_groupOrder
    (ranked : Ranked score items)
    (distinct : (items.map score).Nodup) :
    (groupOrder group items).Pairwise (Before score group items) := by
  have falling :
      items.Pairwise fun first second => score second < score first :=
    (ranked.and (pairwise_map.mp distinct)).imp
      fun both => lt_of_le_of_ne both.1 both.2.symm
  refine pairwise_append.mpr ⟨?_, ?_, ?_⟩
  · refine (falling.sublist (firsts_sublist [] items)).imp_of_mem ?_
    intro first second isFirst isSecond lower
    exact Or.inr ⟨iff_of_true (tops_of_mem_firsts ranked isFirst)
      (tops_of_mem_firsts ranked isSecond), lower⟩
  · refine (falling.sublist (others_sublist [] items)).imp_of_mem ?_
    intro first second isFirst isSecond lower
    exact Or.inr ⟨iff_of_false
      (not_tops_of_mem_others ranked distinct isFirst)
      (not_tops_of_mem_others ranked distinct isSecond), lower⟩
  · grind [tops_of_mem_firsts, not_tops_of_mem_others, Before]

section Index

variable {Item : Type} {precedes : Item → Item → Prop}
  [DecidableRel precedes]
  (asymm : ∀ first second, precedes first second → ¬ precedes second first)

include asymm

/-- In a list where everything comes before what is behind it, just the items
in front of one come before it. -/
theorem countP_of_pairwise
    {front back : List Item}
    {item : Item}
    (sorted : (front ++ item :: back).Pairwise precedes) :
    ((front ++ item :: back).countP fun other => precedes other item) =
      front.length := by
  rw [pairwise_append, pairwise_cons] at sorted
  obtain ⟨_, ⟨behind, _⟩, across⟩ := sorted
  rw [countP_append, countP_cons]
  have allFront :
      (front.countP fun other => precedes other item) = front.length := by
    rw [countP_eq_length]
    intro other inFront
    exact decide_eq_true (across other inFront item mem_cons_self)
  have noneBack : (back.countP fun other => precedes other item) = 0 := by
    rw [countP_eq_zero]
    intro other inBack
    simpa using asymm item other (behind other inBack)
  have notSelf : ¬ precedes item item := fun self => asymm _ _ self self
  rw [allFront, noneBack]
  simp [notSelf]

/-- The index of an item in such a list is the number of items before it. -/
theorem getElem?_iff_countP
    {items : List Item}
    (sorted : items.Pairwise precedes)
    {index : Nat}
    {item : Item} :
    items[index]? = some item ↔
      item ∈ items ∧
        (items.countP fun other => precedes other item) = index := by
  constructor
  · intro isAt
    obtain ⟨short, isItem⟩ := List.getElem?_eq_some_iff.mp isAt
    refine ⟨mem_of_getElem? isAt, ?_⟩
    have split :
        items = items.take index ++ item :: items.drop (index + 1) := by
      rw [← isItem, getElem_cons_drop, take_append_drop]
    rw [split] at sorted
    rw [split, countP_of_pairwise asymm sorted, length_take]
    omega
  · rintro ⟨isItem, isIndex⟩
    obtain ⟨front, back, rfl⟩ := append_of_mem isItem
    rw [countP_of_pairwise asymm sorted] at isIndex
    rw [← isIndex, List.getElem?_append_right le_rfl, Nat.sub_self]
    rfl

end Index

/-- An item stands in the order by groups at its place. -/
theorem getElem?_groupOrder_iff
    (ranked : Ranked score items)
    (distinct : (items.map score).Nodup)
    {index : Nat}
    {item : Item} :
    (groupOrder group items)[index]? = some item ↔
      item ∈ items ∧ place score group items item = index := by
  have isPerm := @perm_groupOrder _ _ _ group items
  rw [getElem?_iff_countP (fun _ _ => Before.asymm)
    (pairwise_groupOrder ranked distinct), isPerm.mem_iff,
    isPerm.countP_eq]
  rfl

theorem place_perm
    {items' : List Item}
    (same : items.Perm items')
    (item : Item) :
    place score group items item = place score group items' item := by
  unfold place
  rw [same.countP_eq]
  refine countP_congr fun other _ => ?_
  simp only [decide_eq_true_eq]
  exact before_perm same other item

/-! ## The best items -/

section

variable
  (ranked : Ranked score items)
  (distinct : (items.map score).Nodup)
  {item best : Item}
  (isItem : item ∈ items)
  (isBest : best ∈ items)
  (differs : best ≠ item)

include ranked distinct isItem isBest differs

/-- The list begins with the best of all items, or with one item and then the
best of the others. -/
theorem ranked_best_but_one
    (beats : ∀ other ∈ items, other ≠ item → score other ≤ score best) :
    (∃ rest, items = best :: rest ∧ score item < score best) ∨
      ∃ rest, items = item :: best :: rest ∧ score best < score item := by
  have isHighest
      {highest : Item}
      (isHighest : highest ∈ items)
      (isOther : highest ≠ item)
      (atLeast : score best ≤ score highest) : highest = best :=
    inj_on_of_nodup_map distinct isHighest isBest
      (le_antisymm (beats highest isHighest isOther) atLeast)
  have unequal : score item ≠ score best := fun same =>
    differs (inj_on_of_nodup_map distinct isItem isBest same).symm
  match items, ranked with
  | first :: rest, ranked =>
    obtain ⟨falls, rankedRest⟩ := pairwise_cons.mp ranked
    by_cases isFirst : first = item
    · subst isFirst
      right
      have bestLater : best ∈ rest :=
        (mem_cons.mp isBest).resolve_left differs
      match rest, rankedRest with
      | second :: later, rankedRest =>
        have secondBest : second = best := by
          refine isHighest (mem_cons_of_mem _ mem_cons_self) ?_ ?_
          · rintro rfl
            simp at distinct
          · rcases mem_cons.mp bestLater with rfl | isLater
            · exact le_rfl
            · exact (pairwise_cons.mp rankedRest).1 best isLater
        subst secondBest
        exact ⟨later, rfl,
          lt_of_le_of_ne (falls second mem_cons_self) unequal.symm⟩
    · left
      have firstBest : first = best := by
        refine isHighest mem_cons_self isFirst ?_
        rcases mem_cons.mp isBest with rfl | isLater
        · exact le_rfl
        · exact falls best isLater
      subst firstBest
      refine ⟨rest, rfl, lt_of_le_of_ne (falls item ?_) unequal⟩
      exact (mem_cons.mp isItem).resolve_left (Ne.symm isFirst)

/-- The best of all items comes first; the best of the others comes second, or
after all leaders if it is of the best one's group. -/
theorem place_best_but_one
    (beats : ∀ other ∈ items, other ≠ item → score other ≤ score best) :
    place score group items best =
      if score best < score item then
        if group best = group item then
          (items.map group).dedup.length
        else
          1
      else
        0 := by
  have placed := fun index =>
    (@getElem?_groupOrder_iff _ _ _ _ _ _ group _ ranked distinct index best).mp
  rcases ranked_best_but_one ranked distinct isItem isBest differs beats with
    ⟨rest, isList, lower⟩ | ⟨rest, isList, lower⟩
  · rw [if_neg lower.not_gt]
    refine (placed 0 ?_).2
    rw [isList, groupOrder, firsts, if_neg not_mem_nil]
    rfl
  · rw [if_pos lower]
    split
    · next sameGroup =>
        refine (placed _ ?_).2
        rw [← length_firsts, groupOrder,
          List.getElem?_append_right le_rfl, Nat.sub_self, isList, others,
          if_neg not_mem_nil, others, sameGroup,
          if_pos (mem_append_right _ (mem_singleton_self _))]
        rfl
    · next otherGroup =>
        refine (placed 1 ?_).2
        rw [isList, groupOrder, firsts, if_neg not_mem_nil, firsts,
          if_neg (by simpa using otherGroup)]
        rfl

end

end Places

/-! ## The loss of an item -/

theorem countP_succ
    {Item : Type}
    {formerly now : Item → Bool}
    {items : List Item}
    (once : items.Nodup)
    {item : Item}
    (isItem : item ∈ items)
    (wasNot : formerly item = false)
    (isNow : now item = true)
    (same : ∀ other ∈ items, other ≠ item → formerly other = now other) :
    items.countP now = items.countP formerly + 1 := by
  obtain ⟨front, back, rfl⟩ := append_of_mem isItem
  rw [nodup_append, nodup_cons] at once
  have inFront : front.countP now = front.countP formerly := by
    grind [countP_congr]
  have inBack : back.countP now = back.countP formerly := by
    grind [countP_congr]
  simp only [countP_append, countP_cons, inFront, inBack, wasNot,
    isNow, Bool.false_eq_true, ↓reduceIte]
  omega

section Promotion

variable {Item Group Score : Type} [LinearOrder Score]
  {score : Item → Score}
  {group : Item → Group}
  {gone item : Item}
  {rest : List Item}

theorem tops_cons_iff :
    Tops score group (gone :: rest) item ↔
      Tops score group rest item ∧
        (group gone = group item → score gone ≤ score item) := by
  unfold Tops
  rw [forall_mem_cons, and_comm]

/-- An item that leads only without the lost one comes after it. -/
theorem promoted_iff (leads : Tops score group rest item) :
    ¬ Tops score group (gone :: rest) item ↔
      group gone = group item ∧ score item < score gone := by
  rw [tops_cons_iff, and_iff_right leads, Classical.not_imp, not_le]

theorem promoted_unique
    (distinct : (rest.map score).Nodup)
    {first second : Item}
    (isFirst : first ∈ rest)
    (isSecond : second ∈ rest)
    (firstLeads : Tops score group rest first)
    (firstLed : ¬ Tops score group (gone :: rest) first)
    (secondLeads : Tops score group rest second)
    (secondLed : ¬ Tops score group (gone :: rest) second) :
    first = second := by
  have sameGroup : group first = group second :=
    ((promoted_iff firstLeads).mp firstLed).1.symm.trans
      ((promoted_iff secondLeads).mp secondLed).1
  refine inj_on_of_nodup_map distinct isFirst isSecond ?_
  exact le_antisymm (secondLeads first isFirst sameGroup)
    (firstLeads second isSecond sameGroup.symm)

/-- The lost item led the group of an item that leads only without it. -/
theorem tops_of_promoted
    (leads : Tops score group rest item)
    (led : ¬ Tops score group (gone :: rest) item) :
    Tops score group (gone :: rest) gone := by
  obtain ⟨sameGroup, higher⟩ := (promoted_iff leads).mp led
  refine tops_cons_iff.mpr ⟨?_, fun _ => le_refl _⟩
  intro other isOther otherGroup
  exact (leads other isOther (otherGroup.trans sameGroup)).trans higher.le

/-- Whether an item leads is the same without the lost one, unless it leads
only then. -/
theorem tops_congr
    (notPromoted :
      Tops score group rest item → Tops score group (gone :: rest) item) :
    Tops score group (gone :: rest) item ↔ Tops score group rest item :=
  ⟨fun leads => (tops_cons_iff.mp leads).1, notPromoted⟩

/-- An item that leads only without the lost one has fewer items before it
then. -/
theorem before_of_promoted
    (leads : Tops score group rest item)
    (led : ¬ Tops score group (gone :: rest) item)
    {other : Item}
    (isBefore : Before score group rest other item) :
    Before score group (gone :: rest) other item := by
  grind [Before]

section

variable
  (notPromoted :
    Tops score group rest item → Tops score group (gone :: rest) item)

include notPromoted

/-- For any other item, those before it stay before it. -/
theorem before_of_before_cons
    {other : Item}
    (isBefore : Before score group (gone :: rest) other item) :
    Before score group rest other item := by
  have itemSame := tops_congr notPromoted
  rcases isBefore with ⟨leads, follows⟩ | ⟨alike, lower⟩
  · exact Or.inl ⟨(tops_cons_iff.mp leads).1, itemSame.not.mp follows⟩
  · by_cases leads : Tops score group rest other
    · by_cases itemLeads : Tops score group rest item
      · exact Or.inr ⟨iff_of_true leads itemLeads, lower⟩
      · exact Or.inl ⟨leads, itemLeads⟩
    · have follows : ¬ Tops score group (gone :: rest) other :=
        fun leadsAll => leads (tops_cons_iff.mp leadsAll).1
      exact Or.inr ⟨iff_of_false leads
        (itemSame.not.mp (alike.not.mp follows)), lower⟩

/-- Only an item that leads now and did not before can have moved before it. -/
theorem promoted_of_before
    {other : Item}
    (isBefore : Before score group rest other item)
    (wasBehind : ¬ Before score group (gone :: rest) other item) :
    Tops score group rest other ∧
      ¬ Tops score group (gone :: rest) other := by
  have itemSame := tops_congr notPromoted
  by_contra stays
  have otherSame :=
    tops_congr fun leads => by_contra fun led => stays ⟨leads, led⟩
  refine wasBehind ?_
  unfold Before at isBefore ⊢
  rw [otherSame, itemSame]
  exact isBefore

/-- The lost item was before whatever the next of its group moves before. -/
theorem gone_before
    {heir : Item}
    (leads : Tops score group rest heir)
    (led : ¬ Tops score group (gone :: rest) heir)
    (isBefore : Before score group rest heir item) :
    Before score group (gone :: rest) gone item := by
  have goneLeads := tops_of_promoted leads led
  have higher := ((promoted_iff leads).mp led).2
  by_cases itemLeads : Tops score group (gone :: rest) item
  · have itemLeadsRest := (tops_congr notPromoted).mp itemLeads
    rcases isBefore with ⟨_, follows⟩ | ⟨_, lower⟩
    · exact absurd itemLeadsRest follows
    · exact Or.inr ⟨iff_of_true goneLeads itemLeads, lower.trans higher⟩
  · exact Or.inl ⟨goneLeads, itemLeads⟩

end

end Promotion

section Loss

variable {Item Group Score : Type} [DecidableEq Group] [LinearOrder Score]
  {score : Item → Score}
  {group : Item → Group}
  {gone item : Item}
  {rest : List Item}

theorem place_cons :
    place score group (gone :: rest) item =
      (rest.countP fun other =>
        Before score group (gone :: rest) other item) +
        if Before score group (gone :: rest) gone item then 1 else 0 := by
  rw [place, countP_cons]
  simp only [decide_eq_true_eq]

/-- An item that leads only without the lost one gains places. -/
theorem place_le_of_promoted
    (leads : Tops score group rest item)
    (led : ¬ Tops score group (gone :: rest) item) :
    place score group rest item ≤
      rest.countP fun other =>
        Before score group (gone :: rest) other item := by
  refine countP_mono_left fun other _ isBefore => ?_
  exact decide_eq_true
    (before_of_promoted leads led (of_decide_eq_true isBefore))

/-- The next of the lost item's group comes before an item, and nothing else
changes its side. -/
theorem place_of_replaced
    (distinct : (rest.map score).Nodup)
    (notPromoted :
      Tops score group rest item → Tops score group (gone :: rest) item)
    {heir : Item}
    (isHeir : heir ∈ rest)
    (isBefore : Before score group rest heir item)
    (wasBehind : ¬ Before score group (gone :: rest) heir item) :
    place score group rest item =
      (rest.countP fun other =>
        Before score group (gone :: rest) other item) + 1 := by
  obtain ⟨leads, led⟩ := promoted_of_before notPromoted isBefore wasBehind
  refine countP_succ distinct.of_map isHeir
    (decide_eq_false wasBehind) (decide_eq_true isBefore) ?_
  intro other isOther differs
  rw [decide_eq_decide]
  refine ⟨before_of_before_cons notPromoted, fun nowBefore => ?_⟩
  by_contra otherBehind
  obtain ⟨otherLeads, otherLed⟩ :=
    promoted_of_before notPromoted nowBefore otherBehind
  exact differs (promoted_unique distinct isOther isHeir otherLeads otherLed
    leads led)

theorem place_of_not_replaced
    (notPromoted :
      Tops score group rest item → Tops score group (gone :: rest) item)
    (notReplaced :
      ∀ heir ∈ rest,
        Before score group rest heir item →
          Before score group (gone :: rest) heir item) :
    place score group rest item =
      rest.countP fun other =>
        Before score group (gone :: rest) other item := by
  refine countP_congr fun other isOther => ?_
  simp only [decide_eq_true_eq]
  exact ⟨notReplaced other isOther, before_of_before_cons notPromoted⟩

/--
An item keeps its place without a lost one exactly if the lost one was not
before it, or another item that was behind it is before it now.
-/
theorem place_cons_eq_iff
    (distinct : (rest.map score).Nodup)
    (isItem : item ∈ rest) :
    place score group rest item = place score group (gone :: rest) item ↔
      (Before score group (gone :: rest) gone item →
        ∃ heir ∈ rest,
          Before score group (gone :: rest) item heir ∧
            Before score group rest heir item) := by
  rw [place_cons]
  by_cases isPromoted :
      Tops score group rest item ∧ ¬ Tops score group (gone :: rest) item
  · obtain ⟨leads, led⟩ := isPromoted
    have goneBefore : Before score group (gone :: rest) gone item :=
      Or.inl ⟨tops_of_promoted leads led, led⟩
    have fewer := place_le_of_promoted leads led
    rw [if_pos goneBefore]
    refine iff_of_false (by omega) fun replaced => ?_
    obtain ⟨heir, isHeir, wasBehind, isBefore⟩ := replaced goneBefore
    exact wasBehind.asymm (before_of_promoted leads led isBefore)
  · have notPromoted :
        Tops score group rest item → Tops score group (gone :: rest) item :=
      fun leads => by_contra fun led => isPromoted ⟨leads, led⟩
    by_cases replaced :
        ∃ heir ∈ rest,
          Before score group rest heir item ∧
            ¬ Before score group (gone :: rest) heir item
    · obtain ⟨heir, isHeir, isBefore, wasBehind⟩ := replaced
      obtain ⟨leads, led⟩ := promoted_of_before notPromoted isBefore wasBehind
      rw [if_pos (gone_before notPromoted leads led isBefore),
        place_of_replaced distinct notPromoted isHeir isBefore wasBehind]
      refine iff_of_true rfl fun _ => ⟨heir, isHeir, ?_, isBefore⟩
      have differ : score heir ≠ score item := by
        intro sameScore
        have isSame := inj_on_of_nodup_map distinct isHeir isItem sameScore
        rw [isSame] at isBefore
        exact isBefore.asymm isBefore
      exact (Before.total differ).resolve_left wasBehind
    · have notReplaced :
          ∀ heir ∈ rest,
            Before score group rest heir item →
              Before score group (gone :: rest) heir item :=
        fun heir isHeir isBefore => by_contra fun wasBehind =>
          replaced ⟨heir, isHeir, isBefore, wasBehind⟩
      have noHeir :
          ¬ ∃ heir ∈ rest,
            Before score group (gone :: rest) item heir ∧
              Before score group rest heir item := by
        rintro ⟨heir, isHeir, wasBehind, isBefore⟩
        exact wasBehind.asymm (notReplaced heir isHeir isBefore)
      rw [place_of_not_replaced notPromoted notReplaced, imp_iff_not noHeir]
      split
      · rename_i goneBefore
        simp [goneBefore]
      · rename_i goneBehind
        simp [goneBehind]

end Loss

end Mitiflow.Library
