import Mathlib

namespace Mitiflow.Library

open List

/-!
# Ordered finite maps

A finite map whose bindings are kept in strictly increasing key order, as a
log-structured storage engine presents them to a range scan.  The order is
carried as a field, so a scan never has to re-establish it.  The module is
independent of any particular key or value type.
-/

/-- A finite map listed in strictly increasing key order. -/
structure OrderedMap (Key Value : Type) [LinearOrder Key] where
  entries : List (Key × Value)
  sorted : entries.Pairwise (fun first second => first.1 < second.1)

namespace OrderedMap

variable {Key Value : Type} [LinearOrder Key]

/-- Bind one key in a sorted entry list, replacing an older binding. -/
def insertEntry (key : Key) (value : Value) :
    List (Key × Value) → List (Key × Value)
  | [] => [(key, value)]
  | entry :: rest =>
    if key < entry.1 then
      (key, value) :: entry :: rest
    else if key = entry.1 then
      (key, value) :: rest
    else
      entry :: insertEntry key value rest

section KeyOrder

variable {entries : List (Key × Value)}

section

variable (ascends : entries.Pairwise fun first second => first.1 < second.1)

include ascends

theorem nodup_of_ascending :
    entries.Nodup :=
  ascends.imp fun ordered same => ordered.ne (congrArg Prod.fst same)

/-- A list in key order is determined by its members. -/
theorem eq_of_ascending
    {others : List (Key × Value)}
    (othersAscend : others.Pairwise fun first second => first.1 < second.1)
    (sameMembers : ∀ entry, entry ∈ entries ↔ entry ∈ others) :
    entries = others :=
  List.Perm.eq_of_pairwise
    (fun _ _ _ _ below above => absurd below above.asymm)
    ascends othersAscend
    ((perm_ext_iff_of_nodup (nodup_of_ascending ascends)
      (nodup_of_ascending othersAscend)).mpr sameMembers)

/-- A list in key order is what sorting any listing of its members gives. -/
theorem eq_mergeSort_of_ascending
    {items : List (Key × Value)}
    (distinct : items.Nodup)
    (sameMembers : ∀ entry, entry ∈ entries ↔ entry ∈ items) :
    entries = items.mergeSort fun first second => first.1 ≤ second.1 := by
  have listing : entries.Perm items :=
    (perm_ext_iff_of_nodup (nodup_of_ascending ascends) distinct).mpr
      sameMembers
  have sortedItems :
      (items.mergeSort fun first second => first.1 ≤ second.1).Pairwise
        fun first second => first.1 ≤ second.1 := by
    refine (pairwise_mergeSort ?_ ?_ items).imp of_decide_eq_true
    · intro first second third below above
      exact decide_eq_true
        (le_trans (of_decide_eq_true below) (of_decide_eq_true above))
    · intro first second
      simpa using le_total first.1 second.1
  have oneKey :
      (entries.map Prod.fst).Nodup :=
    pairwise_map.mpr (ascends.imp ne_of_lt)
  refine List.Perm.eq_of_pairwise ?_ (ascends.imp le_of_lt)
    sortedItems
    (listing.trans (mergeSort_perm items _).symm)
  intro first second member sortedMember below above
  have secondMember : second ∈ entries :=
    (sameMembers second).mpr (mem_mergeSort.mp sortedMember)
  exact inj_on_of_nodup_map oneKey member secondMember
    (le_antisymm below above)

end

end KeyOrder

variable {key : Key} {value : Value} {entries : List (Key × Value)}

theorem mem_of_mem_insertEntry
    {entry : Key × Value}
    (member : entry ∈ insertEntry key value entries) :
    entry = (key, value) ∨ entry ∈ entries := by
  induction entries with
  | nil =>
    simpa [insertEntry] using member
  | cons first rest inductionHypothesis =>
    unfold insertEntry at member
    split at member
    · simpa using member
    · split at member
      · rcases mem_cons.mp member with isNew | inRest
        · exact Or.inl isNew
        · exact Or.inr (by simp [inRest])
      · rcases mem_cons.mp member with isFirst | inRest
        · exact Or.inr (by simp [isFirst])
        · rcases inductionHypothesis inRest with isNew | isOld
          · exact Or.inl isNew
          · exact Or.inr (by simp [isOld])

/-- Binding a key keeps the entry list strictly increasing. -/
theorem insertEntry_sorted
    (key : Key)
    (value : Value)
    (sorted : entries.Pairwise (fun first second => first.1 < second.1)) :
    (insertEntry key value entries).Pairwise
      (fun first second => first.1 < second.1) := by
  induction entries with
  | nil =>
    simp [insertEntry]
  | cons first rest inductionHypothesis =>
    obtain ⟨firstBelow, restSorted⟩ := pairwise_cons.mp sorted
    unfold insertEntry
    split
    · rename_i before
      refine pairwise_cons.mpr ⟨?_, sorted⟩
      intro entry member
      rcases mem_cons.mp member with isFirst | inRest
      · simpa [isFirst] using before
      · exact before.trans (firstBelow entry inRest)
    · split
      · rename_i same
        refine pairwise_cons.mpr ⟨?_, restSorted⟩
        intro entry member
        simpa [same] using firstBelow entry member
      · rename_i notBefore notSame
        refine pairwise_cons.mpr ⟨?_, inductionHypothesis restSorted⟩
        intro entry member
        rcases mem_of_mem_insertEntry member with isNew | isOld
        · rw [isNew]
          exact lt_of_le_of_ne (not_lt.mp notBefore) (Ne.symm notSame)
        · exact firstBelow entry isOld

def empty : OrderedMap Key Value where
  entries := []
  sorted := List.Pairwise.nil

def insert
    (map : OrderedMap Key Value)
    (key : Key)
    (value : Value) : OrderedMap Key Value where
  entries := insertEntry key value map.entries
  sorted := insertEntry_sorted key value map.sorted

def erase
    (map : OrderedMap Key Value)
    (key : Key) : OrderedMap Key Value where
  entries := map.entries.filter (fun entry => entry.1 ≠ key)
  sorted := map.sorted.filter _

def mapValues
    {Other : Type}
    (map : OrderedMap Key Value)
    (function : Value → Other) : OrderedMap Key Other where
  entries := map.entries.map fun entry => (entry.1, function entry.2)
  sorted := pairwise_map.mpr map.sorted

def get? (map : OrderedMap Key Value) (key : Key) : Option Value :=
  (map.entries.find? (fun entry => entry.1 = key)).map Prod.snd

theorem keys_nodup (map : OrderedMap Key Value) :
    (map.entries.map Prod.fst).Nodup :=
  pairwise_map.mpr (map.sorted.imp ne_of_lt)

theorem entry_unique
    (map : OrderedMap Key Value)
    {first second : Key × Value}
    (firstMember : first ∈ map.entries)
    (secondMember : second ∈ map.entries)
    (sameKey : first.1 = second.1) :
    first = second :=
  inj_on_of_nodup_map map.keys_nodup firstMember secondMember sameKey

theorem get?_eq_some
    {map : OrderedMap Key Value} :
    map.get? key = some value ↔ (key, value) ∈ map.entries := by
  constructor
  · intro found
    obtain ⟨entry, located, valueShape⟩ := Option.map_eq_some_iff.mp found
    have keyShape : entry.1 = key := by
      simpa using List.find?_some located
    have member := mem_of_find?_eq_some located
    rwa [← keyShape, ← valueShape]
  · intro member
    have located :
        (map.entries.find? (fun entry => entry.1 = key)).isSome := by
      rw [List.find?_isSome]
      exact ⟨(key, value), member, by simp⟩
    obtain ⟨entry, located⟩ := Option.isSome_iff_exists.mp located
    have keyShape : entry.1 = key := by
      simpa using List.find?_some located
    have same : entry = (key, value) :=
      map.entry_unique (mem_of_find?_eq_some located) member keyShape
    simp [get?, located, same]

theorem mem_insertEntry
    {query : Key}
    {found : Value}
    (sorted : entries.Pairwise (fun first second => first.1 < second.1)) :
    (query, found) ∈ insertEntry key value entries ↔
      (query = key ∧ found = value) ∨
        (query ≠ key ∧ (query, found) ∈ entries) := by
  induction entries with
  | nil =>
    simp [insertEntry]
  | cons first rest inductionHypothesis =>
    obtain ⟨firstBelow, restSorted⟩ := pairwise_cons.mp sorted
    have firstShape :
        (query, found) = first ↔ query = first.1 ∧ found = first.2 :=
      Prod.ext_iff
    unfold insertEntry
    split
    · rename_i before
      simp only [mem_cons, Prod.mk.injEq, firstShape]
      grind
    · split
      · rename_i same
        simp only [mem_cons, Prod.mk.injEq, firstShape]
        grind
      · rename_i notBefore notSame
        simp only [mem_cons, firstShape, inductionHypothesis restSorted]
        grind

@[simp] theorem get?_empty (key : Key) :
    (empty : OrderedMap Key Value).get? key = none :=
  rfl

theorem get?_insert
    (map : OrderedMap Key Value)
    (key query : Key)
    (value : Value) :
    (map.insert key value).get? query =
      if query = key then some value else map.get? query := by
  ext found
  have bound :
      (map.insert key value).get? query = some found ↔
        (query = key ∧ found = value) ∨
          (query ≠ key ∧ map.get? query = some found) := by
    rw [get?_eq_some, get?_eq_some]
    exact mem_insertEntry map.sorted
  rw [bound]
  by_cases same : query = key
  · simp [same, eq_comm]
  · simp [same]

theorem get?_erase
    (map : OrderedMap Key Value)
    (key query : Key) :
    (map.erase key).get? query =
      if query = key then none else map.get? query := by
  ext found
  have bound :
      (map.erase key).get? query = some found ↔
        query ≠ key ∧ map.get? query = some found := by
    rw [get?_eq_some, get?_eq_some]
    simp [erase, and_comm]
  rw [bound]
  by_cases same : query = key
  · simp [same]
  · simp [same]

theorem get?_foldl_insert
    (map source : OrderedMap Key Value)
    (key : Key) :
    (source.entries.foldl
        (fun bound entry => bound.insert entry.1 entry.2) map).get? key =
      (source.get? key).or (map.get? key) := by
  unfold get?
  have distinct := source.keys_nodup
  generalize source.entries = entries at distinct
  induction entries generalizing map with
  | nil =>
    rfl
  | cons entry rest inductionHypothesis =>
    rw [map_cons, nodup_cons] at distinct
    rw [foldl_cons, inductionHypothesis _ distinct.2]
    have bound := get?_insert map entry.1 key entry.2
    unfold get? at bound
    rw [bound]
    by_cases same : entry.1 = key
    · have notLater :
          rest.find? (fun later => later.1 = key) = none := by
        rw [List.find?_eq_none]
        intro later member isKey
        refine distinct.1 (mem_map.mpr ⟨later, member, ?_⟩)
        rw [same]
        exact of_decide_eq_true isKey
      simp [same, notLater]
    · simp [same, Ne.symm same]

end OrderedMap

end Mitiflow.Library
