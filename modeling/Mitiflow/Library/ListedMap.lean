import Mathlib.Data.List.Induction
import Mathlib.Data.List.Nodup
import Mathlib.Logic.Function.Basic

namespace Mitiflow.Library

open List Function

/-!
# Maps with a listing of their keys

A hash map is a function on its keys together with the order in which it lists
them.  An insertion may change that order in any way, so the order can be
replaced by any other listing of the same keys.
-/

/-- A map and the order in which its keys are listed. -/
structure ListedMap (Key Value : Type) where
  get? : Key → Option Value
  keys : List Key
  nodup : keys.Nodup
  mem_keys : ∀ key, key ∈ keys ↔ (get? key).isSome

namespace ListedMap

variable {Key Value : Type}

def empty : ListedMap Key Value where
  get? := fun _ => none
  keys := []
  nodup := nodup_nil
  mem_keys := by simp

def values (map : ListedMap Key Value) : List Value :=
  map.keys.filterMap map.get?

/-- The same map in another order. -/
def relist
    (map : ListedMap Key Value)
    (listing : List Key)
    (lists : listing.Perm map.keys) : ListedMap Key Value where
  get? := map.get?
  keys := listing
  nodup := lists.nodup_iff.mpr map.nodup
  mem_keys := fun key => by rw [lists.mem_iff, map.mem_keys]

def mapValues
    {Other : Type}
    (map : ListedMap Key Value)
    (change : Value → Other) : ListedMap Key Other where
  get? := fun key => (map.get? key).map change
  keys := map.keys
  nodup := map.nodup
  mem_keys := fun key => by rw [map.mem_keys, Option.isSome_map]

/-- Keep the entries whose value meets a test. -/
def retain (map : ListedMap Key Value) (keep : Value → Bool) :
    ListedMap Key Value where
  get? := fun key => (map.get? key).filter keep
  keys := map.keys.filter fun key => (map.get? key).any keep
  nodup := map.nodup.filter _
  mem_keys := fun key => by
    rw [mem_filter, map.mem_keys]
    cases map.get? key with
    | none => simp
    | some value => simp

variable [DecidableEq Key]

def insert (map : ListedMap Key Value) (key : Key) (value : Value) :
    ListedMap Key Value where
  get? := update map.get? key (some value)
  keys := if key ∈ map.keys then map.keys else map.keys ++ [key]
  nodup := by
    split
    · exact map.nodup
    · next absent =>
        refine nodup_append'.mpr
          ⟨map.nodup, nodup_singleton key, ?_⟩
        exact disjoint_singleton.mpr absent
  mem_keys := fun other => by
    by_cases same : other = key
    · subst same
      split <;> simp_all
    · rw [update_of_ne same, ← map.mem_keys]
      split <;> simp [same]

def erase (map : ListedMap Key Value) (key : Key) :
    ListedMap Key Value where
  get? := update map.get? key none
  keys := map.keys.filter fun other => other ≠ key
  nodup := map.nodup.filter _
  mem_keys := fun other => by
    by_cases same : other = key
    · subst same
      simp
    · rw [update_of_ne same, ← map.mem_keys]
      simp [same]

/-- Change the value under a key, if there is one. -/
def modify
    (map : ListedMap Key Value)
    (key : Key)
    (change : Value → Value) : ListedMap Key Value where
  get? := update map.get? key ((map.get? key).map change)
  keys := map.keys
  nodup := map.nodup
  mem_keys := fun other => by
    rw [map.mem_keys]
    by_cases same : other = key
    · subst same
      simp
    · rw [update_of_ne same]

/-- Put values under their keys one after the other. -/
def insertAll (map : ListedMap Key Value) (pairs : List (Key × Value)) :
    ListedMap Key Value :=
  pairs.foldl (fun map pair => map.insert pair.1 pair.2) map

/-- Raise the number under a key, which is zero at first. -/
def raise (map : ListedMap Key Nat) (key : Key) (value : Nat) :
    ListedMap Key Nat :=
  let current := (map.get? key).getD 0
  map.insert key (if value > current then value else current)

/-- Raise the numbers under some keys one after the other. -/
def raiseAll (map : ListedMap Key Nat) (pairs : List (Key × Nat)) :
    ListedMap Key Nat :=
  pairs.foldl (fun map pair => map.raise pair.1 pair.2) map

/-- Group pairs of keys by the first, with a value under the second. -/
def nest
    {Inner : Type}
    [DecidableEq Inner]
    (value : Key → Inner → Value)
    (pairs : List (Key × Inner)) : ListedMap Key (ListedMap Inner Value) :=
  pairs.foldl
    (fun map pair =>
      map.insert pair.1
        (((map.get? pair.1).getD empty).insert pair.2
          (value pair.1 pair.2)))
    empty

/-- The map of some items, each under its own key. -/
def ofItems
    {Item : Type}
    (items : List Item)
    (key : Item → Key)
    (value : Item → Value)
    (distinct : (items.map key).Nodup) : ListedMap Key Value where
  get? := fun other =>
    (items.find? fun item => key item = other).map value
  keys := items.map key
  nodup := distinct
  mem_keys := fun other => by
    rw [Option.isSome_map, List.find?_isSome, mem_map]
    simp only [decide_eq_true_eq]

theorem get?_insert
    (map : ListedMap Key Value)
    (key : Key)
    (value : Value) :
    (map.insert key value).get? =
      update map.get? key (some value) :=
  rfl

theorem get?_erase (map : ListedMap Key Value) (key : Key) :
    (map.erase key).get? = update map.get? key none :=
  rfl

theorem get?_modify
    (map : ListedMap Key Value)
    (key : Key)
    (change : Value → Value) :
    (map.modify key change).get? =
      update map.get? key ((map.get? key).map change) :=
  rfl

theorem get?_insertAll_of_notMem
    (map : ListedMap Key Value)
    {pairs : List (Key × Value)}
    {key : Key}
    (absent : ∀ pair ∈ pairs, pair.1 ≠ key) :
    (map.insertAll pairs).get? key = map.get? key := by
  induction pairs generalizing map with
  | nil => rfl
  | cons pair rest inductionHypothesis =>
    obtain ⟨differs, later⟩ := forall_mem_cons.mp absent
    rw [insertAll, foldl_cons, ← insertAll,
      inductionHypothesis _ later, get?_insert,
      update_of_ne (Ne.symm differs)]

/-- A key has one of the values that were put under it. -/
theorem get?_insertAll_of_mem
    (map : ListedMap Key Value)
    {pairs : List (Key × Value)}
    {key : Key}
    (present : ∃ pair ∈ pairs, pair.1 = key) :
    ∃ pair ∈ pairs, pair.1 = key ∧
      (map.insertAll pairs).get? key = some pair.2 := by
  induction pairs generalizing map with
  | nil =>
    obtain ⟨_, isPair, -⟩ := present
    cases isPair
  | cons first rest inductionHypothesis =>
    rw [insertAll, foldl_cons, ← insertAll]
    by_cases later : ∃ pair ∈ rest, pair.1 = key
    · obtain ⟨pair, isPair, isKey, isValue⟩ :=
        inductionHypothesis (map.insert first.1 first.2) later
      exact ⟨pair, mem_cons_of_mem _ isPair, isKey, isValue⟩
    · have isFirst : first.1 = key := by
        obtain ⟨pair, isPair, isKey⟩ := present
        rcases mem_cons.mp isPair with rfl | inRest
        · exact isKey
        · exact absurd ⟨pair, inRest, isKey⟩ later
      refine ⟨first, mem_cons_self, isFirst, ?_⟩
      rw [get?_insertAll_of_notMem _ fun pair isPair isKey =>
        later ⟨pair, isPair, isKey⟩, get?_insert, isFirst,
        update_self]

theorem isSome_get?_raiseAll
    (map : ListedMap Key Nat)
    (pairs : List (Key × Nat))
    (key : Key) :
    ((map.raiseAll pairs).get? key).isSome = true ↔
      (map.get? key).isSome = true ∨ key ∈ pairs.map Prod.fst := by
  induction pairs generalizing map with
  | nil =>
    simp [raiseAll]
  | cons pair rest inductionHypothesis =>
    rw [raiseAll, foldl_cons, ← raiseAll, inductionHypothesis, raise,
      get?_insert, map_cons, mem_cons]
    by_cases isKey : key = pair.1
    · subst isKey
      simp
    · simp [isKey]

/-- A nested map has the pairs it was made from. -/
theorem get?_nest
    {Inner : Type}
    [DecidableEq Inner]
    (value : Key → Inner → Value)
    (pairs : List (Key × Inner))
    (outer : Key)
    (inner : Inner) :
    ((nest value pairs).get? outer).bind (·.get? inner) =
      if (outer, inner) ∈ pairs then some (value outer inner) else none := by
  induction pairs using List.reverseRecOn with
  | nil =>
    rfl
  | append_singleton earlier pair inductionHypothesis =>
    rw [nest, foldl_append, ← nest, foldl_cons, foldl_nil,
      get?_insert]
    by_cases sameOuter : outer = pair.1
    · subst sameOuter
      rw [update_self, Option.bind_some, get?_insert]
      by_cases sameInner : inner = pair.2
      · subst sameInner
        simp
      · have otherPair : (pair.1, inner) ≠ pair := fun same =>
          sameInner (congrArg Prod.snd same)
        rw [update_of_ne sameInner]
        simp only [mem_append, mem_singleton, otherPair,
          or_false, ← inductionHypothesis]
        cases (nest value earlier).get? pair.1 with
        | none =>
          rfl
        | some group =>
          rfl
    · have otherPair : (outer, inner) ≠ pair := fun same =>
        sameOuter (congrArg Prod.fst same)
      rw [update_of_ne sameOuter, inductionHypothesis]
      simp [otherPair]

theorem isSome_get?_nest
    {Inner : Type}
    [DecidableEq Inner]
    (value : Key → Inner → Value)
    (pairs : List (Key × Inner))
    (outer : Key) :
    ((nest value pairs).get? outer).isSome = true ↔
      outer ∈ pairs.map Prod.fst := by
  induction pairs using List.reverseRecOn with
  | nil =>
    simp [nest, empty]
  | append_singleton earlier pair inductionHypothesis =>
    rw [nest, foldl_append, ← nest, foldl_cons, foldl_nil,
      get?_insert, map_append, mem_append, ← inductionHypothesis]
    by_cases same : outer = pair.1
    · simp [same]
    · simp [same]

omit [DecidableEq Key] in
/-- The values of a map do not depend on how its keys are listed. -/
theorem perm_values
    {first second : ListedMap Key Value}
    (same : first.get? = second.get?) :
    first.values.Perm second.values := by
  have sameKeys : first.keys.Perm second.keys :=
    (perm_ext_iff_of_nodup first.nodup second.nodup).mpr fun key => by
      rw [first.mem_keys, second.mem_keys, same]
  rw [values, values, same]
  exact sameKeys.filterMap _

/-- Nesting the same pairs lists the same inner maps. -/
theorem nest_congr
    {Inner : Type}
    [DecidableEq Inner]
    (value : Key → Inner → Value)
    {first second : List (Key × Inner)}
    (same : ∀ pair, pair ∈ first ↔ pair ∈ second)
    (outer : Key) :
    Option.Rel (fun left right => left.get? = right.get?)
      ((nest value first).get? outer)
      ((nest value second).get? outer) := by
  have sameInner (inner : Inner) :
      (((nest value first).get? outer).bind (·.get? inner)) =
        ((nest value second).get? outer).bind (·.get? inner) := by
    rw [get?_nest, get?_nest]
    simp only [same]
  have sameOuter :
      ((nest value first).get? outer).isSome = true ↔
        ((nest value second).get? outer).isSome = true := by
    simp only [isSome_get?_nest, mem_map, same]
  cases left : (nest value first).get? outer with
  | none =>
    cases right : (nest value second).get? outer with
    | none =>
      exact .none
    | some _ =>
      simp [left, right] at sameOuter
  | some _ =>
    cases right : (nest value second).get? outer with
    | none =>
      simp [left, right] at sameOuter
    | some _ =>
      simp only [left, right, Option.bind_some] at sameInner
      exact .some (funext sameInner)

omit [DecidableEq Key] in
/-- Maps with related values list the same items made from them. -/
theorem perm_filterMap_keys
    {first second : ListedMap Key Value}
    {related : Value → Value → Prop}
    (isRelated : ∀ key, Option.Rel related (first.get? key) (second.get? key))
    {item : Key → Value → Item}
    (sameItem : ∀ key left right,
      related left right → item key left = item key right) :
    (first.keys.filterMap fun key => (first.get? key).map (item key)).Perm
      (second.keys.filterMap fun key =>
        (second.get? key).map (item key)) := by
  have sameItems (key : Key) :
      (first.get? key).map (item key) = (second.get? key).map (item key) := by
    have related := isRelated key
    generalize first.get? key = left, second.get? key = right at related
    cases related with
    | none =>
      rfl
    | some bothRelated =>
      exact congrArg some (sameItem key _ _ bothRelated)
  have sameKeys : first.keys.Perm second.keys :=
    (perm_ext_iff_of_nodup first.nodup second.nodup).mpr fun key => by
      rw [first.mem_keys, second.mem_keys, ← Option.isSome_map, sameItems,
        Option.isSome_map]
  simp only [sameItems]
  exact sameKeys.filterMap _

theorem get?_ofItems
    {Item : Type}
    {items : List Item}
    {key : Item → Key}
    (value : Item → Value)
    (distinct : (items.map key).Nodup)
    {item : Item}
    (isItem : item ∈ items) :
    (ofItems items key value distinct).get? (key item) =
      some (value item) := by
  obtain ⟨found, isFound⟩ : ∃ found,
      (items.find? fun other => key other = key item) = some found := by
    rw [← Option.isSome_iff_exists, List.find?_isSome]
    exact ⟨item, isItem, decide_eq_true rfl⟩
  have sameKey : key found = key item := by
    simpa using List.find?_some isFound
  have same := inj_on_of_nodup_map distinct
    (mem_of_find?_eq_some isFound) isItem sameKey
  simp only [ofItems, isFound, same, Option.map_some]

end ListedMap

end Mitiflow.Library
