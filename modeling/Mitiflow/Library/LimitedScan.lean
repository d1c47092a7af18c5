import Mathlib

namespace Mitiflow.Library

open List

/-!
# Scans with a limit

A loop over ordered entries that skips some, stops at others and collects the
rest, checking an optional limit only after it has collected something.  Such
a scan returns the first collected values, up to the limit but at least one.
-/

/-- What a loop body decides about one entry. -/
inductive Visit (Value : Type) where
  | skip
  | stop
  | take (value : Value)

/-- The value taken from an entry, if any. -/
def Visit.value? : Visit Value → Option Value
  | .take value => some value
  | .skip => none
  | .stop => none

theorem value?_eq_some_iff
    {visited : Visit Value}
    {value : Value} :
    visited.value? = some value ↔ visited = .take value := by
  cases visited with
  | skip =>
    simp [Visit.value?]
  | stop =>
    simp [Visit.value?]
  | take taken =>
    simp [Visit.value?]

section LimitedScan

variable {Entry Value : Type}

/-- The loop: push, then leave if the limit is reached. -/
def scan (limit : Option Nat) (visit : Entry → Visit Value) :
    List Entry → List Value → List Value
  | [], results => results
  | entry :: rest, results =>
    match visit entry with
    | .skip => scan limit visit rest results
    | .stop => results
    | .take value =>
      let collected := results ++ [value]
      match limit with
      | none => scan limit visit rest collected
      | some bound =>
        if collected.length ≥ bound then
          collected
        else
          scan limit visit rest collected

/-- Everything the loop would collect without a limit. -/
def collected (visit : Entry → Visit Value) : List Entry → List Value
  | [] => []
  | entry :: rest =>
    match visit entry with
    | .skip => collected visit rest
    | .stop => []
    | .take value => value :: collected visit rest

theorem scan_none
    (visit : Entry → Visit Value)
    (entries : List Entry)
    (results : List Value) :
    scan none visit entries results = results ++ collected visit entries := by
  induction entries generalizing results with
  | nil =>
    simp [scan, collected]
  | cons entry rest inductionHypothesis =>
    cases visited : visit entry with
    | skip =>
      simp only [scan, collected, visited, inductionHypothesis]
    | stop =>
      simp only [scan, collected, visited, append_nil]
    | take value =>
      simp only [scan, collected, visited, inductionHypothesis,
        append_assoc, singleton_append]

/-- A limit keeps the first values, and at least the one just collected. -/
theorem scan_some
    (bound : Nat)
    (visit : Entry → Visit Value)
    (entries : List Entry)
    (results : List Value) :
    scan (some bound) visit entries results =
      results ++
        (collected visit entries).take (max 1 (bound - results.length)) := by
  induction entries generalizing results with
  | nil =>
    simp [scan, collected]
  | cons entry rest inductionHypothesis =>
    cases visited : visit entry with
    | skip =>
      simp only [scan, collected, visited, inductionHypothesis]
    | stop =>
      simp only [scan, collected, visited, take_nil, append_nil]
    | take value =>
      simp only [scan, collected, visited, length_append,
        length_singleton]
      split
      · rename_i reached
        have single : max 1 (bound - results.length) = 1 := by omega
        simp [single]
      · rename_i notReached
        have more :
            max 1 (bound - results.length) =
              max 1 (bound - (results.length + 1)) + 1 := by
          omega
        rw [inductionHypothesis, length_append,
          length_singleton, more, take_succ_cons,
          append_assoc, singleton_append]

/-- The first values, as many as a limit allows. -/
def upTo (limit : Option Nat) (values : List Value) : List Value :=
  match limit with
  | none => values
  | some bound => values.take bound

@[simp]
theorem upTo_nil (limit : Option Nat) :
    upTo limit ([] : List Value) = [] := by
  cases limit with
  | none =>
    rfl
  | some bound =>
    exact take_nil

/-- A scan returns what its limit allows, except that a limit of zero lets one
value through. -/
theorem scan_eq_upTo_iff
    (limit : Option Nat)
    (visit : Entry → Visit Value)
    (entries : List Entry) :
    scan limit visit entries [] = upTo limit (collected visit entries) ↔
      (limit = some 0 → collected visit entries = []) := by
  cases limit with
  | none =>
    simp [scan_none, upTo]
  | some bound =>
    rw [scan_some, nil_append, length_nil, Nat.sub_zero, upTo,
      Option.some.injEq]
    rcases Nat.eq_zero_or_pos bound with isZero | positive
    · subst isZero
      simp
    · rw [Nat.max_eq_right positive]
      simp [positive.ne']

theorem scan_eq_nil_iff
    (limit : Option Nat)
    (visit : Entry → Visit Value)
    (entries : List Entry) :
    scan limit visit entries [] = [] ↔ collected visit entries = [] := by
  cases limit with
  | none =>
    simp [scan_none]
  | some bound =>
    rw [scan_some, nil_append, take_eq_nil_iff]
    simp

variable {visit : Entry → Visit Value} {entries : List Entry} {value : Value}

/-- A loop that stops only where nothing later would be taken. -/
theorem collected_eq_filterMap_of_pairwise
    (stopsLate :
      entries.Pairwise fun first later =>
        visit first = .stop → (visit later).value? = none) :
    collected visit entries =
      entries.filterMap fun entry => (visit entry).value? := by
  induction entries with
  | nil =>
    rfl
  | cons entry rest inductionHypothesis =>
    obtain ⟨afterEntry, inRest⟩ := pairwise_cons.mp stopsLate
    have restCollected := inductionHypothesis inRest
    cases visited : visit entry with
    | skip =>
      simp [collected, visited, Visit.value?, restCollected]
    | stop =>
      have nothing :
          rest.filterMap (fun later => (visit later).value?) = [] :=
        filterMap_eq_nil_iff.mpr
          fun later member => afterEntry later member visited
      simp only [collected, filterMap_cons, visited, nothing]
      rfl
    | take value =>
      simp [collected, visited, Visit.value?, restCollected]

/-- A loop that never stops early collects every value it takes. -/
theorem collected_eq_filterMap
    (neverStops : ∀ entry ∈ entries, visit entry ≠ .stop) :
    collected visit entries =
      entries.filterMap fun entry => (visit entry).value? := by
  refine collected_eq_filterMap_of_pairwise
    (pairwise_of_forall_mem_list fun entry member _ _ stops => ?_)
  exact absurd stops (neverStops entry member)

theorem scan_sublist
    (limit : Option Nat)
    (visit : Entry → Visit Value)
    (entries : List Entry) :
    (scan limit visit entries []).Sublist
      (entries.filterMap fun entry => (visit entry).value?) := by
  have ofCollected :
      (collected visit entries).Sublist
        (entries.filterMap fun entry => (visit entry).value?) := by
    induction entries with
    | nil =>
      exact List.Sublist.refl []
    | cons entry rest inductionHypothesis =>
      cases visited : visit entry with
      | skip =>
        simpa [collected, visited, Visit.value?] using inductionHypothesis
      | stop =>
        simp only [collected, visited]
        exact nil_sublist _
      | take value =>
        simpa [collected, visited, Visit.value?] using inductionHypothesis
  cases limit with
  | none =>
    rw [scan_none, nil_append]
    exact ofCollected
  | some bound =>
    rw [scan_some, nil_append]
    exact (take_sublist _ _).trans ofCollected

theorem mem_scan
    {limit : Option Nat}
    (member : value ∈ scan limit visit entries []) :
    ∃ entry ∈ entries, visit entry = .take value := by
  obtain ⟨entry, isEntry, taken⟩ :=
    mem_filterMap.mp ((scan_sublist limit visit entries).subset member)
  exact ⟨entry, isEntry, value?_eq_some_iff.mp taken⟩

theorem length_scan_le
    {bound : Nat}
    (positive : bound ≠ 0)
    (visit : Entry → Visit Value)
    (entries : List Entry) :
    (scan (some bound) visit entries []).length ≤ bound := by
  rw [scan_some, nil_append, length_take, length_nil]
  omega

/-- A scan over a single taken entry returns it, whatever the limit. -/
theorem scan_singleton
    (limit : Option Nat)
    {entry : Entry}
    (taken : visit entry = .take value) :
    scan limit visit [entry] [] = [value] := by
  cases limit with
  | none =>
    simp [scan_none, collected, taken]
  | some bound =>
    simp [scan_some, collected, taken]

end LimitedScan

end Mitiflow.Library
