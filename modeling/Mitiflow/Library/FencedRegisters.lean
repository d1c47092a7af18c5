import Mathlib

namespace Mitiflow.Library

open List

/-!
# Registers fenced by generations

A store of registers remembers with each value the generation of its writer.
A write names several registers at once under one generation; it is refused as
a whole if one of them was written under a higher generation.  The module says
what a history of writes leaves in a register, that generations never go down,
and when the fence of single registers protects a whole family of writes.
-/

/-- The value last written to each register, with its writer's generation. -/
abbrev Registers (Slot Value Generation : Type) :=
  Slot → Option (Value × Generation)

/--
A write of some registers under one generation.  The storage below may fail
it, in which case it is not `sound`.
-/
structure FencedWrite (Slot Value Generation : Type) where
  generation : Generation
  updates : List (Slot × Value)
  sound : Bool := true

variable {Slot Value Generation : Type}

namespace FencedWrite

def names (write : FencedWrite Slot Value Generation) (slot : Slot) : Prop :=
  slot ∈ write.updates.map Prod.fst

def Shares (first second : FencedWrite Slot Value Generation) : Prop :=
  ∃ slot, first.names slot ∧ second.names slot

end FencedWrite

namespace Registers

section Fence

variable [LinearOrder Generation]
  {registers : Registers Slot Value Generation}
  {write : FencedWrite Slot Value Generation}

/-- Whether a write succeeds: none of its registers has a newer writer. -/
def accepts
    (registers : Registers Slot Value Generation)
    (write : FencedWrite Slot Value Generation) : Bool :=
  write.sound &&
    write.updates.all fun update =>
      (registers update.1).all fun stored => stored.2 ≤ write.generation

theorem accepts_iff :
    registers.accepts write = true ↔
      write.sound = true ∧
        ∀ slot, write.names slot →
          ∀ stored, registers slot = some stored →
            stored.2 ≤ write.generation := by
  unfold accepts
  rw [Bool.and_eq_true, all_eq_true]
  apply and_congr_right
  intro _
  constructor
  · grind [FencedWrite.names]
  · intro allowed update member
    cases isStored : registers update.1 with
    | none =>
      rfl
    | some stored =>
      have checked :=
        allowed update.1 (mem_map_of_mem member) stored isStored
      simpa using checked

/-- The value of a register is not older than it was. -/
def NotOlder : Option (Value × Generation) → Option (Value × Generation) → Prop
  | none, _ => True
  | some _, none => False
  | some before, some after => before.2 ≤ after.2

theorem NotOlder.refl (stored : Option (Value × Generation)) :
    NotOlder stored stored := by
  cases stored with
  | none =>
    trivial
  | some value =>
    exact le_refl value.2

theorem NotOlder.trans
    {first second third : Option (Value × Generation)}
    (earlier : NotOlder first second)
    (later : NotOlder second third) :
    NotOlder first third := by
  cases first with
  | none =>
    trivial
  | some before =>
    cases second with
    | none =>
      cases earlier
    | some middle =>
      cases third with
      | none =>
        cases later
      | some after =>
        exact le_trans earlier later

theorem NotOlder.exists_le
    {before after : Option (Value × Generation)}
    (notOlder : NotOlder before after)
    {generation : Generation}
    (held : generation ∈ before.map Prod.snd) :
    ∃ next ∈ after.map Prod.snd, generation ≤ next := by
  cases before with
  | none =>
    cases held
  | some earlier =>
    cases after with
    | none =>
      cases notOlder
    | some later =>
      cases held
      exact ⟨later.2, rfl, notOlder⟩

end Fence

section Update

variable [DecidableEq Slot]

def put
    (registers : Registers Slot Value Generation)
    (write : FencedWrite Slot Value Generation) :
    Registers Slot Value Generation :=
  write.updates.foldl
    (fun current update =>
      Function.update current update.1 (some (update.2, write.generation)))
    registers

/-- The last update of a register among those of one write. -/
def lastUpdate (slot : Slot) (updates : List (Slot × Value)) : Option Value :=
  (updates.reverse.find? (fun update => update.1 = slot)).map Prod.snd

theorem lastUpdate_eq_none_iff
    {slot : Slot}
    {updates : List (Slot × Value)} :
    lastUpdate slot updates = none ↔ slot ∉ updates.map Prod.fst := by
  rw [lastUpdate, Option.map_eq_none_iff, List.find?_eq_none]
  simp only [mem_reverse, decide_eq_true_eq, mem_map, not_exists,
    not_and]

/-- Where no register is named twice, every update is the last of its own. -/
theorem lastUpdate_eq_some_iff
    {updates : List (Slot × Value)}
    (distinct : (updates.map Prod.fst).Nodup)
    {slot : Slot}
    {value : Value} :
    lastUpdate slot updates = some value ↔ (slot, value) ∈ updates := by
  constructor
  · grind [Option.map_eq_some_iff, lastUpdate]
  · intro member
    cases updated : lastUpdate slot updates with
    | none =>
      exact absurd (mem_map_of_mem member)
        (lastUpdate_eq_none_iff.mp updated)
    | some found =>
      obtain ⟨update, located, isValue⟩ := Option.map_eq_some_iff.mp updated
      have isSlot : update.1 = slot := by
        simpa using List.find?_some located
      have listed := mem_reverse.mp (mem_of_find?_eq_some located)
      have same := inj_on_of_nodup_map distinct listed member isSlot
      rw [← isValue, same]

theorem put_apply
    (registers : Registers Slot Value Generation)
    (write : FencedWrite Slot Value Generation)
    (slot : Slot) :
    registers.put write slot =
      ((lastUpdate slot write.updates).map
        fun value => (value, write.generation)).or (registers slot) := by
  unfold put
  induction write.updates using List.reverseRecOn with
  | nil =>
    rfl
  | append_singleton earlier update inductionHypothesis =>
    rw [foldl_append, foldl_cons, foldl_nil]
    by_cases isSlot : update.1 = slot
    · subst isSlot
      simp [lastUpdate]
    · rw [Function.update_of_ne (Ne.symm isSlot), inductionHypothesis]
      simp [lastUpdate, isSlot]

end Update

variable [DecidableEq Slot] [LinearOrder Generation]

def perform
    (registers : Registers Slot Value Generation)
    (write : FencedWrite Slot Value Generation) :
    Registers Slot Value Generation :=
  if registers.accepts write then registers.put write else registers

def run
    (registers : Registers Slot Value Generation)
    (writes : List (FencedWrite Slot Value Generation)) :
    Registers Slot Value Generation :=
  writes.foldl perform registers

def blank : Registers Slot Value Generation :=
  fun _ => none

variable {registers : Registers Slot Value Generation}
  {write : FencedWrite Slot Value Generation}

theorem run_snoc
    (registers : Registers Slot Value Generation)
    (writes : List (FencedWrite Slot Value Generation))
    (write : FencedWrite Slot Value Generation) :
    registers.run (writes ++ [write]) =
      (registers.run writes).perform write := by
  simp [run]

theorem run_append
    (registers : Registers Slot Value Generation)
    (first second : List (FencedWrite Slot Value Generation)) :
    registers.run (first ++ second) = (registers.run first).run second := by
  simp [run]

variable {slot : Slot}

theorem perform_of_not_names
    (unnamed : ¬write.names slot) :
    registers.perform write slot = registers slot := by
  unfold perform
  split
  · rw [put_apply, lastUpdate_eq_none_iff.mpr unnamed]
    rfl
  · rfl

theorem perform_of_rejected
    (rejected : registers.accepts write = false) :
    registers.perform write = registers := by
  simp [perform, rejected]

theorem perform_of_accepts
    (accepted : registers.accepts write = true)
    (named : write.names slot) :
    ∃ value,
      lastUpdate slot write.updates = some value ∧
        registers.perform write slot = some (value, write.generation) := by
  cases updated : lastUpdate slot write.updates with
  | none =>
    exact absurd named (lastUpdate_eq_none_iff.mp updated)
  | some value =>
    refine ⟨value, rfl, ?_⟩
    simp [perform, accepted, put_apply, updated]

theorem notOlder_perform
    (registers : Registers Slot Value Generation)
    (write : FencedWrite Slot Value Generation)
    (slot : Slot) :
    NotOlder (registers slot) (registers.perform write slot) := by
  by_cases accepted : registers.accepts write = true
  · by_cases named : write.names slot
    · obtain ⟨value, _, written⟩ := perform_of_accepts accepted named
      rw [written]
      cases isStored : registers slot with
      | none =>
        trivial
      | some stored =>
        exact (accepts_iff.mp accepted).2 slot named stored isStored
    · rw [perform_of_not_names named]
      exact NotOlder.refl _
  · rw [perform_of_rejected (by simpa using accepted)]
    exact NotOlder.refl _

theorem notOlder_run
    (registers : Registers Slot Value Generation)
    (writes : List (FencedWrite Slot Value Generation))
    (slot : Slot) :
    NotOlder (registers slot) (registers.run writes slot) := by
  induction writes using List.reverseRecOn with
  | nil =>
    exact NotOlder.refl _
  | append_singleton earlier write inductionHypothesis =>
    rw [run_snoc]
    exact inductionHypothesis.trans (notOlder_perform _ write slot)

/-- The writes of a history that are accepted when their turn comes. -/
def accepted
    (registers : Registers Slot Value Generation) :
    List (FencedWrite Slot Value Generation) →
      List (FencedWrite Slot Value Generation)
  | [] => []
  | write :: rest =>
    if registers.accepts write then
      write :: (registers.perform write).accepted rest
    else
      registers.accepted rest

theorem accepted_cons
    (registers : Registers Slot Value Generation)
    (write : FencedWrite Slot Value Generation)
    (rest : List (FencedWrite Slot Value Generation)) :
    registers.accepted (write :: rest) =
      (if registers.accepts write then [write] else []) ++
        (registers.perform write).accepted rest := by
  cases verdict : registers.accepts write with
  | true =>
    simp [accepted, verdict]
  | false =>
    simp [accepted, verdict, perform]

theorem accepted_append
    (registers : Registers Slot Value Generation)
    (first second : List (FencedWrite Slot Value Generation)) :
    registers.accepted (first ++ second) =
      registers.accepted first ++ (registers.run first).accepted second := by
  induction first generalizing registers with
  | nil =>
    rfl
  | cons write rest inductionHypothesis =>
    grind [accepted, run, perform]

/-- What the last of some writes that names a register leaves in it. -/
def lastWritten
    (slot : Slot)
    (writes : List (FencedWrite Slot Value Generation)) :
    Option (Value × Generation) :=
  writes.reverse.findSome? fun write =>
    (lastUpdate slot write.updates).map fun value => (value, write.generation)

omit [LinearOrder Generation] in
theorem map_lastWritten
    {Call : Type}
    {write? : Call → Option (FencedWrite Slot Value Generation)}
    {value? : Call → Option Value}
    {calls : List Call}
    (agrees :
      ∀ call ∈ calls,
        ((write? call).bind fun write => lastUpdate slot write.updates) =
          value? call) :
    (lastWritten slot (calls.filterMap write?)).map Prod.fst =
      calls.reverse.findSome? value? := by
  induction calls using List.reverseRecOn with
  | nil =>
    rfl
  | append_singleton earlier call inductionHypothesis =>
    have before := inductionHypothesis
      (fun other member => agrees other (mem_append_left _ member))
    have last := agrees call (by simp)
    rw [reverse_append, reverse_singleton, singleton_append,
      List.findSome?_cons, ← last, ← before, filterMap_append]
    cases written : write? call with
    | none =>
      simp [written]
    | some write =>
      grind [lastWritten]

/-- A register holds what the last accepted write that names it put there. -/
theorem run_apply
    (writes : List (FencedWrite Slot Value Generation))
    (slot : Slot) :
    (blank : Registers Slot Value Generation).run writes slot =
      lastWritten slot (blank.accepted writes) := by
  induction writes using List.reverseRecOn with
  | nil =>
    rfl
  | append_singleton earlier write inductionHypothesis =>
    rw [run_snoc, accepted_append, perform]
    cases verdict :
        ((blank : Registers Slot Value Generation).run earlier).accepts
          write with
    | true =>
      rw [if_pos rfl, put_apply, inductionHypothesis]
      simp only [accepted, verdict, ↓reduceIte, lastWritten,
        reverse_append, reverse_singleton,
        singleton_append, List.findSome?_cons]
      cases (lastUpdate slot write.updates).map
          fun value => (value, write.generation) with
      | none =>
        rfl
      | some written =>
        rfl
    | false =>
      simp [accepted, verdict, inductionHypothesis]

/-! ## A fence around a family of writes -/

section Family

variable {Call : Type} {write : Call → FencedWrite Slot Value Generation}

variable (write) in
def afterCalls (calls : List Call) : Registers Slot Value Generation :=
  blank.run (calls.map write)

variable (write) in
def acceptsAfter (calls : List Call) (call : Call) : Bool :=
  (afterCalls write calls).accepts (write call)

theorem afterCalls_append (first second : List Call) :
    afterCalls write (first ++ second) =
      (afterCalls write first).run (second.map write) := by
  rw [afterCalls, map_append, run_append, afterCalls]

theorem afterCalls_snoc (calls : List Call) (call : Call) :
    afterCalls write (calls ++ [call]) =
      (afterCalls write calls).perform (write call) :=
  afterCalls_append calls [call]

/--
A call is accepted exactly when its write is sound and no accepted call before
it shares a register and has a higher generation.
-/
theorem acceptsAfter_iff (earlier : List Call) (call : Call) :
    acceptsAfter write earlier call = true ↔
      (write call).sound = true ∧
        ∀ before older after,
          earlier = before ++ older :: after →
          acceptsAfter write before older = true →
          (write older).Shares (write call) →
          (write older).generation ≤ (write call).generation := by
  rw [acceptsAfter, accepts_iff]
  apply and_congr_right
  intro _
  constructor
  · rintro allowed before older after shape accepted ⟨slot, named, wanted⟩
    obtain ⟨value, _, written⟩ := perform_of_accepts accepted named
    have kept :=
      notOlder_run (afterCalls write (before ++ [older])) (after.map write) slot
    rw [← afterCalls_append, append_assoc, singleton_append,
      ← shape, afterCalls_snoc, written] at kept
    cases isStored : afterCalls write earlier slot with
    | none =>
      rw [isStored] at kept
      cases kept
    | some stored =>
      rw [isStored] at kept
      exact le_trans kept (allowed slot wanted stored isStored)
  · intro allowed slot wanted stored isStored
    induction earlier using List.reverseRecOn with
    | nil =>
      cases isStored
    | append_singleton rest last inductionHypothesis =>
      by_cases writes :
          acceptsAfter write rest last = true ∧ (write last).names slot
      · obtain ⟨value, _, written⟩ := perform_of_accepts writes.1 writes.2
        rw [afterCalls_snoc, written, Option.some.injEq] at isStored
        subst isStored
        exact allowed rest last [] rfl writes.1 ⟨slot, writes.2, wanted⟩
      · have unchanged : afterCalls write rest slot = some stored := by
          rw [← isStored, afterCalls_snoc]
          by_cases named : (write last).names slot
          · have rejected : acceptsAfter write rest last = false := by
              simpa using fun accepted => writes ⟨accepted, named⟩
            rw [perform_of_rejected rejected]
          · rw [perform_of_not_names named]
        apply inductionHypothesis _ unchanged
        intro before older after shape
        exact allowed before older (after ++ [last]) (by simp [shape])

variable (write) (member : Call → Prop)

/-- A call of the family whose write can have an effect. -/
def Effective (call : Call) : Prop :=
  member call ∧ (write call).sound = true ∧ (write call).updates ≠ []

/--
Once a call of the family was accepted, every later one of a lower generation
is refused.
-/
def FencesFamily (calls : List Call) : Prop :=
  ∀ earlier first between second later,
    calls = earlier ++ first :: between ++ second :: later →
    Effective write member first →
    Effective write member second →
    acceptsAfter write earlier first = true →
    (write second).generation < (write first).generation →
    acceptsAfter write (earlier ++ first :: between) second = false

/-- A call whose generation no earlier one of the family exceeds. -/
def IsRecord (before : List Call) (call : Call) : Prop :=
  ∀ older ∈ before,
    Effective write member older →
    (write older).generation ≤ (write call).generation

/--
Every call of the family that comes late shares a register with a record of a
higher generation.
-/
def LateMeetRecord (calls : List Call) : Prop :=
  ∀ earlier late later,
    calls = earlier ++ late :: later →
    Effective write member late →
    (∃ older ∈ earlier,
      Effective write member older ∧
        (write late).generation < (write older).generation) →
    ∃ before record after,
      earlier = before ++ record :: after ∧
        Effective write member record ∧
        IsRecord write member before record ∧
        (write record).Shares (write late) ∧
        (write late).generation < (write record).generation

variable {write member} {calls : List Call}

omit [DecidableEq Slot] in
/-- At or above a call of the family there is a record. -/
theorem exists_record
    {earlier : List Call}
    {older : Call}
    (isOlder : older ∈ earlier)
    (effective : Effective write member older) :
    ∃ before record after,
      earlier = before ++ record :: after ∧
        Effective write member record ∧
        IsRecord write member before record ∧
        (write older).generation ≤ (write record).generation := by
  induction earlier using List.reverseRecOn generalizing older with
  | nil =>
    cases isOlder
  | append_singleton rest last inductionHypothesis =>
    have extend
        (found :
          ∃ before record after,
            rest = before ++ record :: after ∧
              Effective write member record ∧
              IsRecord write member before record ∧
              (write older).generation ≤ (write record).generation) :
        ∃ before record after,
          rest ++ [last] = before ++ record :: after ∧
            Effective write member record ∧
            IsRecord write member before record ∧
            (write older).generation ≤ (write record).generation := by
      obtain ⟨before, record, after, shape, found⟩ := found
      exact ⟨before, record, after ++ [last], by simp [shape], found⟩
    rcases mem_append.mp isOlder with inRest | isLast
    · exact extend (inductionHypothesis inRest effective)
    · rw [mem_singleton] at isLast
      subst isLast
      by_cases isRecord : IsRecord write member rest older
      · exact ⟨rest, older, [], rfl, effective, isRecord, le_rfl⟩
      · simp only [IsRecord, not_forall, not_le, exists_prop] at isRecord
        obtain ⟨higher, inRest, higherEffective, above⟩ := isRecord
        obtain ⟨before, record, after, shape, recordEffective, isRecord,
          atLeast⟩ := inductionHypothesis inRest higherEffective
        exact extend ⟨before, record, after, shape, recordEffective,
          isRecord, (above.le).trans atLeast⟩

section Separate

variable
  (separate :
    ∀ first ∈ calls, ∀ second ∈ calls,
      member second → (write first).Shares (write second) → member first)

include separate

variable {before after : List Call}

/-- An accepted call that meets a member is a member that has an effect. -/
theorem effective_of_shares
    {first second : Call}
    (isFirst : first ∈ calls)
    (isSecond : second ∈ calls)
    (isMember : member second)
    (accepted : acceptsAfter write before first = true)
    (shares : (write first).Shares (write second)) :
    Effective write member first := by
  refine ⟨separate first isFirst second isSecond isMember shares,
    (accepts_iff.mp accepted).1, ?_⟩
  intro noUpdates
  obtain ⟨slot, named, _⟩ := shares
  simp [FencedWrite.names, noUpdates] at named

theorem acceptsAfter_record
    {record : Call}
    (shape : calls = before ++ record :: after)
    (effective : Effective write member record)
    (isRecord : IsRecord write member before record) :
    acceptsAfter write before record = true := by
  rw [acceptsAfter_iff]
  refine ⟨effective.2.1, ?_⟩
  intro first older rest beforeShape accepted shares
  have isOlder : older ∈ before := by
    simp [beforeShape]
  exact isRecord older isOlder
    (effective_of_shares separate (by simp [shape, isOlder])
      (by simp [shape]) effective.1 accepted shares)

/-- A family that is fenced refuses a call below an earlier one. -/
theorem FencesFamily.rejects_late
    (fences : FencesFamily write member calls)
    {older late : Call}
    (split : calls = before ++ late :: after)
    (lateEffective : Effective write member late)
    (isOlder : older ∈ before)
    (olderEffective : Effective write member older)
    (below : (write late).generation < (write older).generation) :
    acceptsAfter write before late = false := by
  -- The call below `older` is below the record at or above it, too.
  obtain ⟨first, record, rest, beforeShape, recordEffective, isRecord,
    atLeast⟩ := exists_record isOlder olderEffective
  have recordSplit :
      calls = first ++ record :: (rest ++ late :: after) := by
    simp [split, beforeShape]
  have recordAccepted :=
    acceptsAfter_record separate recordSplit recordEffective isRecord
  rw [beforeShape]
  exact fences first record rest late after (by simp [recordSplit])
    recordEffective lateEffective recordAccepted (below.trans_le atLeast)

/-- Where the fence holds, an accepted call is a record. -/
theorem FencesFamily.isRecord_of_accepts
    (fences : FencesFamily write member calls)
    {call : Call}
    (split : calls = before ++ call :: after)
    (effective : Effective write member call)
    (accepted : acceptsAfter write before call = true) :
    IsRecord write member before call := by
  intro higher isHigher higherEffective
  by_contra notAbove
  have rejected :=
    fences.rejects_late separate split effective isHigher higherEffective
      (not_le.mp notAbove)
  cases accepted.symm.trans rejected

/--
Where members share registers with members only, the fence of the registers
protects the family exactly when every late call meets a record.
-/
theorem fencesFamily_iff :
    FencesFamily write member calls ↔ LateMeetRecord write member calls := by
  constructor
  · intro fences earlier late later shape lateEffective ⟨older, isOlder,
      olderEffective, lateBelow⟩
    have rejected :=
      fences.rejects_late separate shape lateEffective isOlder
        olderEffective lateBelow
    rw [← Bool.not_eq_true, acceptsAfter_iff] at rejected
    simp only [lateEffective.2.1, true_and, not_forall, not_le,
      exists_prop] at rejected
    obtain ⟨first, record, rest, split, accepted, shares, above⟩ := rejected
    have isRecord : record ∈ earlier := by
      simp [split]
    have recordEffective :=
      effective_of_shares separate (by simp [shape, isRecord])
        (by simp [shape]) lateEffective.1 accepted shares
    have recordSplit :
        calls = first ++ record :: (rest ++ late :: later) := by
      simp [shape, split]
    exact ⟨first, record, rest, split, recordEffective,
      fences.isRecord_of_accepts separate recordSplit recordEffective accepted,
      shares, above⟩
  · intro lateMeet earlier first between second later shape firstEffective
      secondEffective _ below
    obtain ⟨before, record, after, split, recordEffective, isRecord, shares,
      above⟩ :=
      lateMeet (earlier ++ first :: between) second later
        (by simp [shape]) secondEffective ⟨first, by simp, firstEffective,
          below⟩
    have recordSplit :
        calls = before ++ record :: (after ++ second :: later) := by
      simp [shape, split]
    have recordAccepted :=
      acceptsAfter_record separate recordSplit recordEffective isRecord
    rw [← Bool.not_eq_true, acceptsAfter_iff]
    rintro ⟨_, allowed⟩
    exact absurd (allowed before record after split recordAccepted shares)
      (not_le.mpr above)

end Separate

end Family

end Registers

end Mitiflow.Library
