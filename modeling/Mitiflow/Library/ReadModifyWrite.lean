import Mathlib
import Mitiflow.Library.GuardedRun

namespace Mitiflow.Library

open List Function

/-!
# Calls that read a register and write it later

A call reads what a register shows and later writes its edit of what it read;
other calls may write in between.  If every write finds the register showing
what its call read, the calls have the effect of running alone, one after the
other, in the order of their writes.
-/

/-- One step of a call: its read, or its write at some time. -/
inductive RaceStep (Stamp : Type) where
  | read (index : Nat)
  | write (index : Nat) (stamp : Stamp)
  deriving Repr, DecidableEq

/-- A register, what calls have read of it, and the writes in their order. -/
structure Race (Register View Stamp : Type) where
  register : Register
  held : Nat → Option View
  written : List (Nat × Stamp)

namespace Race

section Runs

variable {Register View Call Stamp : Type}
  (view : Register → View)
  (write : Register → Call → Stamp → View → Register)
  (calls : List Call)

/-- Nothing is read or written yet. -/
def start (register : Register) : Race Register View Stamp where
  register := register
  held _ := none
  written := []

/-- One step; a call that has no such step to make leaves everything. -/
def step (race : Race Register View Stamp) :
    RaceStep Stamp → Race Register View Stamp
  | .read index =>
    if index < calls.length ∧ race.held index = none ∧
        index ∉ race.written.map Prod.fst then
      { race with
        held := update race.held index (some (view race.register)) }
    else
      race
  | .write index stamp =>
    match calls[index]?, race.held index with
    | some call, some seen =>
      { register := write race.register call stamp seen
        held := update race.held index none
        written := race.written ++ [(index, stamp)] }
    | _, _ => race

/-- A call that reads and writes without interruption. -/
def runAlone (register : Register) (call : Call × Stamp) : Register :=
  write register call.1 call.2 (view register)

/-- The calls that have written, in the order of their writes. -/
def serial (race : Race Register View Stamp) : List (Call × Stamp) :=
  race.written.filterMap fun writes =>
    calls[writes.1]?.map fun call => (call, writes.2)

/-- A write finds the register showing what the call read. -/
def Unbroken (race : Race Register View Stamp) : RaceStep Stamp → Prop
  | .read _ => True
  | .write index _ =>
    ∀ seen, race.held index = some seen → view race.register = seen

instance Unbroken.decidable
    [DecidableEq View]
    (race : Race Register View Stamp) :
    (step : RaceStep Stamp) → Decidable (race.Unbroken view step)
  | .read _ => inferInstanceAs (Decidable True)
  | .write index _ =>
    decidable_of_iff (∀ seen ∈ race.held index, view race.register = seen)
      (by simp [Unbroken, Option.mem_def])

variable {view write calls}

/-- What a step does, if it does anything. -/
theorem step_cases
    (race : Race Register View Stamp)
    (raceStep : RaceStep Stamp) :
    race.step view write calls raceStep = race ∨
      (∃ index,
        raceStep = .read index ∧
          index < calls.length ∧
          index ∉ race.written.map Prod.fst ∧
          race.step view write calls raceStep =
            { race with
              held :=
                update race.held index (some (view race.register)) }) ∨
      ∃ index stamp call seen,
        raceStep = .write index stamp ∧
          calls[index]? = some call ∧
          race.held index = some seen ∧
          race.step view write calls raceStep =
            { register := write race.register call stamp seen
              held := update race.held index none
              written := race.written ++ [(index, stamp)] } := by
  cases raceStep with
  | read index =>
    simp only [step]
    split
    · rename_i enabled
      exact Or.inr (Or.inl ⟨index, rfl, enabled.1, enabled.2.2, rfl⟩)
    · exact Or.inl rfl
  | write index stamp =>
    simp only [step]
    split
    · rename_i call seen isCall isHeld
      exact Or.inr (Or.inr ⟨index, stamp, call, seen, rfl, isCall, isHeld, rfl⟩)
    · exact Or.inl rfl

/-- What is held after an update was set by it or was held before. -/
theorem held_update
    {held : Nat → Option View}
    {index other : Nat}
    {value : Option View}
    {seen : View}
    (isHeld : update held index value other = some seen) :
    (other = index ∧ value = some seen) ∨
      (other ≠ index ∧ held other = some seen) := by
  by_cases isIndex : other = index
  · rw [isIndex, update_self] at isHeld
    exact Or.inl ⟨isIndex, isHeld⟩
  · rw [update_of_ne isIndex] at isHeld
    exact Or.inr ⟨isIndex, isHeld⟩

/-- Every call writes at most once, and reads before. -/
structure WellFormed
    (calls : List Call)
    (race : Race Register View Stamp) : Prop where
  once : (race.written.map Prod.fst).Nodup
  known : ∀ index ∈ race.written.map Prod.fst, index < calls.length
  open_of_held :
    ∀ index seen,
      race.held index = some seen → index ∉ race.written.map Prod.fst

theorem wellFormed_start (register : Register) :
    WellFormed calls (start register : Race Register View Stamp) where
  once := nodup_nil
  known _ isWritten := absurd isWritten not_mem_nil
  open_of_held _ _ isHeld := nomatch isHeld

theorem WellFormed.step
    {race : Race Register View Stamp}
    (wellFormed : WellFormed calls race)
    (raceStep : RaceStep Stamp) :
    WellFormed calls (race.step view write calls raceStep) := by
  rcases race.step_cases raceStep with
    same | ⟨index, _, _, unwritten, same⟩ |
      ⟨index, stamp, call, seen, _, isCall, isHeld, same⟩
  · rw [same]
    exact wellFormed
  · rw [same]
    refine ⟨wellFormed.once, wellFormed.known, ?_⟩
    intro other seen isHeld
    rcases held_update isHeld with ⟨isIndex, _⟩ | ⟨_, wasHeld⟩
    · rw [isIndex]
      exact unwritten
    · exact wellFormed.open_of_held other seen wasHeld
  · have unwritten := wellFormed.open_of_held index seen isHeld
    rw [same]
    refine ⟨?_, ?_, ?_⟩
    · rw [map_append]
      exact wellFormed.once.append (nodup_singleton index)
        (disjoint_singleton.mpr unwritten)
    · intro other isWritten
      rw [map_append, mem_append] at isWritten
      rcases isWritten with before | isLast
      · exact wellFormed.known other before
      · rw [mem_singleton.mp isLast]
        exact (List.getElem?_eq_some_iff.mp isCall).1
    · intro other otherSeen otherHeld isWritten
      rcases held_update otherHeld with ⟨_, ⟨⟩⟩ | ⟨notIndex, wasHeld⟩
      rw [map_append, mem_append] at isWritten
      rcases isWritten with before | isLast
      · exact wellFormed.open_of_held other otherSeen wasHeld before
      · exact notIndex (mem_singleton.mp isLast)

theorem wellFormed_run
    (register : Register)
    (steps : List (RaceStep Stamp)) :
    WellFormed calls
      (steps.foldl (step view write calls) (start register)) := by
  induction steps using List.reverseRecOn with
  | nil =>
    exact wellFormed_start register
  | append_singleton earlier last inductionHypothesis =>
    rw [foldl_append]
    exact inductionHypothesis.step last

theorem filterMap_range (calls : List Call) :
    (List.range calls.length).filterMap (calls[·]?) = calls := by
  induction calls with
  | nil =>
    rfl
  | cons call rest inductionHypothesis =>
    simp only [length_cons, range_succ_eq_map,
      filterMap_cons, List.getElem?_cons_zero, filterMap_map]
    exact congrArg (call :: ·) inductionHypothesis

/-- When every call has written, the order of the writes lists every call. -/
theorem perm_serial
    {race : Race Register View Stamp}
    (wellFormed : WellFormed calls race)
    (finished : ∀ index < calls.length, index ∈ race.written.map Prod.fst) :
    ((race.serial calls).map Prod.fst).Perm calls := by
  have indices :
      (race.written.map Prod.fst).Perm (List.range calls.length) := by
    refine (perm_ext_iff_of_nodup wellFormed.once
      nodup_range).mpr fun index => ?_
    rw [mem_range]
    exact ⟨wellFormed.known index, finished index⟩
  have looked :
      (race.serial calls).map Prod.fst =
        (race.written.map Prod.fst).filterMap (calls[·]?) := by
    rw [serial, map_filterMap, filterMap_map]
    congr 1
    funext writes
    simp [Option.map_map, comp_def]
  rw [looked]
  exact (indices.filterMap _).trans (List.Perm.of_eq (filterMap_range calls))

/-- What reading and writing keep holds after every run. -/
theorem invariant_run
    (Holds : Register → Prop)
    (Fits : View → Prop)
    (reads : ∀ register, Holds register → Fits (view register))
    (writes :
      ∀ register call stamp seen,
        Holds register → Fits seen →
          Holds (write register call stamp seen))
    {register : Register}
    (initially : Holds register)
    (steps : List (RaceStep Stamp)) :
    Holds
      (steps.foldl (step view write calls) (start register)).register := by
  suffices both :
      ∀ race : Race Register View Stamp,
        (Holds race.register ∧
          ∀ index seen, race.held index = some seen → Fits seen) →
        Holds (steps.foldl (step view write calls) race).register from
    both (start register) ⟨initially, fun _ _ isHeld => nomatch isHeld⟩
  induction steps with
  | nil =>
    exact fun _ both => both.1
  | cons first rest inductionHypothesis =>
    rintro race ⟨holds, fits⟩
    refine inductionHypothesis _ ?_
    rcases race.step_cases first with
      same | ⟨index, _, _, _, same⟩ |
        ⟨index, stamp, call, seen, _, _, isHeld, same⟩
    · rw [same]
      exact ⟨holds, fits⟩
    · rw [same]
      refine ⟨holds, ?_⟩
      intro other seen isHeld
      rcases held_update isHeld with ⟨_, ⟨⟩⟩ | ⟨_, wasHeld⟩
      · exact reads _ holds
      · exact fits other seen wasHeld
    · rw [same]
      refine ⟨writes _ call stamp seen holds (fits index seen isHeld), ?_⟩
      intro other otherSeen otherHeld
      rcases held_update otherHeld with ⟨_, ⟨⟩⟩ | ⟨_, wasHeld⟩
      exact fits other otherSeen wasHeld

/-- Unbroken calls have the effect of running alone, one after the other. -/
theorem register_eq_serial
    {register : Register}
    {steps : List (RaceStep Stamp)}
    (unbroken :
      GuardedRun (step view write calls) (Unbroken view) (start register)
        steps) :
    (steps.foldl (step view write calls) (start register)).register =
      ((steps.foldl (step view write calls) (start register)).serial
        calls).foldl (runAlone view write) register := by
  refine GuardedRun.invariant
    (fun race => race.register =
      (race.serial calls).foldl (runAlone view write) register)
    ?_ rfl unbroken
  intro race raceStep holds allowed
  rcases race.step_cases raceStep with
    same | ⟨index, _, _, _, same⟩ |
      ⟨index, stamp, call, seen, isWrite, isCall, isHeld, same⟩
  · rw [same]
    exact holds
  · rw [same]
    exact holds
  · rw [isWrite] at allowed
    rw [same]
    have shows := allowed seen isHeld
    simp only [serial, filterMap_append, foldl_append]
    simp only [serial] at holds
    rw [← holds]
    simp [isCall, runAlone, shows]

end Runs

end Race

end Mitiflow.Library
