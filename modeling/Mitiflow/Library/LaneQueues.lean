import Mathlib

namespace Mitiflow.Library

open List Function

/-!
# Queues by lane

Items are sent one after another, each to the queue of its lane; the lanes are
emptied into one output at their own pace.  Whatever the schedule, the output
and the queue of a lane together are what was sent to that lane, in order.
-/

section Lanes

variable {Lane Item : Type} [DecidableEq Lane]

/-- The queue of each lane and the common output. -/
structure Lanes (Lane Item : Type) where
  queues : Lane → List Item := fun _ => []
  output : List Item := []

namespace Lanes

def send (lanes : Lanes Lane Item) (lane : Lane) (item : Item) :
    Lanes Lane Item :=
  { lanes with
    queues := update lanes.queues lane (lanes.queues lane ++ [item]) }

def take (lanes : Lanes Lane Item) (lane : Lane) : Lanes Lane Item :=
  match lanes.queues lane with
  | [] => lanes
  | item :: rest =>
    { queues := update lanes.queues lane rest
      output := lanes.output ++ [item] }

/-- Output and queue of every lane are what was sent to it, in order. -/
def Carries
    (laneOf : Item → Lane)
    (sent : List Item)
    (lanes : Lanes Lane Item) : Prop :=
  ∀ lane,
    lanes.output.filter (laneOf · = lane) ++ lanes.queues lane =
      sent.filter (laneOf · = lane)

variable {laneOf : Item → Lane} {sent : List Item} {lanes : Lanes Lane Item}

theorem carries_empty (laneOf : Item → Lane) :
    Carries laneOf [] ({} : Lanes Lane Item) :=
  fun _ => rfl

section

variable (carries : Carries laneOf sent lanes)

include carries

theorem Carries.send
    (item : Item) :
    Carries laneOf (sent ++ [item]) (lanes.send (laneOf item) item) := by
  intro lane
  rw [filter_append, ← carries lane, append_assoc]
  by_cases own : laneOf item = lane
  · subst own
    simp [Lanes.send]
  · simp [Lanes.send, own, update_of_ne (Ne.symm own)]

theorem Carries.laneOf_queued
    {lane : Lane}
    {item : Item}
    (queued : item ∈ lanes.queues lane) :
    laneOf item = lane := by
  have member : item ∈ sent.filter (laneOf · = lane) := by
    rw [← carries lane]
    exact mem_append_right _ queued
  exact of_decide_eq_true (mem_filter.mp member).2

theorem Carries.take
    (lane : Lane) :
    Carries laneOf sent (lanes.take lane) := by
  unfold Lanes.take
  cases isQueue : lanes.queues lane with
  | nil =>
    exact carries
  | cons item rest =>
    have isOwn : laneOf item = lane :=
      carries.laneOf_queued (by rw [isQueue]; exact mem_cons_self)
    intro other
    rw [← carries other]
    by_cases same : lane = other
    · subst same
      simp [isQueue, isOwn]
    · have notOther : laneOf item ≠ other := by
        rw [isOwn]
        exact same
      simp [notOther, update_of_ne (Ne.symm same)]

/-- Once the lanes are empty, each lane's output is what was sent to it. -/
theorem Carries.filter_output
    (drained : ∀ lane, lanes.queues lane = [])
    (lane : Lane) :
    lanes.output.filter (laneOf · = lane) =
      sent.filter (laneOf · = lane) := by
  rw [← carries lane, drained lane, append_nil]

/-- Once the lanes are empty, the output is what was sent, rearranged. -/
theorem Carries.perm
    [DecidableEq Item]
    (drained : ∀ lane, lanes.queues lane = []) :
    lanes.output.Perm sent := by
  rw [perm_iff_count]
  intro item
  have counted (items : List Item) :
      items.count item =
        (items.filter (laneOf · = laneOf item)).count item := by
    rw [count_filter (by simp)]
  rw [counted, counted sent, carries.filter_output drained]

end

/-- A class of items that share a lane keeps its order. -/
theorem Carries.filter_class
    {Class : Type}
    [DecidableEq Class]
    {classOf : Item → Class}
    (laneOfClass : Class → Lane)
    (byClass : ∀ item, laneOf item = laneOfClass (classOf item))
    (carries : Carries laneOf sent lanes)
    (drained : ∀ lane, lanes.queues lane = [])
    (wanted : Class) :
    lanes.output.filter (classOf · = wanted) =
      sent.filter (classOf · = wanted) := by
  have within (items : List Item) :
      items.filter (classOf · = wanted) =
        (items.filter (laneOf · = laneOfClass wanted)).filter
          (classOf · = wanted) := by
    rw [filter_filter]
    apply filter_congr
    intro item _
    by_cases isWanted : classOf item = wanted
    · simp [isWanted, byClass]
    · simp [isWanted]
  rw [within, within sent, carries.filter_output drained]

end Lanes

end Lanes

end Mitiflow.Library
