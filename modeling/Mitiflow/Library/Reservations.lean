import Mathlib

namespace Mitiflow.Library

/-!
# Reservations

Items are handed out by several parties.  A party may hand out an item
directly, or first reserve a set of items and hand them out one by one later.
If nothing is reserved or handed out directly that already was, each item is
handed out at most once, whatever the parties do in between.
-/

/-- What was handed out, oldest first, and what each holder may still. -/
structure Ledger (Item Holder : Type) where
  issued : List Item
  reserved : Holder → Set Item

namespace Ledger

variable {Item Holder : Type}

/-- No item is handed out twice, nor can be. -/
structure Sound (ledger : Ledger Item Holder) : Prop where
  nodup : ledger.issued.Nodup
  unissued :
    ∀ item ∈ ledger.issued, ∀ holder, item ∉ ledger.reserved holder
  disjoint :
    ∀ first second, first ≠ second →
      Disjoint (ledger.reserved first) (ledger.reserved second)

/-- An item is neither handed out nor reserved. -/
def Fresh (ledger : Ledger Item Holder) (item : Item) : Prop :=
  item ∉ ledger.issued ∧ ∀ holder, item ∉ ledger.reserved holder

variable {ledger : Ledger Item Holder}

theorem sound_empty : Sound (⟨[], fun _ => ∅⟩ : Ledger Item Holder) where
  nodup := List.nodup_nil
  unissued := by
    intro item member
    cases member
  disjoint := fun _ _ _ => Set.disjoint_empty _

variable {reserved : Holder → Set Item}

theorem Sound.shrink
    (sound : ledger.Sound)
    (smaller : ∀ holder, reserved holder ⊆ ledger.reserved holder) :
    Sound ⟨ledger.issued, reserved⟩ where
  nodup := sound.nodup
  unissued := fun item isIssued holder isReserved =>
    sound.unissued item isIssued holder (smaller holder isReserved)
  disjoint := fun first second distinct =>
    (sound.disjoint first second distinct).mono (smaller first) (smaller second)

theorem Sound.issue
    (sound : ledger.Sound)
    {item : Item}
    (fresh : ledger.Fresh item) :
    Sound ⟨ledger.issued ++ [item], ledger.reserved⟩ where
  nodup :=
    List.nodup_append.mpr ⟨sound.nodup, List.nodup_singleton item, by
      intro earlier isIssued last isLast same
      rw [List.mem_singleton] at isLast
      rw [same, isLast] at isIssued
      exact fresh.1 isIssued⟩
  unissued := by
    intro other isIssued
    rcases List.mem_append.mp isIssued with earlier | isLast
    · exact sound.unissued other earlier
    · rw [List.mem_singleton.mp isLast]
      exact fresh.2
  disjoint := sound.disjoint

/-- A holder may hand out an item it reserved, and then no longer holds it. -/
theorem Sound.redeem
    (sound : ledger.Sound)
    {holder : Holder}
    {item : Item}
    (isReserved : item ∈ ledger.reserved holder)
    (smaller : ∀ other, reserved other ⊆ ledger.reserved other)
    (released : item ∉ reserved holder) :
    Sound ⟨ledger.issued ++ [item], reserved⟩ := by
  refine (sound.shrink smaller).issue ⟨?_, ?_⟩
  · intro isIssued
    exact sound.unissued item isIssued holder isReserved
  · intro other
    by_cases isHolder : other = holder
    · rw [isHolder]
      exact released
    · intro otherReserved
      exact Set.disjoint_left.mp (sound.disjoint other holder isHolder)
        (smaller other otherReserved) isReserved

/-- Fresh items may be reserved by a holder that holds nothing. -/
theorem Sound.reserve
    (sound : ledger.Sound)
    (holder : Holder)
    (others : ∀ other, other ≠ holder → reserved other = ledger.reserved other)
    (fresh : ∀ item ∈ reserved holder, ledger.Fresh item) :
    Sound ⟨ledger.issued, reserved⟩ := by
  have disjointHolder (other : Holder) (isOther : other ≠ holder) :
      Disjoint (reserved other) (reserved holder) := by
    rw [Set.disjoint_left, others other isOther]
    intro item inOther inHolder
    exact (fresh item inHolder).2 other inOther
  refine ⟨sound.nodup, ?_, ?_⟩
  · intro item isIssued other isReserved
    by_cases isHolder : other = holder
    · subst isHolder
      exact (fresh item isReserved).1 isIssued
    · have wasReserved : item ∈ ledger.reserved other := by
        rw [← others other isHolder]
        exact isReserved
      exact sound.unissued item isIssued other wasReserved
  · intro first second distinct
    by_cases firstHolder : first = holder
    · subst firstHolder
      exact (disjointHolder second distinct.symm).symm
    · by_cases secondHolder : second = holder
      · subst secondHolder
        exact disjointHolder first firstHolder
      · change Disjoint (reserved first) (reserved second)
        rw [others first firstHolder, others second secondHolder]
        exact sound.disjoint first second distinct

end Ledger

end Mitiflow.Library
