import Mathlib.Data.Nat.Periodic

/-!
# A ring of slots

Places are counted without end and a ring of `size` slots keeps the places of a
window: place `place` is in slot `place % size`.  `Holds` says of a ring what
each place of the window that starts at `first` has in its slot.  A store to a
slot changes one place, and the window moves by one when its first slot is
given to the place behind it.
-/

namespace SysAnalyzer.Foundation

open Function

universe u

variable {Slot : Type u}

/-- Every place of the window that starts at `first` fits its slot. -/
def RingHolds (size : Nat) (slots : Nat → Slot) (first : Nat) (fits : Nat → Slot → Prop) : Prop :=
  ∀ place, first ≤ place → place < first + size → fits place (slots (place % size))

theorem ring_place_unique {size first place other : Nat}
    (above : first ≤ place) (below : place < first + size)
    (otherAbove : first ≤ other) (otherBelow : other < first + size)
    (sameSlot : other % size = place % size) : other = place :=
  Nat.mod_injOn_Ico first size (Finset.mem_coe.2 (Finset.mem_Ico.2 ⟨otherAbove, otherBelow⟩))
    (Finset.mem_coe.2 (Finset.mem_Ico.2 ⟨above, below⟩)) sameSlot

namespace RingHolds

variable {size first place : Nat} {slots : Nat → Slot}
  {fits fits' : Nat → Slot → Prop}

section

variable (holds : RingHolds size slots first fits)
include holds

theorem imp (weaken : ∀ other slot, first ≤ other → fits other slot → fits' other slot) :
    RingHolds size slots first fits' :=
  fun other above below => weaken other _ above (holds other above below)

theorem store (above : first ≤ place) (below : place < first + size)
    {slot : Slot} (atPlace : fits' place slot) (atOthers :
      ∀ other slot, first ≤ other → other ≠ place →
        other % size ≠ place % size → fits other slot → fits' other slot) :
    RingHolds size (Function.update slots (place % size) slot) first fits' := by
  intro other otherAbove otherBelow
  by_cases isPlace : other = place
  · subst isPlace
    rwa [update_self]
  · have otherSlot : other % size ≠ place % size := fun sameSlot =>
      isPlace (ring_place_unique above below otherAbove otherBelow sameSlot)
    rw [update_of_ne otherSlot]
    exact atOthers other _ otherAbove isPlace otherSlot (holds other otherAbove otherBelow)

theorem release {slot : Slot} (atNext : fits' (first + size) slot) (atOthers :
    ∀ other slot, first < other → fits other slot → fits' other slot) :
    RingHolds size (Function.update slots (first % size) slot) (first + 1) fits' := by
  intro other otherAbove otherBelow
  have nextSlot : (first + size) % size = first % size := Nat.add_mod_right first size
  by_cases isNext : other = first + size
  · rw [isNext, nextSlot, update_self]
    exact atNext
  · have inWindow : other < first + size := by omega
    have positive : 0 < size := by omega
    have otherSlot : other % size ≠ first % size := by
      intro sameSlot
      have same := ring_place_unique (Nat.le_refl first) (by omega) (by omega) inWindow sameSlot
      omega
    rw [update_of_ne otherSlot]
    exact atOthers other _ otherAbove (holds other (by omega) inWindow)

end

end RingHolds

end SysAnalyzer.Foundation
