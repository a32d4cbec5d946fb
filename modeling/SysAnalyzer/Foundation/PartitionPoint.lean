import Mathlib.Tactic.Ring

/-!
# Binary search over an index window

`partitionPoint below first last` is the loop of the standard binary searches:
it halves the window `[first, last)` and keeps the half that `below` selects.
Both the lower and the upper bound of a key are instances of it, with `below`
reading "smaller than the key" and "not larger than the key".

The loop always answers inside the window, whatever the predicate is.  When
the predicate is true on an initial segment of the window only, the answer is
the end of that segment.
-/

namespace SysAnalyzer.Foundation

/-- The halving loop; `fuel` bounds its iterations and `len` is the window's length. -/
def searchFrom (below : Int → Bool) : Nat → Int → Nat → Int
  | 0, first, _ => first
  | fuel + 1, first, len =>
    if len = 0 then first
    else if below (first + (len / 2 : Nat)) then
      searchFrom below fuel (first + (len / 2 : Nat) + 1) (len - len / 2 - 1)
    else searchFrom below fuel first (len / 2)

/-- Binary search of the window `[first, last)`; an inverted window answers `first`. -/
def partitionPoint (below : Int → Bool) (first last : Int) : Int :=
  searchFrom below (last - first).toNat first (last - first).toNat

/-- The predicate never turns true again once it has been false in the window. -/
def InitialSegment (below : Int → Bool) (first last : Int) : Prop :=
  ∀ lower upper, first ≤ lower → lower ≤ upper → upper < last →
    below upper = true → below lower = true

variable (below : Int → Bool)

theorem searchFrom_bounds (fuel : Nat) (first : Int) (len : Nat) :
    first ≤ searchFrom below fuel first len ∧ searchFrom below fuel first len ≤ first + len := by
  induction fuel generalizing first len with
  | zero => simp [searchFrom]
  | succ fuel induction =>
    rw [searchFrom]
    split_ifs with empty isBelow
    · omega
    · have tail := induction (first + (len / 2 : Nat) + 1) (len - len / 2 - 1)
      omega
    · have tail := induction first (len / 2)
      omega

theorem searchFrom_spec (fuel : Nat) (first : Int) (len : Nat)
    (enough : len ≤ fuel) (segment : InitialSegment below first (first + len))
    (index : Int) (lower : first ≤ index) (upper : index < first + len) :
    index < searchFrom below fuel first len ↔ below index = true := by
  -- Induction on the fuel; the window shrinks to one of its halves each time.
  induction fuel generalizing first len with
  | zero => omega
  | succ fuel induction =>
    rw [searchFrom]
    split_ifs with empty isBelow
    · omega
    · by_cases inRight : first + (len / 2 : Nat) + 1 ≤ index
      · apply induction _ _ (by omega) _ inRight (by omega)
        intro low high lowBound ordered highBound highBelow
        exact segment low high (by omega) ordered (by omega) highBelow
      · have belowIndex : below index = true :=
          segment index (first + (len / 2 : Nat)) lower (by omega) (by omega) isBelow
        have bounds :=
          searchFrom_bounds below fuel (first + (len / 2 : Nat) + 1) (len - len / 2 - 1)
        constructor
        · intro _
          exact belowIndex
        · intro _
          omega
    · by_cases inLeft : index < first + (len / 2 : Nat)
      · apply induction _ _ (by omega) _ lower inLeft
        intro low high lowBound ordered highBound highBelow
        exact segment low high lowBound ordered (by omega) highBelow
      · have bounds := searchFrom_bounds below fuel first (len / 2)
        constructor
        · intro small
          omega
        · intro indexBelow
          exact absurd (segment (first + (len / 2 : Nat)) index (by omega)
            (by omega) upper indexBelow) isBelow

theorem le_partitionPoint (first last : Int) : first ≤ partitionPoint below first last :=
  (searchFrom_bounds below _ first _).1

theorem partitionPoint_le_max (first last : Int) :
    partitionPoint below first last ≤ max first last := by
  have bounds := (searchFrom_bounds below (last - first).toNat first (last - first).toNat).2
  unfold partitionPoint
  omega

theorem lt_partitionPoint_iff {below : Int → Bool} {first last : Int}
    (segment : InitialSegment below first last) {index : Int} (lower : first ≤ index) :
    index < partitionPoint below first last ↔ index < last ∧ below index = true := by
  by_cases upper : index < last
  · have window : first + ((last - first).toNat : Int) = last := by omega
    rw [partitionPoint, searchFrom_spec below _ first _ le_rfl
      (by rw [window]; exact segment) index lower
      (by rw [window]; exact upper)]
    simp [upper]
  · have bound := partitionPoint_le_max below first last
    omega

end SysAnalyzer.Foundation
