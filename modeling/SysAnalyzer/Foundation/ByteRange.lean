import Mathlib.Data.List.Basic

/-!
# Ranges of bytes in a buffer

What code reads of a buffer is a list of ranges, counted from the start of the
buffer.  A range is inside when each of its bytes is; an empty one always is.
-/

namespace SysAnalyzer.Foundation

open List

/-- The bytes from `start` on and before `stop`. -/
structure ByteRange where
  start : Nat
  stop : Nat
  deriving DecidableEq

namespace ByteRange

def Inside (range : ByteRange) (size : Nat) : Prop :=
  ∀ position, range.start ≤ position → position < range.stop → position < size

variable {range : ByteRange} {size : Nat}

theorem inside_iff (nonempty : range.start < range.stop) :
    range.Inside size ↔ range.stop ≤ size := by
  constructor
  · intro inside
    have last := inside (range.stop - 1) (by omega) (by omega)
    omega
  · intro bounded position _ behind
    omega

theorem inside_of_le (bounded : range.stop ≤ size) : range.Inside size :=
  fun _ _ behind => Nat.lt_of_lt_of_le behind bounded

theorem inside_of_empty (empty : range.stop ≤ range.start) : range.Inside size :=
  fun _ lower behind => absurd (Nat.lt_of_lt_of_le behind empty) (Nat.not_lt.2 lower)

end ByteRange

def AllInside (ranges : List ByteRange) (size : Nat) : Prop := ∀ range ∈ ranges, range.Inside size

section AllInside

variable {ranges others : List ByteRange} {range : ByteRange} {size : Nat}

@[simp]
theorem allInside_nil : AllInside [] size := by rintro _ ⟨⟩

@[simp]
theorem allInside_cons :
    AllInside (range :: ranges) size ↔ range.Inside size ∧ AllInside ranges size :=
  forall_mem_cons

@[simp]
theorem allInside_append :
    AllInside (ranges ++ others) size ↔ AllInside ranges size ∧ AllInside others size :=
  forall_mem_append

theorem allInside_flatMap {Item : Type*} {items : List Item} {rangesOf : Item → List ByteRange} :
    AllInside (items.flatMap rangesOf) size ↔ ∀ item ∈ items, AllInside (rangesOf item) size := by
  constructor
  · intro inside item member range ofItem
    exact inside range (mem_flatMap.2 ⟨item, member, ofItem⟩)
  · intro inside range member
    rcases mem_flatMap.1 member with ⟨item, listed, ofItem⟩
    exact inside item listed range ofItem

end AllInside

end SysAnalyzer.Foundation
