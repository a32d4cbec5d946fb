import SysAnalyzer.Foundation.OrderedMap

/-!
# Caches of computed values

A cache keeps values of a function that may fail.  It is sound when every value
in it is the one that the function gives now.  The function changes with what
it reads; a cache stays sound when the keys whose values change have been
removed before.
-/

namespace SysAnalyzer.Foundation

universe u v

variable {Key : Type u} {Value : Type v} [LinearOrder Key]

/-- Every value that is kept is the one that would be computed. -/
def Memoizes (compute : Key → Option Value) (cache : OrderedMap Key Value) : Prop :=
  ∀ entry ∈ cache.entries, compute entry.1 = some entry.2

def keptOr (compute : Key → Option Value) (cache : OrderedMap Key Value)
    (key : Key) : Option Value :=
  (cache.find? key).or (compute key)

variable {compute : Key → Option Value} {cache : OrderedMap Key Value}

@[simp]
theorem keptOr_empty (compute : Key → Option Value) (key : Key) :
    keptOr compute .empty key = compute key :=
  rfl

namespace Memoizes

theorem empty : Memoizes compute .empty := fun _ member => absurd member List.not_mem_nil

section

variable (memoizes : Memoizes compute cache)
include memoizes

theorem keptOr_eq (key : Key) : keptOr compute cache key = compute key := by
  unfold keptOr
  cases kept : cache.find? key with
  | none => rfl
  | some value => exact (memoizes (key, value) (cache.find?_eq_some_iff.1 kept)).symm

theorem insert {key : Key} {value : Value} (computed : compute key = some value) :
    Memoizes compute (cache.insert key value) := by
  cases kept : cache.find? key with
  | some old =>
    rw [cache.insert_of_mem value (cache.find?_eq_some_iff.1 kept)]
    exact memoizes
  | none =>
    intro entry member
    have absent := cache.find?_eq_none_iff.1 kept
    rcases (cache.mem_insert_of_not_mem value absent entry).1 member with
      rfl | isKept
    · exact computed
    · exact memoizes entry isKept

theorem congr {computeNext : Key → Option Value} (agree :
    ∀ entry ∈ cache.entries, compute entry.1 = some entry.2 →
      computeNext entry.1 = compute entry.1) : Memoizes computeNext cache := by
  intro entry member
  have computed := memoizes entry member
  rw [agree entry member computed, computed]

end

end Memoizes

end SysAnalyzer.Foundation
