import SysAnalyzer.Foundation.OrderedMap

/-!
# Maps of half-open intervals

The keys of an ordered map are the starts of intervals whose ends are read off
the values.  When the intervals are not empty and do not overlap, the one that
holds a point is the last one that starts up to the point, and the ones that
reach behind a point are all entries from one number on.
-/

namespace SysAnalyzer.Foundation

open List

universe u v

variable {Key : Type u} {Value : Type v} [LinearOrder Key]

/-- The intervals of a map are not empty, and none reaches into a later one. -/
structure DisjointIntervals (stop : Value → Key)
    (map : OrderedMap Key Value) : Prop where
  nonempty : ∀ entry ∈ map.entries, entry.1 < stop entry.2
  apart : ∀ earlier ∈ map.entries, ∀ later ∈ map.entries,
    earlier.1 < later.1 → stop earlier.2 ≤ later.1

namespace DisjointIntervals

variable {stop : Value → Key} {map : OrderedMap Key Value}

theorem empty : DisjointIntervals stop (OrderedMap.empty : OrderedMap Key Value) :=
  ⟨fun _ member => absurd member not_mem_nil, fun _ member => absurd member not_mem_nil⟩

section

variable (disjoint : DisjointIntervals stop map)
include disjoint

theorem eraseWhere (select : Key → Bool) : DisjointIntervals stop (map.eraseWhere select) := by
  refine ⟨?_, ?_⟩
  · intro entry member
    exact disjoint.nonempty entry (map.mem_eraseWhere.1 member).1
  · intro earlier ofEarlier later ofLater
    exact disjoint.apart earlier (map.mem_eraseWhere.1 ofEarlier).1 later
      (map.mem_eraseWhere.1 ofLater).1

end

/-- An interval has no point in common with those of the map. -/
def Free (stop : Value → Key) (map : OrderedMap Key Value) (first last : Key) : Prop :=
  ∀ entry ∈ map.entries, stop entry.2 ≤ first ∨ last ≤ entry.1

section

variable (disjoint : DisjointIntervals stop map)
include disjoint

theorem Free.key_ne {first last : Key} (free : Free stop map first last) (less : first < last) :
    ∀ entry ∈ map.entries, entry.1 ≠ first := by
  intro entry member same
  rcases free entry member with before | behind
  · rw [← same] at before
    exact absurd (disjoint.nonempty entry member) (not_lt_of_ge before)
  · rw [same] at behind
    exact absurd less (not_lt_of_ge behind)

theorem insert {key : Key} {value : Value}
    (less : key < stop value) (free : Free stop map key (stop value)) :
    DisjointIntervals stop (map.insert key value) := by
  have mem := map.mem_insert_of_not_mem value (free.key_ne disjoint less)
  refine ⟨?_, ?_⟩
  · intro entry member
    rcases (mem entry).1 member with rfl | ofMap
    · exact less
    · exact disjoint.nonempty entry ofMap
  · intro earlier ofEarlier later ofLater before
    rcases (mem earlier).1 ofEarlier with rfl | earlierOfMap
    · rcases (mem later).1 ofLater with rfl | laterOfMap
      · exact absurd before (lt_irrefl _)
      · rcases free later laterOfMap with isBefore | isBehind
        · exact absurd (disjoint.nonempty later laterOfMap)
            (not_lt_of_ge (isBefore.trans (le_of_lt before)))
        · exact isBehind
    · rcases (mem later).1 ofLater with rfl | laterOfMap
      · rcases free earlier earlierOfMap with isBefore | isBehind
        · exact isBefore
        · exact absurd (less.trans_le isBehind) (not_lt_of_gt before)
      · exact disjoint.apart earlier earlierOfMap later laterOfMap before

theorem lastUpTo_of_holds {entry : Key × Value}
    (member : entry ∈ map.entries) {point : Key} (upTo : entry.1 ≤ point)
    (holds : point < stop entry.2) : map.lastUpTo point = some entry := by
  refine map.lastUpTo_eq_some_iff.2 ⟨member, upTo, ?_⟩
  intro other ofOther otherUpTo
  by_contra larger
  exact absurd (disjoint.apart entry member other ofOther (lt_of_not_ge larger))
    (not_le_of_gt (otherUpTo.trans_lt holds))

end

end DisjointIntervals

end SysAnalyzer.Foundation
