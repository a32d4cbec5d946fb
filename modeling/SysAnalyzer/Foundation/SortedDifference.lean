import Mathlib.Data.List.Perm.Basic
import Mathlib.Data.List.Nodup
import Mathlib.Order.Defs.PartialOrder

/-!
# What two keyed lists do not share

`onlyIn key first second` keeps the elements of the first list whose key does
not occur in the second.  Where both lists increase along their keys, comparing
their heads decides one element at a time; the lemmas below are the three
outcomes of that comparison.

The two differences of a pair of lists have the same difference in length as the
lists themselves, in whatever order the lists stand.
-/

namespace SysAnalyzer.Foundation

open List

universe u v

variable {Element : Type u} {Key : Type v} [DecidableEq Key]
variable (key : Element → Key)

def onlyIn (first second : List Element) : List Element :=
  first.filter fun element => decide (key element ∉ second.map key)

def sharedWith (first second : List Element) : List Element :=
  first.filter fun element => decide (key element ∈ second.map key)

@[simp]
theorem onlyIn_nil_left (second : List Element) : onlyIn key [] second = [] := rfl

@[simp]
theorem onlyIn_nil_right (first : List Element) : onlyIn key first [] = first := by simp [onlyIn]

variable {key}

theorem onlyIn_perm {first first' second second' : List Element}
    (samePlace : first.Perm first') (sameOther : second.Perm second') :
    (onlyIn key first second).Perm (onlyIn key first' second') := by
  have sameKeys : ∀ element, key element ∈ second.map key ↔ key element ∈ second'.map key :=
    fun element => (sameOther.map key).mem_iff
  have sameFilter : onlyIn key first' second = onlyIn key first' second' := by
    simp only [onlyIn, sameKeys]
  rw [← sameFilter]
  exact samePlace.filter _

section Sorted

variable [Preorder Key] {head other : Element} {first second : List Element}

theorem onlyIn_cons_of_below (below : ∀ element ∈ second, key head < key element) :
    onlyIn key (head :: first) second = head :: onlyIn key first second := by
  have notShared : key head ∉ second.map key := by
    intro shared
    rcases mem_map.1 shared with ⟨element, member, same⟩
    exact lt_irrefl _ (same ▸ below element member)
  rw [onlyIn, filter_cons_of_pos (by simpa using notShared)]
  rfl

theorem onlyIn_cons_right_of_below (below : ∀ element ∈ first, key other < key element) :
    onlyIn key first (other :: second) = onlyIn key first second := by
  refine filter_congr ?_
  intro element member
  have notSame : key element ≠ key other := fun same => lt_irrefl _ (same ▸ below element member)
  simp [notSame]

theorem onlyIn_cons_cons_of_eq (same : key head = key other)
    (below : ∀ element ∈ first, key head < key element) :
    onlyIn key (head :: first) (other :: second) = onlyIn key first second := by
  have shared : key head ∈ (other :: second).map key := by
    rw [same]
    exact mem_map_of_mem mem_cons_self
  have notOnly : ¬ decide (key head ∉ (other :: second).map key) = true := by
    rw [decide_eq_true_eq]
    exact not_not_intro shared
  have dropped : onlyIn key (head :: first) (other :: second) =
    onlyIn key first (other :: second) :=
    filter_cons_of_neg notOnly
  rw [dropped]
  exact onlyIn_cons_right_of_below (same ▸ below)

end Sorted

theorem length_sharedWith_comm {first second : List Element}
    (firstKeys : (first.map key).Nodup) (secondKeys : (second.map key).Nodup) :
    (sharedWith key first second).length = (sharedWith key second first).length := by
  have sameKeys : ((sharedWith key first second).map key).Perm
    ((sharedWith key second first).map key) := by
    refine (perm_ext_iff_of_nodup ?_ ?_).2 ?_
    · exact firstKeys.sublist (filter_sublist.map key)
    · exact secondKeys.sublist (filter_sublist.map key)
    · intro value
      simp only [sharedWith, mem_map, mem_filter, decide_eq_true_eq]
      constructor
      · rintro ⟨element, ⟨ofFirst, other, ofSecond, same⟩, rfl⟩
        exact ⟨other, ⟨ofSecond, element, ofFirst, same.symm⟩, same⟩
      · rintro ⟨element, ⟨ofSecond, other, ofFirst, same⟩, rfl⟩
        exact ⟨other, ⟨ofFirst, element, ofSecond, same.symm⟩, same⟩
  simpa using sameKeys.length_eq

variable (key) in
theorem length_onlyIn_add_sharedWith (first second : List Element) :
    (onlyIn key first second).length + (sharedWith key first second).length = first.length := by
  rw [onlyIn, sharedWith]
  induction first with
  | nil => rfl
  | cons head first induction =>
    by_cases shared : key head ∈ second.map key
    · rw [filter_cons_of_neg (by simpa using shared),
        filter_cons_of_pos (by simpa using shared), length_cons,
        length_cons, ← induction, Nat.add_assoc]
    · rw [filter_cons_of_pos (by simpa using shared),
        filter_cons_of_neg (by simpa using shared), length_cons,
        length_cons, ← induction, Nat.add_right_comm]

theorem length_onlyIn_sub {first second : List Element}
    (firstKeys : (first.map key).Nodup) (secondKeys : (second.map key).Nodup) :
    ((onlyIn key first second).length : Int) - (onlyIn key second first).length =
      first.length - second.length := by
  have inFirst := length_onlyIn_add_sharedWith key first second
  have inSecond := length_onlyIn_add_sharedWith key second first
  have shared := length_sharedWith_comm firstKeys secondKeys
  omega

end SysAnalyzer.Foundation
