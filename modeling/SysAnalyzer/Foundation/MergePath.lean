import Mathlib

/-!
# The path of a two-list merge

A merge of two lists by keys stands at a pair of heads and advances the side
with the smaller key, until one side is exhausted.  `mergePath` lists the pairs
it stands at.  For lists sorted by their keys the pairs are characterised
without the path: a pair is met exactly when everything before either member
is smaller than the other member.
-/

namespace SysAnalyzer.Foundation

open List

universe u v w

variable {Left : Type u} {Right : Type v} {Key : Type w} [LinearOrder Key]
variable (keyLeft : Left → Key) (keyRight : Right → Key)

/-- The pairs of heads a merge meets; on equal keys the right side advances. -/
def mergePath : List Left → List Right → List (Left × Right)
  | [], _ => []
  | _ :: _, [] => []
  | a :: left, b :: right =>
    if keyLeft a < keyRight b then (a, b) :: mergePath left (b :: right)
    else (a, b) :: mergePath (a :: left) right
  termination_by left right => left.length + right.length

variable {keyLeft} {keyRight}

theorem mem_of_mem_mergePath {left : List Left} {right : List Right} {pair : Left × Right}
    (met : pair ∈ mergePath keyLeft keyRight left right) : pair.1 ∈ left ∧ pair.2 ∈ right := by
  induction left, right using mergePath.induct keyLeft keyRight with
  | case1 right => simp [mergePath] at met
  | case2 a left => simp [mergePath] at met
  | case3 a left b right smaller induction =>
    rw [mergePath, if_pos smaller, mem_cons] at met
    rcases met with rfl | later
    · simp
    · have inside := induction later
      exact ⟨mem_cons_of_mem _ inside.1, inside.2⟩
  | case4 a left b right notSmaller induction =>
    rw [mergePath, if_neg notSmaller, mem_cons] at met
    rcases met with rfl | later
    · simp
    · have inside := induction later
      exact ⟨inside.1, mem_cons_of_mem _ inside.2⟩

section

variable {left : List Left}
  (sortedLeft : left.Pairwise fun x y => keyLeft x < keyLeft y)
include sortedLeft

/-- The pairs that the path meets. -/
theorem mem_mergePath_iff {right : List Right}
    (sortedRight : right.Pairwise fun x y => keyRight x < keyRight y) (a : Left) (b : Right) :
    (a, b) ∈ mergePath keyLeft keyRight left right ↔ a ∈ left ∧ b ∈ right ∧
      (∀ x ∈ left, keyLeft x < keyLeft a → keyLeft x < keyRight b) ∧
      ∀ y ∈ right, keyRight y < keyRight b → keyRight y ≤ keyLeft a := by
  induction left, right using mergePath.induct keyLeft keyRight with
  | case1 right => simp [mergePath]
  | case2 head left => simp [mergePath]
  | case3 head left other right smaller induction =>
    rcases pairwise_cons.1 sortedLeft with ⟨headLt, sortedTail⟩
    rcases pairwise_cons.1 sortedRight with ⟨otherLt, _⟩
    have otherLe : ∀ y ∈ other :: right, keyRight other ≤ keyRight y := by
      intro y member
      rcases mem_cons.1 member with rfl | later
      · exact le_rfl
      · exact (otherLt y later).le
    rw [mergePath, if_pos smaller, mem_cons, induction sortedTail sortedRight]
    constructor
    · rintro (same | ⟨inLeft, inRight, leftFree, rightFree⟩)
      · cases same
        refine ⟨mem_cons_self, mem_cons_self, ?_, ?_⟩
        · intro x member less
          rcases mem_cons.1 member with rfl | later
          · exact absurd less (lt_irrefl _)
          · exact absurd less (headLt x later).not_gt
        · intro y member less
          exact absurd less (otherLe y member).not_gt
      · refine ⟨mem_cons_of_mem _ inLeft, inRight, ?_, rightFree⟩
        intro x member less
        rcases mem_cons.1 member with rfl | later
        · exact smaller.trans_le (otherLe b inRight)
        · exact leftFree x later less
    · rintro ⟨inLeft, inRight, leftFree, rightFree⟩
      rcases mem_cons.1 inLeft with rfl | later
      · left
        rcases mem_cons.1 inRight with rfl | laterRight
        · rfl
        · have held :=
            rightFree other mem_cons_self (otherLt b laterRight)
          exact absurd smaller held.not_gt
      · right
        exact ⟨later, inRight, fun x member => leftFree x (mem_cons_of_mem _ member), rightFree⟩
  | case4 head left other right notSmaller induction =>
    rcases pairwise_cons.1 sortedLeft with ⟨headLt, _⟩
    rcases pairwise_cons.1 sortedRight with ⟨otherLt, sortedTail⟩
    have headLe : ∀ x ∈ head :: left, keyLeft head ≤ keyLeft x := by
      intro x member
      rcases mem_cons.1 member with rfl | later
      · exact le_rfl
      · exact (headLt x later).le
    have otherLe : ∀ y ∈ other :: right, keyRight other ≤ keyRight y := by
      intro y member
      rcases mem_cons.1 member with rfl | later
      · exact le_rfl
      · exact (otherLt y later).le
    rw [mergePath, if_neg notSmaller, mem_cons, induction sortedLeft sortedTail]
    constructor
    · rintro (same | ⟨inLeft, inRight, leftFree, rightFree⟩)
      · cases same
        refine ⟨mem_cons_self, mem_cons_self, ?_, ?_⟩
        · intro x member less
          exact absurd less (headLe x member).not_gt
        · intro y member less
          exact absurd less (otherLe y member).not_gt
      · refine ⟨inLeft, mem_cons_of_mem _ inRight, leftFree, ?_⟩
        intro y member less
        rcases mem_cons.1 member with rfl | later
        · exact (not_lt.1 notSmaller).trans (headLe a inLeft)
        · exact rightFree y later less
    · rintro ⟨inLeft, inRight, leftFree, rightFree⟩
      rcases mem_cons.1 inRight with rfl | later
      · left
        rcases mem_cons.1 inLeft with rfl | laterLeft
        · rfl
        · exact absurd (leftFree head mem_cons_self (headLt a laterLeft)) notSmaller
      · right
        exact ⟨inLeft, later, leftFree, fun y member => rightFree y (mem_cons_of_mem _ member)⟩

theorem nodup_mergePath {right : List Right}
    (sortedRight : right.Pairwise fun x y => keyRight x < keyRight y) :
    (mergePath keyLeft keyRight left right).Nodup := by
  induction left, right using mergePath.induct keyLeft keyRight with
  | case1 right => simp [mergePath]
  | case2 a left => simp [mergePath]
  | case3 a left b right smaller induction =>
    rcases pairwise_cons.1 sortedLeft with ⟨headLt, sortedTail⟩
    rw [mergePath, if_pos smaller, nodup_cons]
    refine ⟨fun again => ?_, induction sortedTail sortedRight⟩
    exact (headLt a (mem_of_mem_mergePath again).1).false
  | case4 a left b right notSmaller induction =>
    rcases pairwise_cons.1 sortedRight with ⟨headLt, sortedTail⟩
    rw [mergePath, if_neg notSmaller, nodup_cons]
    refine ⟨fun again => ?_, induction sortedLeft sortedTail⟩
    exact (headLt b (mem_of_mem_mergePath again).2).false

end

end SysAnalyzer.Foundation
