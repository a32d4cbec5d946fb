import Mathlib.Algebra.Order.BigOperators.Group.Finset
import Mathlib.Dynamics.PeriodicPts.Defs

/-!
# Trees by their parents

A tree is a finite set of vertices with a parent for each, the root its own, from
each of which the root is reached.  What is below a vertex is the vertex itself
and, apart from each other, what is below its children; so sums over what is below
are sums over the children, and what holds of a vertex when it holds of its
children holds of all vertices.
-/

namespace SysAnalyzer.Foundation

open Function

universe u

structure ParentTree (Vertex : Type u) where
  vertices : Finset Vertex
  parent : Vertex → Vertex
  root : Vertex
  root_mem : root ∈ vertices
  parent_mem : ∀ vertex ∈ vertices, parent vertex ∈ vertices
  parent_root : parent root = root
  reaches : ∀ vertex ∈ vertices, ∃ steps, parent^[steps] vertex = root

namespace ParentTree

variable {Vertex : Type u} (tree : ParentTree Vertex)

def Above (upper vertex : Vertex) : Prop := ∃ steps, tree.parent^[steps] vertex = upper

variable {tree}

theorem above_self (vertex : Vertex) : tree.Above vertex vertex := ⟨0, rfl⟩

theorem above_parent (vertex : Vertex) : tree.Above (tree.parent vertex) vertex := ⟨1, rfl⟩

theorem Above.trans {upper middle vertex : Vertex}
    (first : tree.Above upper middle) (second : tree.Above middle vertex) :
    tree.Above upper vertex := by
  rcases first with ⟨outer, rfl⟩
  rcases second with ⟨inner, rfl⟩
  exact ⟨outer + inner, iterate_add_apply _ _ _ _⟩

theorem Above.of_ne {upper vertex : Vertex} (above : tree.Above upper vertex)
    (apart : upper ≠ vertex) : tree.Above upper (tree.parent vertex) := by
  rcases above with ⟨steps, reached⟩
  cases steps with
  | zero => exact absurd reached.symm apart
  | succ steps => exact ⟨steps, reached⟩

theorem iterate_root (steps : Nat) : tree.parent^[steps] tree.root = tree.root :=
  iterate_fixed tree.parent_root steps

theorem eq_root_of_iterate {vertex : Vertex} (member : vertex ∈ tree.vertices)
    {steps : Nat} (positive : 0 < steps)
    (same : tree.parent^[steps] vertex = vertex) : vertex = tree.root := by
  rcases tree.reaches vertex member with ⟨height, reached⟩
  have periodic : Function.IsPeriodicPt tree.parent (steps * height) vertex :=
    Function.IsPeriodicPt.mul_const same height
  have longer : height ≤ steps * height := Nat.le_mul_of_pos_left height positive
  calc
    vertex = tree.parent^[steps * height] vertex := periodic.symm
    _ = tree.parent^[steps * height - height] (tree.parent^[height] vertex) := by
      rw [← iterate_add_apply, Nat.sub_add_cancel longer]
    _ = tree.root := by rw [reached, iterate_root]

theorem Above.total {first second vertex : Vertex}
    (above : tree.Above first vertex) (other : tree.Above second vertex) :
    tree.Above first second ∨ tree.Above second first := by
  rcases above with ⟨steps, rfl⟩
  rcases other with ⟨others, rfl⟩
  rcases Nat.le_total steps others with fewer | more
  · right
    refine ⟨others - steps, ?_⟩
    rw [← iterate_add_apply, Nat.sub_add_cancel fewer]
  · left
    refine ⟨steps - others, ?_⟩
    rw [← iterate_add_apply, Nat.sub_add_cancel more]

/-! ## Children and what is below -/

section Below

open Classical

variable (tree)

/-- The vertices whose parent a vertex is; the root is no child. -/
noncomputable def children (vertex : Vertex) : Finset Vertex :=
  tree.vertices.filter fun child => child ≠ tree.root ∧ tree.parent child = vertex

noncomputable def below (vertex : Vertex) : Finset Vertex :=
  tree.vertices.filter (tree.Above vertex)

variable {tree}

variable {child : Vertex}

theorem mem_children {vertex : Vertex} : child ∈ tree.children vertex ↔
    child ∈ tree.vertices ∧ child ≠ tree.root ∧ tree.parent child = vertex :=
  Finset.mem_filter

variable {lower : Vertex}

theorem mem_below {vertex : Vertex} :
    lower ∈ tree.below vertex ↔ lower ∈ tree.vertices ∧ tree.Above vertex lower :=
  Finset.mem_filter

theorem below_root : tree.below tree.root = tree.vertices := Finset.filter_true_of_mem tree.reaches

theorem not_above_of_child {vertex : Vertex}
    (isChild : child ∈ tree.children vertex) : ¬ tree.Above child vertex := by
  rcases mem_children.1 isChild with ⟨member, notRoot, rfl⟩
  rintro ⟨steps, reached⟩
  apply notRoot
  apply eq_root_of_iterate member (Nat.succ_pos steps)
  rw [iterate_succ_apply]
  exact reached

theorem exists_child_of_above {vertex : Vertex}
    (member : lower ∈ tree.vertices) (above : tree.Above vertex lower) :
    lower = vertex ∨ ∃ child ∈ tree.children vertex, tree.Above child lower := by
  rcases above with ⟨steps, rfl⟩
  induction steps with
  | zero => exact .inl rfl
  | succ steps ih =>
    rw [iterate_succ_apply']
    have inside : tree.parent^[steps] lower ∈ tree.vertices :=
      (show Set.MapsTo tree.parent tree.vertices tree.vertices from
        tree.parent_mem).iterate steps member
    by_cases isRoot : tree.parent^[steps] lower = tree.root
    · rw [isRoot] at ih ⊢
      rw [tree.parent_root]
      exact ih
    · exact .inr ⟨_, mem_children.2 ⟨inside, isRoot, rfl⟩, steps, rfl⟩

theorem child_unique {vertex first second : Vertex} (isFirst : first ∈ tree.children vertex)
    (isSecond : second ∈ tree.children vertex)
    (above : tree.Above first lower) (other : tree.Above second lower) : first = second := by
  rcases above.total other with either | either
  · by_contra apart
    apply not_above_of_child isFirst
    rw [← (mem_children.1 isSecond).2.2]
    exact either.of_ne apart
  · by_contra apart
    apply not_above_of_child isSecond
    rw [← (mem_children.1 isFirst).2.2]
    exact either.of_ne (Ne.symm apart)

theorem below_eq {vertex : Vertex} (member : vertex ∈ tree.vertices) :
    tree.below vertex = insert vertex ((tree.children vertex).biUnion tree.below) := by
  ext lower
  simp only [Finset.mem_insert, Finset.mem_biUnion, mem_below]
  constructor
  · rintro ⟨inside, above⟩
    rcases exists_child_of_above inside above with same | ⟨child, isChild, below⟩
    · exact .inl same
    · exact .inr ⟨child, isChild, inside, below⟩
  · rintro (rfl | ⟨child, isChild, inside, below⟩)
    · exact ⟨member, above_self lower⟩
    · rcases mem_children.1 isChild with ⟨_, _, rfl⟩
      exact ⟨inside, (above_parent child).trans below⟩

theorem not_mem_biUnion_below (vertex : Vertex) :
    vertex ∉ (tree.children vertex).biUnion tree.below := by
  intro inside
  rcases Finset.mem_biUnion.1 inside with ⟨child, isChild, below⟩
  exact not_above_of_child isChild (mem_below.1 below).2

theorem pairwiseDisjoint_below (vertex : Vertex) :
    (tree.children vertex : Set Vertex).PairwiseDisjoint tree.below := by
  intro first isFirst second isSecond apart
  apply Finset.disjoint_left.2
  intro lower inFirst inSecond
  exact apart (child_unique isFirst isSecond (mem_below.1 inFirst).2 (mem_below.1 inSecond).2)

theorem sum_below {vertex : Vertex} (member : vertex ∈ tree.vertices) (amount : Vertex → Nat) :
    ∑ lower ∈ tree.below vertex, amount lower = amount vertex + ∑ child ∈ tree.children vertex,
      ∑ lower ∈ tree.below child, amount lower := by
  rw [below_eq member, Finset.sum_insert (not_mem_biUnion_below vertex),
    Finset.sum_biUnion (pairwiseDisjoint_below vertex)]

theorem card_below {vertex : Vertex} (member : vertex ∈ tree.vertices) :
    (tree.below vertex).card = 1 + ∑ child ∈ tree.children vertex, (tree.below child).card := by
  have sum := sum_below member fun _ => 1
  simp only [Finset.sum_const, smul_eq_mul, mul_one] at sum
  exact sum

theorem card_below_lt {vertex : Vertex} (member : vertex ∈ tree.vertices)
    (isChild : child ∈ tree.children vertex) :
    (tree.below child).card < (tree.below vertex).card := by
  rw [card_below member]
  have part : (tree.below child).card ≤ ∑ other ∈ tree.children vertex, (tree.below other).card :=
    Finset.single_le_sum (f := fun other => (tree.below other).card)
      (fun _ _ => Nat.zero_le _) isChild
  omega

theorem induction_children {holds : Vertex → Prop} (step :
    ∀ vertex ∈ tree.vertices, (∀ child ∈ tree.children vertex, holds child) → holds vertex)
    {vertex : Vertex} (member : vertex ∈ tree.vertices) : holds vertex := by
  generalize size : (tree.below vertex).card = count
  induction count using Nat.strong_induction_on generalizing vertex with
  | _ count ih =>
    apply step vertex member
    intro child isChild
    have smaller := card_below_lt member isChild
    rw [size] at smaller
    exact ih _ smaller (mem_children.1 isChild).1 rfl

variable (tree)

noncomputable def covered (marked : Vertex → Prop) (vertex : Vertex) : Finset Vertex :=
  (tree.below vertex).filter fun lower =>
    ∃ upper, marked upper ∧ tree.Above vertex upper ∧ tree.Above upper lower

variable {tree} {marked : Vertex → Prop} {vertex : Vertex}

theorem mem_covered : lower ∈ tree.covered marked vertex ↔ lower ∈ tree.vertices ∧
    ∃ upper, marked upper ∧ tree.Above vertex upper ∧ tree.Above upper lower := by
  rw [covered, Finset.mem_filter, mem_below]
  constructor
  · rintro ⟨⟨member, _⟩, isCovered⟩
    exact ⟨member, isCovered⟩
  · rintro ⟨member, upper, isMarked, outer, inner⟩
    exact ⟨⟨member, outer.trans inner⟩, upper, isMarked, outer, inner⟩

theorem covered_of_marked (isMarked : marked vertex) :
    tree.covered marked vertex = tree.below vertex := by
  ext lower
  rw [mem_covered, mem_below]
  apply and_congr_right
  intro member
  constructor
  · rintro ⟨upper, _, outer, inner⟩
    exact outer.trans inner
  · intro above
    exact ⟨vertex, isMarked, above_self vertex, above⟩

theorem covered_eq_biUnion (member : vertex ∈ tree.vertices) (notMarked : ¬ marked vertex)
    (inside : ∀ upper, marked upper → upper ∈ tree.vertices) :
    tree.covered marked vertex = (tree.children vertex).biUnion (tree.covered marked) := by
  ext lower
  simp only [Finset.mem_biUnion, mem_covered]
  constructor
  · rintro ⟨lowerMember, upper, isMarked, outer, inner⟩
    rcases exists_child_of_above (inside upper isMarked) outer with
      same | ⟨child, isChild, below⟩
    · rw [same] at isMarked
      exact absurd isMarked notMarked
    · exact ⟨child, isChild, lowerMember, upper, isMarked, below, inner⟩
  · rintro ⟨child, isChild, lowerMember, upper, isMarked, below, inner⟩
    rcases mem_children.1 isChild with ⟨_, _, rfl⟩
    exact ⟨lowerMember, upper, isMarked, (above_parent child).trans below, inner⟩

theorem covered_subset_below (marked : Vertex → Prop) (vertex : Vertex) :
    tree.covered marked vertex ⊆ tree.below vertex :=
  Finset.filter_subset _ _

theorem sum_covered (member : vertex ∈ tree.vertices) (notMarked : ¬ marked vertex)
    (inside : ∀ upper, marked upper → upper ∈ tree.vertices) (amount : Vertex → Nat) :
    ∑ lower ∈ tree.covered marked vertex, amount lower = ∑ child ∈ tree.children vertex,
      ∑ lower ∈ tree.covered marked child, amount lower := by
  rw [covered_eq_biUnion member notMarked inside]
  apply Finset.sum_biUnion
  intro first isFirst second isSecond apart
  exact (pairwiseDisjoint_below vertex isFirst isSecond apart).mono
    (covered_subset_below marked first) (covered_subset_below marked second)

end Below

end ParentTree

end SysAnalyzer.Foundation
