import Mathlib.Data.List.Basic

/-!
# Links that are kept at both ends

Every node has at most one target, and every node keeps the list of its
sources.  A node that takes over a list of sources sets their targets one by
one and replaces its own list as a whole.  Both ends still agree exactly when
none of the sources had another target and none of the earlier sources of the
node is left out.
-/

namespace SysAnalyzer.Foundation

open List Option

universe u

@[ext]
structure Links (Node : Type u) where
  target : Node → Option Node
  sources : Node → List Node

namespace Links

variable {Node : Type u}

def empty : Links Node := ⟨fun _ => none, fun _ => []⟩

def Mutual (links : Links Node) : Prop :=
  ∀ source node, source ∈ links.sources node ↔ links.target source = some node

theorem mutual_empty : (empty : Links Node).Mutual :=
  fun _ _ => iff_of_false not_mem_nil (by rintro ⟨⟩)

theorem Mutual.unique {links : Links Node} (agree : links.Mutual) {source first second : Node}
    (ofFirst : source ∈ links.sources first)
    (ofSecond : source ∈ links.sources second) : first = second := by
  rw [agree] at ofFirst ofSecond
  exact some.inj (ofFirst.symm.trans ofSecond)

variable [DecidableEq Node] (links : Links Node)

def redirect (node : Node) (list : List Node) : Links Node :=
  { links with
    target := fun source => if source ∈ list then some node else links.target source }

@[simp]
theorem redirect_nil (node : Node) : links.redirect node [] = links := by simp [redirect]

theorem redirect_append (node : Node) (first second : List Node) :
    links.redirect node (first ++ second) = (links.redirect node first).redirect node second := by
  ext source target
  · unfold redirect
    by_cases inSecond : source ∈ second <;> simp [inSecond]
  · rfl

def setSources (node : Node) (list : List Node) : Links Node :=
  { links with sources := Function.update links.sources node list }

def claim (node : Node) (list : List Node) : Links Node :=
  (links.redirect node list).setSources node list

theorem target_claim (node : Node) (list : List Node) (source : Node) :
    (links.claim node list).target source =
      if source ∈ list then some node else links.target source :=
  rfl

theorem sources_claim (node : Node) (list : List Node) (other : Node) :
    (links.claim node list).sources other = if other = node then list else links.sources other :=
  Function.update_apply links.sources node list other

/-- No source has another target, and no earlier source is left out. -/
def Claimable (node : Node) (list : List Node) : Prop :=
  (∀ source ∈ list, links.target source = none ∨ links.target source = some node) ∧
    ∀ source ∈ links.sources node, source ∈ list

variable {links}

theorem mutual_claim_iff (agree : links.Mutual) (node : Node) (list : List Node) :
    (links.claim node list).Mutual ↔ links.Claimable node list := by
  constructor
  · intro after
    constructor
    · intro source member
      by_contra another
      rw [not_or] at another
      rcases ne_none_iff_exists'.1 another.1 with ⟨other, isTarget⟩
      have differs : other ≠ node := by
        rintro rfl
        exact another.2 isTarget
      have listed := (agree source other).2 isTarget
      have redirected := (after source other).1 (by
        rw [sources_claim, if_neg differs]
        exact listed)
      rw [target_claim, if_pos member, some.injEq] at redirected
      exact differs redirected.symm
    · intro source earlier
      by_contra left
      have kept : (links.claim node list).target source = some node := by
        rw [target_claim, if_neg left]
        exact (agree source node).1 earlier
      have listed := (after source node).2 kept
      rw [sources_claim, if_pos rfl] at listed
      exact left listed
  · rintro ⟨unlinked, covered⟩ source other
    rw [target_claim, sources_claim]
    by_cases isNode : other = node
    · subst isNode
      rw [if_pos rfl]
      by_cases member : source ∈ list
      · rw [if_pos member]
        exact iff_of_true member rfl
      · rw [if_neg member, ← agree]
        exact iff_of_false member fun earlier => member (covered source earlier)
    · rw [if_neg isNode, agree]
      by_cases member : source ∈ list
      · rw [if_pos member, some.injEq]
        refine iff_of_false ?_ (Ne.symm isNode)
        rcases unlinked source member with isNone | isSame
        · rw [isNone]
          rintro ⟨⟩
        · rw [isSame, some.injEq]
          exact Ne.symm isNode
      · rw [if_neg member]

omit [DecidableEq Node] in
theorem claimable_congr {node : Node} {first second : List Node}
    (same : ∀ source, source ∈ first ↔ source ∈ second) :
    links.Claimable node first ↔ links.Claimable node second := by
  simp only [Claimable, same]

/-- Links between rows, of which node `n` has row `2 * n` and the next one. -/
def twice (links : Links Nat) : Links Nat where
  target row := (links.target (row / 2)).map fun node => 2 * node + row % 2
  sources row := (links.sources (row / 2)).map fun node => 2 * node + row % 2

theorem mem_sources_twice {links : Links Nat} {source row : Nat} :
    source ∈ links.twice.sources row ↔
      source / 2 ∈ links.sources (row / 2) ∧ source % 2 = row % 2 := by
  simp only [twice, List.mem_map]
  constructor
  · rintro ⟨node, member, rfl⟩
    rw [show (2 * node + row % 2) / 2 = node by omega]
    exact ⟨member, by omega⟩
  · rintro ⟨member, same⟩
    exact ⟨source / 2, member, by omega⟩

theorem target_twice_eq_some_iff {links : Links Nat} {source row : Nat} :
    links.twice.target source = some row ↔
      links.target (source / 2) = some (row / 2) ∧ source % 2 = row % 2 := by
  simp only [twice, map_eq_some_iff]
  constructor
  · rintro ⟨node, isTarget, rfl⟩
    rw [show (2 * node + source % 2) / 2 = node by omega]
    exact ⟨isTarget, by omega⟩
  · rintro ⟨isTarget, same⟩
    exact ⟨row / 2, isTarget, by omega⟩

theorem mutual_twice_iff {links : Links Nat} : links.twice.Mutual ↔ links.Mutual := by
  unfold Mutual
  simp only [mem_sources_twice, target_twice_eq_some_iff]
  constructor
  · intro rows source node
    have atRow := rows (2 * source) (2 * node)
    simpa using atRow
  · intro nodes source row
    rw [nodes]

end Links

end SysAnalyzer.Foundation
