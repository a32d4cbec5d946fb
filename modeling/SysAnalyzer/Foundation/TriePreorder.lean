import SysAnalyzer.Foundation.MergeTrie

/-!
# The nodes of a trie in preorder

Each node is listed with the keys on the way to it, the own key first.  The
places of a trie are distinct, and a node is listed at a place just where it is
reached along its keys.  The trees beside each other are listed one by one.
-/

namespace SysAnalyzer.Foundation

open List

universe u w

variable {Data : Type u} {Key : Type w}

mutual

/-- The nodes of a tree below some keys. -/
def preorder (key : Data → Key) (above : List Key) : MergeTree Data → List (List Key × Data)
  | .node data children => (key data :: above, data) :: preorderAll key (key data :: above) children

/-- The nodes of a forest below some keys. -/
def preorderAll (key : Data → Key) (above : List Key) :
    List (MergeTree Data) → List (List Key × Data)
  | [] => []
  | tree :: forest => preorder key above tree ++ preorderAll key above forest

end

variable {key : Data → Key}

theorem preorderAll_eq_flatMap (above : List Key) (forest : List (MergeTree Data)) :
    preorderAll key above forest = forest.flatMap (preorder key above) := by
  induction forest with
  | nil => rfl
  | cons tree forest induction => rw [preorderAll, induction, flatMap_cons]

mutual

theorem suffix_of_mem_preorder {above : List Key} :
    ∀ {tree : MergeTree Data} {place : List Key} {data : Data},
      (place, data) ∈ preorder key above tree → key tree.data :: above <:+ place
  | .node _ _, place, _, member => by
    rw [preorder, mem_cons] at member
    rcases member with here | below
    · cases here
      exact suffix_rfl
    · rcases suffix_of_mem_preorderAll below with ⟨_, suffix⟩
      exact (suffix_cons _ _).trans suffix

theorem suffix_of_mem_preorderAll {above : List Key} :
    ∀ {forest : List (MergeTree Data)} {place : List Key} {data : Data},
      (place, data) ∈ preorderAll key above forest → ∃ first, first :: above <:+ place
  | [], _, _, member => by cases member
  | tree :: forest, place, data, member => by
    rw [preorderAll, mem_append] at member
    rcases member with ofTree | ofForest
    · exact ⟨_, suffix_of_mem_preorder ofTree⟩
    · exact suffix_of_mem_preorderAll ofForest

end

mutual

theorem head?_of_mem_preorder {above : List Key} :
    ∀ {tree : MergeTree Data} {place : List Key} {data : Data},
      (place, data) ∈ preorder key above tree → place.head? = some (key data)
  | .node _ _, _, _, member => by
    rw [preorder, mem_cons] at member
    rcases member with here | below
    · cases here
      rfl
    · exact head?_of_mem_preorderAll below

theorem head?_of_mem_preorderAll {above : List Key} :
    ∀ {forest : List (MergeTree Data)} {place : List Key} {data : Data},
      (place, data) ∈ preorderAll key above forest → place.head? = some (key data)
  | [], _, _, member => by cases member
  | tree :: forest, _, _, member => by
    rw [preorderAll, mem_append] at member
    rcases member with ofTree | ofForest
    · exact head?_of_mem_preorder ofTree
    · exact head?_of_mem_preorderAll ofForest

end

mutual

theorem exists_of_suffix_preorder {above : List Key} :
    ∀ {tree : MergeTree Data} {place : List Key} {data : Data},
      (place, data) ∈ preorder key above tree →
        ∀ {wanted : Key} {rest : List Key}, wanted :: rest <:+ place → above <:+ rest →
          ∃ other, (wanted :: rest, other) ∈ preorder key above tree
  | .node own children, place, data, member, wanted, rest, suffix, inside => by
    rw [preorder, mem_cons] at member
    have ofPlace := (suffix_cons wanted rest).trans suffix
    rcases member with here | below
    · cases here
      have sameLength : (wanted :: rest).length = (key own :: above).length := by
        have longer := inside.length_le
        have shorter := suffix.length_le
        simp only [length_cons] at shorter ⊢
        omega
      rw [suffix.eq_of_length sameLength]
      exact ⟨own, mem_cons_self⟩
    · rcases suffix_of_mem_preorderAll below with ⟨first, way⟩
      have upper : key own :: above <:+ place := (suffix_cons first _).trans way
      by_cases deeper : (key own :: above).length ≤ rest.length
      · have under : key own :: above <:+ rest :=
          suffix_of_suffix_length_le upper ofPlace deeper
        rcases exists_of_suffix_preorderAll below suffix under with
          ⟨other, isNode⟩
        exact ⟨other, mem_cons_of_mem _ isNode⟩
      · have sameLength : above.length = rest.length := by
          have longer := inside.length_le
          simp only [length_cons] at deeper
          omega
        have sameRest := inside.eq_of_length sameLength
        subst sameRest
        rw [(suffix_of_suffix_length_le suffix upper le_rfl).eq_of_length rfl]
        exact ⟨own, mem_cons_self⟩

theorem exists_of_suffix_preorderAll {above : List Key} :
    ∀ {forest : List (MergeTree Data)} {place : List Key} {data : Data},
      (place, data) ∈ preorderAll key above forest →
        ∀ {wanted : Key} {rest : List Key}, wanted :: rest <:+ place → above <:+ rest →
          ∃ other, (wanted :: rest, other) ∈ preorderAll key above forest
  | [], _, _, member, _, _, _, _ => by cases member
  | tree :: forest, _, _, member, _, _, suffix, inside => by
    rw [preorderAll, mem_append] at member
    rcases member with ofTree | ofForest
    · rcases exists_of_suffix_preorder ofTree suffix inside with
        ⟨other, isNode⟩
      exact ⟨other, mem_append_left _ isNode⟩
    · rcases exists_of_suffix_preorderAll ofForest suffix inside with
        ⟨other, isNode⟩
      exact ⟨other, mem_append_right _ isNode⟩

end

variable {forest : List (MergeTree Data)}

theorem exists_tree_of_find?_preorderAll
    {above : List Key} {property : List Key × Data → Bool} (wanted : Key → Bool)
    (agree : ∀ tree ∈ forest, wanted (key tree.data) = (preorder key above tree).any property)
    {entry : List Key × Data} (isFirst :
      (preorderAll key above forest).find? property = some entry) :
    ∃ tree ∈ forest, (preorder key above tree).find? property = some entry ∧
      (forest.map fun tree => key tree.data).find? wanted = some (key tree.data) := by
  rw [preorderAll_eq_flatMap, find?_flatMap, findSome?_eq_some_iff] at isFirst
  rcases isFirst with ⟨before, tree, after, split, found, none⟩
  have member : tree ∈ forest := by simp [split]
  refine ⟨tree, member, found, ?_⟩
  rw [find?_eq_some_iff_append]
  refine ⟨?_, before.map fun tree => key tree.data,
    after.map fun tree => key tree.data, by simp [split], ?_⟩
  · rw [agree tree member, any_eq_true]
    exact ⟨entry, mem_of_find?_eq_some found, find?_some found⟩
  · intro other ofBefore
    rcases mem_map.1 ofBefore with ⟨earlier, isEarlier, rfl⟩
    rw [agree earlier (by simp [split, isEarlier]), Bool.not_eq_true', any_eq_false]
    exact find?_eq_none.1 (none earlier isEarlier)

theorem eq_of_suffix {first second place : List Key}
    (ofFirst : first <:+ place) (ofSecond : second <:+ place)
    (sameLength : first.length = second.length) : first = second :=
  (suffix_of_suffix_length_le ofFirst ofSecond sameLength.le).eq_of_length sameLength

theorem nodup_preorderAll (isKeyed : Keyed key forest) (above : List Key) :
    ((preorderAll key above forest).map Prod.fst).Nodup := by
  induction isKeyed generalizing above with
  | forest distinct _ induction =>
    rw [preorderAll_eq_flatMap, map_flatMap, nodup_flatMap]
    refine ⟨?_, ?_⟩
    · intro tree member
      have below := induction tree member
      cases tree with
      | node data children =>
        rw [preorder, map_cons, nodup_cons]
        refine ⟨?_, below _⟩
        intro again
        rcases mem_map.1 again with ⟨⟨place, _⟩, ofChildren, isPlace⟩
        rcases suffix_of_mem_preorderAll ofChildren with ⟨_, suffix⟩
        have longer := suffix.length_le
        rw [show place = key data :: above from isPlace] at longer
        simp at longer
    · rw [List.Nodup, pairwise_map] at distinct
      refine distinct.imp ?_
      intro first second different place ofFirst ofSecond
      rcases mem_map.1 ofFirst with ⟨⟨_, _⟩, inFirst, rfl⟩
      rcases mem_map.1 ofSecond with ⟨⟨_, _⟩, inSecond, rfl⟩
      have ways : key first.data :: above = key second.data :: above :=
        eq_of_suffix (suffix_of_mem_preorder inFirst) (suffix_of_mem_preorder inSecond) rfl
      exact different (head_eq_of_cons_eq ways)

variable [DecidableEq Key]

theorem mem_preorderAll_iff (isKeyed : Keyed key forest) (above place : List Key) (data : Data) :
    (place, data) ∈ preorderAll key above forest ↔ ∃ tree ∈ forest, ∃ path node,
      nodeAt key path tree = some node ∧ place = path.reverse ++ key tree.data :: above ∧
        data = node.data := by
  induction isKeyed generalizing above with
  | forest distinct below induction =>
    rw [preorderAll_eq_flatMap, mem_flatMap]
    refine exists_congr fun tree => and_congr_right fun member => ?_
    have inside := induction tree member (key tree.data :: above)
    rcases below tree member with ⟨distinctBelow, _⟩
    cases tree with
    | node own children =>
      dsimp only [MergeTree.data_node, MergeTree.children_node] at *
      rw [preorder, mem_cons, inside]
      constructor
      · rintro (here | ⟨child, ofChildren, path, node, reached, rfl, rfl⟩)
        · cases here
          exact ⟨[], _, rfl, rfl, rfl⟩
        · refine ⟨key child.data :: path, node, ?_, by simp, rfl⟩
          rw [nodeAt, MergeTree.children_node, withKey_of_mem distinctBelow ofChildren]
          exact reached
      · rintro ⟨path, node, reached, rfl, rfl⟩
        cases path with
        | nil =>
          cases reached
          exact .inl rfl
        | cons wanted path =>
          rw [nodeAt, MergeTree.children_node] at reached
          cases found : withKey key wanted children with
          | none =>
            rw [found] at reached
            cases reached
          | some child =>
            rw [found] at reached
            rcases withKey_eq_some found with ⟨ofChildren, isKey⟩
            exact .inr ⟨child, ofChildren, path, node, reached, by simp [isKey], rfl⟩

theorem mem_preorderAll_children_iff {tree : MergeTree Data}
    (isKeyed : Keyed key tree.children) (place : List Key) (data : Data) :
    (place, data) ∈ preorderAll key [] tree.children ↔ place ≠ [] ∧
      ∃ node, nodeAt key place.reverse tree = some node ∧ data = node.data := by
  rw [mem_preorderAll_iff isKeyed]
  constructor
  · rintro ⟨child, member, path, node, reached, rfl, rfl⟩
    refine ⟨by simp, node, ?_, rfl⟩
    rcases isKeyed with ⟨distinct, _⟩
    rw [reverse_append, reverse_reverse, reverse_singleton,
      singleton_append, nodeAt, withKey_of_mem distinct member]
    exact reached
  · rintro ⟨nonempty, node, reached, rfl⟩
    cases path : place.reverse with
    | nil => exact absurd (reverse_eq_nil_iff.1 path) nonempty
    | cons wanted rest =>
      rw [path, nodeAt] at reached
      cases found : withKey key wanted tree.children with
      | none =>
        rw [found] at reached
        cases reached
      | some child =>
        rw [found] at reached
        rcases withKey_eq_some found with ⟨member, isKey⟩
        refine ⟨child, member, rest, node, reached, ?_, rfl⟩
        rw [isKey, ← reverse_reverse place, path]
        simp

end SysAnalyzer.Foundation
