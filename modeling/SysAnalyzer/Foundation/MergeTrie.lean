import SysAnalyzer.Foundation.MergeTree

/-!
# Tries of chains

Where the trees beside each other have different keys, and a frame matches the
tree with its name as the key, a forest is a trie: a node is found by the keys
on the way to it, and absorbs the chains that begin with them.
-/

namespace SysAnalyzer.Foundation

open List Option

universe u v w

section Keyed

variable {Data : Type u} {Frame : Type v} {Key : Type w} [DecidableEq Key]
  {key : Data → Key} {name : Frame → Key} {same : Data → Frame → Bool}
  {fresh : Data} {absorb : Data → Frame → Bool → Data}

def withKey (key : Data → Key) (wanted : Key) (forest : List (MergeTree Data)) :
    Option (MergeTree Data) :=
  forest.find? fun tree => decide (key tree.data = wanted)

def nodeAt (key : Data → Key) : (path : List Key) → MergeTree Data → Option (MergeTree Data)
  | [], tree => some tree
  | wanted :: path, tree =>
    match withKey key wanted tree.children with
    | none => none
    | some child => nodeAt key path child

/-- Trees beside each other have different keys. -/
inductive Keyed (key : Data → Key) : List (MergeTree Data) → Prop
  | forest {forest : List (MergeTree Data)}
    (distinct : (forest.map fun tree => key tree.data).Nodup)
    (below : ∀ tree ∈ forest, Keyed key tree.children) :
    Keyed key forest

omit [DecidableEq Key] in
theorem keyed_nil : Keyed key ([] : List (MergeTree Data)) := .forest nodup_nil (by simp)

structure Named (key : Data → Key) (name : Frame → Key)
    (same : Data → Frame → Bool) (fresh : Data)
    (absorb : Data → Frame → Bool → Data) : Prop where
  same_iff : ∀ data frame, same data frame = true ↔ key data = name frame
  key_fresh : ∀ frame isEnd, key (absorb fresh frame isEnd) = name frame
  key_absorb : ∀ data frame isEnd, key data = name frame →
    key (absorb data frame isEnd) = name frame

variable {forest : List (MergeTree Data)}

variable {tree : MergeTree Data}

theorem withKey_eq_some {wanted : Key} (found : withKey key wanted forest = some tree) :
    tree ∈ forest ∧ key tree.data = wanted :=
  ⟨mem_of_find?_eq_some found, by simpa using find?_some found⟩

theorem withKey_of_mem (distinct : (forest.map fun tree => key tree.data).Nodup)
    (member : tree ∈ forest) : withKey key (key tree.data) forest = some tree := by
  cases found : withKey key (key tree.data) forest with
  | none =>
    have absent := find?_eq_none.1 found tree member
    simp at absent
  | some other =>
    rcases withKey_eq_some found with ⟨isMember, sameKey⟩
    rw [inj_on_of_nodup_map distinct isMember member sameKey]

variable (named : Named key name same fresh absorb)

include named

omit [DecidableEq Key] in
theorem not_same_of_before {before after : List (MergeTree Data)}
    {found : MergeTree Data} {frame : Frame}
    (distinct : (forest.map fun tree => key tree.data).Nodup) (isLast :
      lastMatch (fun tree => same tree.data frame) forest = some (before, found, after)) :
    ∀ tree ∈ before, same tree.data frame = false := by
  rcases lastMatch_eq_some isLast with ⟨split, isMatch, _⟩
  intro tree ofBefore
  rw [Bool.eq_false_iff]
  intro alsoMatch
  rw [split, map_append, map_cons] at distinct
  have apart := (nodup_append.1 distinct).2.2
  refine apart _ (mem_map_of_mem ofBefore) _ mem_cons_self ?_
  rw [(named.same_iff _ _).1 alsoMatch, (named.same_iff _ _).1 isMatch]

omit [DecidableEq Key] in
theorem Keyed.singleMatch (isKeyed : Keyed key forest) (chain : List Frame) :
    SingleMatch same chain forest := by
  induction chain generalizing forest with
  | nil => trivial
  | cons frame rest induction =>
    rcases isKeyed with ⟨distinct, below⟩
    unfold SingleMatch
    cases isLast : lastMatch (fun tree => same tree.data frame) forest with
    | none => trivial
    | some parts =>
      rcases parts with ⟨before, found, after⟩
      refine ⟨not_same_of_before named distinct isLast, ?_⟩
      refine induction (below found ?_)
      rw [(lastMatch_eq_some isLast).1]
      simp

section

variable (distinct : (forest.map fun tree => key tree.data).Nodup)
include distinct

theorem mergeChain_cases (frame : Frame) (rest : List Frame) :
    (withKey key (name frame) forest = none ∧
      mergeChain same fresh absorb (frame :: rest) forest = forest ++
        [.node (absorb fresh frame rest.isEmpty) (mergeChain same fresh absorb rest [])]) ∨
    ∃ before found after, withKey key (name frame) forest = some found ∧
      forest = before ++ found :: after ∧ (∀ tree ∈ before, key tree.data ≠ name frame) ∧
      mergeChain same fresh absorb (frame :: rest) forest = before ++
        .node (absorb found.data frame rest.isEmpty)
          (mergeChain same fresh absorb rest found.children) :: after := by
  rw [mergeChain]
  cases isLast : lastMatch (fun tree => same tree.data frame) forest with
  | none =>
    refine .inl ⟨?_, rfl⟩
    rw [withKey, find?_eq_none]
    intro tree member isKey
    have different := lastMatch_eq_none_iff.1 isLast tree member
    rw [(named.same_iff _ _).2 (of_decide_eq_true isKey)] at different
    cases different
  | some parts =>
    rcases parts with ⟨before, found, after⟩
    rcases lastMatch_eq_some isLast with ⟨split, isMatch, _⟩
    have unmatched := not_same_of_before named distinct isLast
    refine .inr ⟨before, found, after, ?_, split, ?_, ?_⟩
    · rw [← (named.same_iff _ _).1 isMatch]
      refine withKey_of_mem distinct ?_
      rw [split]
      simp
    · intro tree ofBefore isKey
      have different := unmatched tree ofBefore
      rw [(named.same_iff _ _).2 isKey] at different
      cases different
    · dsimp only
      have unchanged : before.map (touch same absorb frame rest.isEmpty) = before := by
        refine (map_congr_left ?_).trans (map_id before)
        intro tree ofBefore
        exact if_neg (by simp [unmatched tree ofBefore])
      rw [unchanged]

theorem keys_mergeChain (frame : Frame) (rest : List Frame) :
    ((mergeChain same fresh absorb (frame :: rest) forest).map fun tree =>
      key tree.data) =
      if (withKey key (name frame) forest).isSome then forest.map fun tree => key tree.data else
        (forest.map fun tree => key tree.data) ++ [name frame] := by
  rcases mergeChain_cases named distinct frame rest with
    ⟨isNew, merged⟩ | ⟨before, found, after, isFound, split, _, merged⟩
  · rw [merged, isNew, map_append]
    simp [named.key_fresh]
  · rw [merged, isFound, split]
    have sameKey := (withKey_eq_some isFound).2
    simp [named.key_absorb _ _ _ sameKey, sameKey]

theorem find?_keys_mergeChain (frame : Frame) (rest : List Frame) (wanted : Key → Bool) :
    ((mergeChain same fresh absorb (frame :: rest) forest).map fun tree =>
      key tree.data).find? wanted =
      ((forest.map fun tree => key tree.data) ++ [name frame]).find? wanted := by
  rw [keys_mergeChain named distinct]
  cases found : withKey key (name frame) forest with
  | none => rfl
  | some tree =>
    rcases withKey_eq_some found with ⟨member, isName⟩
    rw [if_pos isSome_some, find?_append]
    cases first : (forest.map fun tree => key tree.data).find? wanted with
    | some _ => rfl
    | none =>
      have unwanted := find?_eq_none.1 first (name frame)
        (mem_map.2 ⟨tree, member, isName⟩)
      simp [unwanted]

end

theorem Keyed.mergeChain (isKeyed : Keyed key forest) (chain : List Frame) :
    Keyed key (mergeChain same fresh absorb chain forest) := by
  induction chain generalizing forest with
  | nil => exact isKeyed
  | cons frame rest induction =>
    rcases isKeyed with ⟨distinct, below⟩
    refine .forest ?_ ?_
    · rw [keys_mergeChain named distinct]
      cases found : withKey key (name frame) forest with
      | some tree => exact distinct
      | none =>
        refine nodup_append.2 ⟨distinct, nodup_singleton _, ?_⟩
        intro other member another isName
        rw [mem_singleton.1 isName]
        rcases mem_map.1 member with ⟨tree, ofForest, rfl⟩
        simpa using find?_eq_none.1 found tree ofForest
    · intro tree member
      rcases mergeChain_cases named distinct frame rest with
        ⟨_, merged⟩ | ⟨before, found, after, _, split, _, merged⟩
      · rw [merged] at member
        rcases mem_append.1 member with ofForest | isNew
        · exact below tree ofForest
        · rw [mem_singleton.1 isNew]
          exact induction keyed_nil
      · rw [merged] at member
        rcases mem_append.1 member with ofBefore | later
        · exact below tree (by simp [split, ofBefore])
        · rcases mem_cons.1 later with isFound | ofAfter
          · rw [isFound]
            exact induction (below found (by simp [split]))
          · exact below tree (by simp [split, ofAfter])

theorem withKey_mergeChain (distinct : (forest.map fun tree => key tree.data).Nodup)
    (frame : Frame) (rest : List Frame) (wanted : Key) :
    let old := (withKey key wanted forest).getD (.node fresh [])
    withKey key wanted (mergeChain same fresh absorb (frame :: rest) forest) =
      if wanted = name frame then some (.node (absorb old.data frame rest.isEmpty)
        (mergeChain same fresh absorb rest old.children)) else withKey key wanted forest := by
  dsimp only
  rcases mergeChain_cases named distinct frame rest with
    ⟨isNew, merged⟩ | ⟨before, found, after, isFound, split, apart, merged⟩
  · rw [merged]
    unfold withKey at isNew ⊢
    rw [find?_append]
    by_cases isName : wanted = name frame
    · subst isName
      simp [isNew, named.key_fresh]
    · simp [isName, named.key_fresh, Ne.symm isName]
  · rw [merged]
    have sameKey := (withKey_eq_some isFound).2
    by_cases isName : wanted = name frame
    · subst isName
      rw [if_pos rfl, isFound, getD_some]
      have before_none : before.find? (fun tree => decide (key tree.data = name frame)) = none :=
        find?_eq_none.2 (by simpa using apart)
      simp [withKey, find?_append, before_none, named.key_absorb _ _ _ sameKey]
    · rw [if_neg isName, split]
      simp [withKey, find?_append, named.key_absorb _ _ _ sameKey, sameKey, Ne.symm isName]

variable {children : List (MergeTree Data)}

/-- A node along the keys that begin with the name of a frame, and every other
one as it is. -/
theorem nodeAt_cons_mergeChain (data merged : Data)
    (distinct : (children.map fun tree => key tree.data).Nodup)
    (frame : Frame) (rest : List Frame) (wanted : Key) (path : List Key) :
    let old := (withKey key wanted children).getD (.node fresh [])
    nodeAt key (wanted :: path) (.node merged
      (mergeChain same fresh absorb (frame :: rest) children)) =
      if wanted = name frame then nodeAt key path (.node (absorb old.data frame rest.isEmpty)
        (mergeChain same fresh absorb rest old.children)) else
        nodeAt key (wanted :: path) (.node data children) := by
  have found := withKey_mergeChain named distinct frame rest wanted
  dsimp only at found ⊢
  rw [nodeAt, MergeTree.children_node, found]
  by_cases isName : wanted = name frame
  · rw [if_pos isName, if_pos isName]
  · rw [if_neg isName, if_neg isName]
    rfl

omit named in
theorem Keyed.old (isKeyed : Keyed key children) (wanted : Key) :
    Keyed key ((withKey key wanted children).getD (.node fresh [])).children := by
  rcases isKeyed with ⟨_, below⟩
  cases found : withKey key wanted children with
  | none => exact keyed_nil
  | some tree => exact below tree (withKey_eq_some found).1

variable {chain : List Frame}

theorem isSome_nodeAt_mergeChain (data merged : Data)
    (path : List Key) (isKeyed : Keyed key children) :
    (nodeAt key path (.node merged (mergeChain same fresh absorb chain children))).isSome =
      ((nodeAt key path (.node data children)).isSome || decide (path <+: chain.map name)) := by
  induction path generalizing chain data merged children with
  | nil => simp [nodeAt]
  | cons wanted path induction =>
    cases chain with
    | nil => simp [mergeChain, nodeAt]
    | cons frame rest =>
      have distinct := isKeyed
      rcases distinct with ⟨distinct, _⟩
      rw [nodeAt_cons_mergeChain named data merged distinct frame rest]
      by_cases isName : wanted = name frame
      · rw [if_pos isName, induction ((withKey key wanted children).getD
          (.node fresh [])).data _ (isKeyed.old wanted)]
        rw [nodeAt, MergeTree.children_node]
        cases found : withKey key wanted children with
        | none => cases path <;> simp [isName, nodeAt, withKey]
        | some tree =>
          cases tree with
          | node _ _ => simp [isName]
      · simp [isName]

omit named in
/-- A number of the node along some keys, 0 where there is none. -/
def numberAt (key : Data → Key) (number : Data → Nat) (path : List Key)
    (tree : MergeTree Data) : Nat :=
  ((nodeAt key path tree).map fun node => number node.data).getD 0

theorem numberAt_cons_mergeChain {number : Data → Nat}
    (zero : number fresh = 0) (data merged : Data)
    (distinct : (children.map fun tree => key tree.data).Nodup)
    (frame : Frame) (rest : List Frame) (wanted : Key) (path : List Key) :
    let old := (withKey key wanted children).getD (.node fresh [])
    numberAt key number (wanted :: path) (.node data children) =
      numberAt key number path (.node old.data old.children) ∧
      numberAt key number (wanted :: path) (.node merged
        (mergeChain same fresh absorb (frame :: rest) children)) =
        if wanted = name frame then
          numberAt key number path (.node (absorb old.data frame rest.isEmpty)
            (mergeChain same fresh absorb rest old.children)) else
          numberAt key number (wanted :: path) (.node data children) := by
  refine ⟨?_, ?_⟩
  · unfold numberAt
    rw [nodeAt, MergeTree.children_node]
    cases withKey key wanted children with
    | none =>
      cases path with
      | nil => exact zero.symm
      | cons _ _ => rfl
    | some tree =>
      cases tree with
      | node _ _ => rfl
  · unfold numberAt
    rw [nodeAt_cons_mergeChain named data merged distinct frame rest]
    by_cases isName : wanted = name frame
    · rw [if_pos isName, if_pos isName]
    · rw [if_neg isName, if_neg isName]

omit named in
theorem Balanced.nodeAt {total own : Data → Nat} {path : List Key}
    {node : MergeTree Data} (balanced : Balanced total own tree)
    (reached : nodeAt key path tree = some node) :
    total node.data = own node.data + weight total node.children := by
  induction path generalizing tree with
  | nil =>
    rw [Foundation.nodeAt, some.injEq] at reached
    subst reached
    rcases balanced with ⟨balance, _⟩
    exact balance
  | cons wanted path induction =>
    rcases balanced with ⟨_, below⟩
    rw [Foundation.nodeAt, MergeTree.children_node] at reached
    cases found : withKey key wanted _ with
    | none =>
      rw [found] at reached
      cases reached
    | some child =>
      rw [found] at reached
      exact induction (below child (withKey_eq_some found).1) reached

theorem numberAt_total_mergeChain {total : Data → Nat} {amount : Nat} (zero : total fresh = 0)
    (grows : ∀ data frame isEnd, total (absorb data frame isEnd) = total data + amount)
    {data merged : Data} (path : List Key)
    (isKeyed : Keyed key children) (takes : total merged = total data + amount) :
    numberAt key total path (.node merged (mergeChain same fresh absorb chain children)) =
      numberAt key total path (.node data children) +
        if path <+: chain.map name then amount else 0 := by
  induction path generalizing chain data merged children with
  | nil =>
    rw [if_pos nil_prefix]
    exact takes
  | cons wanted path induction =>
    cases chain with
    | nil =>
      rw [if_neg (by simp)]
      rfl
    | cons frame rest =>
      have distinct := isKeyed
      rcases distinct with ⟨distinct, _⟩
      rcases numberAt_cons_mergeChain named zero data merged distinct frame
        rest wanted path with ⟨before, after⟩
      by_cases isName : wanted = name frame
      · have oldKeyed : Keyed key ((withKey key wanted children).getD
          (.node fresh [])).children := isKeyed.old wanted
        rw [after, if_pos isName, induction oldKeyed (grows _ _ _), before]
        simp [isName]
      · rw [after, if_neg isName]
        simp [isName]

variable {total own : Data → Nat} {amount : Nat}
  (adds : Adds fresh absorb total own amount)

include adds

theorem numberAt_own_mergeChain {data merged : Data}
    (path : List Key) (isKeyed : Keyed key children)
    (takes : Takes total own amount chain.isEmpty data merged) :
    numberAt key own path (.node merged (mergeChain same fresh absorb chain children)) =
      numberAt key own path (.node data children) +
        if path = chain.map name then amount else 0 := by
  induction path generalizing chain data merged children with
  | nil =>
    have own := takes.takesOwn
    cases chain <;> simpa [numberAt, nodeAt] using own
  | cons wanted path induction =>
    cases chain with
    | nil =>
      rw [if_neg (by simp)]
      rfl
    | cons frame rest =>
      have distinct := isKeyed
      rcases distinct with ⟨distinct, _⟩
      rcases numberAt_cons_mergeChain named adds.own_fresh data merged
        distinct frame rest wanted path with ⟨before, after⟩
      by_cases isName : wanted = name frame
      · have oldKeyed : Keyed key ((withKey key wanted children).getD
          (.node fresh [])).children := isKeyed.old wanted
        have below :=
          induction oldKeyed (takes_absorb adds
            ((withKey key wanted children).getD (.node fresh [])).data
            frame rest.isEmpty)
        rw [after, if_pos isName, below, before]
        simp [isName]
      · rw [after, if_neg isName]
        simp [isName]

end Keyed

end SysAnalyzer.Foundation
