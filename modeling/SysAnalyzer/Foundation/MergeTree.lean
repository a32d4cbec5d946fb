import Mathlib.Algebra.BigOperators.Group.List.Basic
import Mathlib.Data.List.Nodup
import Mathlib.Tactic.Ring

/-!
# Chains merged into a tree

A chain of frames is led down a forest.  At each level every tree that matches
the frame absorbs it, and the rest of the chain is led on below the last of
them; where none matches, a new tree is appended.

Weights add up over a tree where a node has its own weight and that of its
children.  A chain keeps this as long as each of its frames matches one tree at
most, and a node whose children weigh too much stays so.
-/

namespace SysAnalyzer.Foundation

open List

universe u v

inductive MergeTree (Data : Type u) where
  | node (data : Data) (children : List (MergeTree Data))

namespace MergeTree

variable {Data : Type u} {Frame : Type v}

def data : MergeTree Data → Data
  | node data _ => data

def children : MergeTree Data → List (MergeTree Data)
  | node _ children => children

@[simp]
theorem data_node (data : Data) (children : List (MergeTree Data)) :
    (node data children).data = data := rfl

@[simp]
theorem children_node (data : Data) (children : List (MergeTree Data)) :
    (node data children).children = children := rfl

end MergeTree

def lastMatch {Element : Type u} (property : Element → Bool) :
    List Element → Option (List Element × Element × List Element)
  | [] => none
  | first :: rest =>
    match lastMatch property rest with
    | some (before, found, after) => some (first :: before, found, after)
    | none => if property first then some ([], first, rest) else none

section LastMatch

variable {Element : Type u} {property : Element → Bool}

theorem lastMatch_eq_none_iff {list : List Element} :
    lastMatch property list = none ↔ ∀ element ∈ list, property element = false := by
  induction list with
  | nil => simp [lastMatch]
  | cons first rest induction =>
    rw [forall_mem_cons, ← induction, lastMatch]
    cases lastMatch property rest with
    | none => cases property first <;> simp
    | some found => simp

theorem lastMatch_eq_some {list before after : List Element} {found : Element}
    (isLast : lastMatch property list = some (before, found, after)) :
    list = before ++ found :: after ∧ property found = true ∧
      ∀ element ∈ after, property element = false := by
  induction list generalizing before with
  | nil => cases isLast
  | cons first rest induction =>
    rw [lastMatch] at isLast
    cases later : lastMatch property rest with
    | some parts =>
      rcases parts with ⟨restBefore, restFound, restAfter⟩
      rw [later] at isLast
      cases isLast
      rcases induction later with ⟨split, isMatch, none⟩
      exact ⟨by rw [split]; rfl, isMatch, none⟩
    | none =>
      rw [later] at isLast
      by_cases isMatch : property first = true
      · rw [if_pos isMatch] at isLast
        cases isLast
        exact ⟨rfl, isMatch, lastMatch_eq_none_iff.1 later⟩
      · rw [if_neg isMatch] at isLast
        cases isLast

end LastMatch

section Merge

variable {Data : Type u} {Frame : Type v} (same : Data → Frame → Bool)
  (fresh : Data) (absorb : Data → Frame → Bool → Data)

def touch (frame : Frame) (isEnd : Bool) (tree : MergeTree Data) : MergeTree Data :=
  if same tree.data frame then .node (absorb tree.data frame isEnd) tree.children
  else tree

/-- A chain is led down a forest. -/
def mergeChain : (chain : List Frame) → List (MergeTree Data) → List (MergeTree Data)
  | [], forest => forest
  | frame :: rest, forest =>
    match lastMatch (fun tree => same tree.data frame) forest with
    | none => forest ++ [.node (absorb fresh frame rest.isEmpty) (mergeChain rest [])]
    | some (before, found, after) =>
      before.map (touch same absorb frame rest.isEmpty) ++
        .node (absorb found.data frame rest.isEmpty) (mergeChain rest found.children) :: after

def SingleMatch : (chain : List Frame) → List (MergeTree Data) → Prop
  | [], _ => True
  | frame :: rest, forest =>
    match lastMatch (fun tree => same tree.data frame) forest with
    | none => True
    | some (before, found, _) =>
      (∀ tree ∈ before, same tree.data frame = false) ∧ SingleMatch rest found.children

end Merge

/-! ## Weights -/

section Weights

variable {Data : Type u} {Frame : Type v} {same : Data → Frame → Bool}
  {fresh : Data} {absorb : Data → Frame → Bool → Data}
  {total own : Data → Nat}

def weight (total : Data → Nat) (forest : List (MergeTree Data)) : Nat :=
  (forest.map fun tree => total tree.data).sum

theorem weight_append (first second : List (MergeTree Data)) :
    weight total (first ++ second) = weight total first + weight total second := by
  simp [weight]

theorem weight_cons (tree : MergeTree Data) (forest : List (MergeTree Data)) :
    weight total (tree :: forest) = total tree.data + weight total forest := by
  simp [weight]

theorem weight_perm {first second : List (MergeTree Data)}
    (same : first.Perm second) : weight total first = weight total second :=
  (same.map _).sum_nat

/-- Every node weighs as much as it has of its own and its children. -/
inductive Balanced (total own : Data → Nat) : MergeTree Data → Prop
  | node {data : Data} {children : List (MergeTree Data)}
    (balance : total data = own data + weight total children)
    (below : ∀ child ∈ children, Balanced total own child) :
    Balanced total own (.node data children)

theorem Balanced.child {tree child : MergeTree Data}
    (balanced : Balanced total own tree) (member : child ∈ tree.children) :
    total child.data = own child.data + weight total child.children := by
  rcases balanced with ⟨_, below⟩
  rcases below child member with ⟨balance, _⟩
  exact balance

/-- Some node weighs less, and no node above it weighs more. -/
inductive Overweight (total own : Data → Nat) : MergeTree Data → Prop
  | here {data : Data} {children : List (MergeTree Data)}
    (excess : total data < own data + weight total children) :
    Overweight total own (.node data children)
  | inside {data : Data} {children : List (MergeTree Data)}
    {child : MergeTree Data}
    (enough : total data ≤ own data + weight total children)
    (member : child ∈ children)
    (overweight : Overweight total own child) :
    Overweight total own (.node data children)

theorem Overweight.not_balanced {tree : MergeTree Data}
    (overweight : Overweight total own tree) : ¬ Balanced total own tree := by
  induction overweight with
  | here excess =>
    rintro ⟨balance, _⟩
    exact ne_of_lt excess balance
  | inside _ member _ induction =>
    rintro ⟨_, below⟩
    exact induction (below _ member)

/-- A frame adds a number to the weight, at the end of a chain to its own part. -/
structure Adds (fresh : Data) (absorb : Data → Frame → Bool → Data)
    (total own : Data → Nat) (amount : Nat) : Prop where
  total_fresh : total fresh = 0
  own_fresh : own fresh = 0
  total_absorb : ∀ data frame isEnd, total (absorb data frame isEnd) = total data + amount
  own_absorb : ∀ data frame isEnd, own (absorb data frame isEnd) =
    own data + if isEnd then amount else 0

variable {amount : Nat} (adds : Adds fresh absorb total own amount)

include adds

theorem total_touch (frame : Frame) (isEnd : Bool) (tree : MergeTree Data) :
    total (touch same absorb frame isEnd tree).data =
      total tree.data + if same tree.data frame then amount else 0 := by
  unfold touch
  by_cases isMatch : same tree.data frame = true
  · rw [if_pos isMatch, if_pos isMatch]
    exact adds.total_absorb _ _ _
  · rw [if_neg isMatch, if_neg isMatch]
    rfl

theorem weight_map_touch (frame : Frame) (isEnd : Bool) (forest : List (MergeTree Data)) :
    weight total (forest.map (touch same absorb frame isEnd)) = weight total forest +
      amount * forest.countP fun tree => same tree.data frame := by
  induction forest with
  | nil => rfl
  | cons tree forest induction =>
    rw [map_cons, weight_cons, weight_cons, induction, total_touch adds, countP_cons, mul_add]
    cases same tree.data frame
    · simp only [Bool.false_eq_true, if_false]
      ring
    · simp only [if_true]
      ring

/-- The number of trees before the last match that match as well. -/
def furtherMatches (same : Data → Frame → Bool) (frame : Frame)
    (forest : List (MergeTree Data)) : Nat :=
  match lastMatch (fun tree => same tree.data frame) forest with
  | none => 0
  | some (before, _, _) => before.countP fun tree => same tree.data frame

theorem weight_mergeChain (frame : Frame) (rest : List Frame) (forest : List (MergeTree Data)) :
    weight total (mergeChain same fresh absorb (frame :: rest) forest) =
      weight total forest + amount + amount * furtherMatches same frame forest := by
  unfold mergeChain furtherMatches
  cases isLast : lastMatch (fun tree => same tree.data frame) forest with
  | none =>
    rw [weight_append, weight_cons, MergeTree.data_node, adds.total_absorb, adds.total_fresh]
    simp [weight]
  | some parts =>
    rcases parts with ⟨before, found, after⟩
    dsimp only
    rw [(lastMatch_eq_some isLast).1, weight_append, weight_cons,
      weight_append, weight_cons, weight_map_touch adds,
      MergeTree.data_node, adds.total_absorb]
    ring

omit adds in
theorem Balanced.congr {data other : Data} {children : List (MergeTree Data)}
    (balanced : Balanced total own (.node data children))
    (sameTotal : total other = total data) (sameOwn : own other = own data) :
    Balanced total own (.node other children) := by
  rcases balanced with ⟨balance, below⟩
  refine .node ?_ below
  rw [sameTotal, sameOwn, balance]

omit adds in
theorem Overweight.congr {data other : Data} {children : List (MergeTree Data)}
    (overweight : Overweight total own (.node data children))
    (sameTotal : total other = total data) (sameOwn : own other = own data) :
    Overweight total own (.node other children) := by
  cases overweight with
  | here excess => exact .here (by rwa [sameTotal, sameOwn])
  | inside enough member overweight => exact .inside (by rwa [sameTotal, sameOwn]) member overweight

theorem touch_cases (frame : Frame) (isEnd : Bool) (tree : MergeTree Data)
    (none : amount = 0 ∨ same tree.data frame = false) :
    ∃ data, touch same absorb frame isEnd tree = .node data tree.children ∧
      total data = total tree.data ∧ own data = own tree.data := by
  unfold touch
  by_cases isMatch : same tree.data frame = true
  · have zero : amount = 0 := by
      rcases none with zero | different
      · exact zero
      · rw [isMatch] at different
        cases different
    refine ⟨_, if_pos isMatch, ?_, ?_⟩
    · rw [adds.total_absorb, zero, add_zero]
    · rw [adds.own_absorb, zero, ite_self, add_zero]
  · rw [if_neg isMatch]
    cases tree with
    | node data children => exact ⟨data, rfl, rfl, rfl⟩

/-! A node that takes the amount of a chain, with the chain led down below it. -/

section Descend

variable {data merged : Data} {children : List (MergeTree Data)}
  {chain : List Frame}

omit adds in
structure Takes (total own : Data → Nat) (amount : Nat) (isEnd : Bool)
    (data merged : Data) : Prop where
  takesTotal : total merged = total data + amount
  takesOwn : own merged = own data + if isEnd then amount else 0

theorem takes_absorb (data : Data) (frame : Frame) (isEnd : Bool) :
    Takes total own amount isEnd data (absorb data frame isEnd) :=
  ⟨adds.total_absorb data frame isEnd, adds.own_absorb data frame isEnd⟩

theorem excess_mergeChain (same : Data → Frame → Bool)
    (children : List (MergeTree Data)) {frame : Frame} {rest : List Frame}
    (takes : Takes total own amount (frame :: rest).isEmpty data merged) :
    total merged = total data + amount ∧ own merged + weight total
      (mergeChain same fresh absorb (frame :: rest) children) =
      own data + weight total children + amount +
        amount * furtherMatches same frame children := by
  refine ⟨takes.takesTotal, ?_⟩
  rw [takes.takesOwn, weight_mergeChain adds]
  simp only [isEmpty_cons, Bool.false_eq_true, if_false]
  ring

omit adds in
theorem excess_nil (children : List (MergeTree Data))
    (takes : Takes total own amount true data merged) :
    total merged = total data + amount ∧ own merged + weight total children =
      own data + weight total children + amount := by
  refine ⟨takes.takesTotal, ?_⟩
  rw [takes.takesOwn, if_pos rfl]
  ring

/-- A chain keeps the balance, if it weighs nothing or each of its frames matches
one tree at most. -/
theorem Balanced.descend (balanced : Balanced total own (.node data children))
    (single : amount = 0 ∨ SingleMatch same chain children)
    (takes : Takes total own amount chain.isEmpty data merged) :
    Balanced total own (.node merged (mergeChain same fresh absorb chain children)) := by
  induction chain generalizing data merged children with
  | nil =>
    rcases balanced with ⟨balance, below⟩
    have excess := excess_nil children takes
    refine .node ?_ below
    rw [mergeChain]
    omega
  | cons frame rest induction =>
    rcases balanced with ⟨balance, below⟩
    have excess := excess_mergeChain adds same children takes
    unfold SingleMatch at single
    unfold furtherMatches at excess
    cases isLast : lastMatch (fun tree => same tree.data frame) children with
    | none =>
      rw [isLast] at excess
      refine .node ?_ ?_
      · dsimp only at excess
        omega
      · intro child member
        rw [mergeChain, isLast] at member
        rcases mem_append.1 member with before | isNew
        · exact below child before
        · rw [mem_singleton.1 isNew]
          have start : Balanced total own (.node fresh []) := by
            refine .node ?_ (by simp)
            rw [adds.total_fresh, adds.own_fresh]
            rfl
          refine induction start ?_ (takes_absorb adds _ _ _)
          right
          cases rest <;> trivial
    | some parts =>
      rcases parts with ⟨before, found, after⟩
      rcases lastMatch_eq_some isLast with ⟨split, isMatch, _⟩
      rw [isLast] at single excess
      have noFurther : amount * before.countP (fun tree => same tree.data frame) = 0 := by
        rcases single with zero | ⟨none, _⟩
        · rw [zero, zero_mul]
        · rw [countP_eq_zero.2 (by simpa using none), mul_zero]
      refine .node ?_ ?_
      · dsimp only at excess
        omega
      · intro child member
        rw [mergeChain, isLast] at member
        rcases mem_append.1 member with touched | later
        · rcases mem_map.1 touched with ⟨tree, ofBefore, rfl⟩
          have unmatched : amount = 0 ∨ same tree.data frame = false :=
            single.imp id fun single => single.1 tree ofBefore
          rcases touch_cases adds frame rest.isEmpty tree unmatched with
            ⟨_, isTouched, sameTotal, sameOwn⟩
          rw [isTouched]
          have ofTree := below tree (by
            rw [split]
            exact mem_append_left _ ofBefore)
          cases tree with
          | node _ _ => exact ofTree.congr sameTotal sameOwn
        · rcases mem_cons.1 later with isFound | ofAfter
          · rw [isFound]
            have ofFound := below found (by simp [split])
            cases found with
            | node _ _ =>
              exact induction ofFound (single.imp id fun single => single.2)
                (takes_absorb adds _ _ _)
          · refine below child ?_
            rw [split]
            simp [ofAfter]

theorem Overweight.descend (overweight : Overweight total own (.node data children))
    (takes : Takes total own amount chain.isEmpty data merged) :
    Overweight total own (.node merged (mergeChain same fresh absorb chain children)) := by
  induction chain generalizing data merged children with
  | nil =>
    have excess := excess_nil children takes
    rw [mergeChain]
    cases overweight with
    | here less => exact .here (by omega)
    | inside enough member overweight => exact .inside (by omega) member overweight
  | cons frame rest induction =>
    have excess := excess_mergeChain adds same children takes
    cases overweight with
    | here less =>
      refine .here ?_
      omega
    | @inside _ _ child enough member overweight =>
      unfold furtherMatches at excess
      cases isLast : lastMatch (fun tree => same tree.data frame) children with
      | none =>
        rw [isLast] at excess
        have stays : child ∈ mergeChain same fresh absorb (frame :: rest) children := by
          rw [mergeChain, isLast]
          exact mem_append_left _ member
        refine .inside ?_ stays overweight
        dsimp only at excess
        omega
      | some parts =>
        rcases parts with ⟨before, found, after⟩
        rw [isLast] at excess
        dsimp only at excess
        by_cases further : amount * before.countP (fun tree => same tree.data frame) = 0
        · have unmatched : ∀ tree ∈ before, amount = 0 ∨ same tree.data frame = false := by
            rcases Nat.mul_eq_zero.1 further with zero | none
            · exact fun _ _ => .inl zero
            · intro tree ofBefore
              right
              simpa using countP_eq_zero.1 none tree ofBefore
          have enoughAfter : total merged ≤ own merged + weight total
            (mergeChain same fresh absorb (frame :: rest) children) := by
            omega
          rw [mergeChain, isLast] at enoughAfter ⊢
          rw [(lastMatch_eq_some isLast).1] at member
          rcases mem_append.1 member with ofBefore | later
          · rcases touch_cases adds frame rest.isEmpty child (unmatched child ofBefore) with
              ⟨_, isTouched, sameTotal, sameOwn⟩
            refine .inside enoughAfter (mem_append_left _ (mem_map_of_mem ofBefore)) ?_
            rw [isTouched]
            cases child with
            | node _ _ => exact overweight.congr sameTotal sameOwn
          · rcases mem_cons.1 later with isFound | ofAfter
            · subst isFound
              refine .inside enoughAfter (mem_append_right _ mem_cons_self) ?_
              cases child with
              | node _ _ => exact induction overweight (takes_absorb adds _ _ _)
            · exact .inside enoughAfter (mem_append_right _ (mem_cons_of_mem _ ofAfter)) overweight
        · exact .here (by omega)

/-- A chain that weighs something and has a frame with a further match makes a
node overweight. -/
theorem Balanced.overweight_descend (balanced : Balanced total own (.node data children))
    (some : amount ≠ 0) (further : ¬ SingleMatch same chain children)
    (takes : Takes total own amount chain.isEmpty data merged) :
    Overweight total own (.node merged (mergeChain same fresh absorb chain children)) := by
  induction chain generalizing data merged children with
  | nil => exact absurd trivial further
  | cons frame rest induction =>
    rcases balanced with ⟨balance, below⟩
    have excess := excess_mergeChain adds same children takes
    unfold SingleMatch at further
    unfold furtherMatches at excess
    cases isLast : lastMatch (fun tree => same tree.data frame) children with
    | none =>
      rw [isLast] at further
      exact absurd trivial further
    | some parts =>
      rcases parts with ⟨before, found, after⟩
      rw [isLast] at further excess
      dsimp only at further excess
      by_cases none : ∀ tree ∈ before, same tree.data frame = false
      · have deeper : ¬ SingleMatch same rest found.children :=
          fun single => further ⟨none, single⟩
        have ofFound := below found (by
          rw [(lastMatch_eq_some isLast).1]
          simp)
        have enough : total merged ≤ own merged + weight total
          (mergeChain same fresh absorb (frame :: rest) children) := by
          omega
        rw [mergeChain, isLast] at enough ⊢
        refine .inside enough (mem_append_right _ mem_cons_self) ?_
        cases found with
        | node _ _ => exact induction ofFound deeper (takes_absorb adds _ _ _)
      · refine .here ?_
        have several : 0 < before.countP fun tree => same tree.data frame := by
          rw [countP_pos_iff]
          simpa using none
        have positive := Nat.mul_pos (pos_of_ne_zero some) several
        omega

end Descend

end Weights

mutual

def reached {Data : Type u} (keep : Data → Bool) : MergeTree Data → List Data
  | .node data children => if keep data then data :: reachedAll keep children else []

def reachedAll {Data : Type u} (keep : Data → Bool) : List (MergeTree Data) → List Data
  | [] => []
  | tree :: forest => reached keep tree ++ reachedAll keep forest

end

theorem reachedAll_eq_flatMap {Data : Type u} (keep : Data → Bool)
    (forest : List (MergeTree Data)) : reachedAll keep forest = forest.flatMap (reached keep) := by
  induction forest with
  | nil => rfl
  | cons tree forest induction => rw [reachedAll, induction, flatMap_cons]

theorem reachedAll_append {Data : Type u} (keep : Data → Bool)
    (first second : List (MergeTree Data)) :
    reachedAll keep (first ++ second) = reachedAll keep first ++ reachedAll keep second := by
  simp [reachedAll_eq_flatMap]

end SysAnalyzer.Foundation
