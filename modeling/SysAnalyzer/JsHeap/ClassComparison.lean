import SysAnalyzer.Base.TripleMap
import SysAnalyzer.Foundation.Run
import SysAnalyzer.Foundation.SortedDifference
import Mathlib

/-!
# Comparing two heap snapshots

`getClassesForComparison` compares the classes of a base snapshot with those of a
target.  `calClassDiff` merges the two instance lists of a class by object id:
what only the target has is counted as removed, what only the base has as added.

The second loop handles the classes that the target does not have, and hands
such a class over in the place of the target.  All its instances are counted as
removed, although only the base has them.  So a comparison is right where every
class of the base occurs in the target, and `Covered` is also necessary.
-/

namespace SysAnalyzer.JsHeap

open Foundation List
open Base

structure InstanceItem where
  id : Int
  index : Int
  shallowSize : Int

/-- A class of a snapshot, with its instances as `getClassesForSummary` counts them. -/
structure ClassItem where
  fileId : Int
  nodeName : String
  childCount : Nat
  classChildren : List InstanceItem
  counted : childCount = classChildren.length
  distinct : (classChildren.map InstanceItem.id).Nodup

/-- A `Map` from class names to classes, in the order of insertion. -/
structure ClassMap where
  classes : List ClassItem
  keyed : (classes.map ClassItem.nodeName).Nodup

namespace ClassMap

def get (map : ClassMap) (nodeName : String) : Option ClassItem :=
  map.classes.find? fun item => item.nodeName == nodeName

def instances (map : ClassMap) (nodeName : String) : List InstanceItem :=
  match map.get nodeName with
  | some item => item.classChildren
  | none => []

/-- The number of instances of all classes. -/
def size (map : ClassMap) : Int :=
  (map.classes.map fun item => (item.classChildren.length : Int)).sum

end ClassMap

/-- `ConstructorComparison`, with its initial values. -/
structure ConstructorComparison where
  fileId : Int
  targetFileId : Int
  nodeName : String
  addedCount : Int := 0
  removedCount : Int := 0
  deltaCount : Int := 0
  addedSize : Int := 0
  removedSize : Int := 0
  deltaSize : Int := 0
  deletedIdx : List Int := []
  addedIndx : List Int := []
  childCount : Int := 1
  hasNext : Bool := true

namespace ConstructorComparison

def removeNode (diff : ConstructorComparison) (targetNode : InstanceItem) : ConstructorComparison :=
  { diff with
    deletedIdx := diff.deletedIdx ++ [targetNode.index]
    removedCount := diff.removedCount + 1
    removedSize := diff.removedSize + targetNode.shallowSize }

def addNode (diff : ConstructorComparison) (baseNode : InstanceItem) : ConstructorComparison :=
  { diff with
    addedIndx := diff.addedIndx ++ [baseNode.index]
    addedCount := diff.addedCount + 1
    addedSize := diff.addedSize + baseNode.shallowSize }

end ConstructorComparison

/-- The three loops of `calClassDiff`, on what is left of both lists. -/
def mergeLoop :
    List InstanceItem → List InstanceItem → ConstructorComparison → ConstructorComparison
  | targetNode :: targets, baseNode :: bases, diff =>
    if targetNode.id < baseNode.id then
      mergeLoop targets (baseNode :: bases) (diff.removeNode targetNode)
    else if targetNode.id > baseNode.id then
      mergeLoop (targetNode :: targets) bases (diff.addNode baseNode)
    else mergeLoop targets bases diff
  | targets, [], diff => targets.foldl ConstructorComparison.removeNode diff
  | [], bases, diff => bases.foldl ConstructorComparison.addNode diff
termination_by targets bases => targets.length + bases.length

/-- `sort((a, b) => a.id - b.id)`. -/
def sortById (items : List InstanceItem) : List InstanceItem :=
  items.mergeSort fun first second => decide (first.id ≤ second.id)

/-- `calClassDiff`; `none` for `null`. -/
def calClassDiff (fileId : Int) (targetClass : ClassItem)
    (baseClass : Option ClassItem) : Option ConstructorComparison :=
  let diff : ConstructorComparison :=
    { fileId
      targetFileId := targetClass.fileId
      nodeName := targetClass.nodeName }
  let bases :=
    match baseClass with
    | some baseClass => (sortById baseClass.classChildren).take baseClass.childCount
    | none => []
  let targets := (sortById targetClass.classChildren).take targetClass.childCount
  let merged := mergeLoop targets bases diff
  let counted : ConstructorComparison :=
    { merged with
      deltaCount := merged.addedCount - merged.removedCount
      deltaSize := merged.addedSize - merged.removedSize }
  if counted.addedCount = 0 ∧ counted.removedCount = 0 then none
  else
    some
      { counted with
        childCount := counted.addedCount + counted.removedCount
        hasNext := true }

/-- A `Map` from class names to comparisons; no name is set twice. -/
abbrev DiffMap := List (String × ConstructorComparison)

/-- `get` of a map of comparisons. -/
def DiffMap.get (diffMap : DiffMap) (nodeName : String) : Option ConstructorComparison :=
  (diffMap.find? fun entry => entry.1 == nodeName).map Prod.snd

/-- The part of `HeapLoader` that comparisons use. -/
structure HeapLoader where
  fileId : Int
  allClasses : ClassMap
  diffToOtherFile : StdMap Int DiffMap

namespace HeapLoader

/-- The two loops of `getClassesForComparison`. -/
def compareClasses (loader : HeapLoader) (targetFileClasses : ClassMap) : DiffMap :=
  let ofTarget :=
    targetFileClasses.classes.filterMap fun targetClass =>
      let classes := loader.allClasses.get targetClass.nodeName
      (calClassDiff loader.fileId targetClass classes).map fun different =>
        (targetClass.nodeName, different)
  let ofBase :=
    loader.allClasses.classes.filterMap fun classItem =>
      if (targetFileClasses.get classItem.nodeName).isSome then none
      else
        (calClassDiff loader.fileId classItem none).map fun different =>
          (classItem.nodeName, different)
  ofTarget ++ ofBase

def getClassesForComparison (loader : HeapLoader) (targetFileId : Int)
    (targetFileClasses : ClassMap) : DiffMap × HeapLoader :=
  match loader.diffToOtherFile targetFileId with
  | some diffMap => (diffMap, loader)
  | none =>
    let diffMap := loader.compareClasses targetFileClasses
    (diffMap,
      { loader with
        diffToOtherFile :=
          Function.update loader.diffToOtherFile targetFileId
            (some diffMap) })

end HeapLoader

namespace ConstructorComparison

theorem foldl_removeNode (targets : List InstanceItem) (diff : ConstructorComparison) :
    targets.foldl removeNode diff = { diff with
      deletedIdx := diff.deletedIdx ++ targets.map InstanceItem.index
      removedCount := diff.removedCount + targets.length
      removedSize :=
        diff.removedSize + (targets.map InstanceItem.shallowSize).sum } := by
  induction targets generalizing diff with
  | nil => simp
  | cons targetNode targets induction =>
    rw [foldl_cons, induction]
    simp only [removeNode, map_cons, sum_cons, length_cons,
      append_assoc, singleton_append, mk.injEq, true_and, and_true]
    omega

theorem foldl_addNode (bases : List InstanceItem) (diff : ConstructorComparison) :
    bases.foldl addNode diff = { diff with
      addedIndx := diff.addedIndx ++ bases.map InstanceItem.index
      addedCount := diff.addedCount + bases.length
      addedSize :=
        diff.addedSize + (bases.map InstanceItem.shallowSize).sum } := by
  induction bases generalizing diff with
  | nil => simp
  | cons baseNode bases induction =>
    rw [foldl_cons, induction]
    simp only [addNode, map_cons, sum_cons, length_cons,
      append_assoc, singleton_append, mk.injEq, true_and, and_true]
    omega

theorem foldl_removeNode_addNode (targets : List InstanceItem) (diff : ConstructorComparison)
    (baseNode : InstanceItem) : targets.foldl removeNode (diff.addNode baseNode) =
      (targets.foldl removeNode diff).addNode baseNode := by
  rw [foldl_removeNode, foldl_removeNode]
  rfl

end ConstructorComparison

/-- The instances increase along their ids. -/
abbrev Increasing (items : List InstanceItem) : Prop :=
  items.Pairwise fun first second => first.id < second.id

theorem below_of_increasing {node head : InstanceItem} {items : List InstanceItem}
    (increases : Increasing (head :: items)) (below : node.id < head.id) :
    ∀ element ∈ head :: items, node.id < element.id := by
  rcases pairwise_cons.1 increases with ⟨fromHead, _⟩
  intro element member
  rcases mem_cons.1 member with rfl | ofRest
  · exact below
  · exact below.trans (fromHead element ofRest)

variable {targets bases : List InstanceItem}

/--
On increasing lists the merge takes out what only the target has and puts in
what only the base has.
-/
theorem mergeLoop_eq (diff : ConstructorComparison)
    (targetsIncrease : Increasing targets) (basesIncrease : Increasing bases) :
    mergeLoop targets bases diff =
      (onlyIn InstanceItem.id bases targets).foldl ConstructorComparison.addNode
        ((onlyIn InstanceItem.id targets bases).foldl ConstructorComparison.removeNode diff) := by
  fun_induction mergeLoop targets bases diff with
  | case1 targetNode targets baseNode bases diff below induction =>
    have belowAll := below_of_increasing basesIncrease below
    rw [induction (pairwise_cons.1 targetsIncrease).2 basesIncrease,
      onlyIn_cons_of_below belowAll, onlyIn_cons_right_of_below belowAll,
      foldl_cons]
  | case2 targetNode targets baseNode bases diff notBelow above induction =>
    have belowAll := below_of_increasing targetsIncrease above
    rw [induction targetsIncrease (pairwise_cons.1 basesIncrease).2,
      onlyIn_cons_of_below belowAll, onlyIn_cons_right_of_below belowAll,
      foldl_cons, ConstructorComparison.foldl_removeNode_addNode]
  | case3 targetNode targets baseNode bases diff notBelow notAbove induction =>
    have same : targetNode.id = baseNode.id := le_antisymm (not_lt.1 notAbove) (not_lt.1 notBelow)
    rcases pairwise_cons.1 targetsIncrease with
      ⟨fromTarget, targetsRest⟩
    rcases pairwise_cons.1 basesIncrease with ⟨fromBase, basesRest⟩
    rw [induction targetsRest basesRest, onlyIn_cons_cons_of_eq same fromTarget,
      onlyIn_cons_cons_of_eq same.symm fromBase]
  | case4 targets diff => simp
  | case5 bases diff => simp

theorem sortById_perm (items : List InstanceItem) : (sortById items).Perm items :=
  mergeSort_perm _ _

theorem increasing_sortById {items : List InstanceItem}
    (distinct : (items.map InstanceItem.id).Nodup) : Increasing (sortById items) := by
  have sorted : (sortById items).Pairwise fun first second =>
    decide (first.id ≤ second.id) = true :=
    pairwise_mergeSort (by
      intro first second third below above
      simp only [decide_eq_true_eq] at below above ⊢
      exact below.trans above)
      (by
        intro first second
        simpa using le_total first.id second.id)
      items
  have different : (sortById items).Pairwise fun first second =>
    first.id ≠ second.id := by
    have nodup := ((sortById_perm items).map InstanceItem.id).nodup_iff.2 distinct
    exact pairwise_map.1 nodup
  refine List.Pairwise.imp₂ ?_ sorted different
  intro first second below notSame
  exact lt_of_le_of_ne (of_decide_eq_true below) notSame

/-- What a comparison should say of the instances of a class on both sides. -/
structure Describes (diff : ConstructorComparison)
    (bases targets : List InstanceItem) : Prop where
  addedCount : diff.addedCount = (onlyIn InstanceItem.id bases targets).length
  removedCount : diff.removedCount = (onlyIn InstanceItem.id targets bases).length
  addedSize : diff.addedSize = ((onlyIn InstanceItem.id bases targets).map
    InstanceItem.shallowSize).sum
  removedSize : diff.removedSize = ((onlyIn InstanceItem.id targets bases).map
    InstanceItem.shallowSize).sum
  deltaCount : diff.deltaCount = diff.addedCount - diff.removedCount
  deltaSize : diff.deltaSize = diff.addedSize - diff.removedSize

/-- The instances that `calClassDiff` is given for the base. -/
def baseInstances : Option ClassItem → List InstanceItem
  | some baseClass => baseClass.classChildren
  | none => []

theorem mergeLoop_counts {sortedBases sortedTargets : List InstanceItem}
    (diff : ConstructorComparison) (basesPerm : sortedBases.Perm bases)
    (targetsPerm : sortedTargets.Perm targets) (basesIncrease : Increasing sortedBases)
    (targetsIncrease : Increasing sortedTargets) :
    let merged := mergeLoop sortedTargets sortedBases diff
    let added := onlyIn InstanceItem.id bases targets
    let removed := onlyIn InstanceItem.id targets bases
    merged.addedCount = diff.addedCount + added.length ∧
      merged.removedCount = diff.removedCount + removed.length ∧
      merged.addedSize = diff.addedSize + (added.map InstanceItem.shallowSize).sum ∧
      merged.removedSize = diff.removedSize + (removed.map InstanceItem.shallowSize).sum := by
  have addedPerm : (onlyIn InstanceItem.id sortedBases sortedTargets).Perm
    (onlyIn InstanceItem.id bases targets) :=
    onlyIn_perm basesPerm targetsPerm
  have removedPerm : (onlyIn InstanceItem.id sortedTargets sortedBases).Perm
    (onlyIn InstanceItem.id targets bases) :=
    onlyIn_perm targetsPerm basesPerm
  rw [mergeLoop_eq diff targetsIncrease basesIncrease, ConstructorComparison.foldl_addNode,
    ConstructorComparison.foldl_removeNode]
  simp only [addedPerm.length_eq, removedPerm.length_eq,
    (addedPerm.map InstanceItem.shallowSize).sum_eq,
    (removedPerm.map InstanceItem.shallowSize).sum_eq, and_self]

theorem take_sortById (item : ClassItem) :
    ((sortById item.classChildren).take item.childCount).Perm item.classChildren ∧
      Increasing ((sortById item.classChildren).take item.childCount) := by
  have perm := sortById_perm item.classChildren
  have whole : (sortById item.classChildren).take item.childCount =
    sortById item.classChildren := by
    rw [item.counted, ← perm.length_eq, take_length]
  rw [whole]
  exact ⟨perm, increasing_sortById item.distinct⟩

theorem calClassDiff_spec (fileId : Int) (targetClass : ClassItem) (baseClass : Option ClassItem) :
    let bases := baseInstances baseClass
    let targets := targetClass.classChildren
    match calClassDiff fileId targetClass baseClass with
    | none => onlyIn InstanceItem.id bases targets = [] ∧ onlyIn InstanceItem.id targets bases = []
    | some diff =>
      Describes diff bases targets ∧ ¬ (onlyIn InstanceItem.id bases targets = [] ∧
        onlyIn InstanceItem.id targets bases = []) := by
  intro bases targets
  let diff : ConstructorComparison :=
    { fileId
      targetFileId := targetClass.fileId
      nodeName := targetClass.nodeName }
  let sortedBases :=
    match baseClass with
    | some baseClass => (sortById baseClass.classChildren).take baseClass.childCount
    | none => []
  let sortedTargets := (sortById targetClass.classChildren).take targetClass.childCount
  have ofBases : sortedBases.Perm bases ∧ Increasing sortedBases := by
    cases baseClass with
    | none => exact ⟨List.Perm.refl _, List.Pairwise.nil⟩
    | some baseClass => exact take_sortById baseClass
  rcases take_sortById targetClass with ⟨targetsPerm, targetsIncrease⟩
  rcases mergeLoop_counts diff ofBases.1 targetsPerm ofBases.2 targetsIncrease with
    ⟨addedCount, removedCount, addedSize, removedSize⟩
  let merged := mergeLoop sortedTargets sortedBases diff
  have asMerged : calClassDiff fileId targetClass baseClass =
    if merged.addedCount = 0 ∧ merged.removedCount = 0 then none
    else
      some
        { merged with
          deltaCount := merged.addedCount - merged.removedCount
          deltaSize := merged.addedSize - merged.removedSize
          childCount := merged.addedCount + merged.removedCount
          hasNext := true } :=
    rfl
  have nothing : merged.addedCount = 0 ∧ merged.removedCount = 0 ↔
    onlyIn InstanceItem.id bases targets = [] ∧ onlyIn InstanceItem.id targets bases = [] := by
    have added : merged.addedCount = 0 + _ := addedCount
    have removed : merged.removedCount = 0 + _ := removedCount
    rw [added, removed, zero_add, zero_add, Int.natCast_eq_zero,
      Int.natCast_eq_zero, length_eq_zero_iff, length_eq_zero_iff]
  rw [asMerged]
  by_cases isNothing : merged.addedCount = 0 ∧ merged.removedCount = 0
  · rw [if_pos isNothing]
    exact nothing.1 isNothing
  · rw [if_neg isNothing]
    refine ⟨⟨?_, ?_, ?_, ?_, rfl, rfl⟩, fun same => isNothing (nothing.2 same)⟩
    · exact addedCount.trans (zero_add _)
    · exact removedCount.trans (zero_add _)
    · exact addedSize.trans (zero_add _)
    · exact removedSize.trans (zero_add _)

namespace ClassMap

theorem get_eq_some {map : ClassMap} {nodeName : String} {item : ClassItem}
    (found : map.get nodeName = some item) : item ∈ map.classes ∧ item.nodeName = nodeName :=
  ⟨mem_of_find?_eq_some found, by simpa using find?_some found⟩

theorem get_of_mem {map : ClassMap} {item : ClassItem} (member : item ∈ map.classes) :
    map.get item.nodeName = some item := by
  cases found : map.get item.nodeName with
  | none =>
    have notFound := find?_eq_none.1 found item member
    simp at notFound
  | some other =>
    rcases get_eq_some found with ⟨otherMember, sameName⟩
    exact congrArg some (inj_on_of_nodup_map map.keyed otherMember member sameName)

end ClassMap

theorem find?_filterMap_entries
    {items : List ClassItem} (keyed : (items.map ClassItem.nodeName).Nodup)
    (different : ClassItem → Option ConstructorComparison) (nodeName : String) :
    DiffMap.get (items.filterMap fun item =>
      (different item).map fun diff => (item.nodeName, diff)) nodeName =
      (items.find? fun item => item.nodeName == nodeName).bind different := by
  induction items with
  | nil => rfl
  | cons item items induction =>
    rw [map_cons, nodup_cons] at keyed
    have ofRest := induction keyed.2
    by_cases same : item.nodeName = nodeName
    · have absent : (items.find? fun item => item.nodeName == nodeName) = none := by
        rw [find?_eq_none]
        intro other member isSame
        refine keyed.1 ?_
        rw [same, ← beq_iff_eq.1 isSame]
        exact mem_map_of_mem member
      cases made : different item with
      | none =>
        rw [filterMap_cons_none (by rw [made]; rfl), ofRest, absent,
          find?_cons_of_pos (by simpa using same), Option.bind_some,
          made]
        rfl
      | some diff =>
        rw [filterMap_cons_some (by rw [made]; rfl),
          find?_cons_of_pos (by simpa using same), Option.bind_some,
          made, DiffMap.get,
          find?_cons_of_pos (by simpa using same)]
        rfl
    · rw [find?_cons_of_neg (by simpa using same)]
      cases made : different item with
      | none => rw [filterMap_cons_none (by rw [made]; rfl), ofRest]
      | some diff =>
        rw [filterMap_cons_some (by rw [made]; rfl), DiffMap.get,
          find?_cons_of_neg (by simpa using same)]
        exact ofRest

theorem DiffMap.get_append (first second : DiffMap) (nodeName : String) :
    DiffMap.get (first ++ second) nodeName = (first.get nodeName).or (second.get nodeName) := by
  rw [DiffMap.get, DiffMap.get, DiffMap.get, find?_append]
  cases first.find? fun entry => entry.1 == nodeName <;> rfl

namespace HeapLoader

def ofBase (loader : HeapLoader) (targetFileClasses : ClassMap)
    (classItem : ClassItem) : Option ConstructorComparison :=
  if (targetFileClasses.get classItem.nodeName).isSome then none
  else calClassDiff loader.fileId classItem none

def ofTarget (loader : HeapLoader) (targetClass : ClassItem) : Option ConstructorComparison :=
  calClassDiff loader.fileId targetClass (loader.allClasses.get targetClass.nodeName)

theorem compareClasses_eq (loader : HeapLoader) (targetFileClasses : ClassMap) :
    loader.compareClasses targetFileClasses =
      (targetFileClasses.classes.filterMap fun targetClass =>
        (loader.ofTarget targetClass).map fun different => (targetClass.nodeName, different)) ++
        loader.allClasses.classes.filterMap fun classItem =>
          (loader.ofBase targetFileClasses classItem).map fun different =>
            (classItem.nodeName, different) := by
  have sameBody : ∀ classItem : ClassItem,
    (if (targetFileClasses.get classItem.nodeName).isSome then none else
      (calClassDiff loader.fileId classItem none).map fun different =>
        (classItem.nodeName, different)) =
      (loader.ofBase targetFileClasses classItem).map fun different =>
        (classItem.nodeName, different) := by
    intro classItem
    unfold ofBase
    split <;> rfl
  simp only [compareClasses, sameBody, ofTarget]

theorem get_compareClasses
    (loader : HeapLoader) (targetFileClasses : ClassMap) (nodeName : String) :
    (loader.compareClasses targetFileClasses).get nodeName =
      match targetFileClasses.get nodeName with
      | some targetClass => calClassDiff loader.fileId targetClass (loader.allClasses.get nodeName)
      | none =>
        (loader.allClasses.get nodeName).bind fun classItem =>
          calClassDiff loader.fileId classItem none := by
  rw [compareClasses_eq, DiffMap.get_append, find?_filterMap_entries targetFileClasses.keyed,
    find?_filterMap_entries loader.allClasses.keyed]
  change ((targetFileClasses.get nodeName).bind _).or ((loader.allClasses.get nodeName).bind _) = _
  cases ofTargetClass : targetFileClasses.get nodeName with
  | some targetClass =>
    have sameName := (ClassMap.get_eq_some ofTargetClass).2
    have skipped : (loader.allClasses.get nodeName).bind
      (loader.ofBase targetFileClasses) = none := by
      cases ofBaseClass : loader.allClasses.get nodeName with
      | none => rfl
      | some classItem =>
        have baseName := (ClassMap.get_eq_some ofBaseClass).2
        rw [Option.bind_some, ofBase, baseName, ofTargetClass]
        rfl
    rw [skipped, Option.bind_some, Option.or_none, ofTarget, sameName]
  | none =>
    rw [Option.bind_none, Option.none_or]
    cases ofBaseClass : loader.allClasses.get nodeName with
    | none => rfl
    | some classItem =>
      have baseName := (ClassMap.get_eq_some ofBaseClass).2
      rw [Option.bind_some, Option.bind_some, ofBase, baseName, ofTargetClass]
      rfl

end HeapLoader

/-- The entry of a class, `none` exactly where nothing is added or removed. -/
def EntryRight (entry : Option ConstructorComparison) (bases targets : List InstanceItem) : Prop :=
  match entry with
  | none => onlyIn InstanceItem.id bases targets = [] ∧ onlyIn InstanceItem.id targets bases = []
  | some diff =>
    Describes diff bases targets ∧ ¬ (onlyIn InstanceItem.id bases targets = [] ∧
      onlyIn InstanceItem.id targets bases = [])

def EntriesRight (diffMap : DiffMap) (base target : ClassMap) : Prop :=
  ∀ nodeName, EntryRight (diffMap.get nodeName) (base.instances nodeName)
    (target.instances nodeName)

/-- The deltas of a class: zero where there is no entry. -/
def DiffMap.deltas (diffMap : DiffMap) (nodeName : String) : Int × Int :=
  match diffMap.get nodeName with
  | some diff => (diff.deltaCount, diff.deltaSize)
  | none => (0, 0)

/-- The sum of `deltaCount` over all classes. -/
def DiffMap.totalDelta (diffMap : DiffMap) : Int :=
  (diffMap.map fun entry => entry.2.deltaCount).sum

def Covered (base target : ClassMap) : Prop :=
  ∀ item ∈ base.classes, item.classChildren ≠ [] → (target.get item.nodeName).isSome = true

theorem ClassMap.instances_eq (map : ClassMap) (nodeName : String) :
    map.instances nodeName = baseInstances (map.get nodeName) := by
  unfold ClassMap.instances
  cases map.get nodeName <;> rfl

theorem ClassMap.distinct_instances (map : ClassMap) (nodeName : String) :
    ((map.instances nodeName).map InstanceItem.id).Nodup := by
  rw [map.instances_eq]
  cases map.get nodeName with
  | none => exact nodup_nil
  | some item => exact item.distinct

theorem entryRight_calClassDiff
    (fileId : Int) (targetClass : ClassItem) (baseClass : Option ClassItem) :
    EntryRight (calClassDiff fileId targetClass baseClass)
      (baseInstances baseClass) targetClass.classChildren := by
  have spec := calClassDiff_spec fileId targetClass baseClass
  unfold EntryRight
  exact spec

namespace HeapLoader

section Entries

variable (loader : HeapLoader) (target : ClassMap)

theorem entryRight_of_covered (nodeName : String) (covered :
    (target.get nodeName).isSome = true ∨ loader.allClasses.instances nodeName = []) :
    EntryRight ((loader.compareClasses target).get nodeName)
      (loader.allClasses.instances nodeName) (target.instances nodeName) := by
  rw [loader.get_compareClasses, ClassMap.instances_eq, ClassMap.instances_eq]
  cases ofTargetClass : target.get nodeName with
  | some targetClass => exact entryRight_calClassDiff loader.fileId targetClass _
  | none =>
    cases ofBaseClass : loader.allClasses.get nodeName with
    | none => exact ⟨rfl, rfl⟩
    | some classItem =>
      rcases covered with has | empty
      · simp [ofTargetClass] at has
      · have noInstances : classItem.classChildren = [] := by
          simpa [ClassMap.instances_eq, ofBaseClass, baseInstances]
            using empty
        have entry := entryRight_calClassDiff loader.fileId classItem none
        simp only [baseInstances, noInstances] at entry ⊢
        exact entry

theorem entryRight_of_not_covered {nodeName : String} (absent : target.get nodeName = none) :
    EntryRight ((loader.compareClasses target).get nodeName) []
      (loader.allClasses.instances nodeName) := by
  rw [loader.get_compareClasses, absent, ClassMap.instances_eq]
  cases ofBaseClass : loader.allClasses.get nodeName with
  | none => exact ⟨rfl, rfl⟩
  | some classItem => exact entryRight_calClassDiff loader.fileId classItem none

theorem entriesRight_compareClasses_iff :
    EntriesRight (loader.compareClasses target) loader.allClasses target ↔
      Covered loader.allClasses target := by
  constructor
  · intro right item member hasInstances
    cases absent : target.get item.nodeName with
    | some targetClass => rfl
    | none =>
      have swapped := loader.entryRight_of_not_covered target absent
      have entry := right item.nodeName
      have ofItem : loader.allClasses.instances item.nodeName = item.classChildren := by
        rw [ClassMap.instances_eq, ClassMap.get_of_mem member]
        rfl
      have ofTarget : target.instances item.nodeName = [] := by
        rw [ClassMap.instances_eq, absent]
        rfl
      rw [ofItem] at swapped
      rw [ofItem, ofTarget] at entry
      exfalso
      cases made : (loader.compareClasses target).get item.nodeName with
      | none =>
        rw [made] at entry
        exact hasInstances (by simpa using entry.1)
      | some diff =>
        rw [made] at entry swapped
        have noneAdded := swapped.1.addedCount
        have allAdded := entry.1.addedCount
        simp only [onlyIn_nil_left, onlyIn_nil_right, length_nil]
          at noneAdded allAdded
        rw [noneAdded] at allAdded
        refine hasInstances (length_eq_zero_iff.1 ?_)
        omega
  · intro covered nodeName
    refine loader.entryRight_of_covered target nodeName ?_
    cases ofBaseClass : loader.allClasses.get nodeName with
    | none =>
      right
      rw [ClassMap.instances_eq, ofBaseClass]
      rfl
    | some item =>
      rcases ClassMap.get_eq_some ofBaseClass with ⟨member, sameName⟩
      by_cases hasInstances : item.classChildren = []
      · right
        rw [ClassMap.instances_eq, ofBaseClass]
        exact hasInstances
      · left
        rw [← sameName]
        exact covered item member hasInstances

end Entries

end HeapLoader

def rightDeltas (bases targets : List InstanceItem) : Int × Int :=
  let added := onlyIn InstanceItem.id bases targets
  let removed := onlyIn InstanceItem.id targets bases
  (added.length - removed.length, (added.map InstanceItem.shallowSize).sum -
    (removed.map InstanceItem.shallowSize).sum)

theorem rightDeltas_swap (bases targets : List InstanceItem) : rightDeltas targets bases =
    (-(rightDeltas bases targets).1, -(rightDeltas bases targets).2) := by
  simp [rightDeltas]

theorem rightDeltas_count (basesDistinct : (bases.map InstanceItem.id).Nodup)
    (targetsDistinct : (targets.map InstanceItem.id).Nodup) :
    (rightDeltas bases targets).1 = bases.length - targets.length :=
  length_onlyIn_sub basesDistinct targetsDistinct

def countDelta (entry : Option ConstructorComparison) : Int :=
  match entry with
  | some diff => diff.deltaCount
  | none => 0

theorem EntryRight.deltas {diffMap : DiffMap} {nodeName : String}
    (right : EntryRight (diffMap.get nodeName) bases targets) :
    diffMap.deltas nodeName = rightDeltas bases targets := by
  unfold DiffMap.deltas
  cases made : diffMap.get nodeName with
  | none =>
    rw [made] at right
    simp [rightDeltas, right.1, right.2]
  | some diff =>
    rw [made] at right
    have describes := right.1
    simp only [rightDeltas, describes.deltaCount, describes.deltaSize,
      describes.addedCount, describes.removedCount, describes.addedSize,
      describes.removedSize]

theorem EntryRight.countDelta {entry : Option ConstructorComparison}
    (basesDistinct : (bases.map InstanceItem.id).Nodup)
    (targetsDistinct : (targets.map InstanceItem.id).Nodup)
    (right : EntryRight entry bases targets) :
    JsHeap.countDelta entry = bases.length - targets.length := by
  rw [← rightDeltas_count basesDistinct targetsDistinct]
  cases entry with
  | none => simp [JsHeap.countDelta, rightDeltas, right.1, right.2]
  | some diff =>
    have describes := right.1
    simp only [JsHeap.countDelta, rightDeltas, describes.deltaCount,
      describes.addedCount, describes.removedCount]

/-- The deltas of the one comparison are the negatives of those of the other. -/
def Negated (forward backward : DiffMap) : Prop :=
  ∀ nodeName, backward.deltas nodeName =
    (-(forward.deltas nodeName).1, -(forward.deltas nodeName).2)

namespace HeapLoader

theorem covered_of_negated {base target : HeapLoader} (negated :
    Negated (base.compareClasses target.allClasses) (target.compareClasses base.allClasses)) :
    Covered base.allClasses target.allClasses := by
  intro item member hasInstances
  cases absent : target.allClasses.get item.nodeName with
  | some targetClass => rfl
  | none =>
    have ofItem : base.allClasses.get item.nodeName = some item := ClassMap.get_of_mem member
    have forward := (base.entryRight_of_not_covered target.allClasses absent).deltas
    have backward :=
      (target.entryRight_of_covered base.allClasses item.nodeName
        (.inl (by rw [ofItem]; rfl))).deltas
    have both := congrArg Prod.fst (negated item.nodeName)
    rw [forward, backward, rightDeltas_count (ClassMap.distinct_instances _ _)
      (ClassMap.distinct_instances _ _),
      rightDeltas_count (show (([] : List InstanceItem).map InstanceItem.id).Nodup from nodup_nil)
        (ClassMap.distinct_instances _ _),
      ClassMap.instances_eq, ClassMap.instances_eq, ofItem, absent] at both
    simp only [baseInstances, length_nil] at both
    exact absurd (length_eq_zero_iff.1 (by omega)) hasInstances

theorem negated_iff (base target : HeapLoader) :
    Negated (base.compareClasses target.allClasses) (target.compareClasses base.allClasses) ↔
      Covered base.allClasses target.allClasses ∧ Covered target.allClasses base.allClasses := by
  constructor
  · intro negated
    refine ⟨covered_of_negated negated, covered_of_negated ?_⟩
    intro nodeName
    rw [negated nodeName]
    simp
  · rintro ⟨ofBase, ofTarget⟩ nodeName
    have forward := (base.entriesRight_compareClasses_iff target.allClasses).2 ofBase nodeName
    have backward := (target.entriesRight_compareClasses_iff base.allClasses).2 ofTarget nodeName
    rw [forward.deltas, backward.deltas, rightDeltas_swap]

end HeapLoader

theorem totalDelta_filterMap (items : List ClassItem)
    (different : ClassItem → Option ConstructorComparison) :
    DiffMap.totalDelta (items.filterMap fun item =>
      (different item).map fun diff => (item.nodeName, diff)) =
      (items.map fun item => countDelta (different item)).sum := by
  unfold DiffMap.totalDelta
  induction items with
  | nil => rfl
  | cons item items induction =>
    cases made : different item with
    | none =>
      rw [filterMap_cons_none (by rw [made]; rfl), induction]
      simp [made, countDelta]
    | some diff =>
      rw [filterMap_cons_some (by rw [made]; rfl), map_cons, sum_cons, induction]
      simp [made, countDelta]

theorem sum_map_sub (items : List ClassItem) (first second : ClassItem → Int) :
    (items.map fun item => first item - second item).sum =
      (items.map first).sum - (items.map second).sum := by
  induction items with
  | nil => rfl
  | cons item items induction =>
    simp only [map_cons, sum_cons, induction]
    omega

theorem sum_map_neg (items : List ClassItem) (value : ClassItem → Int) :
    (items.map fun item => -value item).sum = -(items.map value).sum := by
  simpa using sum_map_sub items (fun _ => 0) value

def count (item : ClassItem) : Int := item.classChildren.length

theorem length_instances_eq_sum
    {items : List ClassItem} (keyed : (items.map ClassItem.nodeName).Nodup) (nodeName : String) :
    ((baseInstances (items.find? fun item => item.nodeName == nodeName)).length : Int) =
      (items.map fun item =>
        if item.nodeName = nodeName then count item else 0).sum := by
  induction items with
  | nil => rfl
  | cons item items induction =>
    rw [map_cons, nodup_cons] at keyed
    by_cases same : item.nodeName = nodeName
    · have others : (items.map fun other =>
        if other.nodeName = nodeName then count other else 0).sum = 0 := by
        refine sum_eq_zero ?_
        intro value member
        rcases mem_map.1 member with ⟨other, ofItems, rfl⟩
        refine if_neg fun isSame => keyed.1 ?_
        rw [same, ← isSame]
        exact mem_map_of_mem ofItems
      rw [find?_cons_of_pos (by simpa using same), map_cons,
        sum_cons, others, if_pos same, add_zero]
      rfl
    · rw [find?_cons_of_neg (by simpa using same), induction keyed.2,
        map_cons, sum_cons, if_neg same, zero_add]

theorem sum_instances_eq (base : ClassMap) {names : List String} (distinct : names.Nodup) :
    (names.map fun nodeName =>
      ((base.instances nodeName).length : Int)).sum = (base.classes.map fun item =>
      if item.nodeName ∈ names then count item else 0).sum := by
  induction names with
  | nil => simp
  | cons nodeName names induction =>
    rw [nodup_cons] at distinct
    rw [map_cons, sum_cons, induction distinct.2, ClassMap.instances_eq]
    have here := length_instances_eq_sum base.keyed nodeName
    rw [ClassMap.get, here, ← sum_map_add]
    congr 1
    refine map_congr_left ?_
    intro item _
    by_cases same : item.nodeName = nodeName
    · have absent : ¬ item.nodeName ∈ names := same ▸ distinct.1
      rw [if_pos same, if_neg absent, if_pos (by simp [same]), add_zero]
    · simp [same]

theorem ClassMap.isSome_get_iff (map : ClassMap) (nodeName : String) :
    (map.get nodeName).isSome = true ↔ nodeName ∈ map.classes.map ClassItem.nodeName := by
  constructor
  · intro has
    rcases Option.isSome_iff_exists.1 has with ⟨item, found⟩
    rcases ClassMap.get_eq_some found with ⟨member, rfl⟩
    exact mem_map_of_mem member
  · intro member
    rcases mem_map.1 member with ⟨item, ofMap, rfl⟩
    rw [ClassMap.get_of_mem ofMap]
    rfl

/-- The instances of the classes that the target does not have. -/
def uncovered (base target : ClassMap) : Int :=
  (base.classes.map fun item =>
    if (target.get item.nodeName).isSome = true then 0 else count item).sum

theorem uncovered_eq_zero_iff (base target : ClassMap) :
    uncovered base target = 0 ↔ Covered base target := by
  have nonneg : ∀ item : ClassItem, 0 ≤ if (target.get item.nodeName).isSome = true then 0
    else count item := by
    intro item
    split
    · exact le_refl 0
    · exact Int.natCast_nonneg _
  constructor
  · intro zero item member hasInstances
    by_contra absent
    have atItem := single_le_sum (by
      intro value ofValues
      rcases mem_map.1 ofValues with ⟨other, _, rfl⟩
      exact nonneg other) _
      (mem_map_of_mem (f := fun item : ClassItem =>
        if (target.get item.nodeName).isSome = true then 0 else count item)
        member)
    rw [← uncovered, zero, if_neg absent] at atItem
    refine hasInstances (length_eq_zero_iff.1 ?_)
    rw [count] at atItem
    omega
  · intro covered
    refine sum_eq_zero ?_
    intro value ofValues
    rcases mem_map.1 ofValues with ⟨item, member, rfl⟩
    by_cases hasInstances : item.classChildren = []
    · simp [count, hasInstances]
    · rw [if_pos (covered item member hasInstances)]

namespace HeapLoader

theorem totalDelta_compareClasses (loader : HeapLoader) (target : ClassMap) :
    (loader.compareClasses target).totalDelta = loader.allClasses.size - target.size -
      2 * uncovered loader.allClasses target := by
  have ofTarget : ∀ item ∈ target.classes, countDelta (loader.ofTarget item) =
    (loader.allClasses.instances item.nodeName).length - count item := by
    intro item _
    have right := entryRight_calClassDiff loader.fileId item (loader.allClasses.get item.nodeName)
    rw [← ClassMap.instances_eq] at right
    exact right.countDelta (ClassMap.distinct_instances _ _) item.distinct
  have ofBase : ∀ item ∈ loader.allClasses.classes, countDelta (loader.ofBase target item) =
    -(if (target.get item.nodeName).isSome = true then 0 else count item) := by
    intro item _
    unfold HeapLoader.ofBase
    split
    · rfl
    · have right := entryRight_calClassDiff loader.fileId item none
      have noBases : ((baseInstances none).map InstanceItem.id).Nodup := nodup_nil
      have delta := right.countDelta noBases item.distinct
      rw [delta]
      simp [baseInstances, count]
  have split : loader.allClasses.size = (loader.allClasses.classes.map fun item =>
    if item.nodeName ∈ target.classes.map ClassItem.nodeName then count item
    else 0).sum +
    uncovered loader.allClasses target := by
    rw [uncovered, ← sum_map_add, ClassMap.size]
    congr 1
    refine map_congr_left ?_
    intro item _
    simp only [target.isSome_get_iff]
    split <;> simp [count]
  have shared := sum_instances_eq loader.allClasses target.keyed
  rw [map_map] at shared
  rw [compareClasses_eq, DiffMap.totalDelta, map_append, sum_append]
  change DiffMap.totalDelta _ + DiffMap.totalDelta _ = _
  rw [totalDelta_filterMap, totalDelta_filterMap, map_congr_left ofTarget,
    map_congr_left ofBase, sum_map_sub, sum_map_neg]
  change (_ - target.size) + -(uncovered loader.allClasses target) = _
  change (map _ _).sum = _ at shared
  rw [show (target.classes.map fun item =>
    ((loader.allClasses.instances item.nodeName).length : Int)).sum = _ from
    shared, split]
  omega

end HeapLoader

namespace HeapLoader

section Files

-- the classes of the snapshots that are loaded, by file id
variable (classesOf : Int → ClassMap)

def start (fileId : Int) : HeapLoader := ⟨fileId, classesOf fileId, fun _ => none⟩

def compareWith (loader : HeapLoader) (targetFileId : Int) : HeapLoader :=
  (loader.getClassesForComparison targetFileId (classesOf targetFileId)).2

def comparison (fileId : Int) (earlier : List Int) (targetFileId : Int) : DiffMap :=
  ((run (compareWith classesOf) (start classesOf fileId) earlier).getClassesForComparison
    targetFileId (classesOf targetFileId)).1

/-- A loader that has kept nothing but what it would find again. -/
structure KeepsAnswers (fileId : Int) (loader : HeapLoader) : Prop where
  sameFile : loader.fileId = fileId
  sameClasses : loader.allClasses = classesOf fileId
  kept : ∀ targetFileId diffMap, loader.diffToOtherFile targetFileId = some diffMap → diffMap =
    (start classesOf fileId).compareClasses (classesOf targetFileId)

variable {classesOf}

theorem KeepsAnswers.answer {fileId : Int} {loader : HeapLoader}
    (keeps : KeepsAnswers classesOf fileId loader) (targetFileId : Int) :
    (loader.getClassesForComparison targetFileId (classesOf targetFileId)).1 =
      (start classesOf fileId).compareClasses (classesOf targetFileId) := by
  unfold getClassesForComparison
  cases cached : loader.diffToOtherFile targetFileId with
  | some diffMap => exact keeps.kept targetFileId diffMap cached
  | none =>
    have sameResult : loader.compareClasses (classesOf targetFileId) =
      (start classesOf fileId).compareClasses (classesOf targetFileId) := by
      simp only [compareClasses, keeps.sameFile, keeps.sameClasses, start]
    exact sameResult

theorem KeepsAnswers.compareWith {fileId : Int} (loader : HeapLoader) (targetFileId : Int)
    (keeps : KeepsAnswers classesOf fileId loader) :
    KeepsAnswers classesOf fileId (loader.compareWith classesOf targetFileId) := by
  have answer := keeps.answer targetFileId
  unfold HeapLoader.compareWith
  unfold getClassesForComparison at answer ⊢
  cases cached : loader.diffToOtherFile targetFileId with
  | some diffMap => exact keeps
  | none =>
    simp only [cached] at answer
    refine ⟨keeps.sameFile, keeps.sameClasses, ?_⟩
    intro other diffMap found
    simp only at found
    by_cases same : other = targetFileId
    · subst same
      rw [Function.update_self, Option.some.injEq] at found
      exact found.symm.trans answer
    · rw [Function.update_of_ne same] at found
      exact keeps.kept other diffMap found

variable (classesOf)

theorem comparison_eq (fileId : Int) (earlier : List Int) (targetFileId : Int) :
    comparison classesOf fileId earlier targetFileId =
      (start classesOf fileId).compareClasses (classesOf targetFileId) := by
  have initial : KeepsAnswers classesOf fileId (start classesOf fileId) := ⟨rfl, rfl, nofun⟩
  have keeps := run_invariant_of_preserves KeepsAnswers.compareWith earlier initial
  exact keeps.answer targetFileId

/--
Comparing a base with a target is right, class by class and in total, exactly
where the target has every class of the base; the two directions mirror each
other exactly where both snapshots have the same classes.
-/
theorem comparison_iff (base target : Int) (earlier later : List Int) :
    let forward := comparison classesOf base earlier target
    let backward := comparison classesOf target later base
    (EntriesRight forward (classesOf base) (classesOf target) ↔
      Covered (classesOf base) (classesOf target)) ∧
      (Negated forward backward ↔ Covered (classesOf base) (classesOf target) ∧
        Covered (classesOf target) (classesOf base)) ∧
      (forward.totalDelta = (classesOf base).size - (classesOf target).size ↔
        Covered (classesOf base) (classesOf target)) := by
  intro forward backward
  let baseLoader := start classesOf base
  let targetLoader := start classesOf target
  have isForward : forward = baseLoader.compareClasses (classesOf target) :=
    comparison_eq classesOf base earlier target
  have isBackward : backward = targetLoader.compareClasses (classesOf base) :=
    comparison_eq classesOf target later base
  have total := baseLoader.totalDelta_compareClasses (classesOf target)
  rw [isForward, isBackward]
  refine ⟨baseLoader.entriesRight_compareClasses_iff (classesOf target),
    negated_iff baseLoader targetLoader, ?_⟩
  rw [total, ← uncovered_eq_zero_iff]
  change (classesOf base).size - _ - 2 * uncovered (classesOf base) _ = _ ↔ _
  omega

end Files

def oneObject (fileId : Int) : ClassMap :=
  if fileId = 1 then ⟨[⟨1, "A", 1, [⟨7, 0, 16⟩], rfl, by decide⟩], by decide⟩
  else ⟨[], by decide⟩

/-- The object that only the base has is counted as removed, not as added. -/
theorem comparison_oneObject :
    ¬ EntriesRight (comparison oneObject 1 [] 2) (oneObject 1) (oneObject 2) ∧
      (comparison oneObject 1 [] 2).totalDelta = -1 ∧
      (oneObject 1).size - (oneObject 2).size = 1 := by
  rw [comparison_eq]
  refine ⟨?_, ?_, by decide⟩
  · intro right
    have covered := ((start oneObject 1).entriesRight_compareClasses_iff (oneObject 2)).1 right
    revert covered
    rw [← uncovered_eq_zero_iff]
    decide
  · rw [totalDelta_compareClasses]
    decide

end HeapLoader

end SysAnalyzer.JsHeap
