import SysAnalyzer.JsHeap.ClassSummary

/-!
# Retained sizes of classes

A class retains what is below its instances in the dominator tree.  Below an
instance whose retained size has been added the class is seen, and nothing of it
is added again; where the subtree ends, the stack has the length that was
remembered, and all marks with that length end.

So a subtree leaves the stack as it was and closes the marks at its length.  The
induction is over the subtrees, with the children of a node one by one.
-/

namespace SysAnalyzer.JsHeap

open Foundation List Function

namespace SeenClasses

/-- No mark ends at a longer stack. -/
def Within (seenClasses : SeenClasses) (length : Nat) : Prop :=
  ∀ size ∈ seenClasses.sizes.head?, size ≤ length

theorem within_mark (seenClasses : SeenClasses) (name : String) (length : Nat) :
    (seenClasses.mark name length).Within length := by
  intro size member
  exact le_of_eq (Option.mem_some_iff.1 member).symm

theorem close_of_within {seenClasses : SeenClasses} {length longer : Nat}
    (within : seenClasses.Within length) (isLonger : length < longer) :
    seenClasses.close longer = seenClasses := by
  rcases seenClasses with ⟨sizes, classesName, seenClassName⟩
  cases sizes with
  | nil => rfl
  | cons size sizes =>
    have bound : size ≤ length := within size rfl
    have apart : size ≠ longer := by omega
    cases classesName <;> rw [close, unmark, if_neg apart]

theorem close_mark {seenClasses : SeenClasses} {name : String} (length : Nat)
    (notSeen : seenClasses.seenClassName name = false) :
    (seenClasses.mark name length).close length = seenClasses.close length := by
  have restored : Function.update (Function.update seenClasses.seenClassName name true)
    name false = seenClasses.seenClassName := by
    rw [update_idem, ← notSeen, update_eq_self]
  rw [close, mark, unmark, if_pos rfl]
  dsimp only
  rw [restored, close]

end SeenClasses

namespace SummaryLoader

variable (loader : SummaryLoader) (range : Option (Int × Int))

def IsInstance (name : String) (idx : Nat) : Prop :=
  ∃ node, loader.nodes[idx]? = some node ∧ isRetained range node = true ∧ node.className = name

/-- What a subtree adds to a class. -/
noncomputable def share (seenClassName : String → Bool) (name : String) (idx : Nat) : Nat :=
  if seenClassName name = true then 0
  else
    ∑ lower ∈ loader.tree.toParentTree.covered (loader.IsInstance range name) idx,
      selfSizeAt loader.nodes lower

variable {loader range}

theorem mem_vertices_iff {idx : Nat} :
    idx ∈ loader.tree.toParentTree.vertices ↔ idx < loader.nodes.length := by
  rw [← loader.sameLength]
  exact Finset.mem_range

variable {name : String}

theorem mem_vertices_of_isInstance {idx : Nat} (isInstance : loader.IsInstance range name idx) :
    idx ∈ loader.tree.toParentTree.vertices := by
  rcases isInstance with ⟨node, found, _⟩
  exact mem_vertices_iff.2 (List.getElem?_eq_some_iff.1 found).1

theorem share_of_seen {seenClassName : String → Bool}
    (seen : seenClassName name = true) (idx : Nat) :
    loader.share range seenClassName name idx = 0 :=
  if_pos seen

theorem share_eq_sum {seenClassName : String → Bool} {idx : Nat}
    (member : idx ∈ loader.tree.toParentTree.vertices) (either :
      seenClassName name = true ∨ ¬ loader.IsInstance range name idx) :
    loader.share range seenClassName name idx = ((loader.tree.dominated idx).map
      (loader.share range seenClassName name)).sum := by
  rw [loader.tree.sum_dominated]
  by_cases seen : seenClassName name = true
  · rw [share_of_seen seen]
    exact (Finset.sum_eq_zero fun child _ => share_of_seen seen child).symm
  · have notInstance := either.resolve_left seen
    rw [share, if_neg seen, ParentTree.sum_covered member notInstance
      (fun _ => mem_vertices_of_isInstance)]
    apply Finset.sum_congr rfl
    intro child _
    rw [share, if_neg seen]

theorem share_of_isInstance {seenClassName : String → Bool} {idx : Nat}
    {node : SummaryNode} (found : loader.nodes[idx]? = some node)
    (retained : isRetained range node = true) (notSeen : seenClassName node.className = false) :
    loader.share range seenClassName node.className idx = node.retainedSize := by
  have isInstance : loader.IsInstance range node.className idx := ⟨node, found, retained, rfl⟩
  have seen : ¬ seenClassName node.className = true := by simp [notSeen]
  rw [share, if_neg seen, ParentTree.covered_of_marked isInstance, loader.retains idx node found]

/-! ## Subtrees -/

def Adds (before after : SummaryMap) (amount : String → Nat) : Prop :=
  ∀ name, after.lookup name = (before.lookup name).map (SummaryClass.addRetained (amount name))

theorem adds_refl (classes : SummaryMap) : Adds classes classes fun _ => 0 := by
  intro name
  cases classes.lookup name with
  | none => rfl
  | some classItem => simp [SummaryClass.addRetained]

variable {amount : String → Nat}

theorem Adds.trans {before between after : SummaryMap}
    {more : String → Nat} (first : Adds before between amount) (second : Adds between after more) :
    Adds before after fun name => amount name + more name := by
  intro name
  rw [second name, first name]
  cases before.lookup name with
  | none => rfl
  | some classItem => simp [SummaryClass.addRetained, add_assoc]

def Present (loader : SummaryLoader) (range : Option (Int × Int)) (classes : SummaryMap) : Prop :=
  ∀ name idx, loader.IsInstance range name idx → (classes.lookup name).isSome = true

theorem Present.adds {before after : SummaryMap}
    (present : Present loader range before) (adds : Adds before after amount) :
    Present loader range after := by
  intro name idx isInstance
  rw [adds name, Option.isSome_map]
  exact present name idx isInstance

/-- The walk over a subtree, from any state that its marks allow. -/
def Walks (loader : SummaryLoader) (range : Option (Int × Int)) (idx : Nat) : Prop :=
  ∀ (rounds : Nat) (rest : List Nat) (seenClasses : SeenClasses) (classes : SummaryMap),
    seenClasses.Within rest.length → Present loader range classes → ∃ after, loader.walkNodes range
      (rounds + (loader.tree.toParentTree.below idx).card)
      ⟨idx :: rest, seenClasses, classes⟩ =
      loader.walkNodes range rounds ⟨rest, seenClasses.close rest.length, after⟩ ∧
      Adds classes after fun name => loader.share range seenClasses.seenClassName name idx

theorem walks_children {children : List Nat}
    (walks : ∀ child ∈ children, Walks loader range child) :
    ∀ (rounds : Nat) (rest : List Nat) (seenClasses : SeenClasses) (classes : SummaryMap),
      seenClasses.Within rest.length → Present loader range classes → ∃ after,
        loader.walkNodes range (rounds + (children.map fun child =>
          (loader.tree.toParentTree.below child).card).sum)
          ⟨children ++ rest, seenClasses.close (children ++ rest).length, classes⟩ =
          loader.walkNodes range rounds ⟨rest, seenClasses.close rest.length, after⟩ ∧
        Adds classes after fun name =>
          (children.map (loader.share range seenClasses.seenClassName name)).sum := by
  induction children with
  | nil =>
    intro rounds rest seenClasses classes _ _
    exact ⟨classes, rfl, adds_refl classes⟩
  | cons child children ih =>
    intro rounds rest seenClasses classes within present
    have longer : rest.length < (child :: children ++ rest).length := by simp
    have withinRest : seenClasses.Within (children ++ rest).length := by
      intro size member
      have bound := within size member
      rw [length_append]
      omega
    rw [SeenClasses.close_of_within within longer]
    rcases walks child mem_cons_self (rounds + (children.map fun child =>
      (loader.tree.toParentTree.below child).card).sum)
      (children ++ rest) seenClasses classes withinRest present with
      ⟨between, first, addsFirst⟩
    rcases ih (fun other member => walks other (mem_cons_of_mem child member))
      rounds rest seenClasses between within (present.adds addsFirst) with
      ⟨after, second, addsSecond⟩
    refine ⟨after, ?_, ?_⟩
    · rw [← second, ← first, map_cons, sum_cons, cons_append]
      congr 1
      omega
    · exact addsFirst.trans addsSecond

theorem push_slice {idx : Nat} (inside : idx < loader.nodes.length) (rest : List Nat) :
    (loader.built.slice idx).foldl (fun list nodeIdx => nodeIdx :: list) rest =
      loader.tree.dominated idx ++ rest := by
  rw [DominatorTree.slice_eq loader.isBuilt (loader.sameLength ▸ inside),
    foldl_flip_cons_eq_append, map_id', reverse_reverse]

theorem starts_ne_iff {idx : Nat} (inside : idx < loader.nodes.length) :
    loader.built.firstDominatedNodesIdx.getD idx 0 ≠
      loader.built.firstDominatedNodesIdx.getD (idx + 1) 0 ↔ loader.tree.dominated idx ≠ [] :=
  not_congr (DominatorTree.starts_eq_iff loader.isBuilt (loader.sameLength ▸ inside))

section Visit

variable {idx : Nat} {node : SummaryNode} (rest : List Nat)
  {seenClasses : SeenClasses} {classes : SummaryMap}
  (found : loader.nodes[idx]? = some node)

include found

theorem visitNode_skip (skipped :
    ¬ (seenClasses.seenClassName node.className = false ∧ isRetained range node = true)) :
    loader.visitNode range ⟨idx :: rest, seenClasses, classes⟩ idx rest =
      ⟨loader.tree.dominated idx ++ rest,
        seenClasses.close (loader.tree.dominated idx ++ rest).length, classes⟩ := by
  have inside := (List.getElem?_eq_some_iff.1 found).1
  rw [visitNode, found]
  dsimp only
  rw [if_neg skipped, push_slice inside]

theorem visitNode_add {classItem : SummaryClass}
    (notSeen : seenClasses.seenClassName node.className = false)
    (retained : isRetained range node = true)
    (isClass : classes.lookup node.className = some classItem) :
    loader.visitNode range ⟨idx :: rest, seenClasses, classes⟩ idx rest =
      ⟨loader.tree.dominated idx ++ rest, (if loader.tree.dominated idx ≠ [] then
        seenClasses.mark node.className rest.length
        else seenClasses).close (loader.tree.dominated idx ++ rest).length,
        upsert node.className (fun _ => classItem.addRetained node.retainedSize) classes⟩ := by
  have inside := (List.getElem?_eq_some_iff.1 found).1
  rw [visitNode, found]
  dsimp only
  rw [if_pos ⟨notSeen, retained⟩, push_slice inside, isClass]
  dsimp only
  simp only [starts_ne_iff inside]

end Visit

theorem Present.lookup {classes : SummaryMap} {idx : Nat} {node : SummaryNode}
    (present : Present loader range classes) (found : loader.nodes[idx]? = some node)
    (retained : isRetained range node = true) :
    ∃ classItem, classes.lookup node.className = some classItem :=
  Option.isSome_iff_exists.1 (present node.className idx ⟨node, found, retained, rfl⟩)

theorem adds_upsert {classes : SummaryMap} {classItem : SummaryClass} (retainedSize : Nat)
    (isClass : classes.lookup name = some classItem) :
    Adds classes (upsert name (fun _ => classItem.addRetained retainedSize) classes)
      fun wanted => if wanted = name then retainedSize else 0 := by
  intro wanted
  rw [lookup_upsert]
  by_cases same : wanted = name
  · rw [if_pos same, same, isClass]
    simp
  · rw [if_neg same]
    dsimp only
    rw [if_neg same]
    exact adds_refl classes wanted

theorem not_isInstance {idx : Nat} {node : SummaryNode} (found : loader.nodes[idx]? = some node)
    (either : name ≠ node.className ∨ isRetained range node = false) :
    ¬ loader.IsInstance range name idx := by
  rintro ⟨other, otherFound, retained, rfl⟩
  rw [found] at otherFound
  cases otherFound
  rcases either with apart | notRetained
  · exact apart rfl
  · rw [notRetained] at retained
    cases retained

theorem share_congr {seenClassName others : String → Bool}
    (same : seenClassName name = others name) (idx : Nat) :
    loader.share range seenClassName name idx = loader.share range others name idx := by
  rw [share, share, same]

section

variable {idx : Nat} (member : idx ∈ loader.tree.toParentTree.vertices)
include member

/--
A node is visited and then the subtrees of its children, when the marks after
the visit close like those before and the shares add up.
-/
theorem walks_of_visit {rest : List Nat}
    {seenClasses marked : SeenClasses} {classes entered : SummaryMap}
    {own : String → Nat} (ofChildren : ∀ child ∈ loader.tree.toParentTree.children idx,
      Walks loader range child) (visited :
      loader.visitNode range ⟨idx :: rest, seenClasses, classes⟩ idx rest =
        ⟨loader.tree.dominated idx ++ rest,
          marked.close (loader.tree.dominated idx ++ rest).length, entered⟩)
    (within : marked.Within rest.length)
    (closed : marked.close rest.length = seenClasses.close rest.length)
    (present : Present loader range classes) (adds : Adds classes entered own)
    (shares : ∀ name, loader.share range seenClasses.seenClassName name idx =
      own name + ((loader.tree.dominated idx).map
        (loader.share range marked.seenClassName name)).sum) (rounds : Nat) :
    ∃ after, loader.walkNodes range (rounds + (loader.tree.toParentTree.below idx).card)
      ⟨idx :: rest, seenClasses, classes⟩ =
      loader.walkNodes range rounds ⟨rest, seenClasses.close rest.length, after⟩ ∧
      Adds classes after fun name => loader.share range seenClasses.seenClassName name idx := by
  have children : ∀ child ∈ loader.tree.dominated idx, Walks loader range child := by
    intro child isDominated
    apply ofChildren
    rw [← loader.tree.toFinset_dominated, mem_toFinset]
    exact isDominated
  have roundsBelow : rounds + (loader.tree.toParentTree.below idx).card =
    rounds + ((loader.tree.dominated idx).map fun child =>
      (loader.tree.toParentTree.below child).card).sum + 1 := by
    rw [ParentTree.card_below member, loader.tree.sum_dominated]
    omega
  rcases walks_children children rounds rest marked entered within
    (present.adds adds) with ⟨after, walked, addsBelow⟩
  refine ⟨after, ?_, ?_⟩
  · rw [roundsBelow, walkNodes]
    dsimp only
    rw [visited, walked, closed]
  · have sums : (fun name =>
      loader.share range seenClasses.seenClassName name idx) = _ := funext shares
    rw [sums]
    exact adds.trans addsBelow

theorem walks_of_children (ofChildren : ∀ child ∈ loader.tree.toParentTree.children idx,
    Walks loader range child) : Walks loader range idx := by
  intro rounds rest seenClasses classes within present
  have inside := mem_vertices_iff.1 member
  have found : loader.nodes[idx]? = some loader.nodes[idx] := getElem?_eq_getElem inside
  generalize loader.nodes[idx] = node at found
  by_cases added : seenClasses.seenClassName node.className = false ∧ isRetained range node = true
  · rcases added with ⟨notSeen, retained⟩
    rcases present.lookup found retained with ⟨classItem, isClass⟩
    have visited := visitNode_add rest found notSeen retained isClass
    have adds := adds_upsert node.retainedSize isClass
    have own := share_of_isInstance found retained notSeen
    by_cases isLeaf : loader.tree.dominated idx = []
    · rw [if_neg (not_not.2 isLeaf)] at visited
      apply walks_of_visit member ofChildren visited within rfl present adds
      intro name
      rw [isLeaf, map_nil, sum_nil, add_zero]
      by_cases same : name = node.className
      · rw [if_pos same, same, own]
      · rw [if_neg same, share_eq_sum member (.inr (not_isInstance found (.inl same))), isLeaf]
        rfl
    · rw [if_pos isLeaf] at visited
      apply walks_of_visit member ofChildren visited (seenClasses.within_mark _ _)
        (SeenClasses.close_mark rest.length notSeen) present adds
      intro name
      by_cases same : name = node.className
      · subst same
        have seen : (seenClasses.mark node.className rest.length).seenClassName
          node.className = true := update_self _ _ _
        have nothing : ∀ child ∈ loader.tree.dominated idx, loader.share range
          (seenClasses.mark node.className rest.length).seenClassName
          node.className child = 0 := fun child _ => share_of_seen seen child
        rw [if_pos rfl, own, map_congr_left nothing]
        simp
      · have unchanged : seenClasses.seenClassName name =
          (seenClasses.mark node.className rest.length).seenClassName name :=
          (update_of_ne same _ _).symm
        rw [if_neg same, zero_add,
          share_eq_sum member (.inr (not_isInstance found (.inl same)))]
        congr 1
        apply map_congr_left
        intro child _
        exact share_congr unchanged child
  · apply walks_of_visit member ofChildren (visitNode_skip rest found added) within rfl
      present (adds_refl classes)
    intro name
    rw [zero_add]
    apply share_eq_sum member
    by_cases same : name = node.className
    · subst same
      cases seen : seenClasses.seenClassName node.className with
      | true => exact .inl rfl
      | false =>
        right
        apply not_isInstance found
        right
        rw [← Bool.not_eq_true]
        intro retained
        exact added ⟨seen, retained⟩
    · exact .inr (not_isInstance found (.inl same))

theorem walks : Walks loader range idx :=
  ParentTree.induction_children (fun _ => walks_of_children) member

end

/-! ## The first loop -/

theorem gather_addToClass (fileId : Int) {entries : List (SummaryNode × Nat)}
    (nonempty : entries ≠ []) : ∃ classItem, gather (addToClass fileId) entries = some classItem ∧
      classItem.childCount = entries.length ∧ classItem.shallowSize =
        ((entries.map fun entry => entry.1.selfSize).sum : Nat) ∧ classItem.retainedSize = 0 := by
  induction entries using reverseRecOn with
  | nil => exact absurd rfl nonempty
  | append_singleton entries entry ih =>
    rw [gather_concat]
    refine ⟨_, rfl, ?_⟩
    rcases eq_nil_or_concat entries with rfl | ⟨before, last, isConcat⟩
    · simp [gather, addToClass, SummaryClass.ofFirst, ConstructorItem.ofNode]
    · have some : entries ≠ [] := by
        rw [isConcat]
        simp
      rcases ih some with ⟨classItem, gathered, count, size, retained⟩
      rw [gathered]
      simp [addToClass, SummaryClass.addInstance, count, size, retained]

theorem isLeftOut_eq_not (range : Option (Int × Int)) (node : SummaryNode) :
    isLeftOut range node = !isRetained range node := by
  cases range with
  | none => simp [isLeftOut, isRetained, passesFilter, bne]
  | some bounds => simp [isLeftOut, isRetained, bne, Bool.not_and, Bool.not_or]

def Counts (range : Option (Int × Int)) (node : SummaryNode) : Prop :=
  (∀ bounds ∈ range, bounds.1 ≤ node.id ∧ node.id ≤ bounds.2) ∧
    (node.selfSize ≠ 0 ∨ node.type = .native)

theorem isRetained_iff (range : Option (Int × Int)) (node : SummaryNode) :
    isRetained range node = true ↔ Counts range node := by
  cases range with
  | none => simp [isRetained, Counts]
  | some bounds => simp [isRetained, Counts, passesFilter]

section Instances

open Classical

variable (loader range)

noncomputable def instances (name : String) : Finset Nat :=
  (Finset.range loader.nodes.length).filter fun idx =>
    ∃ node, loader.nodes[idx]? = some node ∧ Counts range node ∧ node.className = name

noncomputable def dominatedByAny (uppers : Finset Nat) : Finset Nat :=
  (Finset.range loader.nodes.length).filter fun lower =>
    ∃ upper ∈ uppers, loader.tree.toParentTree.Above upper lower

variable {loader range}

theorem mem_instances_iff {name : String} {idx : Nat} :
    idx ∈ loader.instances range name ↔ loader.IsInstance range name idx := by
  simp only [instances, Finset.mem_filter, Finset.mem_range, IsInstance, isRetained_iff]
  apply and_iff_right_of_imp
  rintro ⟨node, found, _⟩
  exact (List.getElem?_eq_some_iff.1 found).1

theorem covered_root (name : String) :
    loader.tree.toParentTree.covered (loader.IsInstance range name) 0 =
      loader.dominatedByAny (loader.instances range name) := by
  ext lower
  rw [ParentTree.mem_covered, dominatedByAny, Finset.mem_filter, mem_vertices_iff, Finset.mem_range]
  apply and_congr_right
  intro _
  simp only [mem_instances_iff]
  constructor
  · rintro ⟨upper, isInstance, _, above⟩
    exact ⟨upper, isInstance, above⟩
  · rintro ⟨upper, isInstance, above⟩
    exact ⟨upper, isInstance, loader.tree.toParentTree.reaches upper
      (mem_vertices_of_isInstance isInstance), above⟩

/-- The entries of the first loop with a class name. -/
def entriesOf (loader : SummaryLoader) (range : Option (Int × Int))
    (name : String) : List (SummaryNode × Nat) :=
  keptRows (fun node => decide (node.className = name) && !isLeftOut range node) loader.nodes

theorem lookup_combineClasses (name : String) :
    (combineClasses loader.fileId range loader.nodes).lookup name =
      gather (addToClass loader.fileId) (loader.entriesOf range name) := by
  rw [combineClasses, lookup_group, keptRows, filter_filter]
  rfl

theorem nodup_entriesOf (name : String) : ((loader.entriesOf range name).map Prod.snd).Nodup := by
  rw [List.Nodup, pairwise_map]
  apply (keptRows_pairwise _ _).imp
  intro earlier later before
  exact ne_of_lt before

theorem toFinset_entriesOf (name : String) :
    ((loader.entriesOf range name).map Prod.snd).toFinset = loader.instances range name := by
  ext idx
  rw [mem_toFinset, mem_instances_iff, mem_map]
  constructor
  · rintro ⟨⟨node, place⟩, member, rfl⟩
    rw [entriesOf, mem_keptRows, isLeftOut_eq_not] at member
    simp only [Bool.not_not, Bool.and_eq_true, decide_eq_true_eq] at member
    exact ⟨node, member.1, member.2.2, member.2.1⟩
  · rintro ⟨node, found, retained, isName⟩
    refine ⟨(node, idx), ?_, rfl⟩
    rw [entriesOf, mem_keptRows, isLeftOut_eq_not]
    simp [found, retained, isName]

theorem card_instances (name : String) :
    (loader.instances range name).card = (loader.entriesOf range name).length := by
  rw [← toFinset_entriesOf, toFinset_card_of_nodup (nodup_entriesOf name), length_map]

theorem sum_instances (name : String) :
    ∑ idx ∈ loader.instances range name, selfSizeAt loader.nodes idx =
      ((loader.entriesOf range name).map fun entry => entry.1.selfSize).sum := by
  rw [← toFinset_entriesOf, sum_toFinset _ (nodup_entriesOf name), map_map]
  congr 1
  apply map_congr_left
  intro entry member
  rw [entriesOf, mem_keptRows] at member
  simp [selfSizeAt, member.1]

theorem present_combineClasses :
    Present loader range (combineClasses loader.fileId range loader.nodes) := by
  intro name idx isInstance
  rw [lookup_combineClasses]
  apply gather_isSome
  intro nothing
  rw [← mem_instances_iff, ← toFinset_entriesOf, nothing] at isInstance
  exact absurd isInstance (by simp)

def IsSummary (loader : SummaryLoader) (range : Option (Int × Int))
    (name : String) : Option SummaryClass → Prop
  | none => loader.instances range name = ∅
  | some classItem =>
    (loader.instances range name).Nonempty ∧
      classItem.childCount = (loader.instances range name).card ∧
      classItem.shallowSize =
        (∑ idx ∈ loader.instances range name, selfSizeAt loader.nodes idx : Nat) ∧
      classItem.retainedSize =
        (∑ lower ∈ loader.dominatedByAny (loader.instances range name),
          selfSizeAt loader.nodes lower : Nat)

theorem computeClasses_adds :
    Adds (combineClasses loader.fileId range loader.nodes) (loader.computeClasses range) fun name =>
      ∑ lower ∈ loader.dominatedByAny (loader.instances range name),
        selfSizeAt loader.nodes lower := by
  have root : Walks loader range loader.tree.toParentTree.root :=
    walks loader.tree.toParentTree.root_mem
  have within : SeenClasses.initial.Within 0 := by
    intro size member
    cases member
    decide
  rcases root 0 [] .initial _ within present_combineClasses with
    ⟨after, isAfter, adds⟩
  have rounds : 0 + (loader.tree.toParentTree.below
    loader.tree.toParentTree.root).card = loader.nodes.length := by
    rw [zero_add, ParentTree.below_root, ← loader.sameLength]
    exact Finset.card_range _
  rw [rounds] at isAfter
  have isComputed : loader.computeClasses range = after := congrArg RetainedWalk.classes isAfter
  rw [isComputed]
  intro name
  rw [adds name]
  dsimp only
  rw [← covered_root]
  rfl

theorem isSummary_computeClasses (name : String) :
    IsSummary loader range name ((loader.computeClasses range).lookup name) := by
  rw [computeClasses_adds name, lookup_combineClasses]
  by_cases nothing : loader.entriesOf range name = []
  · rw [nothing]
    show loader.instances range name = ∅
    rw [← toFinset_entriesOf, nothing]
    rfl
  · rcases gather_addToClass loader.fileId nothing with
      ⟨classItem, gathered, count, size, retained⟩
    rw [gathered]
    constructor
    · rw [← Finset.card_pos, card_instances]
      exact length_pos_iff.2 nothing
    constructor
    · rw [card_instances]
      exact count
    constructor
    · rw [sum_instances]
      exact size
    · show classItem.retainedSize + _ = _
      rw [retained, zero_add]

end Instances

end SummaryLoader

/--
In any summary, a class has the number and the size of its counted instances, and
retains the nodes that are or are dominated by one of them, each once.
-/
theorem getClassesForSummary_sizes (loader : SummaryLoader)
    (cache : ClassCache loader) (minNodeId maxNodeId : Option Int) (name : String) :
    loader.IsSummary (filterRange minNodeId maxNodeId) name
      ((getClassesForSummary loader cache minNodeId maxNodeId).1.lookup name) := by
  rw [getClassesForSummary]
  cases range : filterRange minNodeId maxNodeId with
  | some bounds => exact SummaryLoader.isSummary_computeClasses name
  | none =>
    cases isAll : cache.allClasses with
    | none => exact SummaryLoader.isSummary_computeClasses name
    | some classes =>
      have computed := cache.isComputed classes isAll
      dsimp only
      rw [computed]
      exact SummaryLoader.isSummary_computeClasses name

def retainedSizeAt (nodes : List SummaryNode) (idx : Nat) : Nat :=
  (nodes[idx]?.map SummaryNode.retainedSize).getD 0

theorem retains_of_children {nodes : List SummaryNode} {tree : DominatorTree}
    (sameLength : tree.dominators.length = nodes.length) (addsUp :
      ∀ idx < nodes.length, retainedSizeAt nodes idx = selfSizeAt nodes idx +
        ((tree.dominated idx).map (retainedSizeAt nodes)).sum) :
    ∀ idx node, nodes[idx]? = some node → node.retainedSize =
      ∑ lower ∈ tree.toParentTree.below idx, selfSizeAt nodes lower := by
  have step : ∀ idx ∈ tree.toParentTree.vertices,
    (∀ child ∈ tree.toParentTree.children idx, retainedSizeAt nodes child =
      ∑ lower ∈ tree.toParentTree.below child, selfSizeAt nodes lower) →
    retainedSizeAt nodes idx = ∑ lower ∈ tree.toParentTree.below idx, selfSizeAt nodes lower := by
    intro idx member ofChildren
    have inside : idx < nodes.length := by
      rw [← sameLength]
      exact Finset.mem_range.1 member
    rw [addsUp idx inside, ParentTree.sum_below member, tree.sum_dominated]
    congr 1
    exact Finset.sum_congr rfl ofChildren
  intro idx node found
  have inside := (List.getElem?_eq_some_iff.1 found).1
  rw [← sameLength] at inside
  rw [← ParentTree.induction_children step (Finset.mem_range.2 inside), retainedSizeAt, found]
  rfl

def chainTree : DominatorTree where
  dominators := [0, 0, 1, 2]
  nonempty := by decide
  inRange := by decide
  first := rfl
  reaches := by
    intro idx inside
    exact ⟨3, by revert idx; decide⟩

def nestedHeap : SummaryLoader where
  fileId := 1
  nodes :=
    [⟨.synthetic, "root", "", 1, 0, 10, 1, 0, 0⟩, ⟨.object, "Outer", "", 3, 2, 10, 1, 1, 0⟩,
      ⟨.object, "Inner", "", 5, 3, 8, 1, 2, 0⟩,
      ⟨.object, "Outer", "", 7, 5, 5, 0, 3, 0⟩]
  tree := chainTree
  sameLength := rfl
  built := ⟨[0, 1, 2, 3, 3], [1, 2, 3]⟩
  isBuilt := rfl
  retains := retains_of_children rfl (by decide)

example :
    ((nestedHeap.computeClasses none).lookup "Outer").map
      (fun classItem => (classItem.childCount, classItem.retainedSize)) = some (2, 10) := by
  decide

end SysAnalyzer.JsHeap
