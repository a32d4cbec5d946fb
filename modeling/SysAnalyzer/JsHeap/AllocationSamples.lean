import Mathlib.Algebra.Order.BigOperators.Group.List
import Mathlib.Data.List.GetD
import Mathlib.Data.List.TakeWhile
import Mathlib.Tactic.IntervalCases

/-!
# The samples of an allocation timeline

A sample knows the last id that was assigned when it was taken.  `buildSamples`
searches the samples for each node and adds the size of the node to the sample
that is found.  The search halves a window of the samples; when it meets a
sample with the id of the node it answers the left end of its window.
-/

namespace SysAnalyzer.JsHeap

open List Option

structure HeapSample where
  timestamp : Int
  lastAssignedId : Int
  size : Nat := 0

/-- What `buildSamples` reads of a node. -/
structure SizedNode where
  id : Int
  selfSize : Nat

def lastAssignedIdAt (samples : List HeapSample) (position : Int) : Int :=
  (samples.getD position.toNat ⟨0, 0, 0⟩).lastAssignedId

/-- The loop of `binarySearchNodeInSamples`, given the ids of the samples. -/
def searchBetween (lastAssignedId : Int → Int) (nodeId left right : Int) : Int :=
  if left ≤ right then
    let mid := (left + right) / 2
    if lastAssignedId mid = nodeId then left
    else if lastAssignedId mid < nodeId then searchBetween lastAssignedId nodeId (mid + 1) right
    else searchBetween lastAssignedId nodeId left (mid - 1)
  else left
termination_by (right + 1 - left).toNat

def binarySearchNodeInSamples (nodeId : Int) (samples : List HeapSample) : Int :=
  searchBetween (lastAssignedIdAt samples) nodeId 0 (samples.length - 1)

/-- The body of `buildSamples` for one node. -/
def buildSample (samples : List HeapSample) (node : SizedNode) : List HeapSample :=
  if node.id.tmod 2 = 0 then samples
  else
    let rangeIdx := binarySearchNodeInSamples node.id samples
    if rangeIdx = samples.length then samples
    else
      samples.modify rangeIdx.toNat fun sample =>
        { sample with size := sample.size + node.selfSize }

def buildSamples (nodes : List SizedNode) (samples : List HeapSample) : List HeapSample :=
  if samples.length = 0 then samples else nodes.foldl buildSample samples

/-! ## The search -/

def rank (samples : List HeapSample) (nodeId : Int) : Nat :=
  (samples.takeWhile fun sample => decide (sample.lastAssignedId < nodeId)).length

def Ascending (samples : List HeapSample) : Prop :=
  samples.Pairwise fun earlier later => earlier.lastAssignedId < later.lastAssignedId

/--
The place of a window is the lowest one of the halves when they meet it: no
place is left of it in the window whose middle it is.
-/
def lowestWhenMet (count place : Nat) : Bool :=
  if count = 0 then false
  else if place = (count - 1) / 2 then (count - 1) / 2 = 0
  else if place < (count - 1) / 2 then lowestWhenMet ((count - 1) / 2) place
  else lowestWhenMet (count - 1 - (count - 1) / 2) (place - (count - 1) / 2 - 1)
termination_by count

variable {samples : List HeapSample}

theorem rank_le_length (samples : List HeapSample) (nodeId : Int) :
    rank samples nodeId ≤ samples.length :=
  (takeWhile_sublist _).length_le

theorem lt_rank_iff (ascending : Ascending samples) (nodeId : Int) {index : Nat}
    (inRange : index < samples.length) :
    index < rank samples nodeId ↔ samples[index].lastAssignedId < nodeId := by
  unfold rank
  induction samples generalizing index with
  | nil => cases inRange
  | cons sample rest induction =>
    rw [Ascending, pairwise_cons] at ascending
    by_cases before : sample.lastAssignedId < nodeId
    · rw [takeWhile_cons, if_pos (decide_eq_true before), length_cons]
      cases index with
      | zero => exact iff_of_true (Nat.succ_pos _) before
      | succ index =>
        rw [Nat.add_lt_add_iff_right]
        exact induction ascending.2 (Nat.lt_of_succ_lt_succ inRange)
    · rw [takeWhile_cons, if_neg (by simpa using before)]
      refine iff_of_false (Nat.not_lt_zero index) fun isBefore => before ?_
      cases index with
      | zero => exact isBefore
      | succ index =>
        have member := getElem_mem (Nat.lt_of_succ_lt_succ inRange)
        exact (ascending.1 _ member).trans isBefore

/-- Some sample was taken behind exactly this id. -/
def IsHit (samples : List HeapSample) (nodeId : Int) : Prop :=
  ∃ sample ∈ samples, sample.lastAssignedId = nodeId

theorem lastAssignedIdAt_lt_iff (ascending : Ascending samples) (nodeId : Int) {position : Int}
    (fromZero : 0 ≤ position) (inRange : position < samples.length) :
    lastAssignedIdAt samples position < nodeId ↔ position < rank samples nodeId := by
  have isIndex : position.toNat < samples.length := by omega
  rw [lastAssignedIdAt, getD_eq_getElem _ _ isIndex, ← lt_rank_iff ascending nodeId isIndex]
  omega

theorem lastAssignedIdAt_eq_iff (ascending : Ascending samples) (nodeId : Int) {position : Int}
    (fromZero : 0 ≤ position) (inRange : position < samples.length) :
    lastAssignedIdAt samples position = nodeId ↔
      position = rank samples nodeId ∧ IsHit samples nodeId := by
  have isIndex : position.toNat < samples.length := by omega
  rw [lastAssignedIdAt, getD_eq_getElem _ _ isIndex]
  -- The sample with the id is neither before nor behind the rank.
  have atRank : ∀ {index : Nat} (inSamples : index < samples.length),
    samples[index].lastAssignedId = nodeId → index = rank samples nodeId := by
    intro index inSamples same
    have notBefore := (lt_rank_iff ascending nodeId inSamples).not
    rw [same] at notBefore
    rcases Nat.lt_or_eq_of_le (Nat.le_of_not_lt (notBefore.2 (lt_irrefl _)))
      with behind | isRank
    · have inRank : rank samples nodeId < samples.length := by omega
      have less := List.pairwise_iff_getElem.1 ascending _ _ inRank inSamples behind
      rw [same, ← lt_rank_iff ascending nodeId inRank] at less
      exact absurd less (lt_irrefl _)
    · exact isRank.symm
  constructor
  · intro same
    have isRank := atRank isIndex same
    exact ⟨by omega, _, getElem_mem isIndex, same⟩
  · rintro ⟨isRank, sample, member, same⟩
    rcases getElem_of_mem member with ⟨index, inSamples, rfl⟩
    have sameIndex := atRank inSamples same
    have here : position.toNat = index := by omega
    simp only [here]
    exact same

theorem lowestWhenMet_window {left right place : Int} (nonempty : left ≤ right)
    (fromLeft : left ≤ place) (toRight : place ≤ right) :
    lowestWhenMet (right + 1 - left).toNat (place - left).toNat =
      if place = (left + right) / 2 then decide (left = (left + right) / 2)
      else if place < (left + right) / 2 then
        lowestWhenMet ((left + right) / 2 - 1 + 1 - left).toNat (place - left).toNat else
        lowestWhenMet (right + 1 - ((left + right) / 2 + 1)).toNat
          (place - ((left + right) / 2 + 1)).toNat := by
  have half : ((right + 1 - left).toNat - 1) / 2 = ((left + right) / 2 - left).toNat := by omega
  rw [lowestWhenMet, half, if_neg (by omega)]
  by_cases isMiddle : place = (left + right) / 2
  · rw [if_pos (by omega), if_pos isMiddle]
    apply decide_eq_decide.2
    omega
  · rw [if_neg (by omega), if_neg isMiddle]
    by_cases before : place < (left + right) / 2
    · rw [if_pos (by omega), if_pos before]
      congr 1
      omega
    · rw [if_neg (by omega), if_neg before]
      congr 1
      · omega
      · omega

/--
The search answers the rank of a node, or something before it when it meets
the node's own sample with other samples left of it in the window.
-/
theorem searchBetween_spec (ascending : Ascending samples) (nodeId : Int) {left right : Int}
    (fromZero : 0 ≤ left) (inRange : right < samples.length) (fromLeft : left ≤ rank samples nodeId)
    (toRight : rank samples nodeId ≤ right + 1)
    (inWindow : IsHit samples nodeId → rank samples nodeId ≤ right) :
    0 ≤ searchBetween (lastAssignedIdAt samples) nodeId left right ∧
      searchBetween (lastAssignedIdAt samples) nodeId left right ≤ rank samples nodeId ∧
      (searchBetween (lastAssignedIdAt samples) nodeId left right = rank samples nodeId ↔
        (IsHit samples nodeId → lowestWhenMet (right + 1 - left).toNat
          (rank samples nodeId - left).toNat = true)) := by
  -- Induction on the window; the search goes on in the half with the rank.
  induction size : (right + 1 - left).toNat using Nat.strongRecOn generalizing left right with
  | ind size induction =>
    subst size
    rw [searchBetween]
    by_cases nonempty : left ≤ right
    · rw [if_pos nonempty]
      dsimp only
      have fromZero' : 0 ≤ (left + right) / 2 := by omega
      have inRange' : (left + right) / 2 < samples.length := by omega
      have isMiddle := lastAssignedIdAt_eq_iff ascending nodeId fromZero' inRange'
      have isBefore := lastAssignedIdAt_lt_iff ascending nodeId fromZero' inRange'
      by_cases same : lastAssignedIdAt samples ((left + right) / 2) = nodeId
      · rw [if_pos same]
        rcases isMiddle.1 same with ⟨atRank, isHit⟩
        rw [lowestWhenMet_window nonempty fromLeft (inWindow isHit),
          if_pos atRank.symm, decide_eq_true_eq]
        refine ⟨fromZero, by omega, ?_⟩
        rw [← atRank]
        exact ⟨fun isLeft _ => isLeft, fun isLeft => isLeft isHit⟩
      · rw [if_neg same]
        have notBoth := isMiddle.not.1 same
        by_cases less : lastAssignedIdAt samples ((left + right) / 2) < nodeId
        · rw [if_pos less]
          rw [isBefore] at less
          have smaller : (right + 1 - ((left + right) / 2 + 1)).toNat <
            (right + 1 - left).toNat := by
            omega
          have upper := induction _ smaller (by omega) inRange (by omega) toRight inWindow rfl
          refine ⟨upper.1, upper.2.1, upper.2.2.trans ?_⟩
          apply imp_congr_right
          intro isHit
          rw [lowestWhenMet_window nonempty fromLeft (inWindow isHit),
            if_neg (by omega), if_neg (by omega)]
        · rw [if_neg less]
          rw [isBefore] at less
          have strictly : IsHit samples nodeId → rank samples nodeId < (left + right) / 2 := by
            intro isHit
            have different : ¬ (left + right) / 2 = rank samples nodeId :=
              fun isRank => notBoth ⟨isRank, isHit⟩
            omega
          have inLower : IsHit samples nodeId → rank samples nodeId ≤ (left + right) / 2 - 1 := by
            intro isHit
            have before := strictly isHit
            omega
          have smaller : ((left + right) / 2 - 1 + 1 - left).toNat < (right + 1 - left).toNat := by
            omega
          have lower := induction _ smaller fromZero (by omega) fromLeft (by omega) inLower rfl
          refine ⟨lower.1, lower.2.1, lower.2.2.trans ?_⟩
          apply imp_congr_right
          intro isHit
          have before := strictly isHit
          rw [lowestWhenMet_window nonempty fromLeft (inWindow isHit),
            if_neg (by omega), if_pos before]
    · rw [if_neg nonempty]
      refine ⟨fromZero, fromLeft, iff_of_true (by omega) ?_⟩
      intro isHit
      have inside := inWindow isHit
      omega

theorem binarySearchNodeInSamples_spec (ascending : Ascending samples) (nodeId : Int) :
    0 ≤ binarySearchNodeInSamples nodeId samples ∧
      binarySearchNodeInSamples nodeId samples ≤ rank samples nodeId ∧
      (binarySearchNodeInSamples nodeId samples = rank samples nodeId ↔ (IsHit samples nodeId →
        lowestWhenMet samples.length (rank samples nodeId) = true)) := by
  have bound := rank_le_length samples nodeId
  have inWindow : IsHit samples nodeId → (rank samples nodeId : Int) ≤ samples.length - 1 := by
    rintro ⟨sample, member, same⟩
    rcases getElem_of_mem member with ⟨index, inSamples, rfl⟩
    have notBefore := (lt_rank_iff ascending nodeId inSamples).not
    rw [same] at notBefore
    have reached := notBefore.2 (lt_irrefl _)
    omega
  have spec := searchBetween_spec ascending nodeId (le_refl 0)
    (Int.sub_one_lt_of_le le_rfl) (Int.natCast_nonneg _) (by omega) inWindow
  rw [sub_add_cancel, sub_zero, sub_zero, Int.toNat_natCast, Int.toNat_natCast] at spec
  exact spec

def sizeWhere (isHere : Int → Prop) [DecidablePred isHere] (nodes : List SizedNode) : Nat :=
  (nodes.map fun node => if Odd node.id ∧ isHere node.id then node.selfSize else 0).sum

def Covers (samples : List HeapSample) (index : Nat) (nodeId : Int) : Prop :=
  (index = 0 ∨ lastAssignedIdAt samples (index - 1) < nodeId) ∧
    nodeId ≤ lastAssignedIdAt samples index

instance (index : Nat) : DecidablePred (Covers samples index) :=
  fun _ => inferInstanceAs (Decidable (_ ∧ _))

theorem covers_iff (ascending : Ascending samples) {index : Nat}
    (inRange : index < samples.length) (nodeId : Int) :
    Covers samples index nodeId ↔ rank samples nodeId = index := by
  have fromHere := lastAssignedIdAt_lt_iff ascending nodeId
    (Int.natCast_nonneg index) (Int.ofNat_lt.2 inRange)
  rw [Covers, ← not_lt, fromHere]
  cases index with
  | zero => omega
  | succ index =>
    have before := lastAssignedIdAt_lt_iff ascending nodeId (Int.natCast_nonneg index) (by omega)
    rw [Nat.cast_succ, Int.add_sub_cancel, before]
    omega

theorem lastAssignedIdAt_modify (samples : List HeapSample) (index : Nat) (size : HeapSample → Nat)
    (position : Int) : lastAssignedIdAt (samples.modify index fun sample =>
      { sample with size := size sample }) position = lastAssignedIdAt samples position := by
  rw [lastAssignedIdAt, lastAssignedIdAt, getD_eq_getElem?_getD,
    getD_eq_getElem?_getD, getElem?_modify]
  split_ifs
  · cases samples[position.toNat]? <;> rfl
  · cases samples[position.toNat]? <;> rfl

theorem binarySearchNodeInSamples_buildSample
    (samples : List HeapSample) (node : SizedNode) (nodeId : Int) :
    binarySearchNodeInSamples nodeId (buildSample samples node) =
      binarySearchNodeInSamples nodeId samples := by
  unfold buildSample
  dsimp only
  split_ifs
  · rfl
  · rfl
  · rw [binarySearchNodeInSamples, length_modify, funext (lastAssignedIdAt_modify samples _ _)]
    rfl

theorem getElem?_buildSample (samples : List HeapSample) (node : SizedNode) (index : Nat)
    (fromZero : 0 ≤ binarySearchNodeInSamples node.id samples) :
    (buildSample samples node)[index]? = samples[index]?.map fun sample =>
        { sample with
          size := sample.size +
            if Odd node.id ∧
              binarySearchNodeInSamples node.id samples = index
            then node.selfSize else 0 } := by
  have isOdd : node.id.tmod 2 = 0 ↔ ¬ Odd node.id := by
    rw [← Int.dvd_iff_tmod_eq_zero, Int.not_odd_iff_even, even_iff_two_dvd]
  unfold buildSample
  by_cases even : node.id.tmod 2 = 0
  · rw [if_pos even, if_neg fun both => isOdd.1 even both.1]
    cases samples[index]? <;> rfl
  · rw [if_neg even]
    rw [isOdd, not_not] at even
    dsimp only
    by_cases atEnd : binarySearchNodeInSamples node.id samples = samples.length
    · rw [if_pos atEnd]
      cases atIndex : samples[index]? with
      | none => rfl
      | some sample =>
        have inRange := (List.getElem?_eq_some_iff.1 atIndex).1
        have elsewhere : ¬ (samples.length : Int) = index := by omega
        simp [atEnd, elsewhere]
    · rw [if_neg atEnd, getElem?_modify]
      cases samples[index]? with
      | none => rfl
      | some sample =>
        by_cases here : binarySearchNodeInSamples node.id samples = index
        · simp [here, even]
        · have elsewhere : ¬ (binarySearchNodeInSamples node.id samples).toNat = index := by
            omega
          simp [here, elsewhere]

theorem getElem?_buildSamples
    (ascending : Ascending samples) (nodes : List SizedNode) (index : Nat) :
    (buildSamples nodes samples)[index]? = samples[index]?.map fun sample =>
        { sample with
          size := sample.size +
            sizeWhere
              (fun nodeId => binarySearchNodeInSamples nodeId samples = index)
              nodes } := by
  have fromZero := fun nodeId =>
    (binarySearchNodeInSamples_spec ascending nodeId).1
  have folded : (nodes.foldl buildSample samples)[index]? = samples[index]?.map fun sample =>
    { sample with
      size := sample.size +
        sizeWhere
          (fun nodeId => binarySearchNodeInSamples nodeId samples = index)
          nodes } := by
    clear ascending
    induction nodes generalizing samples with
    | nil =>
      rw [foldl_nil]
      cases samples[index]? <;> rfl
    | cons node nodes induction =>
      have sameSearch := binarySearchNodeInSamples_buildSample samples node
      rw [foldl_cons, induction]
      · simp only [sameSearch]
        rw [getElem?_buildSample samples node index (fromZero node.id)]
        cases samples[index]? with
        | none => rfl
        | some sample => simp only [map_some, sizeWhere, map_cons, sum_cons, add_assoc]
      · intro nodeId
        rw [sameSearch]
        exact fromZero nodeId
  unfold buildSamples
  by_cases empty : samples.length = 0
  · rw [if_pos empty, length_eq_zero_iff.1 empty]
    rfl
  · rw [if_neg empty]
    exact folded

/--
The size of every sample is the size of the nodes with odd ids that it covers;
a node behind all samples is covered by none.
-/
def SizesRight (nodes : List SizedNode) (samples : List HeapSample) : Prop :=
  ∀ (index : Nat) (sample : HeapSample), (buildSamples nodes samples)[index]? = some sample →
    sample.size = sizeWhere (Covers samples index) nodes

def MetLowest (nodes : List SizedNode) (samples : List HeapSample) : Prop :=
  ∀ node ∈ nodes, Odd node.id → 0 < node.selfSize →
    ∀ index < samples.length, lastAssignedIdAt samples index = node.id →
      lowestWhenMet samples.length index = true

theorem search_eq_rank_iff (ascending : Ascending samples) (nodeId : Int) :
    binarySearchNodeInSamples nodeId samples = rank samples nodeId ↔
      ∀ index < samples.length, lastAssignedIdAt samples index = nodeId →
        lowestWhenMet samples.length index = true := by
  rw [(binarySearchNodeInSamples_spec ascending nodeId).2.2]
  constructor
  · intro lowest index inRange same
    have atRank := (lastAssignedIdAt_eq_iff ascending nodeId
      (Int.natCast_nonneg index) (Int.ofNat_lt.2 inRange)).1 same
    rw [Int.ofNat_inj.1 atRank.1]
    exact lowest atRank.2
  · rintro lowest ⟨sample, member, rfl⟩
    rcases getElem_of_mem member with ⟨index, inRange, rfl⟩
    have same : lastAssignedIdAt samples index = samples[index].lastAssignedId := by
      rw [lastAssignedIdAt, Int.toNat_natCast, getD_eq_getElem _ _ inRange]
    have atRank := (lastAssignedIdAt_eq_iff ascending _
      (Int.natCast_nonneg index) (Int.ofNat_lt.2 inRange)).1 same
    rw [← Int.ofNat_inj.1 atRank.1]
    exact lowest index inRange same

theorem sizeWhere_lt {first second : Int → Prop} [DecidablePred first] [DecidablePred second]
    {nodes : List SizedNode}
    (subset : ∀ node ∈ nodes, Odd node.id → 0 < node.selfSize → first node.id → second node.id)
    {node : SizedNode} (member : node ∈ nodes) (isOdd : Odd node.id)
    (positive : 0 < node.selfSize) (notFirst : ¬ first node.id) (isSecond : second node.id) :
    sizeWhere first nodes < sizeWhere second nodes := by
  apply sum_lt_sum
  · intro other inNodes
    by_cases isFirst : Odd other.id ∧ first other.id
    · rw [if_pos isFirst]
      rcases Nat.eq_zero_or_pos other.selfSize with zero | large
      · rw [zero]
        exact Nat.zero_le _
      · rw [if_pos ⟨isFirst.1, subset other inNodes isFirst.1 large isFirst.2⟩]
    · rw [if_neg isFirst]
      exact Nat.zero_le _
  · refine ⟨node, member, ?_⟩
    rw [if_neg (fun both => notFirst both.2), if_pos ⟨isOdd, isSecond⟩]
    exact positive

/--
The sizes are right exactly when the search meets the sample of no node with an
odd id and a size while smaller samples are left in its window.
-/
theorem sizesRight_iff (nodes : List SizedNode) (samples : List HeapSample)
    (ascending : Ascending samples) (unset : ∀ sample ∈ samples, sample.size = 0) :
    SizesRight nodes samples ↔ MetLowest nodes samples := by
  have sizes : ∀ (index : Nat) (sample : HeapSample),
    (buildSamples nodes samples)[index]? = some sample →
      index < samples.length ∧ sample.size = sizeWhere
        (fun nodeId => binarySearchNodeInSamples nodeId samples = index)
        nodes := by
    intro index sample atIndex
    rw [getElem?_buildSamples ascending, map_eq_some_iff] at atIndex
    rcases atIndex with ⟨before, atBefore, rfl⟩
    refine ⟨(List.getElem?_eq_some_iff.1 atBefore).1, ?_⟩
    rw [unset before (mem_of_getElem? atBefore), zero_add]
  constructor
  · intro right node member isOdd positive
    rw [← search_eq_rank_iff ascending]
    by_contra misplaced
    -- The misplaced node with the largest rank is missing at its rank.
    induction distance : samples.length - rank samples node.id
      using Nat.strongRecOn generalizing node with
    | ind distance induction =>
      subst distance
      have spec := binarySearchNodeInSamples_spec ascending node.id
      have less : binarySearchNodeInSamples node.id samples < rank samples node.id := by omega
      have inRange : rank samples node.id < samples.length := by
        by_contra behind
        have bound := rank_le_length samples node.id
        rw [search_eq_rank_iff ascending] at misplaced
        apply misplaced
        intro index inSamples same
        have atRank := (lastAssignedIdAt_eq_iff ascending node.id
          (Int.natCast_nonneg index) (Int.ofNat_lt.2 inSamples)).1 same
        omega
      have atRank := getElem?_buildSamples ascending nodes (rank samples node.id)
      rw [getElem?_eq_getElem inRange, map_some] at atRank
      have isRight := right _ _ atRank
      rw [(sizes _ _ atRank).2] at isRight
      refine absurd isRight (ne_of_lt ?_)
      apply sizeWhere_lt _ member isOdd positive misplaced
      · exact (covers_iff ascending inRange node.id).2 rfl
      · intro other inNodes otherOdd otherPositive here
        rw [covers_iff ascending inRange]
        have otherSpec := binarySearchNodeInSamples_spec ascending other.id
        by_contra elsewhere
        have otherMisplaced : ¬ binarySearchNodeInSamples other.id samples =
          rank samples other.id := by
          omega
        exact induction _ (by omega) other inNodes otherOdd otherPositive otherMisplaced rfl
  · intro lowest index sample atIndex
    rcases sizes index sample atIndex with ⟨inRange, isSize⟩
    rw [isSize, sizeWhere, sizeWhere]
    congr 1
    apply map_congr_left
    intro node member
    by_cases counts : Odd node.id ∧ 0 < node.selfSize
    · have atRank := (search_eq_rank_iff ascending node.id).2 (lowest node member counts.1 counts.2)
      simp only [covers_iff ascending inRange, atRank, Nat.cast_inj]
    · by_cases isOdd : Odd node.id
      · have zero : node.selfSize = 0 := by
          by_contra positive
          exact counts ⟨isOdd, pos_of_ne_zero positive⟩
        simp [zero]
      · simp [isOdd]

theorem sizesRight_twoSamples : SizesRight [⟨2, 4⟩, ⟨3, 7⟩] [⟨0, 3, 0⟩, ⟨1, 5, 0⟩] := by
  rw [sizesRight_iff _ _ (by simp [Ascending]) (by simp)]
  intro node member isOdd _ index inRange same
  simp only [mem_cons, not_mem_nil, or_false] at member
  rcases member with rfl | rfl
  · exact absurd isOdd (by decide)
  · have first : index = 0 := by
      simp only [length_cons, length_nil] at inRange
      interval_cases index
      · rfl
      · exact absurd same (by decide)
    rw [first, lowestWhenMet]
    rfl

theorem not_sizesRight_threeSamples : Ascending [⟨0, 1, 0⟩, ⟨1, 3, 0⟩, ⟨2, 5, 0⟩] ∧
    ¬ SizesRight [⟨3, 1⟩] [⟨0, 1, 0⟩, ⟨1, 3, 0⟩, ⟨2, 5, 0⟩] := by
  constructor
  · simp [Ascending]
  · intro right
    have search : binarySearchNodeInSamples 3 [⟨0, 1, 0⟩, ⟨1, 3, 0⟩, ⟨2, 5, 0⟩] = 0 := by
      rw [binarySearchNodeInSamples, searchBetween]
      rfl
    have built : buildSamples [⟨3, 1⟩] [⟨0, 1, 0⟩, ⟨1, 3, 0⟩, ⟨2, 5, 0⟩] =
      [⟨0, 1, 1⟩, ⟨1, 3, 0⟩, ⟨2, 5, 0⟩] := by
      simp only [buildSamples, foldl_cons, foldl_nil, buildSample, search]
      rfl
    have second := right 1 ⟨1, 3, 0⟩ (by rw [built]; rfl)
    revert second
    decide

end SysAnalyzer.JsHeap
