import Mathlib

/-!
# Items in a window

`findRange` looks from both ends of a sorted list at once for the items that a
window shows.  `findRangeIdx` looks for the first of them from the front and
bisects for the last one.
-/

namespace SysAnalyzer.UiWorker

open List Option

/-- What `startKey` and `durKey` name. -/
structure Item (Time : Type*) where
  start : Time
  dur : Time

structure SortedItems (Time : Type*) [LinearOrder Time] where
  items : List (Item Time)
  sorted : items.Pairwise (Item.start · ≤ Item.start ·)

/-- The window of a `FilterConfig`. -/
structure FilterConfig (Time : Type*) where
  startNS : Time
  endNS : Time

namespace FilterConfig

variable {Time : Type*} [LinearOrder Time] (condition : FilterConfig Time)

def starts (item : Item Time) : Bool := item.start ≤ condition.endNS

/-- `searchImpl`; `i` is never above `j`. -/
def searchImpl (stack : List (Item Time)) (i j : Nat) : Int :=
  if j ≤ i then -1
  else if i + 1 = j then if stack[i]?.any condition.starts then i else -1
  else
    let middle := (j - i) / 2 + i
    if stack[middle]?.any condition.starts then searchImpl stack middle j
    else searchImpl stack i middle
termination_by j - i

def bsearch (haystack : List (Item Time)) : Int := condition.searchImpl haystack 0 haystack.length

/-- `left` and `right` of `findRange`, with `ib` and `jb`. -/
structure Ends where
  left : Nat
  right : Nat
  ib : Bool
  jb : Bool

/-- The item at `j` is the last one to show, if none was found. -/
def seeRight (fullData : List (Item Time)) (j : Nat) (ends : Ends) : Ends :=
  if fullData[j]?.any condition.starts && ends.jb then { ends with right := j, jb := false }
  else ends

section

variable [Add Time]

/-- The item does not end before the window. -/
def lasts (item : Item Time) : Bool := item.start + item.dur ≥ condition.startNS

def shows (item : Item Time) : Bool := condition.starts item && condition.lasts item

def findRangeIdx (fullData : List (Item Time)) : Int × Int :=
  let a := (fullData.findIdx? condition.lasts).elim (-1) Int.ofNat
  let b := condition.bsearch fullData
  (a, b + 1)

/-- The item at `i` is the first one to show, if none was found. -/
def seeLeft (fullData : List (Item Time)) (i : Nat) (ends : Ends) : Ends :=
  if fullData[i]?.any condition.lasts && ends.ib then { ends with left := i, ib := false }
  else ends

/-- The loop of `findRange`, with `j + 1`. -/
def searchEnds (fullData : List (Item Time)) (i : Nat) : Nat → Ends → Ends
  | 0, ends => ends
  | j + 1, ends =>
    let ends := condition.seeLeft fullData i (condition.seeRight fullData j ends)
    if !ends.ib && !ends.jb then ends else searchEnds fullData (i + 1) j ends

def findRange (fullData : List (Item Time)) : List (Item Time) :=
  let ends := condition.searchEnds fullData 0 fullData.length ⟨0, 0, true, true⟩
  (fullData.take (ends.right + 1)).drop ends.left

end

def IsLast (haystack : List (Item Time)) (index : Int) : Prop :=
  (index = -1 ∧ ∀ item ∈ haystack, condition.starts item = false) ∨
    ∃ (last : Nat) (item : Item Time), index = last ∧
      haystack[last]? = some item ∧ condition.starts item = true ∧
        ∀ (later : Nat) other, last < later → haystack[later]? = some other →
          condition.starts other = false

variable {condition} {fullData : List (Item Time)} {k : Nat} {item : Item Time}

theorem starts_of_le {data : SortedItems Time} {i : Nat} {earlier : Item Time}
    (isEarlier : data.items[i]? = some earlier)
    (isItem : data.items[k]? = some item) (before : i ≤ k)
    (visible : condition.starts item = true) : condition.starts earlier = true := by
  rw [starts, decide_eq_true_iff] at *
  rcases eq_or_lt_of_le before with rfl | before
  · rw [isItem] at isEarlier
    cases isEarlier
    exact visible
  rcases List.getElem?_eq_some_iff.1 isEarlier with ⟨_, rfl⟩
  rcases List.getElem?_eq_some_iff.1 isItem with ⟨_, rfl⟩
  exact (pairwise_iff_getElem.1 data.sorted _ _ _ _ before).trans visible

theorem isLast_searchImpl (data : SortedItems Time) {i j : Nat} (wide : i < j)
    (inside : j ≤ data.items.length) (front : i = 0 ∨ data.items[i]?.any condition.starts = true)
    (behind : ∀ later other, j ≤ later → data.items[later]? = some other →
      condition.starts other = false) :
    condition.IsLast data.items (condition.searchImpl data.items i j) := by
  fun_induction searchImpl condition data.items i j with
  | case1 i j closed => omega
  | case2 i starts =>
    have isItem := getElem?_eq_getElem (show i < data.items.length by omega)
    rw [isItem, any_some] at starts
    exact .inr ⟨i, _, rfl, isItem, starts, behind⟩
  | case3 i notStarts =>
    have isFirst : i = 0 := front.resolve_right notStarts
    subst isFirst
    refine .inl ⟨rfl, fun item member => ?_⟩
    rcases mem_iff_getElem?.1 member with ⟨k, isItem⟩
    cases k with
    | zero =>
      rw [isItem, any_some] at notStarts
      exact Bool.eq_false_iff.2 notStarts
    | succ k => exact behind (k + 1) item (by omega) isItem
  | case4 i j _ _ middle starts induction => exact induction (by omega) inside (.inr starts) behind
  | case5 i j _ _ middle notStarts induction =>
    have halved : middle ≤ j := by omega
    refine induction (by omega) (by omega) front ?_
    intro later other from_ isOther
    have isMiddle := getElem?_eq_getElem (show middle < data.items.length by omega)
    rw [isMiddle, any_some] at notStarts
    exact Bool.eq_false_iff.2 fun visible => notStarts (starts_of_le isMiddle isOther from_ visible)

theorem isLast_bsearch (condition : FilterConfig Time) (data : SortedItems Time) :
    condition.IsLast data.items (condition.bsearch data.items) := by
  rw [bsearch]
  cases empty : data.items with
  | nil =>
    refine .inl ⟨?_, by simp⟩
    simp [searchImpl]
  | cons first items =>
    rw [← empty]
    refine isLast_searchImpl data (by simp [empty]) (le_refl _)
      (.inl rfl) ?_
    intro later other from_ isOther
    rw [getElem?_eq_none_iff.2 from_] at isOther
    cases isOther

/-- The left end has not passed the item at `k`, nor will it at `i`. -/
structure LeftOf (k i : Nat) (ends : Ends) : Prop where
  found : ends.left ≤ k
  missing : ends.ib = true → i ≤ k

/-- The right end has not passed the item at `k`, nor will it before `j`. -/
structure RightOf (k j : Nat) (ends : Ends) : Prop where
  found : ends.jb = false → k ≤ ends.right
  missing : ends.jb = true → k < j

theorem RightOf.seeRight {j : Nat} {ends : Ends} (isItem : fullData[k]? = some item)
    (visible : condition.starts item = true) (rightOf : RightOf k (j + 1) ends) :
    RightOf k j (condition.seeRight fullData j ends) := by
  rw [FilterConfig.seeRight]
  split_ifs with seen
  · rw [Bool.and_eq_true] at seen
    exact ⟨fun _ => Nat.le_of_lt_succ (rightOf.missing seen.2), nofun⟩
  · refine ⟨rightOf.found, fun missing => ?_⟩
    have different : j ≠ k := by
      rintro rfl
      simp [isItem, visible, missing] at seen
    have := rightOf.missing missing
    omega

theorem LeftOf.seeRight {i j : Nat} {ends : Ends} (leftOf : LeftOf k i ends) :
    LeftOf k i (condition.seeRight fullData j ends) := by
  rw [FilterConfig.seeRight]
  split_ifs
  · exact ⟨leftOf.found, leftOf.missing⟩
  · exact leftOf

variable [Add Time]

theorem LeftOf.seeLeft {i : Nat} {ends : Ends} (isItem : fullData[k]? = some item)
    (visible : condition.lasts item = true) (leftOf : LeftOf k i ends) :
    LeftOf k (i + 1) (condition.seeLeft fullData i ends) := by
  rw [FilterConfig.seeLeft]
  split_ifs with seen
  · rw [Bool.and_eq_true] at seen
    exact ⟨leftOf.missing seen.2, nofun⟩
  · refine ⟨leftOf.found, fun missing => ?_⟩
    have different : i ≠ k := by
      rintro rfl
      simp [isItem, visible, missing] at seen
    have := leftOf.missing missing
    omega

theorem RightOf.seeLeft {i j : Nat} {ends : Ends} (rightOf : RightOf k j ends) :
    RightOf k j (condition.seeLeft fullData i ends) := by
  rw [FilterConfig.seeLeft]
  split_ifs
  · exact ⟨rightOf.found, rightOf.missing⟩
  · exact rightOf

theorem searchEnds_bounds (isItem : fullData[k]? = some item)
    (visible : condition.shows item = true) {i j : Nat} {ends : Ends}
    (leftOf : LeftOf k i ends) (rightOf : RightOf k j ends) :
    (condition.searchEnds fullData i j ends).left ≤ k ∧
      k ≤ (condition.searchEnds fullData i j ends).right := by
  rw [shows, Bool.and_eq_true] at visible
  induction j generalizing i ends with
  | zero =>
    refine ⟨leftOf.found, rightOf.found (Bool.eq_false_iff.2 fun missing => ?_)⟩
    exact Nat.not_lt_zero k (rightOf.missing missing)
  | succ j induction =>
    have left : LeftOf k (i + 1) (condition.seeLeft fullData i
      (condition.seeRight fullData j ends)) :=
      leftOf.seeRight.seeLeft isItem visible.2
    have right : RightOf k j (condition.seeLeft fullData i
      (condition.seeRight fullData j ends)) :=
      (rightOf.seeRight isItem visible.1).seeLeft
    rw [searchEnds]
    split_ifs with both
    · simp only [Bool.and_eq_true, Bool.not_eq_true'] at both
      exact ⟨left.found, right.found both.2⟩
    · exact induction left right

theorem findRange_bounds (isItem : fullData[k]? = some item)
    (visible : condition.shows item = true) :
    let ends := condition.searchEnds fullData 0 fullData.length ⟨0, 0, true, true⟩
    ends.left ≤ k ∧ k ≤ ends.right :=
  searchEnds_bounds isItem visible ⟨Nat.zero_le k, fun _ => Nat.zero_le k⟩
    ⟨nofun, fun _ => (List.getElem?_eq_some_iff.1 isItem).1⟩

theorem filter_sublist_findRange (fullData : List (Item Time)) :
    fullData.filter condition.shows <+ condition.findRange fullData := by
  have bounds {k item} := @findRange_bounds _ _ condition fullData k item _
  rw [findRange]
  dsimp only at bounds ⊢
  generalize condition.searchEnds fullData 0 _ _ = ends at *
  have behind :
    (fullData.drop (ends.right + 1)).filter condition.shows = [] := by
    rw [filter_eq_nil_iff]
    intro item member visible
    rcases mem_iff_getElem?.1 member with ⟨k, isItem⟩
    rw [getElem?_drop] at isItem
    have := (bounds isItem visible).2
    omega
  have before : ((fullData.take (ends.right + 1)).take ends.left).filter
    condition.shows = [] := by
    rw [filter_eq_nil_iff]
    intro item member visible
    rw [take_take] at member
    rcases mem_iff_getElem?.1 member with ⟨k, isItem⟩
    rw [getElem?_take] at isItem
    split_ifs at isItem with inside
    have := (bounds isItem visible).1
    omega
  have parts := take_append_drop (ends.right + 1) fullData
  have shown := take_append_drop ends.left (fullData.take (ends.right + 1))
  rw [← parts, filter_append, behind, append_nil, ← shown, filter_append,
    before, nil_append, shown, parts]
  exact filter_sublist

theorem findRangeIdx_bounds {data : SortedItems Time} (isItem : data.items[k]? = some item)
    (visible : condition.shows item = true) : (condition.findRangeIdx data.items).1 ≤ (k : Int) ∧
      (k : Int) ≤ (condition.findRangeIdx data.items).2 := by
  rw [shows, Bool.and_eq_true] at visible
  constructor
  · cases first : data.items.findIdx? condition.lasts with
    | none => simp [findRangeIdx, first]
    | some a =>
      rcases findIdx?_eq_some_iff_getElem.1 first with ⟨_, _, before⟩
      have notBefore : ¬ k < a := fun earlier => by
        rcases List.getElem?_eq_some_iff.1 isItem with ⟨_, rfl⟩
        exact before k earlier visible.2
      simp [findRangeIdx, first]
      omega
  · show (k : Int) ≤ condition.bsearch data.items + 1
    rcases condition.isLast_bsearch data with
      ⟨-, nothing⟩ | ⟨last, _, isLast, -, -, behind⟩
    · rw [nothing item (mem_of_getElem? isItem)] at visible
      cases visible.1
    · rw [isLast]
      have notBehind : ¬ last < k := fun later => by
        rw [behind k item later isItem] at visible
        cases visible.1
      omega

/--
The visible items are in the slice and between the two indexes, and the
bisection finds the last item that does not start behind the window.
-/
theorem visible_range (data : SortedItems Time) (condition : FilterConfig Time) :
    data.items.filter condition.shows <+ condition.findRange data.items ∧
      (∀ (k : Nat) item, data.items[k]? = some item → condition.shows item = true →
        (condition.findRangeIdx data.items).1 ≤ k ∧ k ≤ (condition.findRangeIdx data.items).2) ∧
      condition.IsLast data.items (condition.bsearch data.items) :=
  ⟨filter_sublist_findRange data.items,
    fun _ _ isItem visible => findRangeIdx_bounds isItem visible,
    isLast_bsearch _ data⟩

/-- The first item lasts until after the second one. -/
def threeItems : SortedItems Nat where
  items := [⟨0, 9⟩, ⟨2, 1⟩, ⟨5, 1⟩]
  sorted := by decide

theorem visible_range_threeItems :
    [⟨0, 9⟩] <+ (⟨4, 4⟩ : FilterConfig Nat).findRange threeItems.items :=
  (visible_range threeItems ⟨4, 4⟩).1

end FilterConfig

end SysAnalyzer.UiWorker
