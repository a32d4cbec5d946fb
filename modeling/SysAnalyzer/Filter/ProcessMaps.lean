import SysAnalyzer.Filter.OfflineSymbolization
import SysAnalyzer.Foundation.IntervalMap
import SysAnalyzer.Foundation.Run

/-!
# The maps of the process

A maps event evicts the stored maps that it overlaps, and some of their
neighbours: the range of the conflict is widened to maps of the same file on
both sides.  What is left leaves room for the new map, so the maps stay
disjoint.
-/

namespace SysAnalyzer.Filter

open Foundation List Option

/-- Maps that are disjoint, with their starts for keys. -/
structure MapsApart (maps : OrderedMap UInt64 MapsInfo) : Prop where
  disjoint : DisjointIntervals MapsInfo.end_ maps
  keyed : ∀ entry ∈ maps.entries, entry.1 = entry.2.start

theorem mapsApart_empty : MapsApart .empty := ⟨.empty, fun _ member => absurd member not_mem_nil⟩

theorem le_invalidUint64 (address : UInt64) : address ≤ invalidUint64 := by
  rw [UInt64.le_iff_toNat_le]
  exact Nat.le_of_lt_succ address.toNat_lt

section Maps

variable {maps : OrderedMap UInt64 MapsInfo}

theorem MapsApart.key_lt_invalidUint64 (apart : MapsApart maps) {entry : UInt64 × MapsInfo}
    (member : entry ∈ maps.entries) : entry.1 < invalidUint64 :=
  (apart.disjoint.nonempty entry member).trans_le (le_invalidUint64 _)

namespace OfflineSymbolizationFilter

variable {entry : UInt64 × MapsInfo}

theorem firstBehind_le_iff (apart : MapsApart maps) (startAddr : UInt64) {index : Nat}
    (here : maps.entries[index]? = some entry) :
    firstBehind maps startAddr ≤ index ↔ startAddr < entry.2.end_ := by
  have member := mem_of_getElem? here
  have nonempty := apart.disjoint.nonempty entry member
  have before : index < maps.upperBound startAddr ↔ entry.1 ≤ startAddr :=
    maps.lt_upperBound_iff here
  have bounded := maps.upperBound_le_length startAddr
  unfold firstBehind
  dsimp only
  by_cases isFirst : maps.upperBound startAddr = 0
  · rw [if_neg (not_not.2 isFirst), isFirst]
    refine iff_of_true (Nat.zero_le index) ?_
    have larger : ¬ entry.1 ≤ startAddr := by
      rw [← before, isFirst]
      exact Nat.not_lt_zero index
    exact (lt_of_not_ge larger).trans nonempty
  · rw [if_pos isFirst]
    have inRange : maps.upperBound startAddr - 1 < maps.entries.length := by omega
    have atLast := getElem?_eq_getElem inRange
    generalize maps.entries[maps.upperBound startAddr - 1] = last at atLast
    have lastUpTo : last.1 ≤ startAddr := (maps.lt_upperBound_iff atLast).1 (by omega)
    rw [atLast, any_some]
    -- a map before the last one that starts up to the address ends before it
    have early (less : index < maps.upperBound startAddr - 1) : entry.2.end_ ≤ startAddr := by
      have smaller := maps.lt_of_getElem? less here atLast
      exact (apart.disjoint.apart entry member last (mem_of_getElem? atLast) smaller).trans lastUpTo
    have late (notBefore : maps.upperBound startAddr ≤ index) : startAddr < entry.2.end_ := by
      have larger : ¬ entry.1 ≤ startAddr := by
        rw [← before]
        exact not_lt.2 notBefore
      exact (lt_of_not_ge larger).trans nonempty
    have isLast (same : index = maps.upperBound startAddr - 1) : entry = last := by
      rw [same, atLast, some.injEq] at here
      exact here.symm
    by_cases ended : last.2.end_ ≤ startAddr
    · rw [if_pos (decide_eq_true ended)]
      refine ⟨late, fun behind => ?_⟩
      by_contra isBefore
      refine absurd behind (not_lt_of_ge ?_)
      by_cases same : index = maps.upperBound startAddr - 1
      · rw [isLast same]
        exact ended
      · exact early (by omega)
    · rw [if_neg (by simpa using ended)]
      constructor
      · intro notBefore
        by_cases same : index = maps.upperBound startAddr - 1
        · rw [isLast same]
          exact lt_of_not_ge ended
        · exact late (by omega)
      · intro behind
        by_contra isBefore
        exact absurd behind (not_lt_of_ge (early (by omega)))

theorem backToFile_le (entries : List (UInt64 × MapsInfo)) (filePathId : UInt32)
    (startItor : Nat) : backToFile entries filePathId startItor ≤ startItor := by
  induction startItor with
  | zero => exact le_refl 0
  | succ startItor induction =>
    rw [backToFile]
    split
    · exact le_refl _
    · exact Nat.le_succ_of_le induction

theorem startOfFile_le {startItor : Nat} (here : maps.entries[startItor]? = some entry) :
    startOfFile maps startItor ≤ entry.1 := by
  have notBehind := backToFile_le maps.entries entry.2.filePathId startItor
  rcases List.getElem?_eq_some_iff.1 here with ⟨inRange, _⟩
  have atFirst := getElem?_eq_getElem (lt_of_le_of_lt notBehind inRange)
  unfold startOfFile
  rw [here]
  dsimp only
  rw [atFirst]
  exact maps.le_of_getElem? notBehind atFirst here

theorem startOfOtherFile_cases (maps : OrderedMap UInt64 MapsInfo) (endItor : Nat) :
    startOfOtherFile maps endItor = invalidUint64 ∨ ∃ last index entry,
      maps.entries[endItor - 1]? = some last ∧ endItor ≤ index ∧
        maps.entries[index]? = some entry ∧ last.2.filePathId ≠ entry.2.filePathId ∧
        startOfOtherFile maps endItor = entry.2.start := by
  unfold startOfOtherFile
  cases atLast : maps.entries[endItor - 1]? with
  | none => exact .inl rfl
  | some last =>
    dsimp only
    cases found : (maps.entries.drop endItor).find? fun entry =>
      decide (last.2.filePathId ≠ entry.2.filePathId) with
    | none => exact .inl rfl
    | some entry =>
      right
      rcases getElem?_of_mem (mem_of_find?_eq_some found) with
        ⟨behind, atEntry⟩
      rw [getElem?_drop] at atEntry
      have differs : last.2.filePathId ≠ entry.2.filePathId := by simpa using find?_some found
      exact ⟨last, endItor + behind, entry, rfl, Nat.le_add_right _ _, atEntry, differs, rfl⟩

theorem lt_startOfOtherFile (apart : MapsApart maps) {endItor : Nat} {address : UInt64}
    (valid : address < invalidUint64) (before :
      ∀ index entry, endItor ≤ index → maps.entries[index]? = some entry →
        address < entry.1) : address < startOfOtherFile maps endItor := by
  rcases startOfOtherFile_cases maps endItor with
    isInvalid | ⟨last, index, entry, _, notBefore, here, _, isStart⟩
  · rw [isInvalid]
    exact valid
  · rw [isStart, ← apart.keyed entry (mem_of_getElem? here)]
    exact before index entry notBefore here

theorem conflicting_of_between {range : UInt64 × UInt64} {address : UInt64}
    (start : range.1 ≤ address) (end_ : address < range.2) : Conflicting range := by
  have less := start.trans_lt end_
  exact ⟨ne_of_lt (less.trans_le (le_invalidUint64 _)), ne_of_lt less⟩

theorem between_of_overlaps (apart : MapsApart maps) {startAddr endAddr : UInt64}
    (less : startAddr < endAddr) (member : entry ∈ maps.entries) (starts : entry.1 < endAddr)
    (reaches : startAddr < entry.2.end_) :
    (getNeedUpdateProcessMapsAddrRange maps startAddr endAddr).1 ≤ entry.1 ∧
      entry.1 < (getNeedUpdateProcessMapsAddrRange maps startAddr endAddr).2 := by
  rcases getElem?_of_mem member with ⟨index, here⟩
  have valid := apart.key_lt_invalidUint64 member
  have notBefore := (firstBehind_le_iff apart startAddr here).2 reaches
  rcases List.getElem?_eq_some_iff.1 here with ⟨inRange, _⟩
  have start : startOfFile maps (firstBehind maps startAddr) ≤ entry.1 := by
    have atFirst := getElem?_eq_getElem (lt_of_le_of_lt notBefore inRange)
    exact (startOfFile_le atFirst).trans (maps.le_of_getElem? notBefore atFirst here)
  have beforeEnd := (maps.lt_upperBound_iff here).2 (le_of_lt starts)
  unfold getNeedUpdateProcessMapsAddrRange
  dsimp only
  rw [if_neg (not_le_of_gt less)]
  by_cases isEnd : maps.upperBound endAddr = maps.entries.length
  · rw [if_pos isEnd]
    exact ⟨start, valid⟩
  · rw [if_neg isEnd, if_neg (ne_of_gt (Nat.zero_lt_of_lt beforeEnd))]
    refine ⟨start, lt_startOfOtherFile apart valid ?_⟩
    intro later other isLater atOther
    have larger : ¬ other.1 ≤ endAddr := by
      rw [← maps.lt_upperBound_iff atOther]
      exact not_lt.2 isLater
    exact starts.trans (lt_of_not_ge larger)

/-- The maps that are left before the new one is inserted. -/
def remainingMaps (maps : OrderedMap UInt64 MapsInfo)
    (startAddr endAddr : UInt64) : OrderedMap UInt64 MapsInfo :=
  let range := getNeedUpdateProcessMapsAddrRange maps startAddr endAddr
  if Conflicting range then maps.eraseWhere (inRange range) else maps

theorem mem_of_mem_remainingMaps {startAddr endAddr : UInt64}
    (member : entry ∈ (remainingMaps maps startAddr endAddr).entries) : entry ∈ maps.entries := by
  unfold remainingMaps at member
  dsimp only at member
  split at member
  · exact (maps.mem_eraseWhere.1 member).1
  · exact member

theorem mapsApart_remainingMaps (apart : MapsApart maps) (startAddr endAddr : UInt64) :
    MapsApart (remainingMaps maps startAddr endAddr) := by
  refine ⟨?_, fun entry member => apart.keyed entry (mem_of_mem_remainingMaps member)⟩
  unfold remainingMaps
  dsimp only
  split
  · exact apart.disjoint.eraseWhere _
  · exact apart.disjoint

theorem not_mem_remainingMaps {startAddr endAddr : UInt64} (start :
    (getNeedUpdateProcessMapsAddrRange maps startAddr endAddr).1 ≤ entry.1)
    (end_ : entry.1 < (getNeedUpdateProcessMapsAddrRange maps startAddr endAddr).2) :
    entry ∉ (remainingMaps maps startAddr endAddr).entries := by
  intro member
  unfold remainingMaps at member
  dsimp only at member
  rw [if_pos (conflicting_of_between start end_)] at member
  have outside := (maps.mem_eraseWhere.1 member).2
  rw [inRange, decide_eq_true start, decide_eq_true end_] at outside
  cases outside

theorem free_remainingMaps (apart : MapsApart maps) {startAddr endAddr : UInt64}
    (less : startAddr < endAddr) :
    DisjointIntervals.Free MapsInfo.end_ (remainingMaps maps startAddr endAddr)
      startAddr endAddr := by
  intro entry member
  by_contra overlaps
  rw [not_or, not_le, not_le] at overlaps
  rcases between_of_overlaps apart less (mem_of_mem_remainingMaps member)
    overlaps.2 overlaps.1 with ⟨start, end_⟩
  exact not_mem_remainingMaps start end_ member

end OfflineSymbolizationFilter

end Maps

namespace OfflineSymbolizationFilter

variable (symbolIndex : List UInt8 → UInt64)

theorem maps_parseMapsEvent (filter : OfflineSymbolizationFilter) (mapsInfo : MapsInfo)
    (waiting : List (List UInt64)) :
    (filter.parseMapsEvent symbolIndex mapsInfo waiting).startAddrToMapsInfoMap =
      (remainingMaps filter.startAddrToMapsInfoMap mapsInfo.start
        mapsInfo.end_).insert mapsInfo.start mapsInfo := by
  unfold parseMapsEvent remainingMaps
  dsimp only
  split
  · dsimp only
    rw [maps_symbolizeStacks]
  · rfl

variable {filter : OfflineSymbolizationFilter}

variable {mapsInfo : MapsInfo}

theorem mapsApart_parseMapsEvent (apart : MapsApart filter.startAddrToMapsInfoMap)
    (less : mapsInfo.start < mapsInfo.end_) (waiting : List (List UInt64)) :
    let next := filter.parseMapsEvent symbolIndex mapsInfo waiting
    MapsApart next.startAddrToMapsInfoMap ∧
      (mapsInfo.start, mapsInfo) ∈ next.startAddrToMapsInfoMap.entries := by
  intro next
  have left := mapsApart_remainingMaps apart mapsInfo.start mapsInfo.end_
  have free := free_remainingMaps apart less
  have mem := OrderedMap.mem_insert_of_not_mem _ mapsInfo (free.key_ne left.disjoint less)
  rw [show next.startAddrToMapsInfoMap = _ from
    maps_parseMapsEvent symbolIndex filter mapsInfo waiting]
  refine ⟨⟨left.disjoint.insert less free, ?_⟩, (mem _).2 (.inl rfl)⟩
  intro entry member
  rcases (mem entry).1 member with rfl | isLeft
  · rfl
  · exact left.keyed entry isLeft

def IsPrevious (maps : OrderedMap UInt64 MapsInfo) (startAddr : UInt64)
    (entry : UInt64 × MapsInfo) : Prop :=
  entry ∈ maps.entries ∧ entry.1 ≤ startAddr ∧
    ∀ other ∈ maps.entries, other.1 ≤ startAddr → other.1 ≤ entry.1

def IsNext (maps : OrderedMap UInt64 MapsInfo) (startAddr : UInt64)
    (entry : UInt64 × MapsInfo) : Prop :=
  entry ∈ maps.entries ∧ startAddr < entry.1 ∧
    ∀ other ∈ maps.entries, startAddr < other.1 → entry.1 ≤ other.1

def Unrelated (maps : OrderedMap UInt64 MapsInfo) (startAddr endAddr : UInt64) : Prop :=
  (∀ entry ∈ maps.entries, entry.1 ≠ endAddr) ∧
    ∀ previous next, IsPrevious maps startAddr previous →
      IsNext maps startAddr next → previous.2.filePathId ≠ next.2.filePathId

section Neighbours

variable {maps : OrderedMap UInt64 MapsInfo} {startAddr endAddr : UInt64}

variable {entry : UInt64 × MapsInfo}

theorem isNext_of_getElem? (here : maps.entries[maps.upperBound startAddr]? = some entry) :
    IsNext maps startAddr entry := by
  have larger : ¬ entry.1 ≤ startAddr := by
    rw [← maps.lt_upperBound_iff here]
    exact lt_irrefl _
  refine ⟨mem_of_getElem? here, lt_of_not_ge larger, ?_⟩
  intro other member behind
  rcases getElem?_of_mem member with ⟨index, atOther⟩
  have notBefore : ¬ index < maps.upperBound startAddr := by
    rw [maps.lt_upperBound_iff atOther]
    exact not_le_of_gt behind
  exact maps.le_of_getElem? (Nat.le_of_not_lt notBefore) here atOther

variable {first second : UInt64 × MapsInfo}

theorem eq_of_isNext (isFirst : IsNext maps startAddr first)
    (isSecond : IsNext maps startAddr second) : first = second := by
  have same : first.1 = second.1 :=
    le_antisymm (isFirst.2.2 second isSecond.1 isSecond.2.1)
      (isSecond.2.2 first isFirst.1 isFirst.2.1)
  refine Prod.ext same (maps.value_eq_of_mem isFirst.1 ?_)
  rw [same]
  exact isSecond.1

theorem isPrevious_of_getElem? (here : maps.entries[maps.upperBound startAddr - 1]? = some entry)
    (notFirst : maps.upperBound startAddr ≠ 0) : IsPrevious maps startAddr entry := by
  refine ⟨mem_of_getElem? here, (maps.lt_upperBound_iff here).1 (by omega), ?_⟩
  intro other member upTo
  rcases getElem?_of_mem member with ⟨index, atOther⟩
  have isBefore := (maps.lt_upperBound_iff atOther).2 upTo
  exact maps.le_of_getElem? (by omega) atOther here

theorem eq_of_isPrevious (isFirst : IsPrevious maps startAddr first)
    (isSecond : IsPrevious maps startAddr second) : first = second := by
  have same : first.1 = second.1 :=
    le_antisymm (isSecond.2.2 first isFirst.1 isFirst.2.1)
      (isFirst.2.2 second isSecond.1 isSecond.2.1)
  refine Prod.ext same (maps.value_eq_of_mem isFirst.1 ?_)
  rw [same]
  exact isSecond.1

theorem le_of_free (apart : MapsApart maps)
    (free : DisjointIntervals.Free MapsInfo.end_ maps startAddr endAddr)
    (member : entry ∈ maps.entries) (behind : startAddr < entry.1) : endAddr ≤ entry.1 := by
  rcases free entry member with before | isBehind
  · exact absurd (behind.trans (apart.disjoint.nonempty entry member)) (not_lt_of_ge before)
  · exact isBehind

theorem firstBehind_of_free (less : startAddr < endAddr)
    (free : DisjointIntervals.Free MapsInfo.end_ maps startAddr endAddr) :
    firstBehind maps startAddr = maps.upperBound startAddr := by
  have bounded := maps.upperBound_le_length startAddr
  unfold firstBehind
  dsimp only
  by_cases isFirst : maps.upperBound startAddr = 0
  · rw [if_neg (not_not.2 isFirst)]
  · have inRange : maps.upperBound startAddr - 1 < maps.entries.length := by
      omega
    have atLast := getElem?_eq_getElem inRange
    generalize maps.entries[maps.upperBound startAddr - 1] = last at atLast
    have lastUpTo : last.1 ≤ startAddr := (maps.lt_upperBound_iff atLast).1 (by omega)
    have ended : last.2.end_ ≤ startAddr :=
      (free last (mem_of_getElem? atLast)).resolve_right (not_le_of_gt (lastUpTo.trans_lt less))
    rw [if_pos isFirst, atLast, any_some, if_pos (decide_eq_true ended)]

theorem range_of_free (less : startAddr < endAddr)
    (free : DisjointIntervals.Free MapsInfo.end_ maps startAddr endAddr) :
    getNeedUpdateProcessMapsAddrRange maps startAddr endAddr =
      if maps.upperBound endAddr = maps.entries.length then
        (startOfFile maps (maps.upperBound startAddr), invalidUint64)
      else if maps.upperBound endAddr = 0 then (invalidUint64, invalidUint64) else
        (startOfFile maps (maps.upperBound startAddr),
          startOfOtherFile maps (maps.upperBound endAddr)) := by
  unfold getNeedUpdateProcessMapsAddrRange
  dsimp only
  rw [if_neg (not_le_of_gt less), firstBehind_of_free less free]

theorem not_conflicting_of_last (less : startAddr < endAddr)
    (free : DisjointIntervals.Free MapsInfo.end_ maps startAddr endAddr)
    (isLast : maps.entries[maps.upperBound startAddr]? = none) :
    ¬ Conflicting (getNeedUpdateProcessMapsAddrRange maps startAddr endAddr) := by
  have noStart : startOfFile maps (maps.upperBound startAddr) = invalidUint64 := by
    unfold startOfFile
    rw [isLast]
  intro conflicting
  apply conflicting.1
  rw [range_of_free less free, noStart]
  split
  · rfl
  · split <;> rfl

section Next

variable {next : UInt64 × MapsInfo} (less : startAddr < endAddr)
  (here : maps.entries[maps.upperBound startAddr]? = some next)

include less here

theorem upperBound_eq_of_gap (gap : endAddr < next.1) :
    maps.upperBound endAddr = maps.upperBound startAddr := by
  refine le_antisymm ?_ ?_
  · have notBefore : ¬ maps.upperBound startAddr < maps.upperBound endAddr := by
      rw [maps.lt_upperBound_iff here]
      exact not_le_of_gt gap
    exact Nat.le_of_not_lt notBefore
  · by_contra notLess
    have isBefore : maps.upperBound endAddr < maps.upperBound startAddr := Nat.lt_of_not_le notLess
    have inBound : maps.upperBound endAddr < maps.entries.length :=
      isBefore.trans (List.getElem?_eq_some_iff.1 here).1
    have atBound := getElem?_eq_getElem inBound
    have upTo : maps.entries[maps.upperBound endAddr].1 ≤ startAddr :=
      (maps.lt_upperBound_iff atBound).1 isBefore
    have behind : ¬ maps.entries[maps.upperBound endAddr].1 ≤ endAddr := by
      rw [← maps.lt_upperBound_iff atBound]
      exact lt_irrefl _
    exact behind (upTo.trans (le_of_lt less))

variable
  (free : DisjointIntervals.Free MapsInfo.end_ maps startAddr endAddr)

include free

theorem range_of_gap (gap : endAddr < next.1) :
    getNeedUpdateProcessMapsAddrRange maps startAddr endAddr =
      if maps.upperBound startAddr = 0 then (invalidUint64, invalidUint64) else
        (startOfFile maps (maps.upperBound startAddr),
          startOfOtherFile maps (maps.upperBound startAddr)) := by
  have inBound := (List.getElem?_eq_some_iff.1 here).1
  rw [range_of_free less free, upperBound_eq_of_gap less here gap, if_neg (ne_of_lt inBound)]

theorem not_conflicting_of_first (gap : endAddr < next.1)
    (isFirst : maps.upperBound startAddr = 0) :
    ¬ Conflicting (getNeedUpdateProcessMapsAddrRange maps startAddr endAddr) := by
  rw [range_of_gap less here free gap, if_pos isFirst]
  exact fun conflicting => conflicting.1 rfl

variable (apart : MapsApart maps)

include apart

theorem between_of_touches (touches : next.1 = endAddr) :
    (getNeedUpdateProcessMapsAddrRange maps startAddr endAddr).1 ≤ next.1 ∧ next.1 <
      (getNeedUpdateProcessMapsAddrRange maps startAddr endAddr).2 := by
  have start := startOfFile_le here
  have valid := apart.key_lt_invalidUint64 (mem_of_getElem? here)
  have positive : maps.upperBound startAddr < maps.upperBound endAddr :=
    (maps.lt_upperBound_iff here).2 (le_of_eq touches)
  rw [range_of_free less free]
  by_cases isEnd : maps.upperBound endAddr = maps.entries.length
  · rw [if_pos isEnd]
    exact ⟨start, valid⟩
  · rw [if_neg isEnd, if_neg (ne_of_gt (Nat.zero_lt_of_lt positive))]
    refine ⟨start, lt_startOfOtherFile apart valid ?_⟩
    intro index entry isLater atEntry
    exact maps.lt_of_getElem? (lt_of_lt_of_le positive isLater) here atEntry

section Previous

variable {previous : UInt64 × MapsInfo}
  (before : maps.entries[maps.upperBound startAddr - 1]? = some previous)
  (notFirst : maps.upperBound startAddr ≠ 0)

include before notFirst

theorem not_conflicting_of_differs (gap : endAddr < next.1)
    (differs : previous.2.filePathId ≠ next.2.filePathId) :
    ¬ Conflicting (getNeedUpdateProcessMapsAddrRange maps startAddr endAddr) := by
  have start : startOfFile maps (maps.upperBound startAddr) = next.1 := by
    rcases Nat.exists_eq_succ_of_ne_zero notFirst with ⟨index, isIndex⟩
    rw [isIndex, Nat.succ_eq_add_one, Nat.add_sub_cancel] at before
    have stays : backToFile maps.entries next.2.filePathId (index + 1) = index + 1 := by
      rw [backToFile, before, any_some, if_pos (decide_eq_true differs)]
    unfold startOfFile
    rw [here]
    dsimp only
    rw [isIndex, Nat.succ_eq_add_one, stays, ← Nat.succ_eq_add_one, ← isIndex, here]
  have end_ : startOfOtherFile maps (maps.upperBound startAddr) = next.1 := by
    rcases List.getElem?_eq_some_iff.1 here with ⟨inBound, isNext⟩
    have found (rest : List (UInt64 × MapsInfo)) : (next :: rest).find? (fun entry =>
      decide (previous.2.filePathId ≠ entry.2.filePathId)) = some next :=
      find?_cons_of_pos (decide_eq_true differs)
    unfold startOfOtherFile
    rw [before, drop_eq_getElem_cons inBound, isNext]
    dsimp only
    rw [found]
    exact (apart.keyed next (mem_of_getElem? here)).symm
  rw [range_of_gap less here free gap, if_neg notFirst, start, end_]
  exact fun conflicting => conflicting.2 rfl

theorem between_of_same (gap : endAddr < next.1)
    (same : previous.2.filePathId = next.2.filePathId) :
    (getNeedUpdateProcessMapsAddrRange maps startAddr endAddr).1 ≤ next.1 ∧ next.1 <
      (getNeedUpdateProcessMapsAddrRange maps startAddr endAddr).2 := by
  rw [range_of_gap less here free gap, if_neg notFirst]
  refine ⟨startOfFile_le here, ?_⟩
  rcases startOfOtherFile_cases maps (maps.upperBound startAddr) with
    isInvalid | ⟨last, index, entry, atLast, notBefore, atEntry, differs, isStart⟩
  · rw [isInvalid]
    exact apart.key_lt_invalidUint64 (mem_of_getElem? here)
  · rw [isStart, ← apart.keyed entry (mem_of_getElem? atEntry)]
    refine maps.lt_of_getElem? (lt_of_le_of_ne notBefore ?_) here atEntry
    intro isNext
    rw [← isNext, here, some.injEq] at atEntry
    rw [before, some.injEq] at atLast
    rw [← atLast, ← atEntry] at differs
    exact differs same

end Previous

end Next

/--
An event that overlaps no map is in conflict only where a map behind it touches
it or has the same file as the one before it; that map is then evicted.
-/
theorem unrelated_or_between (apart : MapsApart maps) (less : startAddr < endAddr)
    (free : DisjointIntervals.Free MapsInfo.end_ maps startAddr endAddr) :
    (Unrelated maps startAddr endAddr ∧ ¬ Conflicting
      (getNeedUpdateProcessMapsAddrRange maps startAddr endAddr)) ∨
      ¬ Unrelated maps startAddr endAddr ∧ ∃ entry ∈ maps.entries, startAddr < entry.1 ∧
        (getNeedUpdateProcessMapsAddrRange maps startAddr endAddr).1 ≤ entry.1 ∧
        entry.1 < (getNeedUpdateProcessMapsAddrRange maps startAddr endAddr).2 := by
  have behind {entry : UInt64 × MapsInfo} (member : entry ∈ maps.entries)
    (notEnd : entry.1 ≠ endAddr) (isBehind : startAddr < entry.1) :
    endAddr < entry.1 :=
    lt_of_le_of_ne (le_of_free apart free member isBehind) notEnd.symm
  cases here : maps.entries[maps.upperBound startAddr]? with
  | none =>
    have isLast (entry : UInt64 × MapsInfo) (member : entry ∈ maps.entries) :
      entry.1 ≤ startAddr := by
      rcases getElem?_of_mem member with ⟨index, atEntry⟩
      refine (maps.lt_upperBound_iff atEntry).1 ?_
      exact (List.getElem?_eq_some_iff.1 atEntry).1.trans_le (List.getElem?_eq_none_iff.1 here)
    refine .inl ⟨⟨?_, ?_⟩, not_conflicting_of_last less free here⟩
    · intro entry member
      exact ne_of_lt ((isLast entry member).trans_lt less)
    · intro previous next _ isNext
      exact absurd isNext.2.1 (not_lt_of_ge (isLast next isNext.1))
  | some next =>
    have isNext := isNext_of_getElem? here
    by_cases touches : next.1 = endAddr
    · refine .inr ⟨fun unrelated =>
        unrelated.1 next isNext.1 touches, next, isNext.1, isNext.2.1, ?_⟩
      exact between_of_touches less here free apart touches
    · have gap := behind isNext.1 touches isNext.2.1
      have untouched (entry : UInt64 × MapsInfo)
        (member : entry ∈ maps.entries) : entry.1 ≠ endAddr := by
        intro isEnd
        refine absurd gap (not_lt_of_ge ?_)
        rw [← isEnd]
        refine isNext.2.2 entry member ?_
        rw [isEnd]
        exact less
      by_cases isFirst : maps.upperBound startAddr = 0
      · refine .inl ⟨⟨untouched, ?_⟩, not_conflicting_of_first less here free gap isFirst⟩
        intro previous _ isPrevious _
        rcases getElem?_of_mem isPrevious.1 with ⟨index, atPrevious⟩
        have isBefore := (maps.lt_upperBound_iff atPrevious).2 isPrevious.2.1
        rw [isFirst] at isBefore
        exact absurd isBefore (Nat.not_lt_zero index)
      · have bounded := maps.upperBound_le_length startAddr
        have inBound : maps.upperBound startAddr - 1 < maps.entries.length := by omega
        have atPrevious := getElem?_eq_getElem inBound
        generalize maps.entries[maps.upperBound startAddr - 1] = previous
          at atPrevious
        have isPrevious := isPrevious_of_getElem? atPrevious isFirst
        by_cases same : previous.2.filePathId = next.2.filePathId
        · refine .inr ⟨fun unrelated =>
            unrelated.2 previous next isPrevious isNext same,
            next, isNext.1, isNext.2.1, ?_⟩
          exact between_of_same less here free apart atPrevious isFirst gap same
        · refine .inl ⟨⟨untouched, ?_⟩,
            not_conflicting_of_differs less here free apart atPrevious isFirst gap same⟩
          intro otherPrevious otherNext isOtherPrevious isOtherNext
          rw [eq_of_isPrevious isOtherPrevious isPrevious, eq_of_isNext isOtherNext isNext]
          exact same

end Neighbours

def OnlyAdds (filter : OfflineSymbolizationFilter) (mapsInfo : MapsInfo)
    (waiting : List (List UInt64)) : Prop :=
  filter.parseMapsEvent symbolIndex mapsInfo waiting = { filter with
    startAddrToMapsInfoMap := filter.startAddrToMapsInfoMap.insert mapsInfo.start mapsInfo }

theorem onlyAdds_of_not_conflicting (notConflicting :
    ¬ Conflicting (getNeedUpdateProcessMapsAddrRange filter.startAddrToMapsInfoMap
      mapsInfo.start mapsInfo.end_)) (waiting : List (List UInt64)) :
    filter.OnlyAdds symbolIndex mapsInfo waiting := by
  unfold OnlyAdds parseMapsEvent
  dsimp only
  rw [if_neg notConflicting]

theorem not_mem_parseMapsEvent_of_between
    {entry : UInt64 × MapsInfo} (differs : mapsInfo.start < entry.1) (start :
      (getNeedUpdateProcessMapsAddrRange filter.startAddrToMapsInfoMap
        mapsInfo.start mapsInfo.end_).1 ≤ entry.1) (end_ :
      entry.1 < (getNeedUpdateProcessMapsAddrRange filter.startAddrToMapsInfoMap
        mapsInfo.start mapsInfo.end_).2) (free :
      ∀ other ∈ (remainingMaps filter.startAddrToMapsInfoMap mapsInfo.start
        mapsInfo.end_).entries, other.1 ≠ mapsInfo.start) (waiting : List (List UInt64)) :
    entry ∉ (filter.parseMapsEvent symbolIndex mapsInfo
      waiting).startAddrToMapsInfoMap.entries := by
  rw [maps_parseMapsEvent, OrderedMap.mem_insert_of_not_mem _ mapsInfo free]
  rintro (rfl | isLeft)
  · exact lt_irrefl _ differs
  · exact not_mem_remainingMaps start end_ isLeft

/--
An event that overlaps no map removes neither maps nor frames exactly when no
map starts where it ends, and the maps on both sides have different files.
-/
theorem onlyAdds_iff (filter : OfflineSymbolizationFilter) (mapsInfo : MapsInfo)
    (waiting : List (List UInt64)) (apart : MapsApart filter.startAddrToMapsInfoMap)
    (less : mapsInfo.start < mapsInfo.end_) (free :
      DisjointIntervals.Free MapsInfo.end_ filter.startAddrToMapsInfoMap
        mapsInfo.start mapsInfo.end_) : filter.OnlyAdds symbolIndex mapsInfo waiting ↔
      Unrelated filter.startAddrToMapsInfoMap mapsInfo.start mapsInfo.end_ := by
  have keysDiffer := free.key_ne apart.disjoint less
  rcases unrelated_or_between apart less free with
    ⟨unrelated, notConflicting⟩ |
    ⟨related, entry, member, isBehind, start, end_⟩
  · exact iff_of_true (onlyAdds_of_not_conflicting symbolIndex notConflicting waiting) unrelated
  · refine iff_of_false ?_ related
    intro onlyAdds
    refine not_mem_parseMapsEvent_of_between symbolIndex isBehind start end_
      (fun other isLeft => keysDiffer other (mem_of_mem_remainingMaps isLeft))
      waiting ?_
    rw [show filter.parseMapsEvent symbolIndex mapsInfo waiting = _ from
      onlyAdds]
    exact (OrderedMap.mem_insert_of_not_mem _ mapsInfo keysDiffer entry).2 (.inr member)

/-- A map before another one that it does not touch. -/
theorem onlyAdds_iff_gap : let filter : OfflineSymbolizationFilter :=
    { initial with
      startAddrToMapsInfoMap := .single 0x2000 ⟨0x2000, 0x3000, 0, 1⟩ }
    filter.OnlyAdds (fun _ => 0) ⟨0x1000, 0x1800, 0, 1⟩ [] ↔
      Unrelated filter.startAddrToMapsInfoMap 0x1000 0x1800 := by
  intro filter
  refine onlyAdds_iff (fun _ => 0) filter ⟨0x1000, 0x1800, 0, 1⟩ [] ?_ (by decide) ?_
  · refine ⟨⟨?_, ?_⟩, ?_⟩ <;> decide
  · unfold DisjointIntervals.Free
    decide

/-- A map that ends where another one starts removes the other one. -/
theorem not_onlyAdds_touching : let filter : OfflineSymbolizationFilter :=
    { initial with
      startAddrToMapsInfoMap := .single 0x2000 ⟨0x2000, 0x3000, 0, 1⟩ }
    let next := filter.parseMapsEvent (fun _ => 0) ⟨0x1000, 0x2000, 0, 2⟩ []
    MapsApart filter.startAddrToMapsInfoMap ∧
      DisjointIntervals.Free MapsInfo.end_ filter.startAddrToMapsInfoMap 0x1000 0x2000 ∧
      (0x2000, ⟨0x2000, 0x3000, 0, 1⟩) ∈ filter.startAddrToMapsInfoMap.entries ∧
      next.startAddrToMapsInfoMap.entries = [(0x1000, ⟨0x1000, 0x2000, 0, 2⟩)] ∧
      ¬ filter.OnlyAdds (fun _ => 0) ⟨0x1000, 0x2000, 0, 2⟩ [] := by
  intro filter next
  have evicted : next.startAddrToMapsInfoMap.entries = [(0x1000, ⟨0x1000, 0x2000, 0, 2⟩)] := by
    decide
  refine ⟨⟨⟨by decide, by decide⟩, by decide⟩, ?_, by decide, evicted, ?_⟩
  · unfold DisjointIntervals.Free
    decide
  · intro onlyAdds
    rw [show next = _ from onlyAdds] at evicted
    revert evicted
    decide

end OfflineSymbolizationFilter

end SysAnalyzer.Filter
