import SysAnalyzer.Base.TripleMap
import SysAnalyzer.Foundation.OrderedMap
import SysAnalyzer.Foundation.Strtol
import SysAnalyzer.Foundation.Words

/-!
# The clock filter

A clock snapshot is a list of clocks read at one moment.  For each pair of its
clocks, in both directions, the filter enters the difference of the readings
into a map of that direction, under the reading of the source clock; an entry
that is there already stays.  `Convert` adds the difference that was entered
last before a time, or else the first one.

The indexes of `AddClockSnapshot` are 32-bit numbers, so its loops do not end
for a snapshot of 2^32 readings.
-/

namespace SysAnalyzer.Base

open Foundation List

abbrev ClockId := UInt32

/-- `SnapShot`: the reading of one clock. -/
structure SnapShot where
  clockId : ClockId
  ts : UInt64

abbrev ConvertClockMap := OrderedMap UInt64 Int64

structure ClockFilter where
  clockMaps : StdMap (List Char) ConvertClockMap

namespace ClockFilter

def initial : ClockFilter := ⟨fun _ => none⟩

def genClockKey (srcClockId desClockId : ClockId) : List Char :=
  digitChars srcClockId.toNat ++ ',' :: digitChars desClockId.toNat

/-- `Convert`.  The maps are never empty, so `*tsIt` is always an entry. -/
def convert (filter : ClockFilter) (srcClockId : ClockId) (srcTs : UInt64)
    (desClockId : ClockId) : UInt64 :=
  match filter.clockMaps (genClockKey srcClockId desClockId) with
  | none => srcTs
  | some clockMap =>
    let tsIt := clockMap.upperBound srcTs
    let tsIt := if tsIt ≠ 0 then tsIt - 1 else tsIt
    match clockMap.entries[tsIt]? with
    | none => srcTs
    | some entry =>
      if 0 ≤ entry.2 then srcTs + entry.2.toUInt64
      else srcTs - (0 - entry.2).toUInt64

def addConvertClockMap (srcClockId dstClockId : ClockId)
    (srcTs dstTs : UInt64) (filter : ClockFilter) : ClockFilter :=
  let clockKey := genClockKey srcClockId dstClockId
  let difference := (dstTs - srcTs).toInt64
  match filter.clockMaps clockKey with
  | none => ⟨Function.update filter.clockMaps clockKey (some (.single srcTs difference))⟩
  | some clockMap =>
    ⟨Function.update filter.clockMaps clockKey (some (clockMap.insert srcTs difference))⟩

/--
The inner loop of `AddClockSnapshot` over the readings from `desId` on.  `none`
means that the index returns to 0 and the loop does not end.
-/
def desLoop (src : SnapShot) : ℕ → List SnapShot → ClockFilter → Option ClockFilter
  | _, [], filter => some filter
  | desId, des :: rest, filter =>
    let filter := addConvertClockMap src.clockId des.clockId src.ts des.ts filter
    let filter := addConvertClockMap des.clockId src.clockId des.ts src.ts filter
    if desId + 1 = 2 ^ 32 then none else desLoop src (desId + 1) rest filter

/-- The outer loop, which leaves out the last reading. -/
def srcLoop : ℕ → List SnapShot → ClockFilter → Option ClockFilter
  | _, [], filter => some filter
  | _, [_], filter => some filter
  | srcId, src :: des :: rest, filter =>
    match desLoop src (srcId + 1) (des :: rest) filter with
    | none => none
    | some filter => srcLoop (srcId + 1) (des :: rest) filter

/--
`AddClockSnapshot`.  `size() - 1` of an empty snapshot is the largest number,
and the loop reads behind the snapshot.
-/
def addClockSnapshot (snapShot : List SnapShot) (filter : ClockFilter) : Option ClockFilter :=
  if snapShot.isEmpty then none else srcLoop 0 snapShot filter

def addClockSnapshots : List (List SnapShot) → ClockFilter → Option ClockFilter
  | [], filter => some filter
  | snapShot :: rest, filter =>
    match filter.addClockSnapshot snapShot with
    | none => none
    | some filter => addClockSnapshots rest filter

end ClockFilter

def readingOf (clock : ClockId) (snapShot : List SnapShot) : Option UInt64 :=
  (snapShot.find? fun entry => decide (entry.clockId = clock)).map SnapShot.ts

/-- The readings of two clocks in a snapshot that has both of them. -/
def readingPair (first second : ClockId) (snapShot : List SnapShot) : Option (UInt64 × UInt64) :=
  (readingOf first snapShot).bind fun atFirst =>
    (readingOf second snapShot).map fun atSecond => (atFirst, atSecond)

/-- The readings of two clocks, in the order of the snapshots. -/
def readingPairs (first second : ClockId)
    (snapShots : List (List SnapShot)) : List (UInt64 × UInt64) :=
  snapShots.filterMap (readingPair first second)

/--
The readings that a time of the first clock is converted by: the ones with the
greatest reading of the first clock up to the time, or else with the smallest
one, and the earliest added of those with equal readings.
-/
structure Governs (pairs : List (UInt64 × UInt64)) (time : UInt64)
    (pair : UInt64 × UInt64) : Prop where
  earliest : (pairs.find? fun other => decide (other.1 = pair.1)) = some pair
  nearest : (pair.1 ≤ time ∧ ∀ other ∈ pairs, other.1 ≤ time → other.1 ≤ pair.1) ∨
    (time < pair.1 ∧ ∀ other ∈ pairs, pair.1 ≤ other.1)

namespace ClockFilter

theorem genClockKey_inj {src des otherSrc otherDes : ClockId}
    (same : genClockKey src des = genClockKey otherSrc otherDes) :
    src = otherSrc ∧ des = otherDes := by
  have comma (rest : List Char) : EndsNumber (',' :: rest) := by
    rintro _ ⟨⟩
    decide
  have nothing : EndsNumber [] := by rintro _ ⟨⟩
  rcases digitChars_append_inj (comma _) (comma _) same with ⟨sameSrc, rest⟩
  have behind := (List.cons.inj rest).2
  rw [← append_nil (digitChars des.toNat), ← append_nil (digitChars otherDes.toNat)] at behind
  exact ⟨UInt32.toNat_inj.1 sameSrc,
    UInt32.toNat_inj.1 (digitChars_append_inj nothing nothing behind).1⟩

def difference (pair : UInt64 × UInt64) : Int64 := (pair.2 - pair.1).toInt64

/--
The map from one clock to another holds the differences of their readings, each
under the reading of the first clock and the earliest one of equal readings.
-/
structure Holds (source target : ClockId) (pairs : List (UInt64 × UInt64))
    (filter : ClockFilter) : Prop where
  absent : filter.clockMaps (genClockKey source target) = none ↔ pairs = []
  entries : ∀ clockMap, filter.clockMaps (genClockKey source target) = some clockMap →
    ∀ reading, clockMap.find? reading =
      (pairs.find? fun other => decide (other.1 = reading)).map difference

variable {source target : ClockId} {pairs : List (UInt64 × UInt64)}
variable {filter : ClockFilter}

theorem holds_initial (source target : ClockId) : Holds source target [] initial where
  absent := by simp [initial]
  entries := by rintro _ ⟨⟩

theorem clockMaps_addConvertClockMap (srcClockId dstClockId : ClockId) (srcTs dstTs : UInt64)
    (filter : ClockFilter) :
    (addConvertClockMap srcClockId dstClockId srcTs dstTs filter).clockMaps =
      Function.update filter.clockMaps (genClockKey srcClockId dstClockId) (some
        (match filter.clockMaps (genClockKey srcClockId dstClockId) with
        | none => .single srcTs (difference (srcTs, dstTs))
        | some clockMap =>
          clockMap.insert srcTs (difference (srcTs, dstTs)))) := by
  unfold addConvertClockMap
  cases found : filter.clockMaps (genClockKey srcClockId dstClockId) <;> simp only [found] <;> rfl

theorem Holds.add_same (holds : Holds source target pairs filter) (srcTs dstTs : UInt64) :
    Holds source target (pairs ++ [(srcTs, dstTs)])
      (addConvertClockMap source target srcTs dstTs filter) := by
  constructor
  · simp [clockMaps_addConvertClockMap]
  · intro clockMap isMap reading
    rw [clockMaps_addConvertClockMap, Function.update_self, Option.some.injEq] at isMap
    subst isMap
    cases found : filter.clockMaps (genClockKey source target) with
    | none =>
      have noPairs := holds.absent.1 found
      subst noPairs
      by_cases same : srcTs = reading
      · simp [same]
      · simp [same, Ne.symm same]
    | some old =>
      dsimp only
      rw [OrderedMap.find?_insert, find?_append,
        holds.entries old found, holds.entries old found]
      by_cases same : reading = srcTs
      · subst same
        cases pairs.find? fun other => decide (other.1 = reading) <;> simp
      · simp [same, Ne.symm same]

theorem Holds.add_other (holds : Holds source target pairs filter) {srcClockId dstClockId : ClockId}
    (other : ¬ (srcClockId = source ∧ dstClockId = target)) (srcTs dstTs : UInt64) :
    Holds source target pairs (addConvertClockMap srcClockId dstClockId srcTs dstTs filter) := by
  have otherKey : genClockKey source target ≠ genClockKey srcClockId dstClockId := by
    intro same
    rcases genClockKey_inj same with ⟨rfl, rfl⟩
    exact other ⟨rfl, rfl⟩
  have sameMap : (addConvertClockMap srcClockId dstClockId srcTs dstTs filter).clockMaps
    (genClockKey source target) = filter.clockMaps (genClockKey source target) := by
    rw [clockMaps_addConvertClockMap]
    exact Function.update_of_ne otherKey _ _
  exact ⟨by rw [sameMap, holds.absent], by rw [sameMap]; exact holds.entries⟩

theorem readingOf_cons (clock : ClockId) (entry : SnapShot) (rest : List SnapShot) :
    readingOf clock (entry :: rest) =
      if clock = entry.clockId then some entry.ts else readingOf clock rest := by
  by_cases same : clock = entry.clockId
  · simp [readingOf, same]
  · simp [readingOf, same, Ne.symm same]

variable {snapShot : List SnapShot}

theorem readingOf_eq_none {clock : ClockId} (absent : clock ∉ snapShot.map SnapShot.clockId) :
    readingOf clock snapShot = none := by
  rw [readingOf, Option.map_eq_none_iff, find?_eq_none]
  intro entry member same
  rw [decide_eq_true_eq] at same
  exact absent (same ▸ mem_map_of_mem member)

/-- What the first reading adds together with the ones behind it. -/
def pairsWith (source target : ClockId) (src : SnapShot)
    (rest : List SnapShot) : List (UInt64 × UInt64) :=
  if source = src.clockId then
    ((readingOf target rest).map fun atTarget => (src.ts, atTarget)).toList
  else if target = src.clockId then
    ((readingOf source rest).map fun atSource => (atSource, src.ts)).toList
  else []

variable {rest : List SnapShot}

theorem readingPair_cons (different : source ≠ target) {src : SnapShot}
    (fresh : src.clockId ∉ rest.map SnapShot.clockId) :
    (readingPair source target (src :: rest)).toList = pairsWith source target src rest ++
      (readingPair source target rest).toList := by
  unfold readingPair pairsWith
  rw [readingOf_cons, readingOf_cons]
  by_cases isSource : source = src.clockId
  · have notTarget : target ≠ src.clockId := fun isTarget =>
      different (isSource.trans isTarget.symm)
    have none : readingOf source rest = none := readingOf_eq_none (isSource ▸ fresh)
    simp [← isSource, different.symm, none]
  · by_cases isTarget : target = src.clockId
    · have none : readingOf target rest = none :=
        readingOf_eq_none (isTarget ▸ fresh)
      simp only [if_neg isSource, if_pos isTarget, none]
      cases readingOf source rest <;> rfl
    · simp [isSource, isTarget]

theorem Holds.add_both (holds : Holds source target pairs filter) (different : source ≠ target)
    {src des : SnapShot} (others : src.clockId ≠ des.clockId) :
    Holds source target (pairs ++ pairsWith source target src [des])
      (addConvertClockMap des.clockId src.clockId des.ts src.ts
        (addConvertClockMap src.clockId des.clockId src.ts des.ts filter)) := by
  unfold pairsWith
  rw [readingOf_cons, readingOf_cons]
  by_cases isSource : source = src.clockId
  · subst isSource
    have notBack : ¬ (des.clockId = src.clockId ∧ src.clockId = target) :=
      fun back => others back.1.symm
    by_cases isDes : target = des.clockId
    · subst isDes
      have added := (holds.add_same src.ts des.ts).add_other notBack des.ts src.ts
      simpa using added
    · have notThere : ¬ (src.clockId = src.clockId ∧ des.clockId = target) :=
        fun there => isDes there.2.symm
      have added := (holds.add_other notThere src.ts des.ts).add_other notBack des.ts src.ts
      simpa [isDes, readingOf] using added
  · have notThere : ¬ (src.clockId = source ∧ des.clockId = target) :=
      fun there => isSource there.1.symm
    have first := holds.add_other notThere src.ts des.ts
    by_cases isTarget : target = src.clockId
    · subst isTarget
      by_cases isDes : source = des.clockId
      · subst isDes
        have added := first.add_same des.ts src.ts
        simpa [isSource] using added
      · have notBack : ¬ (des.clockId = source ∧ src.clockId = src.clockId) :=
          fun back => isDes back.1.symm
        have added := first.add_other notBack des.ts src.ts
        simpa [isSource, isDes, readingOf] using added
    · have notBack : ¬ (des.clockId = source ∧ src.clockId = target) :=
        fun back => isTarget back.2.symm
      have added := first.add_other notBack des.ts src.ts
      simpa [isSource, isTarget] using added

theorem pairsWith_cons {src des : SnapShot} (fresh : des.clockId ∉ rest.map SnapShot.clockId) :
    pairsWith source target src (des :: rest) =
      pairsWith source target src [des] ++ pairsWith source target src rest := by
  have only (clock : ClockId) : (readingOf clock (des :: rest)).toList =
    (readingOf clock [des]).toList ++ (readingOf clock rest).toList := by
    rw [readingOf_cons, readingOf_cons]
    by_cases same : clock = des.clockId
    · have none : readingOf clock rest = none :=
        readingOf_eq_none (same ▸ fresh)
      rw [if_pos same, if_pos same, none]
      simp
    · simp [same, readingOf]
  unfold pairsWith
  split_ifs
  · simp only [Option.toList_map, only target, map_append]
  · simp only [Option.toList_map, only source, map_append]
  · rfl

theorem desLoop_holds {src : SnapShot} {desId : ℕ} (filter : ClockFilter)
    (distinct : ((src :: rest).map SnapShot.clockId).Nodup) (few : desId + rest.length < 2 ^ 32) :
    ∃ next, desLoop src desId rest filter = some next ∧ ∀ source target pairs, source ≠ target →
      Holds source target pairs filter →
        Holds source target (pairs ++ pairsWith source target src rest) next := by
  induction rest generalizing desId filter with
  | nil =>
    refine ⟨filter, rfl, ?_⟩
    intro source target pairs _ holds
    simpa [pairsWith, readingOf] using holds
  | cons des later induction =>
    rw [length_cons] at few
    simp only [map_cons, nodup_cons, mem_cons, not_or]
      at distinct
    rcases distinct with ⟨⟨others, srcFresh⟩, desFresh, laterDistinct⟩
    rcases induction (addConvertClockMap des.clockId src.clockId des.ts src.ts
      (addConvertClockMap src.clockId des.clockId src.ts des.ts filter))
      (nodup_cons.2 ⟨srcFresh, laterDistinct⟩)
      (by omega : desId + 1 + later.length < 2 ^ 32) with
      ⟨next, reached, holdsNext⟩
    refine ⟨next, ?_, ?_⟩
    · rw [desLoop, if_neg (by omega)]
      exact reached
    · intro source target pairs different holds
      have added := holds.add_both different others
      rw [pairsWith_cons desFresh, ← append_assoc]
      exact holdsNext _ _ _ different added

theorem srcLoop_holds {srcId : ℕ} (filter : ClockFilter)
    (distinct : (snapShot.map SnapShot.clockId).Nodup) (few : srcId + snapShot.length < 2 ^ 32) :
    ∃ next, srcLoop srcId snapShot filter = some next ∧ ∀ source target pairs, source ≠ target →
      Holds source target pairs filter → Holds source target
        (pairs ++ (readingPair source target snapShot).toList) next := by
  induction snapShot generalizing srcId filter with
  | nil =>
    refine ⟨filter, rfl, ?_⟩
    intro source target pairs _ holds
    simpa [readingPair, readingOf] using holds
  | cons src rest induction =>
    rw [length_cons] at few
    rcases desLoop_holds filter distinct (by omega : srcId + 1 + rest.length < 2 ^ 32) with
      ⟨between, readRest, holdsBetween⟩
    rw [map_cons, nodup_cons] at distinct
    rcases induction between distinct.2 (by omega : srcId + 1 + rest.length < 2 ^ 32) with
      ⟨next, reached, holdsNext⟩
    refine ⟨next, ?_, ?_⟩
    · cases rest with
      | nil => exact readRest.trans reached
      | cons des later =>
        rw [srcLoop, readRest]
        exact reached
    · intro source target pairs different holds
      rw [readingPair_cons different distinct.1, ← append_assoc]
      exact holdsNext _ _ _ different (holdsBetween _ _ _ different holds)

/-- The conditions on a snapshot: it has readings, and of different clocks. -/
def WellFormed (snapShot : List SnapShot) : Prop :=
  snapShot ≠ [] ∧ (snapShot.map SnapShot.clockId).Nodup

def OccurTogether (source target : ClockId) (snapShot : List SnapShot) : Prop :=
  source ∈ snapShot.map SnapShot.clockId ∧ target ∈ snapShot.map SnapShot.clockId

theorem readingOf_isSome {clock : ClockId} (listed : clock ∈ snapShot.map SnapShot.clockId) :
    ∃ reading, readingOf clock snapShot = some reading := by
  rcases mem_map.1 listed with ⟨entry, member, rfl⟩
  cases found : readingOf entry.clockId snapShot with
  | some reading => exact ⟨reading, rfl⟩
  | none =>
    rw [readingOf, Option.map_eq_none_iff, find?_eq_none] at found
    exact absurd (decide_eq_true rfl) (found entry member)

theorem OccurTogether.readingPair (together : OccurTogether source target snapShot) :
    ∃ pair, readingPair source target snapShot = some pair ∧
      readingPair target source snapShot = some pair.swap := by
  rcases readingOf_isSome together.1 with ⟨atSource, ofSource⟩
  rcases readingOf_isSome together.2 with ⟨atTarget, ofTarget⟩
  exact ⟨(atSource, atTarget), by simp [Base.readingPair, ofSource, ofTarget],
    by simp [Base.readingPair, ofSource, ofTarget]⟩

theorem addClockSnapshots_holds {snapShots : List (List SnapShot)}
    (wellFormed : ∀ snapShot ∈ snapShots, WellFormed snapShot)
    (few : ∀ snapShot ∈ snapShots, snapShot.length < 2 ^ 32) (filter : ClockFilter) :
    ∃ next, addClockSnapshots snapShots filter = some next ∧
      ∀ source target pairs, source ≠ target → Holds source target pairs filter →
        Holds source target (pairs ++ readingPairs source target snapShots) next := by
  induction snapShots generalizing filter with
  | nil =>
    refine ⟨filter, rfl, ?_⟩
    intro source target pairs _ holds
    simpa [readingPairs] using holds
  | cons snapShot rest induction =>
    rcases wellFormed snapShot (by simp) with ⟨nonempty, distinct⟩
    have size := few snapShot (by simp)
    rcases srcLoop_holds filter distinct (by omega : 0 + snapShot.length < 2 ^ 32) with
      ⟨between, added, holdsBetween⟩
    rcases induction (fun other member => wellFormed other (by simp [member]))
      (fun other member => few other (by simp [member])) between with
      ⟨next, reached, holdsNext⟩
    refine ⟨next, ?_, ?_⟩
    · have addedHere : filter.addClockSnapshot snapShot = some between := by
        rw [addClockSnapshot, if_neg (by simpa using nonempty), added]
      rw [addClockSnapshots, addedHere]
      exact reached
    · intro source target pairs different holds
      have split : readingPairs source target (snapShot :: rest) =
        (readingPair source target snapShot).toList ++ readingPairs source target rest := by
        unfold readingPairs
        rw [filterMap_cons]
        cases Base.readingPair source target snapShot <;> rfl
      rw [split, ← append_assoc]
      exact holdsNext _ _ _ different (holdsBetween _ _ _ different holds)

theorem apply_difference (time : UInt64) (pair : UInt64 × UInt64) :
    (if 0 ≤ difference pair then time + (difference pair).toUInt64
      else time - (0 - difference pair).toUInt64) = time + (pair.2 - pair.1) := by
  have back : (difference pair).toUInt64 = pair.2 - pair.1 := by simp [difference]
  have negated : (0 - difference pair).toUInt64 = 0 - (difference pair).toUInt64 := by simp
  split_ifs
  · rw [back]
  · rw [negated, back, zero_sub, sub_neg_eq_add]

theorem Holds.convert_eq (holds : Holds source target pairs filter) (nonempty : pairs ≠ [])
    (time : UInt64) : ∃ pair, Governs pairs time pair ∧
      filter.convert source time target = time + (pair.2 - pair.1) := by
  cases found : filter.clockMaps (genClockKey source target) with
  | none => exact absurd (holds.absent.1 found) nonempty
  | some clockMap =>
    have stored := holds.entries clockMap found
    -- Every reading of the source clock is a key of the map.
    have isKey : ∀ other ∈ pairs, ∃ value, (other.1, value) ∈ clockMap.entries := by
      intro other member
      cases first : pairs.find? fun entry => decide (entry.1 = other.1) with
      | none =>
        rw [find?_eq_none] at first
        exact absurd (decide_eq_true rfl) (first other member)
      | some entry =>
        refine ⟨difference entry, clockMap.find?_eq_some_iff.1 ?_⟩
        rw [stored, first]
        rfl
    have hasEntry : clockMap.entries ≠ [] := by
      rcases exists_mem_of_ne_nil pairs nonempty with ⟨other, member⟩
      rcases isKey other member with ⟨value, inMap⟩
      exact ne_nil_of_mem inMap
    rcases clockMap.lastUpToOrFirst_isSome time hasEntry with ⟨entry, reached⟩
    rcases clockMap.lastUpToOrFirst_spec reached with ⟨member, nearest⟩
    have ofPairs := clockMap.find?_eq_some_iff.2 member
    rw [stored, Option.map_eq_some_iff] at ofPairs
    rcases ofPairs with ⟨pair, earliest, isDifference⟩
    have sameReading : pair.1 = entry.1 := by simpa using find?_some earliest
    refine ⟨pair, ⟨?_, ?_⟩, ?_⟩
    · rw [sameReading]
      exact earliest
    · rw [sameReading]
      rcases nearest with ⟨upTo, last⟩ | ⟨behind, least⟩
      · refine Or.inl ⟨upTo, fun other ofOthers otherUpTo => ?_⟩
        rcases isKey other ofOthers with ⟨value, inMap⟩
        exact last _ inMap otherUpTo
      · refine Or.inr ⟨behind, fun other ofOthers => ?_⟩
        rcases isKey other ofOthers with ⟨value, inMap⟩
        exact least _ inMap
    · have position : (if clockMap.upperBound time ≠ 0 then clockMap.upperBound time - 1
        else clockMap.upperBound time) = clockMap.upperBound time - 1 := by
        split_ifs <;> omega
      unfold convert
      rw [found]
      dsimp only
      rw [position, show clockMap.entries[clockMap.upperBound time - 1]? =
        some entry from reached]
      dsimp only
      rw [← isDifference, apply_difference]

/--
The filter converts by the readings that govern a time, between any two clocks
that are read together; with a single snapshot the way back undoes it.
-/
def Converts (snapShots : List (List SnapShot)) : Prop :=
  ∃ filter, addClockSnapshots snapShots .initial = some filter ∧ ∀ source target, source ≠ target →
    (∃ snapShot ∈ snapShots, OccurTogether source target snapShot) → ∀ time,
      (∃ pair, Governs (readingPairs source target snapShots) time pair ∧
        filter.convert source time target = time + (pair.2 - pair.1)) ∧
        (snapShots.length = 1 → filter.convert target (filter.convert source time target)
          source = time)

/-- Snapshots of fewer than 2^32 readings convert by the readings they have. -/
theorem converts_of_few {snapShots : List (List SnapShot)}
    (wellFormed : ∀ snapShot ∈ snapShots, WellFormed snapShot)
    (few : ∀ snapShot ∈ snapShots, snapShot.length < 2 ^ 32) : Converts snapShots := by
  rcases addClockSnapshots_holds wellFormed few .initial with
    ⟨filter, added, holds⟩
  refine ⟨filter, added, ?_⟩
  rintro source target different ⟨snapShot, listed, together⟩ time
  rcases together.readingPair with ⟨pair, forth, back⟩
  have holdsForth := holds source target [] different (holds_initial _ _)
  have holdsBack := holds target source [] different.symm (holds_initial _ _)
  rw [nil_append] at holdsForth holdsBack
  have someForth : readingPairs source target snapShots ≠ [] :=
    ne_nil_of_mem (mem_filterMap.2 ⟨snapShot, listed, forth⟩)
  have someBack : readingPairs target source snapShots ≠ [] :=
    ne_nil_of_mem (mem_filterMap.2 ⟨snapShot, listed, back⟩)
  refine ⟨holdsForth.convert_eq someForth time, ?_⟩
  intro single
  rcases length_eq_one_iff.1 single with ⟨only, rfl⟩
  cases mem_singleton.1 listed
  have onlyForth : readingPairs source target [snapShot] = [pair] := by simp [readingPairs, forth]
  have onlyBack : readingPairs target source [snapShot] = [pair.swap] := by
    simp [readingPairs, back]
  rcases holdsForth.convert_eq someForth time with ⟨first, governs, forthEq⟩
  rcases holdsBack.convert_eq someBack (filter.convert source time target) with
    ⟨second, governsBack, backEq⟩
  have firstMember := mem_of_find?_eq_some governs.earliest
  have secondMember := mem_of_find?_eq_some governsBack.earliest
  rw [onlyForth, mem_singleton] at firstMember
  rw [onlyBack, mem_singleton] at secondMember
  rw [backEq, forthEq, firstMember, secondMember]
  simp [add_assoc]

theorem converts_two : Converts [[⟨1, 100⟩, ⟨2, 300⟩], [⟨1, 200⟩, ⟨2, 400⟩, ⟨5, 90⟩]] :=
  converts_of_few (by simp [WellFormed]) (by simp)

theorem desLoop_eq_none (src : SnapShot) {desId : ℕ} (filter : ClockFilter)
    (small : desId < 2 ^ 32) (many : 2 ^ 32 ≤ desId + rest.length) :
    desLoop src desId rest filter = none := by
  induction rest generalizing desId filter with
  | nil =>
    rw [length_nil] at many
    omega
  | cons des later induction =>
    rw [length_cons] at many
    rw [desLoop]
    split_ifs with last
    · rfl
    · exact induction _ (by omega) (by omega)

theorem addClockSnapshot_eq_none (filter : ClockFilter) (many : 2 ^ 32 ≤ snapShot.length) :
    filter.addClockSnapshot snapShot = none := by
  unfold addClockSnapshot
  match snapShot with
  | [] => rfl
  | [_] => simp at many
  | src :: des :: rest =>
    rw [if_neg (by simp), srcLoop, desLoop_eq_none src filter (by omega)]
    rw [length_cons] at many
    omega

def allClocks : List SnapShot := (range (2 ^ 32)).map fun clock => ⟨UInt32.ofNat clock, 0⟩

theorem length_allClocks : allClocks.length = 2 ^ 32 := by rw [allClocks, length_map, length_range]

theorem wellFormed_allClocks : WellFormed allClocks := by
  constructor
  · intro empty
    have length := length_allClocks
    rw [empty, length_nil] at length
    omega
  · rw [allClocks, map_map]
    apply List.Nodup.map_on _ nodup_range
    intro first firstSmall second secondSmall same
    rw [mem_range] at firstSmall secondSmall
    have values := congrArg UInt32.toNat same
    simp only [Function.comp_apply, UInt32.toNat_ofNat'] at values
    omega

theorem not_converts_allClocks :
    (∀ snapShot ∈ [allClocks], WellFormed snapShot) ∧ ¬ Converts [allClocks] := by
  constructor
  · intro snapShot listed
    rw [mem_singleton.1 listed]
    exact wellFormed_allClocks
  · rintro ⟨filter, added, -⟩
    rw [addClockSnapshots, addClockSnapshot_eq_none _ (le_of_eq length_allClocks.symm)] at added
    cases added

end ClockFilter

end SysAnalyzer.Base
