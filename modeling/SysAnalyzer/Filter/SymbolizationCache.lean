import SysAnalyzer.Filter.ProcessMaps
import SysAnalyzer.Foundation.Memo

/-!
# The cache of frames

`OfflineSymbolization` answers from `ipToFrameInfo_` where it can.  A maps
event removes the frames whose map it evicts.  A symbol table replaces an older
one of its file only after the frames of the file were removed, but the first
one of a file leaves the frames that were found without it.

So the cache is sound as long as no symbol table comes for a file that frames
are kept of.
-/

namespace SysAnalyzer.Filter

open Foundation List Option

@[simp]
theorem SymbolTable.filePathId_fillSymbol (table : SymbolTable) (symbolIndex : List UInt8 → UInt64)
    (ip vmStart vmOffset : UInt64) (frameInfo : FrameInfo) :
    (table.fillSymbol symbolIndex ip vmStart vmOffset frameInfo).filePathId =
      frameInfo.filePathId := by
  have kept (elfSym : ElfSym) (symVaddr : UInt64) (symbolStart : UInt32) (frame : FrameInfo) :
    (table.getSymbolStartMaybeUpdateFrameInfo elfSym symVaddr ip symbolStart
      frame).2.filePathId = frame.filePathId := by
    unfold getSymbolStartMaybeUpdateFrameInfo
    split <;> rfl
  unfold fillSymbol
  dsimp only
  split
  · rfl
  · cases table.stValueToSym.lastUpTo _ with
    | none =>
      dsimp only
      split <;> rfl
    | some found =>
      dsimp only
      split <;> exact kept _ _ _ _

namespace OfflineSymbolizationFilter

def fileOf (maps : OrderedMap UInt64 MapsInfo) (ip : UInt64) : UInt32 :=
  match maps.lastUpTo ip with
  | some (_, mapsInfo) => if ip < mapsInfo.end_ then mapsInfo.filePathId else invalidUint32
  | none => invalidUint32

def withoutFrames (filter : OfflineSymbolizationFilter) : OfflineSymbolizationFilter :=
  { filter with ipToFrameInfo := .empty }

variable (symbolIndex : List UInt8 → UInt64)

section

variable (filter : OfflineSymbolizationFilter)
include filter

theorem offlineSymbolization_eq_keptOr (ip : UInt64) :
    (filter.offlineSymbolization symbolIndex ip).1 =
      keptOr (filter.computeFrame symbolIndex) filter.ipToFrameInfo ip := by
  unfold offlineSymbolization keptOr
  cases filter.ipToFrameInfo.find? ip with
  | some frameInfo => rfl
  | none => cases filter.computeFrame symbolIndex ip <;> rfl

theorem fillFrameInfo_eq (ip : UInt64) :
    (filter.fillFrameInfo ip).map (fun found => found.1.filePathId) =
      if fileOf filter.startAddrToMapsInfoMap ip = invalidUint32 then none
      else some (fileOf filter.startAddrToMapsInfoMap ip) := by
  unfold fillFrameInfo fileOf
  dsimp only
  cases filter.startAddrToMapsInfoMap.lastUpTo ip with
  | none => rfl
  | some entry =>
    dsimp only
    by_cases holds : ip < entry.2.end_
    · simp only [if_pos holds]
      split <;> rfl
    · simp only [if_neg holds]
      rfl

theorem computeFrame_filePathId (ip : UInt64) :
    (filter.computeFrame symbolIndex ip).map FrameInfo.filePathId =
      if fileOf filter.startAddrToMapsInfoMap ip = invalidUint32 then none
      else some (fileOf filter.startAddrToMapsInfoMap ip) := by
  rw [← fillFrameInfo_eq]
  unfold computeFrame
  rcases filter.fillFrameInfo ip with _ | ⟨frameInfo, vmStart, vmOffset⟩
  · rfl
  · dsimp only [map_some]
    split
    · rfl
    · rw [map_some, SymbolTable.filePathId_fillSymbol]

theorem computeFrame_eq_none_iff (ip : UInt64) : filter.computeFrame symbolIndex ip = none ↔
    fileOf filter.startAddrToMapsInfoMap ip = invalidUint32 := by
  rw [← map_eq_none_iff (f := FrameInfo.filePathId), computeFrame_filePathId]
  split <;> simp [*]

end

variable {ip : UInt64}

theorem filePathId_of_computeFrame {filter : OfflineSymbolizationFilter} {frame : FrameInfo}
    (computed : filter.computeFrame symbolIndex ip = some frame) :
    frame.filePathId = fileOf filter.startAddrToMapsInfoMap ip ∧
      fileOf filter.startAddrToMapsInfoMap ip ≠ invalidUint32 := by
  have isFile := computeFrame_filePathId symbolIndex filter ip
  rw [computed, map_some] at isFile
  split at isFile
  · cases isFile
  · next valid => exact ⟨some.inj isFile, valid⟩

theorem holds_of_fileOf {maps : OrderedMap UInt64 MapsInfo}
    (valid : fileOf maps ip ≠ invalidUint32) :
    ∃ entry, maps.lastUpTo ip = some entry ∧ ip < entry.2.end_ ∧
      entry.2.filePathId = fileOf maps ip := by
  unfold fileOf at valid ⊢
  cases found : maps.lastUpTo ip with
  | none =>
    rw [found] at valid
    exact absurd rfl valid
  | some entry =>
    rw [found] at valid
    dsimp only at valid ⊢
    by_cases holds : ip < entry.2.end_
    · exact ⟨entry, rfl, holds, by rw [if_pos holds]⟩
    · rw [if_neg holds] at valid
      exact absurd rfl valid

theorem computeFrame_congr {first second : OfflineSymbolizationFilter} (sameMap :
    first.startAddrToMapsInfoMap.lastUpTo ip =
      second.startAddrToMapsInfoMap.lastUpTo ip) (sameTable :
    first.filePathIdToSymbolTableMap (fileOf first.startAddrToMapsInfoMap ip) =
      second.filePathIdToSymbolTableMap (fileOf first.startAddrToMapsInfoMap ip)) :
    first.computeFrame symbolIndex ip = second.computeFrame symbolIndex ip := by
  have sameFrame : first.fillFrameInfo ip = second.fillFrameInfo ip := by
    unfold fillFrameInfo
    rw [sameMap]
  have isFile := fillFrameInfo_eq first ip
  unfold computeFrame
  rw [← sameFrame]
  cases filled : first.fillFrameInfo ip with
  | none => rfl
  | some found =>
    rw [filled, map_some] at isFile
    split at isFile
    · cases isFile
    · have isFile : found.1.filePathId = _ := some.inj isFile
      dsimp only
      rw [isFile, sameTable]

/-- The maps are apart, and every frame is the one that would be computed. -/
structure Coherent (filter : OfflineSymbolizationFilter) : Prop where
  apart : MapsApart filter.startAddrToMapsInfoMap
  frames : Memoizes (filter.computeFrame symbolIndex) filter.ipToFrameInfo

theorem coherent_initial : Coherent symbolIndex initial := ⟨mapsApart_empty, .empty⟩

section Sound

variable {symbolIndex} {filter : OfflineSymbolizationFilter}
  (coherent : Coherent symbolIndex filter)

include coherent

namespace Coherent

theorem answers (ip : UInt64) :
    (filter.offlineSymbolization symbolIndex ip).1 = filter.computeFrame symbolIndex ip := by
  rw [offlineSymbolization_eq_keptOr, coherent.frames.keptOr_eq]

theorem filePathId_eq {cached : UInt64 × FrameInfo}
    (member : cached ∈ filter.ipToFrameInfo.entries) :
    cached.2.filePathId = fileOf filter.startAddrToMapsInfoMap cached.1 ∧
      fileOf filter.startAddrToMapsInfoMap cached.1 ≠ invalidUint32 :=
  filePathId_of_computeFrame symbolIndex (coherent.frames cached member)

theorem offlineSymbolization (ip : UInt64) :
    Coherent symbolIndex (filter.offlineSymbolization symbolIndex ip).2 := by
  unfold OfflineSymbolizationFilter.offlineSymbolization
  split
  · exact coherent
  · split
    · exact coherent
    · next computed => exact ⟨coherent.apart, coherent.frames.insert computed⟩

theorem symbolizeStack (ips : List UInt64) :
    Coherent symbolIndex (filter.symbolizeStack symbolIndex ips) := by
  induction ips generalizing filter with
  | nil => exact coherent
  | cons ip ips induction =>
    rw [symbolizeStack_cons]
    split
    · exact induction (coherent.offlineSymbolization ip)
    · exact coherent.offlineSymbolization ip

theorem symbolizeStacks (callStacks : List (List UInt64)) :
    Coherent symbolIndex (filter.symbolizeStacks symbolIndex callStacks) := by
  unfold OfflineSymbolizationFilter.symbolizeStacks
  induction callStacks generalizing filter with
  | nil => exact coherent
  | cons ips callStacks induction => exact induction (coherent.symbolizeStack ips)

end Coherent

end Sound

section Maps

variable {maps : OrderedMap UInt64 MapsInfo} {startAddr endAddr : UInt64}

theorem rangeEnd_cases (apart : MapsApart maps) (startAddr endAddr : UInt64) :
    (getNeedUpdateProcessMapsAddrRange maps startAddr endAddr).2 = invalidUint64 ∨
      ∃ entry ∈ maps.entries, (getNeedUpdateProcessMapsAddrRange maps startAddr endAddr).2 =
        entry.1 := by
  unfold getNeedUpdateProcessMapsAddrRange
  dsimp only
  split
  · exact .inl rfl
  · split
    · exact .inl rfl
    · split
      · exact .inl rfl
      · rcases startOfOtherFile_cases maps (maps.upperBound endAddr) with
          isInvalid | ⟨_, _, entry, _, _, here, _, isStart⟩
        · exact .inl isInvalid
        · have member := mem_of_getElem? here
          exact .inr ⟨entry, member, isStart.trans (apart.keyed entry member).symm⟩

theorem mem_remainingMaps (apart : MapsApart maps) {entry : UInt64 × MapsInfo}
    (member : entry ∈ maps.entries) {ip : UInt64} (upTo : entry.1 ≤ ip)
    (holds : ip < entry.2.end_) (outside :
      Conflicting (getNeedUpdateProcessMapsAddrRange maps startAddr endAddr) →
        inRange (getNeedUpdateProcessMapsAddrRange maps startAddr endAddr) ip = false) :
    entry ∈ (remainingMaps maps startAddr endAddr).entries := by
  unfold remainingMaps
  dsimp only
  split
  · next conflicting =>
      have notInRange := outside conflicting
      refine maps.mem_eraseWhere.2 ⟨member, ?_⟩
      by_contra evicted
      rw [Bool.not_eq_false, inRange, Bool.and_eq_true, decide_eq_true_iff,
        decide_eq_true_iff] at evicted
      have beforeEnd : ip < (getNeedUpdateProcessMapsAddrRange maps startAddr endAddr).2 := by
        rcases rangeEnd_cases apart startAddr endAddr with
          isInvalid | ⟨later, ofLater, isStart⟩
        · rw [isInvalid]
          exact holds.trans_le (le_invalidUint64 _)
        · rw [isStart] at evicted ⊢
          exact holds.trans_le (apart.disjoint.apart entry member later ofLater evicted.2)
      rw [inRange, decide_eq_true (evicted.1.trans upTo), decide_eq_true beforeEnd] at notInRange
      cases notInRange
  · exact member

end Maps

section Steps

variable {symbolIndex} {filter : OfflineSymbolizationFilter}
  (coherent : Coherent symbolIndex filter)

include coherent

variable {mapsInfo : MapsInfo}

theorem lastUpTo_parseMapsEvent (less : mapsInfo.start < mapsInfo.end_)
    (waiting : List (List UInt64)) {ip : UInt64}
    (valid : fileOf filter.startAddrToMapsInfoMap ip ≠ invalidUint32) (outside :
      let range := getNeedUpdateProcessMapsAddrRange
        filter.startAddrToMapsInfoMap mapsInfo.start mapsInfo.end_
      Conflicting range → inRange range ip = false) :
    (filter.parseMapsEvent symbolIndex mapsInfo waiting).startAddrToMapsInfoMap.lastUpTo ip =
      filter.startAddrToMapsInfoMap.lastUpTo ip := by
  rcases holds_of_fileOf valid with ⟨entry, found, holds, _⟩
  rcases OrderedMap.lastUpTo_eq_some_iff _ |>.1 found with ⟨member, upTo, _⟩
  have stays := mem_remainingMaps coherent.apart member upTo holds outside
  have left := mapsApart_remainingMaps coherent.apart mapsInfo.start mapsInfo.end_
  have free := free_remainingMaps coherent.apart less
  have next := mapsApart_parseMapsEvent symbolIndex coherent.apart less waiting
  rw [found]
  refine next.1.disjoint.lastUpTo_of_holds ?_ upTo holds
  rw [maps_parseMapsEvent]
  exact (OrderedMap.mem_insert_of_not_mem _ mapsInfo
    (free.key_ne left.disjoint less) entry).2 (.inr stays)

omit coherent in
theorem computeFrame_symbolizeStacks (callStacks : List (List UInt64)) (ip : UInt64) :
    (filter.symbolizeStacks symbolIndex callStacks).computeFrame symbolIndex ip =
      filter.computeFrame symbolIndex ip := by
  apply computeFrame_congr
  · rw [maps_symbolizeStacks]
  · rw [tables_symbolizeStacks]

variable {cached : UInt64 × FrameInfo}

theorem frames_parseMapsEvent
    {waiting : List (List UInt64)} (member : cached ∈ (filter.parseMapsEvent symbolIndex mapsInfo
      waiting).ipToFrameInfo.entries) :
    let range := getNeedUpdateProcessMapsAddrRange
      filter.startAddrToMapsInfoMap mapsInfo.start mapsInfo.end_
    filter.computeFrame symbolIndex cached.1 = some cached.2 ∧
      (Conflicting range → inRange range cached.1 = false) := by
  intro range
  unfold parseMapsEvent at member
  dsimp only at member
  split at member
  · rcases OrderedMap.mem_eraseWhere _ |>.1 member with ⟨wasKept, outside⟩
    refine ⟨?_, fun _ => outside⟩
    rw [← computeFrame_symbolizeStacks waiting]
    exact (coherent.symbolizeStacks waiting).frames cached wasKept
  · next notConflicting =>
      exact ⟨coherent.frames cached member, fun conflicting => absurd conflicting notConflicting⟩

omit coherent in
theorem tables_parseMapsEvent (mapsInfo : MapsInfo) (waiting : List (List UInt64)) :
    (filter.parseMapsEvent symbolIndex mapsInfo waiting).filePathIdToSymbolTableMap =
      filter.filePathIdToSymbolTableMap := by
  unfold parseMapsEvent
  dsimp only
  split
  · exact tables_symbolizeStacks symbolIndex filter waiting
  · rfl

theorem Coherent.parseMapsEvent (less : mapsInfo.start < mapsInfo.end_)
    (waiting : List (List UInt64)) :
    Coherent symbolIndex (filter.parseMapsEvent symbolIndex mapsInfo waiting) := by
  refine ⟨(mapsApart_parseMapsEvent symbolIndex coherent.apart less waiting).1, ?_⟩
  intro cached member
  rcases frames_parseMapsEvent coherent member with ⟨computed, outside⟩
  have valid := (filePathId_of_computeFrame symbolIndex computed).2
  rw [← computed]
  symm
  apply computeFrame_congr
  · exact (lastUpTo_parseMapsEvent coherent less waiting valid outside).symm
  · rw [tables_parseMapsEvent]

/-! ## Symbol table events -/

omit coherent in
theorem frames_offlineSymbolization {ip : UInt64} (member : cached ∈
    (filter.offlineSymbolization symbolIndex ip).2.ipToFrameInfo.entries) :
    cached ∈ filter.ipToFrameInfo.entries ∨ cached.1 = ip ∧
      fileOf filter.startAddrToMapsInfoMap ip ≠ invalidUint32 := by
  unfold OfflineSymbolizationFilter.offlineSymbolization at member
  split at member
  · exact .inl member
  · next absent =>
      split at member
      · exact .inl member
      · next frame computed =>
          rcases (OrderedMap.mem_insert_of_not_mem _ frame
            (OrderedMap.find?_eq_none_iff _ |>.1 absent) cached).1 member with
            rfl | isKept
          · exact .inr ⟨rfl, (filePathId_of_computeFrame symbolIndex computed).2⟩
          · exact .inl isKept

/-- The addresses of a call stack up to one without a file. -/
def symbolizedPart (maps : OrderedMap UInt64 MapsInfo) (ips : List UInt64) : List UInt64 :=
  ips.takeWhile fun ip => fileOf maps ip ≠ invalidUint32

theorem frames_symbolizeStack (ips : List UInt64) (member : cached ∈
    (filter.symbolizeStack symbolIndex ips).ipToFrameInfo.entries) :
    cached ∈ filter.ipToFrameInfo.entries ∨
      cached.1 ∈ symbolizedPart filter.startAddrToMapsInfoMap ips := by
  induction ips generalizing filter with
  | nil => exact .inl member
  | cons ip ips induction =>
    have atHead
      (valid : fileOf filter.startAddrToMapsInfoMap ip ≠ invalidUint32) :
      symbolizedPart filter.startAddrToMapsInfoMap (ip :: ips) =
        ip :: symbolizedPart filter.startAddrToMapsInfoMap ips :=
      takeWhile_cons_of_pos (decide_eq_true valid)
    have ofFirst
      (isNew : cached ∈ (filter.offlineSymbolization symbolIndex ip).2.ipToFrameInfo.entries) :
      cached ∈ filter.ipToFrameInfo.entries ∨ cached.1 ∈
        symbolizedPart filter.startAddrToMapsInfoMap (ip :: ips) := by
      rcases frames_offlineSymbolization isNew with isKept | ⟨isHead, valid⟩
      · exact .inl isKept
      · rw [atHead valid, isHead]
        exact .inr mem_cons_self
    rw [symbolizeStack_cons, coherent.answers] at member
    split at member
    · next computed =>
        have valid : fileOf filter.startAddrToMapsInfoMap ip ≠ invalidUint32 := by
          rw [Ne, ← computeFrame_eq_none_iff symbolIndex]
          exact isSome_iff_ne_none.1 computed
        rcases induction (coherent.offlineSymbolization ip) member with
          isNew | isLater
        · exact ofFirst isNew
        · rw [maps_offlineSymbolization] at isLater
          rw [atHead valid]
          exact .inr (mem_cons_of_mem _ isLater)
    · exact ofFirst member

theorem frames_symbolizeStacks (callStacks : List (List UInt64))
    (member : cached ∈ (filter.symbolizeStacks symbolIndex callStacks).ipToFrameInfo.entries) :
    cached ∈ filter.ipToFrameInfo.entries ∨ ∃ ips ∈ callStacks,
      cached.1 ∈ symbolizedPart filter.startAddrToMapsInfoMap ips := by
  induction callStacks generalizing filter with
  | nil => exact .inl member
  | cons ips callStacks induction =>
    rcases induction (coherent.symbolizeStack ips) member with
      isNew | ⟨later, ofLater, isLater⟩
    · rcases frames_symbolizeStack coherent ips isNew with isKept | isFirst
      · exact .inl isKept
      · exact .inr ⟨ips, mem_cons_self, isFirst⟩
    · rw [maps_symbolizeStack] at isLater
      exact .inr ⟨later, mem_cons_of_mem _ ofLater, isLater⟩

end Steps

/--
What an event must meet: a map has a range that is not empty, and no frame of
the file of a symbol table is kept or comes from the stacks that are waiting.
-/
def Fresh (filter : OfflineSymbolizationFilter) : Event → Prop
  | .maps mapsInfo _ => mapsInfo.start < mapsInfo.end_
  | .symbolTable reader waiting =>
    (∀ cached ∈ filter.ipToFrameInfo.entries, cached.2.filePathId ≠ reader.filePathId) ∧
      ((filter.filePathIdToSymbolTableMap reader.filePathId).isSome → ∀ ips ∈ waiting,
        ∀ ip ∈ symbolizedPart filter.startAddrToMapsInfoMap ips,
          fileOf filter.startAddrToMapsInfoMap ip ≠ reader.filePathId)
  | .query _ => True

instance (filter : OfflineSymbolizationFilter) : (event : Event) → Decidable (filter.Fresh event)
  | .maps mapsInfo _ => inferInstanceAs (Decidable (mapsInfo.start < mapsInfo.end_))
  | .symbolTable _ _ => inferInstanceAs (Decidable (_ ∧ _))
  | .query _ => inferInstanceAs (Decidable True)

section SymbolTables

variable {symbolIndex} {filter : OfflineSymbolizationFilter}
  {reader : SymbolTable} {waiting : List (List UInt64)}

/-- The filter in which the frames of a file are looked for. -/
def beforeTable (symbolIndex : List UInt8 → UInt64)
    (filter : OfflineSymbolizationFilter) (reader : SymbolTable)
    (waiting : List (List UInt64)) : OfflineSymbolizationFilter :=
  if (filter.filePathIdToSymbolTableMap reader.filePathId).isSome then
    filter.symbolizeStacks symbolIndex waiting
  else filter

section

variable (coherent : Coherent symbolIndex filter)
include coherent

theorem Coherent.beforeTable (reader : SymbolTable) (waiting : List (List UInt64)) :
    Coherent symbolIndex (filter.beforeTable symbolIndex reader waiting) := by
  unfold OfflineSymbolizationFilter.beforeTable
  split
  · exact coherent.symbolizeStacks waiting
  · exact coherent

theorem frames_beforeTable (fresh : filter.Fresh (.symbolTable reader waiting))
    {cached : UInt64 × FrameInfo} (member : cached ∈
      (filter.beforeTable symbolIndex reader waiting).ipToFrameInfo.entries) :
    cached.2.filePathId ≠ reader.filePathId := by
  have isFile := ((coherent.beforeTable reader waiting).filePathId_eq member).1
  unfold OfflineSymbolizationFilter.beforeTable at member isFile
  split at member
  · next known =>
      rcases frames_symbolizeStacks coherent waiting member with
        isKept | ⟨ips, isWaiting, isSymbolized⟩
      · exact fresh.1 cached isKept
      · rw [if_pos known, maps_symbolizeStacks] at isFile
        rw [isFile]
        exact fresh.2 known ips isWaiting cached.1 isSymbolized
  · exact fresh.1 cached member

theorem parseSymbolTableEvent_of_fresh (fresh : filter.Fresh (.symbolTable reader waiting)) :
    filter.parseSymbolTableEvent symbolIndex reader waiting = if reader.Readable then
        let before := filter.beforeTable symbolIndex reader waiting
        some { before with
            filePathIdToSymbolTableMap :=
              Function.update before.filePathIdToSymbolTableMap
                reader.filePathId (some reader) }
      else none := by
  have notFound : ¬ ((filter.filePathIdToSymbolTableMap reader.filePathId).isSome = true ∧
      ∃ cached ∈ (filter.beforeTable symbolIndex reader waiting).ipToFrameInfo.entries,
        cached.2.filePathId = reader.filePathId) := by
    rintro ⟨_, cached, member, isFile⟩
    exact frames_beforeTable coherent fresh member isFile
  unfold OfflineSymbolizationFilter.beforeTable at notFound
  unfold parseSymbolTableEvent beforeTable
  dsimp only
  rw [if_neg notFound]
  by_cases readable : reader.Readable
  · rw [if_neg (not_not.2 readable), if_pos readable]
  · rw [if_pos readable, if_neg readable]

theorem Coherent.parseSymbolTableEvent (fresh : filter.Fresh (.symbolTable reader waiting))
    {next : OfflineSymbolizationFilter} (parsed :
      filter.parseSymbolTableEvent symbolIndex reader waiting = some next) :
    Coherent symbolIndex next := by
  have before := coherent.beforeTable reader waiting
  rw [parseSymbolTableEvent_of_fresh coherent fresh] at parsed
  split at parsed
  · cases parsed
    refine ⟨before.apart, before.frames.congr ?_⟩
    intro cached member _
    have differs := frames_beforeTable coherent fresh member
    rw [(before.filePathId_eq member).1] at differs
    apply computeFrame_congr
    · rfl
    · exact Function.update_of_ne differs _ _
  · cases parsed

end

end SymbolTables

theorem Coherent.step (filter : OfflineSymbolizationFilter) (event : Event)
    (next : OfflineSymbolizationFilter)
    (coherent : Coherent symbolIndex filter) (fresh : filter.Fresh event)
    (stepped : filter.step symbolIndex event = some next) : Coherent symbolIndex next := by
  cases event with
  | maps mapsInfo waiting =>
    cases stepped
    exact coherent.parseMapsEvent fresh waiting
  | symbolTable reader waiting => exact coherent.parseSymbolTableEvent fresh stepped
  | query ip =>
    cases stepped
    exact coherent.offlineSymbolization ip

/--
When no symbol table comes for a file that frames are kept of, an address has
the frame that it would have with an empty cache.
-/
theorem offlineSymbolization_withoutFrames (events : List Event)
    (fresh : EachPartial (step symbolIndex) Fresh initial events)
    (reached : OfflineSymbolizationFilter)
    (isReached : runPartial (step symbolIndex) initial events = some reached) (ip : UInt64) :
    (reached.offlineSymbolization symbolIndex ip).1 =
      (reached.withoutFrames.offlineSymbolization symbolIndex ip).1 := by
  have coherent : Coherent symbolIndex reached :=
    runPartial_invariant (Coherent.step symbolIndex) (coherent_initial symbolIndex) fresh isReached
  rw [coherent.answers, offlineSymbolization_eq_keptOr]
  exact (keptOr_empty (reached.computeFrame symbolIndex) ip).symm

/-- A table with one symbol, at `0x100`. -/
def oneSymbol (filePathId : UInt32) : SymbolTable where
  filePathId
  textExecVaddr := 0
  textExecVaddrFileOffset := 0
  symEntrySize := 16
  symTable := [0, 0, 0, 0, 0, 1, 0, 0, 16, 0, 0, 0, 2, 0, 0, 0]
  strTable := [97, 0]

/-- A table of another file comes after a frame was kept. -/
theorem offlineSymbolization_withoutFrames_twoFiles : let events : List Event :=
    [.maps ⟨0x1000, 0x2000, 0, 1⟩ [], .query 0x1100, .symbolTable (oneSymbol 2) []]
    let reached := (runPartial (step fun _ => 7) initial events).getD initial
    runPartial (step fun _ => 7) initial events = some reached ∧
      (reached.offlineSymbolization (fun _ => 7) 0x1100).1 =
        (reached.withoutFrames.offlineSymbolization (fun _ => 7) 0x1100).1 := by
  intro events reached
  refine ⟨rfl, ?_⟩
  refine offlineSymbolization_withoutFrames (fun _ => 7) events ?_ reached rfl _
  refine ⟨by decide, fun _ mapped => ?_⟩
  cases mapped
  refine ⟨trivial, fun _ queried => ?_⟩
  cases queried
  exact ⟨by decide, fun _ _ => trivial⟩

/-- The first table of a file leaves the frame that was found without it. -/
theorem offlineSymbolization_ne_withoutFrames : let events : List Event :=
    [.maps ⟨0x1000, 0x2000, 0, 1⟩ [], .query 0x1100, .symbolTable (oneSymbol 1) []]
    let reached := (runPartial (step fun _ => 7) initial events).getD initial
    runPartial (step fun _ => 7) initial events = some reached ∧
      ((reached.offlineSymbolization (fun _ => 7) 0x1100).1.map
        FrameInfo.symbolIndex) = some invalidUint64 ∧
      ((reached.withoutFrames.offlineSymbolization (fun _ => 7) 0x1100).1.map
        FrameInfo.symbolIndex) = some 7 := by
  refine ⟨rfl, ?_, ?_⟩ <;> decide

end OfflineSymbolizationFilter

end SysAnalyzer.Filter
