import SysAnalyzer.Foundation.ByteRange
import SysAnalyzer.Parser.RingBufferPage

/-!
# What the walk through a page reads

The reads of the entries are bounded by the end of the committed data, which
comes from the page itself, and a record whose length is in its header is not
bounded at all.  The walk stays inside the page exactly when it does so at each
entry it comes to: what the entry announces before the end of the data is also
before the end of the page, and so is the event of a record.
-/

namespace SysAnalyzer.Parser

open Foundation List

namespace FtraceProcessor

/-- The bytes that `ReadInfo` reads. -/
def readInfoRanges (startPtr endPtr outSize : Nat) : List ByteRange :=
  if endPtr < startPtr + outSize ∨ outSize = 0 then []
  else [⟨startPtr, startPtr + outSize⟩]

section

variable (types : FtraceCommonType) (isSupported : UInt16 → Bool)
  (page : List UInt8) (endPosOfData : Nat)

/-- The bytes that `HandleDataRecord` reads of an event, and hands on. -/
def eventRanges (processor : FtraceProcessor) (eventSize : UInt32) : List ByteRange :=
  let eventStart := processor.curPos
  let eventEnd := processor.curPos + eventSize.toNat
  match readInfo page eventStart eventEnd 2 with
  | none => []
  | some id =>
    readInfoRanges eventStart eventEnd 2 ++ if isSupported (UInt16.ofNat (littleEndian id)) then
      [⟨eventStart, eventEnd⟩]
      else []

/-- The bytes that `HandleDataRecord` reads. -/
def dataRecordRanges (processor : FtraceProcessor) (typeLen : UInt32) : List ByteRange :=
  if typeLen ≠ 0 then processor.eventRanges isSupported page (types.arrayElementSize * typeLen)
  else
    readInfoRanges processor.curPos endPosOfData 4 ++
      match readWord page processor.curPos endPosOfData with
      | none => []
      | some eventSize =>
        if eventSize < 4 then []
        else
          { processor with curPos := processor.curPos + 4 }.eventRanges
            isSupported page (eventSize - 4)

/-- The bytes that are read behind the header of an entry. -/
def entryRanges (processor : FtraceProcessor) (typeLen timeDelta : UInt32) : List ByteRange :=
  if typeLen = types.bufferTypePadding then
    if timeDelta = 0 then []
    else readInfoRanges processor.curPos endPosOfData 4
  else if typeLen = types.bufferTypeTimeExtend then readInfoRanges processor.curPos endPosOfData 4
  else if typeLen = types.bufferTypeTimeStamp then readInfoRanges processor.curPos endPosOfData 4
  else processor.dataRecordRanges types isSupported page endPosOfData typeLen

/-- The bytes that one pass of the loop of `HandlePage` reads. -/
def passRanges (processor : FtraceProcessor) : List ByteRange :=
  readInfoRanges processor.curPos endPosOfData types.eventHeaderSize ++
    match readInfo page processor.curPos endPosOfData types.eventHeaderSize with
    | none => []
    | some header =>
      (processor.afterHeader types header).entryRanges types isSupported
        page endPosOfData (types.typeLen header) (types.timeDelta header)

/-- The states in which the loop of `HandlePage` makes a pass. -/
def passes (processor : FtraceProcessor) : List FtraceProcessor :=
  if processor.curPos < endPosOfData then
    processor :: match readInfo page processor.curPos endPosOfData types.eventHeaderSize with
      | none => []
      | some header =>
        let handled :=
          (processor.afterHeader types header).handleEntry types isSupported
            page endPosOfData (types.typeLen header) (types.timeDelta header)
        if handled.1 then passes handled.2 else []
  else []
termination_by endPosOfData - processor.curPos
decreasing_by
  rename_i inside _
  have forward :=
    curPos_le_handleEntry types isSupported page endPosOfData
      (processor.afterHeader types header) (types.typeLen header)
      (types.timeDelta header)
  have positive := types.eventHeaderSize_pos
  have moved : (processor.afterHeader types header).curPos =
      processor.curPos + types.eventHeaderSize := rfl
  omega

end

/-- The bytes that `HandlePageHeader` reads. -/
def pageHeaderRanges (page : List UInt8) (size commitSize : Nat) : List ByteRange :=
  readInfoRanges 0 size 8 ++ match readInfo page 0 size 8 with
    | none => []
    | some _ => readInfoRanges 8 size commitSize

/-- Where the loop of `HandlePage` begins. -/
def firstPass (commitSize : Nat) (processor : FtraceProcessor)
    (page : List UInt8) (size : Nat) : FtraceProcessor :=
  let header := handlePageHeader page size commitSize
  { processor with curPos := header.2.1, curTimestamp := header.1 }

/-- Where `HandlePage` takes the data to end. -/
def endOfData (commitSize : Nat) (page : List UInt8) (size : Nat) : Nat :=
  (handlePageHeader page size commitSize).2.2

/-- The bytes that `HandlePage` reads or hands on. -/
def pageRanges (types : FtraceCommonType) (isSupported : UInt16 → Bool)
    (commitSize : Nat) (processor : FtraceProcessor) (page : List UInt8)
    (size : Nat) : List ByteRange :=
  pageHeaderRanges page size commitSize ++
    ((processor.firstPass commitSize page size).passes types isSupported page
      (endOfData commitSize page size)).flatMap
        (passRanges types isSupported page (endOfData commitSize page size))

/-! ## Entries inside the page -/

def HasWord (types : FtraceCommonType) (typeLen timeDelta : UInt32) : Prop :=
  if typeLen = types.bufferTypePadding then timeDelta ≠ 0
  else typeLen = types.bufferTypeTimeExtend ∨ typeLen = types.bufferTypeTimeStamp ∨ typeLen = 0

/-- Where the event of a record begins and its size, `behind` the header. -/
def eventOf (types : FtraceCommonType) (page : List UInt8)
    (endPosOfData behind : Nat) (typeLen : UInt32) : Option (Nat × UInt32) :=
  if typeLen = types.bufferTypePadding ∨ typeLen = types.bufferTypeTimeExtend ∨
    typeLen = types.bufferTypeTimeStamp then
    none
  else if typeLen ≠ 0 then some (behind, types.arrayElementSize * typeLen)
  else
    (readWord page behind endPosOfData).bind fun eventSize =>
      if eventSize < 4 then none else some (behind + 4, eventSize - 4)

def eventIdAt (page : List UInt8) (eventStart : Nat) : UInt16 :=
  UInt16.ofNat (littleEndian ((page.drop eventStart).take 2))

/--
An event that is long enough to have a number is inside a page of this size.  Of
an event that is not supported it is the number that has to be inside.
-/
def EventInside (isSupported : UInt16 → Bool) (page : List UInt8)
    (size eventStart : Nat) (eventSize : UInt32) : Prop :=
  2 ≤ eventSize → eventStart + 2 ≤ size ∧ (isSupported (eventIdAt page eventStart) = true →
    eventStart + eventSize.toNat ≤ size)

/--
The entry at a cursor is inside a page of this size: its header and its word,
if the data do not end before them, and the event of a record.
-/
structure EntryInside (types : FtraceCommonType)
    (isSupported : UInt16 → Bool) (page : List UInt8)
    (endPosOfData size : Nat) (header : List UInt8) (behind : Nat) :
    Prop where
  headerInside : behind ≤ size
  wordInside : HasWord types (types.typeLen header) (types.timeDelta header) →
    behind + 4 ≤ endPosOfData → behind + 4 ≤ size
  eventInside : ∀ eventStart eventSize,
    eventOf types page endPosOfData behind (types.typeLen header) = some (eventStart, eventSize) →
      EventInside isSupported page size eventStart eventSize

/-- The same of an entry whose header the data have. -/
def PassInside (types : FtraceCommonType) (isSupported : UInt16 → Bool)
    (page : List UInt8) (endPosOfData size : Nat) (processor : FtraceProcessor) : Prop :=
  processor.curPos + types.eventHeaderSize ≤ endPosOfData →
    EntryInside types isSupported page endPosOfData size
      ((page.drop processor.curPos).take types.eventHeaderSize)
      (processor.curPos + types.eventHeaderSize)

section

variable {types : FtraceCommonType} {isSupported : UInt16 → Bool}
  {page : List UInt8} {endPosOfData size : Nat}

variable {startPtr endPtr outSize : Nat}

theorem readInfo_of_le (positive : 0 < outSize) (inside : startPtr + outSize ≤ endPtr) :
    readInfo page startPtr endPtr outSize = some ((page.drop startPtr).take outSize) := by
  rw [readInfo, if_neg (by omega)]

theorem readInfo_of_lt (beyond : endPtr < startPtr + outSize) :
    readInfo page startPtr endPtr outSize = none := by
  rw [readInfo, if_pos (Or.inl beyond)]

theorem readInfoRanges_inside_iff (positive : 0 < outSize) :
    AllInside (readInfoRanges startPtr endPtr outSize) size ↔
      (startPtr + outSize ≤ endPtr → startPtr + outSize ≤ size) := by
  unfold readInfoRanges
  split_ifs with beyond
  · simp only [allInside_nil, true_iff]
    omega
  · rw [allInside_cons, ByteRange.inside_iff (by simpa using positive)]
    simp only [allInside_nil, and_true]
    constructor
    · exact fun bounded _ => bounded
    · exact fun bounded => bounded (by omega)

section

variable (processor : FtraceProcessor)
include processor

theorem eventRanges_inside_iff (eventSize : UInt32) :
    AllInside (processor.eventRanges isSupported page eventSize) size ↔
      EventInside isSupported page size processor.curPos eventSize := by
  have sizeIff : 2 ≤ eventSize ↔ 2 ≤ eventSize.toNat := UInt32.le_iff_toNat_le
  by_cases hasId : 2 ≤ eventSize.toNat
  · have reads : readInfo page processor.curPos (processor.curPos + eventSize.toNat) 2 =
      some ((page.drop processor.curPos).take 2) :=
      readInfo_of_le (by omega) (by omega)
    have numberInside : AllInside (readInfoRanges processor.curPos
      (processor.curPos + eventSize.toNat) 2) size ↔
      processor.curPos + 2 ≤ size := by
      rw [readInfoRanges_inside_iff (by omega)]
      exact ⟨fun bounded => bounded (by omega), fun bounded _ => bounded⟩
    have eventInside : (⟨processor.curPos, processor.curPos + eventSize.toNat⟩ :
      ByteRange).Inside size ↔ processor.curPos + eventSize.toNat ≤ size :=
      ByteRange.inside_iff (by simp only; omega)
    have wanted : 2 ≤ eventSize := sizeIff.2 hasId
    unfold eventRanges EventInside
    simp only [reads, allInside_append, numberInside, wanted, true_imp_iff]
    apply and_congr_right
    intro _
    rw [eventIdAt]
    split_ifs with supported
    · simp [eventInside, supported]
    · simp [supported]
  · have nothing : readInfo page processor.curPos (processor.curPos + eventSize.toNat) 2 = none :=
      readInfo_of_lt (by omega)
    have unwanted : ¬ 2 ≤ eventSize := fun wanted => hasId (sizeIff.1 wanted)
    simp [eventRanges, EventInside, nothing, unwanted]

theorem dataRecordRanges_of_typeLen {typeLen : UInt32} (long : typeLen ≠ 0) :
    AllInside (processor.dataRecordRanges types isSupported page endPosOfData typeLen) size ↔
      EventInside isSupported page size processor.curPos (types.arrayElementSize * typeLen) := by
  rw [dataRecordRanges, if_pos long]
  exact eventRanges_inside_iff processor _

theorem dataRecordRanges_of_word :
    AllInside (processor.dataRecordRanges types isSupported page endPosOfData 0) size ↔
      (processor.curPos + 4 ≤ endPosOfData → processor.curPos + 4 ≤ size) ∧ ∀ eventSize,
        readWord page processor.curPos endPosOfData = some eventSize → 4 ≤ eventSize →
          EventInside isSupported page size (processor.curPos + 4) (eventSize - 4) := by
  rw [dataRecordRanges, if_neg (by simp), allInside_append, readInfoRanges_inside_iff (by omega)]
  apply and_congr_right
  intro _
  cases word : readWord page processor.curPos endPosOfData with
  | none => simp
  | some eventSize =>
    by_cases short : eventSize < 4
    · simp [short]
    · have long : 4 ≤ eventSize := UInt32.not_lt.1 short
      simp only [if_neg short, Option.some.injEq, forall_eq', long, true_imp_iff]
      exact eventRanges_inside_iff { processor with curPos := processor.curPos + 4 } (eventSize - 4)

theorem dataRecordRanges_inside_iff {typeLen : UInt32} (timeDelta : UInt32)
    (noPadding : typeLen ≠ types.bufferTypePadding)
    (noExtend : typeLen ≠ types.bufferTypeTimeExtend)
    (noStamp : typeLen ≠ types.bufferTypeTimeStamp) :
    AllInside (processor.dataRecordRanges types isSupported page endPosOfData typeLen) size ↔
      (HasWord types typeLen timeDelta → processor.curPos + 4 ≤ endPosOfData →
        processor.curPos + 4 ≤ size) ∧
        ∀ eventStart eventSize, eventOf types page endPosOfData processor.curPos typeLen =
          some (eventStart, eventSize) →
          EventInside isSupported page size eventStart eventSize := by
  have isRecord : ¬ (typeLen = types.bufferTypePadding ∨ typeLen = types.bufferTypeTimeExtend ∨
    typeLen = types.bufferTypeTimeStamp) := by
    rintro (padding | extend | stamp)
    · exact noPadding padding
    · exact noExtend extend
    · exact noStamp stamp
  have hasWord : HasWord types typeLen timeDelta ↔ typeLen = 0 := by
    rw [HasWord, if_neg noPadding]
    simp only [noExtend, noStamp, false_or]
  rw [hasWord, eventOf, if_neg isRecord]
  by_cases inWord : typeLen = 0
  · subst inWord
    rw [dataRecordRanges_of_word]
    simp only [true_imp_iff, ne_eq, not_true_eq_false, if_false, Option.bind_eq_some_iff]
    apply and_congr_right
    intro _
    constructor
    · rintro events eventStart eventSize ⟨word, read, event⟩
      split_ifs at event with short
      cases event
      exact events word read (UInt32.not_lt.1 short)
    · intro events word read long
      refine events _ _ ⟨word, read, ?_⟩
      rw [if_neg (UInt32.not_lt.2 long)]
  · rw [dataRecordRanges_of_typeLen processor inWord]
    simp [inWord]

theorem entryRanges_inside_iff (typeLen timeDelta : UInt32) :
    AllInside (processor.entryRanges types isSupported page endPosOfData typeLen timeDelta) size ↔
      (HasWord types typeLen timeDelta → processor.curPos + 4 ≤ endPosOfData →
        processor.curPos + 4 ≤ size) ∧
        ∀ eventStart eventSize, eventOf types page endPosOfData processor.curPos typeLen =
          some (eventStart, eventSize) →
          EventInside isSupported page size eventStart eventSize := by
  have word : AllInside (readInfoRanges processor.curPos endPosOfData 4) size ↔
    (processor.curPos + 4 ≤ endPosOfData → processor.curPos + 4 ≤ size) :=
    readInfoRanges_inside_iff (by omega)
  unfold entryRanges
  split_ifs with padding unread extend stamp
  · simp [HasWord, eventOf, padding, unread]
  · simp [HasWord, eventOf, padding, unread, word]
  · have hasWord : HasWord types typeLen timeDelta := by
      rw [HasWord, if_neg padding]
      exact Or.inl extend
    rw [word, eventOf, if_pos (Or.inr (Or.inl extend))]
    simp [hasWord]
  · have hasWord : HasWord types typeLen timeDelta := by
      rw [HasWord, if_neg padding]
      exact Or.inr (Or.inl stamp)
    rw [word, eventOf, if_pos (Or.inr (Or.inr stamp))]
    simp [hasWord]
  · exact dataRecordRanges_inside_iff processor timeDelta padding extend stamp

theorem passRanges_inside_iff :
    AllInside (processor.passRanges types isSupported page endPosOfData) size ↔
      PassInside types isSupported page endPosOfData size processor := by
  rw [passRanges, allInside_append, readInfoRanges_inside_iff types.eventHeaderSize_pos, PassInside]
  by_cases known : processor.curPos + types.eventHeaderSize ≤ endPosOfData
  · rw [readInfo_of_le types.eventHeaderSize_pos known]
    simp only [known, true_imp_iff, entryRanges_inside_iff]
    constructor
    · rintro ⟨header, word, event⟩
      exact ⟨header, word, event⟩
    · rintro ⟨header, word, event⟩
      exact ⟨header, word, event⟩
  · rw [readInfo_of_lt (Nat.not_le.1 known)]
    simp [known]

end

theorem pageHeaderRanges_inside (page : List UInt8) (size commitSize : Nat) :
    AllInside (pageHeaderRanges page size commitSize) size := by
  have bounded (startPtr outSize : Nat) :
    AllInside (readInfoRanges startPtr size outSize) size := by
    unfold readInfoRanges
    split_ifs with beyond
    · exact allInside_nil
    · have fits : startPtr + outSize ≤ size := by
        by_contra short
        exact beyond (Or.inl (Nat.not_le.1 short))
      exact allInside_cons.2 ⟨ByteRange.inside_of_le fits, allInside_nil⟩
  rw [pageHeaderRanges, allInside_append]
  refine ⟨bounded 0 8, ?_⟩
  cases readInfo page 0 size 8 with
  | none => exact allInside_nil
  | some _ => exact bounded 8 commitSize

theorem passes_length_le (processor : FtraceProcessor) :
    (processor.passes types isSupported page endPosOfData).length ≤
      endPosOfData - processor.curPos := by
  fun_induction passes types isSupported page endPosOfData processor with
  | case1 processor inside ih =>
    rw [length_cons]
    have positive := types.eventHeaderSize_pos
    split
    · simp only [length_nil]
      omega
    · rename_i header _
      dsimp only
      split_ifs with handled
      · have behind := ih header
        have forward :=
          curPos_le_handleEntry types isSupported page endPosOfData
            (processor.afterHeader types header) (types.typeLen header)
            (types.timeDelta header)
        have moved : (processor.afterHeader types header).curPos =
          processor.curPos + types.eventHeaderSize := rfl
        dsimp only at behind
        omega
      · simp only [length_nil]
        omega
  | case2 processor outside => simp

end

/--
What the walk through a page reads and hands on is inside the page exactly when
each entry that it comes to is; and it comes to an end.
-/
theorem pageRanges_inside_iff (types : FtraceCommonType)
    (isSupported : UInt16 → Bool) (commitSize : Nat)
    (processor : FtraceProcessor) (page : List UInt8) (size : Nat) :
    ((processor.firstPass commitSize page size).passes types isSupported page
      (endOfData commitSize page size)).length ≤ endOfData commitSize page size ∧
      (AllInside (processor.pageRanges types isSupported commitSize page size) size ↔ ∀ pass ∈
        (processor.firstPass commitSize page size).passes types isSupported
          page (endOfData commitSize page size),
        PassInside types isSupported page (endOfData commitSize page size) size pass) := by
  constructor
  · exact (passes_length_le _).trans (Nat.sub_le _ _)
  · rw [pageRanges, allInside_append, allInside_flatMap]
    simp only [pageHeaderRanges_inside, true_and, passRanges_inside_iff]

/-! ## The ranges are all that counts -/

/-- The bytes of a range, as far as they are there. -/
def bytesAt (page : List UInt8) (range : ByteRange) : List UInt8 :=
  (page.drop range.start).take (range.stop - range.start)

def SameBytes (ranges : List ByteRange) (page other : List UInt8) : Prop :=
  ∀ range ∈ ranges, bytesAt other range = bytesAt page range

/-- The other result is the same, except that other records may be visited. -/
def Agrees (handled other : Bool × FtraceProcessor) : Prop :=
  ∃ visited, other = (handled.1, { handled.2 with visited })

section

variable {types : FtraceCommonType} {isSupported : UInt16 → Bool}
  {page other : List UInt8} {endPosOfData startPtr endPtr outSize : Nat}

theorem sameBytes_append {ranges others : List ByteRange} :
    SameBytes (ranges ++ others) page other ↔
      SameBytes ranges page other ∧ SameBytes others page other :=
  forall_mem_append

theorem readInfo_eq_none_iff :
    readInfo page startPtr endPtr outSize = none ↔ endPtr < startPtr + outSize ∨ outSize = 0 := by
  unfold readInfo
  split_ifs with beyond <;> simp [beyond]

theorem readInfo_congr (same : SameBytes (readInfoRanges startPtr endPtr outSize) page other) :
    readInfo other startPtr endPtr outSize = readInfo page startPtr endPtr outSize := by
  unfold readInfoRanges at same
  unfold readInfo
  split_ifs at same ⊢ with beyond
  · rfl
  · simpa [bytesAt] using same _ mem_cons_self

theorem readWord_congr (same : SameBytes (readInfoRanges startPtr endPtr 4) page other) :
    readWord other startPtr endPtr = readWord page startPtr endPtr := by
  rw [readWord, readInfo_congr same, readWord]

section

variable (processor : FtraceProcessor) (visited : List FtraceRecord)

theorem handleEvent_congr {eventSize : UInt32}
    (same : SameBytes (processor.eventRanges isSupported page eventSize) page other) :
    Agrees (processor.handleEvent isSupported page eventSize)
      ({ processor with visited }.handleEvent isSupported other eventSize) := by
  unfold eventRanges at same
  unfold handleEvent
  dsimp only at same ⊢
  cases read : readInfo page processor.curPos (processor.curPos + eventSize.toNat) 2 with
  | none =>
    rw [readInfo_eq_none_iff.2 (readInfo_eq_none_iff.1 read)]
    exact ⟨visited, rfl⟩
  | some id =>
    rw [read] at same
    rcases sameBytes_append.1 same with ⟨number, event⟩
    rw [readInfo_congr number, read]
    refine ⟨_, Prod.ext rfl (FtraceProcessor.ext rfl rfl rfl ?_)⟩
    dsimp only
    split_ifs at event ⊢ with supported
    · have data := event _ mem_cons_self
      rw [bytesAt, bytesAt, Nat.add_sub_cancel_left] at data
      rw [data]
    · rfl

theorem handleDataRecord_congr {typeLen : UInt32} (same : SameBytes
    (processor.dataRecordRanges types isSupported page endPosOfData typeLen) page other) :
    Agrees (processor.handleDataRecord types isSupported page endPosOfData typeLen)
      ({ processor with visited }.handleDataRecord types isSupported other endPosOfData typeLen) := by
  unfold dataRecordRanges at same
  unfold handleDataRecord
  split_ifs at same ⊢ with hasLength
  · exact handleEvent_congr processor visited same
  · rcases sameBytes_append.1 same with ⟨word, event⟩
    rw [readWord_congr word]
    cases read : readWord page processor.curPos endPosOfData with
    | none => exact ⟨visited, rfl⟩
    | some eventSize =>
      rw [read] at event
      dsimp only at event ⊢
      split_ifs at event ⊢ with short
      · exact ⟨visited, rfl⟩
      · exact handleEvent_congr { processor with curPos := processor.curPos + 4 } visited event

theorem handleEntry_congr {typeLen timeDelta : UInt32} (same : SameBytes
    (processor.entryRanges types isSupported page endPosOfData typeLen timeDelta) page other) :
    Agrees (processor.handleEntry types isSupported page endPosOfData typeLen timeDelta)
      ({ processor with visited }.handleEntry types isSupported other endPosOfData typeLen
        timeDelta) := by
  unfold entryRanges at same
  unfold handleEntry handlePaddingData handleTimeExtend handleTimeStamp
  split_ifs at same ⊢ with padding unread extend stamp
  · exact ⟨visited, rfl⟩
  · rw [readWord_congr same]
    cases readWord page processor.curPos endPosOfData <;> exact ⟨visited, rfl⟩
  · rw [readWord_congr same]
    cases readWord page processor.curPos endPosOfData <;> exact ⟨visited, rfl⟩
  · rw [readWord_congr same]
    cases readWord page processor.curPos endPosOfData <;> exact ⟨visited, rfl⟩
  · exact handleDataRecord_congr processor visited same

theorem handleEntries_congr (same : ∀ pass ∈ processor.passes types isSupported page endPosOfData,
    SameBytes (pass.passRanges types isSupported page endPosOfData) page other) :
    Agrees (processor.handleEntries types isSupported page endPosOfData)
      ({ processor with visited }.handleEntries types isSupported other endPosOfData) := by
  fun_induction passes types isSupported page endPosOfData processor generalizing visited with
  | case1 processor inside induction =>
    rw [forall_mem_cons, passRanges, sameBytes_append] at same
    rcases same with ⟨⟨ofHeader, ofEntry⟩, later⟩
    rw [handleEntries, handleEntries, if_pos inside, if_pos (show _ < _ from inside),
      readInfo_congr ofHeader]
    cases read : readInfo page processor.curPos endPosOfData types.eventHeaderSize with
    | none => exact ⟨visited, rfl⟩
    | some header =>
      rw [read] at ofEntry later
      rcases handleEntry_congr (processor.afterHeader types header) visited ofEntry with
        ⟨nextVisited, handled⟩
      have entry : ({ processor with visited }.afterHeader types header).handleEntry types
          isSupported other endPosOfData (types.typeLen header) (types.timeDelta header) = _ :=
        handled
      dsimp only at later ⊢
      rw [entry]
      dsimp only
      split_ifs at later ⊢ with goesOn
      · exact induction header nextVisited later
      · exact ⟨nextVisited, rfl⟩
  | case2 processor outside =>
    rw [handleEntries, handleEntries, if_neg outside, if_neg (show ¬ _ < _ from outside)]
    exact ⟨visited, rfl⟩

end

end

/-- `HandlePage` depends on the bytes in its ranges only: a page with the same bytes
there, however it goes on, gets the same answer, cursor, timestamp and events. -/
theorem handlePage_congr (types : FtraceCommonType) (isSupported : UInt16 → Bool)
    (commitSize : Nat) (processor : FtraceProcessor) {page other : List UInt8} (size : Nat)
    (same : SameBytes (processor.pageRanges types isSupported commitSize page size) page other) :
    Agrees (handlePage types isSupported commitSize processor page size)
      (handlePage types isSupported commitSize processor other size) := by
  rcases sameBytes_append.1 same with ⟨ofHeader, ofPasses⟩
  have header : handlePageHeader other size commitSize = handlePageHeader page size commitSize := by
    rcases sameBytes_append.1 ofHeader with ⟨timestamp, commit⟩
    rw [handlePageHeader, handlePageHeader, readInfo_congr timestamp]
    cases read : readInfo page 0 size 8 with
    | none => rfl
    | some _ =>
      rw [read] at commit
      rw [readInfo_congr commit]
  rw [handlePage, handlePage, header]
  exact handleEntries_congr _ _ fun pass isPass range isRange =>
    ofPasses range (List.mem_flatMap.2 ⟨pass, isPass, isRange⟩)

def truncatedPage : List UInt8 := [7, 0, 0, 0, 0, 0, 0, 0, 4, 0, 0, 0, 0, 0, 0, 0]

/-- The header of an entry is read behind the end of that page. -/
theorem truncatedPage_not_inside :
    ¬ AllInside (initial.pageRanges kernelTypes (fun _ => true) 8 truncatedPage 16) 16 := by
  intro inside
  have firstAt : (initial.firstPass 8 truncatedPage 16).curPos < endOfData 8 truncatedPage 16 := by
    decide
  have first : initial.firstPass 8 truncatedPage 16 ∈
    (initial.firstPass 8 truncatedPage 16).passes kernelTypes
      (fun _ => true) truncatedPage (endOfData 8 truncatedPage 16) := by
    rw [passes, if_pos firstAt]
    exact mem_cons_self
  have header : (⟨16, 20⟩ : ByteRange) ∈
    (initial.firstPass 8 truncatedPage 16).passRanges kernelTypes
      (fun _ => true) truncatedPage (endOfData 8 truncatedPage 16) :=
    mem_append_left _ (by decide)
  have read : (⟨16, 20⟩ : ByteRange).Inside 16 :=
    inside _ (mem_append_right _ (List.mem_flatMap.2 ⟨_, first, header⟩))
  exact absurd (read 16 (by decide) (by decide)) (by decide)

end FtraceProcessor

end SysAnalyzer.Parser
