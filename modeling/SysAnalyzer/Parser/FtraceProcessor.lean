import SysAnalyzer.Foundation.VarInt

/-!
# The pages of the ftrace ring buffer

`FtraceProcessor` walks through the entries of a page with one cursor, which the
model counts from the start of the page.  The structure of the header of an
entry and the constants of its types come from a header that is not part of the
sources, so they are parameters.  The formats of the events are parameters too:
the walk does not depend on them.
-/

namespace SysAnalyzer.Parser

open Foundation

/-- `FtraceEventHeader` and `BUFFER_TYPE_*`. -/
structure FtraceCommonType where
  eventHeaderSize : Nat
  typeLen : List UInt8 → UInt32
  timeDelta : List UInt8 → UInt32
  arrayElementSize : UInt32
  bufferTypePadding : UInt32
  bufferTypeTimeExtend : UInt32
  bufferTypeTimeStamp : UInt32
  eventHeaderSize_pos : 0 < eventHeaderSize

def tsExtShift : UInt64 := 27

def timestampIncrements (ext : UInt64) : UInt64 := ext <<< tsExtShift

/-- `RB_MISSED_FLAGS` is cut off; it is an unsigned int of 32 bits. -/
def pageDataMask : UInt64 := 0x3FFFFFFF

/-! ## The processor -/

structure FtraceRecord where
  timestamp : UInt64
  eventId : UInt16
  data : List UInt8
  deriving DecidableEq

/-- The cursor and the running timestamp, with what was visited. -/
@[ext]
structure FtraceProcessor where
  curPos : Nat
  curTimestamp : UInt64
  visited : List FtraceRecord
  appended : List FtraceRecord

namespace FtraceProcessor

/-- `ReadInfo`; `none` where it returns false. -/
def readInfo (page : List UInt8) (startPtr endPtr outSize : Nat) : Option (List UInt8) :=
  if endPtr < startPtr + outSize ∨ outSize = 0 then none
  else some ((page.drop startPtr).take outSize)

/-- A word of `ReadInfo`. -/
def readWord (page : List UInt8) (startPtr endPtr : Nat) : Option UInt32 :=
  (readInfo page startPtr endPtr 4).map fun word => UInt32.ofNat (littleEndian word)

section

variable (types : FtraceCommonType) (isSupported : UInt16 → Bool)
  (page : List UInt8) (endPosOfData : Nat)

def handlePaddingData (processor : FtraceProcessor) (timeDelta : UInt32) : Bool × FtraceProcessor :=
  if timeDelta = 0 then (false, processor)
  else
    match readWord page processor.curPos endPosOfData with
    | none => (false, processor)
    | some paddingLength =>
      (true, { processor with
        curPos := processor.curPos + 4 + paddingLength.toNat })

def handleTimeExtend (processor : FtraceProcessor) : Bool × FtraceProcessor :=
  match readWord page processor.curPos endPosOfData with
  | none => (false, processor)
  | some deltaExt =>
    (true, { processor with
      curPos := processor.curPos + 4
      curTimestamp :=
        processor.curTimestamp +
          timestampIncrements deltaExt.toUInt64 })

def handleTimeStamp (processor : FtraceProcessor) (timeDelta : UInt32) : Bool × FtraceProcessor :=
  match readWord page processor.curPos endPosOfData with
  | none => (false, processor)
  | some deltaExt =>
    (true, { processor with
      curPos := processor.curPos + 4
      curTimestamp := timeDelta.toUInt64 + timestampIncrements deltaExt.toUInt64 })

/-- `HandleDataRecord` from where it knows the size of the event. -/
def handleEvent (processor : FtraceProcessor) (eventSize : UInt32) : Bool × FtraceProcessor :=
  let eventStart := processor.curPos
  let eventEnd := processor.curPos + eventSize.toNat
  match readInfo page eventStart eventEnd 2 with
  | none => (false, processor)
  | some id =>
    let record : FtraceRecord :=
      { timestamp := processor.curTimestamp
        eventId := UInt16.ofNat (littleEndian id)
        data := (page.drop eventStart).take eventSize.toNat }
    (true, { processor with
      curPos := eventEnd
      visited := processor.visited ++ [record]
        -- only supported events are handed to the parser of the events
      appended :=
        if isSupported record.eventId then processor.appended ++ [record]
        else processor.appended })

def handleDataRecord (processor : FtraceProcessor) (typeLen : UInt32) : Bool × FtraceProcessor :=
  if typeLen ≠ 0 then processor.handleEvent isSupported page (types.arrayElementSize * typeLen)
  else
    match readWord page processor.curPos endPosOfData with
    | none => (false, processor)
    | some eventSize =>
      let behind := { processor with curPos := processor.curPos + 4 }
      if eventSize < 4 then (false, behind)
      else behind.handleEvent isSupported page (eventSize - 4)

/-- The cases of the loop of `HandlePage`. -/
def handleEntry (processor : FtraceProcessor) (typeLen timeDelta : UInt32) :
    Bool × FtraceProcessor :=
  if typeLen = types.bufferTypePadding then processor.handlePaddingData page endPosOfData timeDelta
  else if typeLen = types.bufferTypeTimeExtend then processor.handleTimeExtend page endPosOfData
  else if typeLen = types.bufferTypeTimeStamp then
    processor.handleTimeStamp page endPosOfData timeDelta
  else processor.handleDataRecord types isSupported page endPosOfData typeLen

/-- The loop of `HandlePage` behind the header of an entry. -/
def afterHeader (processor : FtraceProcessor) (header : List UInt8) : FtraceProcessor :=
  { processor with
    curPos := processor.curPos + types.eventHeaderSize
    curTimestamp := processor.curTimestamp + (types.timeDelta header).toUInt64 }

variable (processor : FtraceProcessor)

theorem curPos_le_handlePaddingData (timeDelta : UInt32) :
    processor.curPos ≤ (processor.handlePaddingData page endPosOfData timeDelta).2.curPos := by
  unfold handlePaddingData
  split
  · exact le_refl _
  · split
    · exact le_refl _
    · exact Nat.le_add_right_of_le (Nat.le_add_right _ _)

theorem curPos_le_handleTimeExtend :
    processor.curPos ≤ (processor.handleTimeExtend page endPosOfData).2.curPos := by
  unfold handleTimeExtend
  split
  · exact le_refl _
  · exact Nat.le_add_right _ _

theorem curPos_le_handleTimeStamp (timeDelta : UInt32) :
    processor.curPos ≤ (processor.handleTimeStamp page endPosOfData timeDelta).2.curPos := by
  unfold handleTimeStamp
  split
  · exact le_refl _
  · exact Nat.le_add_right _ _

theorem curPos_le_handleEvent (eventSize : UInt32) :
    processor.curPos ≤ (processor.handleEvent isSupported page eventSize).2.curPos := by
  unfold handleEvent
  dsimp only
  split
  · exact le_refl _
  · exact Nat.le_add_right _ _

theorem curPos_le_handleDataRecord (typeLen : UInt32) :
    processor.curPos ≤ (processor.handleDataRecord types isSupported page endPosOfData
      typeLen).2.curPos := by
  unfold handleDataRecord
  split
  · exact curPos_le_handleEvent _ _ _ _
  · split
    · exact le_refl _
    · dsimp only
      split
      · exact Nat.le_add_right _ _
      · have forward :=
          curPos_le_handleEvent isSupported page { processor with curPos := processor.curPos + 4 }
        exact (Nat.le_add_right _ 4).trans (forward _)

theorem curPos_le_handleEntry (typeLen timeDelta : UInt32) :
    processor.curPos ≤ (processor.handleEntry types isSupported page endPosOfData typeLen
      timeDelta).2.curPos := by
  unfold handleEntry
  split
  · exact curPos_le_handlePaddingData _ _ _ _
  · split
    · exact curPos_le_handleTimeExtend _ _ _
    · split
      · exact curPos_le_handleTimeStamp _ _ _ _
      · exact curPos_le_handleDataRecord _ _ _ _ _ _

/-- The loop of `HandlePage`. -/
def handleEntries (processor : FtraceProcessor) : Bool × FtraceProcessor :=
  if processor.curPos < endPosOfData then
    match readInfo page processor.curPos endPosOfData types.eventHeaderSize with
    | none => (false, processor)
    | some header =>
      let handled :=
        (processor.afterHeader types header).handleEntry types isSupported
          page endPosOfData (types.typeLen header) (types.timeDelta header)
      if handled.1 then handleEntries handled.2 else handled
  else (true, processor)
termination_by endPosOfData - processor.curPos
decreasing_by
  rename_i inside _
  have forward :=
    curPos_le_handleEntry types isSupported page endPosOfData
      (processor.afterHeader types header) (types.typeLen header)
      (types.timeDelta header)
  have positive := types.eventHeaderSize_pos
  have moved : (processor.afterHeader types header).curPos =
      processor.curPos + types.eventHeaderSize := rfl
  omega

end

/-- `HandlePageHeader`: the timestamp, where the data start and where they end. -/
def handlePageHeader (page : List UInt8) (size commitSize : Nat) : UInt64 × Nat × Nat :=
  match readInfo page 0 size 8 with
  | none => (0, 0, 0)
  | some timestamp =>
    match readInfo page 8 size commitSize with
    | none => (UInt64.ofNat (littleEndian timestamp), 8, 0)
    | some commit =>
      let curCommit := UInt64.ofNat (littleEndian commit)
      (UInt64.ofNat (littleEndian timestamp), 8 + commitSize,
        8 + commitSize + (curCommit &&& pageDataMask).toNat)

def handlePage (types : FtraceCommonType) (isSupported : UInt16 → Bool)
    (commitSize : Nat) (processor : FtraceProcessor) (page : List UInt8)
    (size : Nat) : Bool × FtraceProcessor :=
  let header := handlePageHeader page size commitSize
  handleEntries types isSupported page header.2.2
    { processor with curPos := header.2.1, curTimestamp := header.1 }

end FtraceProcessor

end SysAnalyzer.Parser
