import SysAnalyzer.Parser.FtraceProcessor

/-!
# Pages as the kernel writes them

A page is a header and entries of five kinds.  The length word of a padding
entry counts itself, but `HandlePaddingData` skips as many bytes as it says
behind it, so the cursor is only right again if the padding is the last entry.
-/

namespace SysAnalyzer.Parser

open Foundation List

/-! ## Entries -/

/-- What the walk relies on of the types of entries. -/
structure FtraceCommonType.IsRingBuffer (types : FtraceCommonType) :
    Prop where
  arrayElementSize : types.arrayElementSize = 4
  padding : 28 < types.bufferTypePadding
  timeExtend : 28 < types.bufferTypeTimeExtend
  timeStamp : 28 < types.bufferTypeTimeStamp
  timeExtend_ne_padding : types.bufferTypeTimeExtend ≠ types.bufferTypePadding
  timeStamp_ne_padding : types.bufferTypeTimeStamp ≠ types.bufferTypePadding
  timeStamp_ne_timeExtend : types.bufferTypeTimeStamp ≠ types.bufferTypeTimeExtend

inductive RingBufferEntry where
  | shortRecord (header payload : List UInt8)
  | longRecord (header lengthWord payload : List UInt8)
  | timeExtend (header extension : List UInt8)
  | timeStamp (header extension : List UInt8)
  | padding (header lengthWord filler : List UInt8)

namespace RingBufferEntry

def header : RingBufferEntry → List UInt8
  | shortRecord header _ => header
  | longRecord header _ _ => header
  | timeExtend header _ => header
  | timeStamp header _ => header
  | padding header _ _ => header

/-- The bytes behind the header. -/
def body : RingBufferEntry → List UInt8
  | shortRecord _ payload => payload
  | longRecord _ lengthWord payload => lengthWord ++ payload
  | timeExtend _ extension => extension
  | timeStamp _ extension => extension
  | padding _ lengthWord filler => lengthWord ++ filler

def bytes (entry : RingBufferEntry) : List UInt8 := entry.header ++ entry.body

/-- The layout of the kernel. -/
def WellFormed (types : FtraceCommonType) (entry : RingBufferEntry) : Prop :=
  entry.header.length = types.eventHeaderSize ∧ match entry with
    | shortRecord header payload =>
      0 < types.typeLen header ∧ types.typeLen header ≤ 28 ∧
        payload.length = 4 * (types.typeLen header).toNat
    | longRecord header lengthWord payload =>
      types.typeLen header = 0 ∧ lengthWord.length = 4 ∧
        littleEndian lengthWord = 4 + payload.length
    | timeExtend header extension =>
      types.typeLen header = types.bufferTypeTimeExtend ∧ extension.length = 4
    | timeStamp header extension =>
      types.typeLen header = types.bufferTypeTimeStamp ∧ extension.length = 4
    | padding header lengthWord filler =>
      types.typeLen header = types.bufferTypePadding ∧
        types.timeDelta header ≠ 0 ∧ lengthWord.length = 4 ∧
          littleEndian lengthWord = 4 + filler.length

def IsPadding : RingBufferEntry → Prop
  | padding _ _ _ => True
  | _ => False

instance : DecidablePred IsPadding
  | padding _ _ _ => isTrue trivial
  | shortRecord _ _ | longRecord _ _ _ | timeExtend _ _ | timeStamp _ _ => isFalse not_false

def HasEventId : RingBufferEntry → Prop
  | longRecord _ _ payload => 2 ≤ payload.length
  | _ => True

def increments (extension : List UInt8) : UInt64 :=
  timestampIncrements (UInt32.ofNat (littleEndian extension)).toUInt64

variable (types : FtraceCommonType)

def timestamp (before : UInt64) (entry : RingBufferEntry) : UInt64 :=
  let delta := (types.timeDelta entry.header).toUInt64
  match entry with
  | timeExtend _ extension => before + delta + increments extension
  | timeStamp _ extension => delta + increments extension
  | _ => before + delta

def record (timestamp : UInt64) : RingBufferEntry → List FtraceRecord
  | shortRecord _ payload => [⟨timestamp, UInt16.ofNat (littleEndian (payload.take 2)), payload⟩]
  | longRecord _ _ payload => [⟨timestamp, UInt16.ofNat (littleEndian (payload.take 2)), payload⟩]
  | _ => []

def records : UInt64 → List RingBufferEntry → List FtraceRecord
  | _, [] => []
  | before, entry :: entries =>
    entry.record (entry.timestamp types before) ++ records (entry.timestamp types before) entries

def allBytes (entries : List RingBufferEntry) : List UInt8 := entries.flatMap bytes

end RingBufferEntry

namespace FtraceProcessor

open RingBufferEntry

/-! ## The walk -/

theorem readInfo_of_drop {page bytes behind : List UInt8} {position endPos size : Nat}
    (here : page.drop position = bytes ++ behind)
    (length : bytes.length = size) (positive : 0 < size) (inside : position + size ≤ endPos) :
    readInfo page position endPos size = some bytes := by
  rw [readInfo, if_neg (by omega), here, take_left' length]

theorem readWord_of_drop {page word behind : List UInt8} {position endPos : Nat}
    (here : page.drop position = word ++ behind) (length : word.length = 4)
    (inside : position + 4 ≤ endPos) :
    readWord page position endPos = some (UInt32.ofNat (littleEndian word)) := by
  rw [readWord, readInfo_of_drop here length (by decide) inside, Option.map_some]

section

variable {types : FtraceCommonType} {isSupported : UInt16 → Bool}
  {page : List UInt8} {endPosOfData : Nat}

variable {processor : FtraceProcessor} {behind : List UInt8}

theorem handleEvent_eq {payload : List UInt8} {eventSize : UInt32}
    (here : page.drop processor.curPos = payload ++ behind)
    (length : payload.length = eventSize.toNat) (hasId : 2 ≤ payload.length) :
    processor.handleEvent isSupported page eventSize = (true,
      let record : FtraceRecord :=
        ⟨processor.curTimestamp, UInt16.ofNat (littleEndian (payload.take 2)), payload⟩
      { processor with
        curPos := processor.curPos + payload.length
        visited := processor.visited ++ [record]
        appended :=
          processor.appended ++
            [record].filter fun record => isSupported record.eventId }) := by
  have id : readInfo page processor.curPos (processor.curPos + eventSize.toNat) 2 =
    some (payload.take 2) := by
    rw [readInfo, if_neg (by omega), here, take_append_of_le_length hasId]
  have data : (page.drop processor.curPos).take eventSize.toNat = payload := by
    rw [here, take_left' length]
  rw [handleEvent]
  simp only [id, data, length, filter_cons, filter_nil]
  split <;> simp

/-- The state behind an entry; the cursor is too far behind padding. -/
def passed (types : FtraceCommonType) (isSupported : UInt16 → Bool)
    (processor : FtraceProcessor) (entry : RingBufferEntry) : FtraceProcessor :=
  let timestamp := entry.timestamp types processor.curTimestamp
  { curPos :=
      processor.curPos + entry.bytes.length +
        if entry.IsPadding then 4 else 0
    curTimestamp := timestamp
    visited := processor.visited ++ entry.record timestamp
    appended :=
      processor.appended ++
        (entry.record timestamp).filter fun record => isSupported record.eventId }

variable {entry : RingBufferEntry}

theorem curPos_passed (headerLength : entry.header.length = types.eventHeaderSize) :
    (processor.passed types isSupported entry).curPos =
      processor.curPos + types.eventHeaderSize + entry.body.length +
        if entry.IsPadding then 4 else 0 := by
  show processor.curPos + entry.bytes.length + _ = _
  rw [RingBufferEntry.bytes, length_append, headerLength, ← add_assoc processor.curPos]

section

variable (isRingBuffer : types.IsRingBuffer)
include isRingBuffer

theorem handleEntry_record (processor : FtraceProcessor)
    {typeLen : UInt32} (small : typeLen ≤ 28) (timeDelta : UInt32) :
    processor.handleEntry types isSupported page endPosOfData typeLen timeDelta =
      processor.handleDataRecord types isSupported page endPosOfData typeLen := by
  have below {type : UInt32} (large : 28 < type) : typeLen ≠ type := by
    rintro rfl
    exact absurd small (UInt32.not_le.2 large)
  rw [handleEntry, if_neg (below isRingBuffer.padding), if_neg (below isRingBuffer.timeExtend),
    if_neg (below isRingBuffer.timeStamp)]

theorem handleEntry_shortRecord {header payload : List UInt8}
    (wellFormed : (shortRecord header payload).WellFormed types) (here :
      page.drop (processor.curPos + types.eventHeaderSize) = payload ++ behind) :
    (processor.afterHeader types header).handleEntry types isSupported page
      endPosOfData (types.typeLen header) (types.timeDelta header) =
      (true, processor.passed types isSupported (shortRecord header payload)) := by
  rcases wellFormed with ⟨headerLength, positive, small, length⟩
  have bounded := small
  rw [UInt32.lt_iff_toNat_lt] at positive
  rw [UInt32.le_iff_toNat_le] at bounded
  have positive : 0 < (types.typeLen header).toNat := positive
  have bounded : (types.typeLen header).toNat ≤ 28 := bounded
  have size : payload.length = (types.arrayElementSize * types.typeLen header).toNat := by
    rw [isRingBuffer.arrayElementSize, UInt32.toNat_mul, length]
    exact (Nat.mod_eq_of_lt (by show 4 * _ < _; omega)).symm
  have isRecord : types.typeLen header ≠ 0 := by
    intro zero
    rw [zero] at positive
    exact lt_irrefl 0 positive
  rw [handleEntry_record isRingBuffer _ small, handleDataRecord,
    if_pos isRecord, handleEvent_eq here size (by omega)]
  refine Prod.ext rfl (FtraceProcessor.ext ?_ rfl rfl rfl)
  exact (curPos_passed headerLength).symm

theorem handleEntry_longRecord {header lengthWord payload : List UInt8}
    (wellFormed : (longRecord header lengthWord payload).WellFormed types)
    (hasId : 2 ≤ payload.length) (here : page.drop (processor.curPos + types.eventHeaderSize) =
      lengthWord ++ (payload ++ behind)) (inside :
      processor.curPos + types.eventHeaderSize + 4 ≤ endPosOfData) :
    (processor.afterHeader types header).handleEntry types isSupported page
      endPosOfData (types.typeLen header) (types.timeDelta header) =
      (true, processor.passed types isSupported (longRecord header lengthWord payload)) := by
  rcases wellFormed with ⟨headerLength, isLong, wordLength, length⟩
  have word : readWord page (processor.afterHeader types header).curPos endPosOfData =
    some (UInt32.ofNat (littleEndian lengthWord)) :=
    readWord_of_drop here wordLength inside
  have small := littleEndian_lt lengthWord
  rw [wordLength, length] at small
  have counted : (UInt32.ofNat (littleEndian lengthWord)).toNat = 4 + payload.length := by
    rw [UInt32.toNat_ofNat', length]
    exact Nat.mod_eq_of_lt small
  have atLeast : (4 : UInt32) ≤ UInt32.ofNat (littleEndian lengthWord) := by
    rw [UInt32.le_iff_toNat_le, counted]
    exact Nat.le_add_right _ _
  have size : payload.length = (UInt32.ofNat (littleEndian lengthWord) - 4).toNat := by
    rw [UInt32.toNat_sub_of_le _ _ atLeast, counted]
    exact (Nat.add_sub_cancel_left 4 _).symm
  have behindWord : page.drop
    ({ processor.afterHeader types header with
      curPos :=
        (processor.afterHeader types header).curPos +
          4 } : FtraceProcessor).curPos =
      payload ++ behind := by
    show page.drop (processor.curPos + types.eventHeaderSize + 4) = _
    rw [← drop_drop, here, drop_left' wordLength]
  have notShort : types.typeLen header ≤ 28 := by
    rw [isLong]
    decide
  rw [handleEntry_record isRingBuffer _ notShort, handleDataRecord, if_neg (not_not.2 isLong), word]
  dsimp only
  rw [if_neg (UInt32.not_lt.2 atLeast), handleEvent_eq behindWord size hasId]
  refine Prod.ext rfl (FtraceProcessor.ext ?_ rfl rfl rfl)
  rw [curPos_passed headerLength, RingBufferEntry.body, length_append, wordLength, ← add_assoc]
  rfl

theorem handleEntry_timeExtend {header extension : List UInt8}
    (wellFormed : (timeExtend header extension).WellFormed types) (here :
      page.drop (processor.curPos + types.eventHeaderSize) = extension ++ behind) (inside :
      processor.curPos + types.eventHeaderSize + 4 ≤ endPosOfData) :
    (processor.afterHeader types header).handleEntry types isSupported page
      endPosOfData (types.typeLen header) (types.timeDelta header) =
      (true, processor.passed types isSupported (timeExtend header extension)) := by
  rcases wellFormed with ⟨headerLength, isExtend, wordLength⟩
  have word : readWord page (processor.afterHeader types header).curPos endPosOfData =
    some (UInt32.ofNat (littleEndian extension)) :=
    readWord_of_drop here wordLength inside
  rw [handleEntry, isExtend, if_neg isRingBuffer.timeExtend_ne_padding,
    if_pos rfl, handleTimeExtend, word]
  refine Prod.ext rfl (FtraceProcessor.ext ?_ rfl (append_nil _).symm (append_nil _).symm)
  rw [curPos_passed headerLength, RingBufferEntry.body, wordLength]
  rfl

theorem handleEntry_timeStamp {header extension : List UInt8}
    (wellFormed : (timeStamp header extension).WellFormed types) (here :
      page.drop (processor.curPos + types.eventHeaderSize) = extension ++ behind) (inside :
      processor.curPos + types.eventHeaderSize + 4 ≤ endPosOfData) :
    (processor.afterHeader types header).handleEntry types isSupported page
      endPosOfData (types.typeLen header) (types.timeDelta header) =
      (true, processor.passed types isSupported (timeStamp header extension)) := by
  rcases wellFormed with ⟨headerLength, isStamp, wordLength⟩
  have word : readWord page (processor.afterHeader types header).curPos endPosOfData =
    some (UInt32.ofNat (littleEndian extension)) :=
    readWord_of_drop here wordLength inside
  rw [handleEntry, isStamp, if_neg isRingBuffer.timeStamp_ne_padding,
    if_neg isRingBuffer.timeStamp_ne_timeExtend, if_pos rfl, handleTimeStamp,
    word]
  refine Prod.ext rfl (FtraceProcessor.ext ?_ rfl (append_nil _).symm (append_nil _).symm)
  rw [curPos_passed headerLength, RingBufferEntry.body, wordLength]
  rfl

end

theorem handleEntry_padding {header lengthWord filler : List UInt8}
    (wellFormed : (padding header lengthWord filler).WellFormed types) (here :
      page.drop (processor.curPos + types.eventHeaderSize) = lengthWord ++ behind) (inside :
      processor.curPos + types.eventHeaderSize + 4 ≤ endPosOfData) :
    (processor.afterHeader types header).handleEntry types isSupported page
      endPosOfData (types.typeLen header) (types.timeDelta header) =
      (true, processor.passed types isSupported (padding header lengthWord filler)) := by
  rcases wellFormed with ⟨headerLength, isPadding, delta, wordLength, length⟩
  have word : readWord page (processor.afterHeader types header).curPos endPosOfData =
    some (UInt32.ofNat (littleEndian lengthWord)) :=
    readWord_of_drop here wordLength inside
  have small := littleEndian_lt lengthWord
  rw [wordLength, length] at small
  have skip : (UInt32.ofNat (littleEndian lengthWord)).toNat = 4 + filler.length := by
    rw [UInt32.toNat_ofNat', length]
    exact Nat.mod_eq_of_lt small
  rw [handleEntry, if_pos isPadding, handlePaddingData, if_neg delta, word]
  refine Prod.ext rfl (FtraceProcessor.ext ?_ rfl (append_nil _).symm (append_nil _).symm)
  rw [curPos_passed headerLength, RingBufferEntry.body, length_append, wordLength]
  have isPaddingEntry : (padding header lengthWord filler).IsPadding := trivial
  show processor.curPos + types.eventHeaderSize + 4 + UInt32.toNat _ = _
  rw [skip, if_pos isPaddingEntry]
  omega

theorem handleEntry_eq (isRingBuffer : types.IsRingBuffer) (wellFormed : entry.WellFormed types)
    (hasId : entry.HasEventId) (here : page.drop (processor.curPos + types.eventHeaderSize) =
      entry.body ++ behind) (inside :
      processor.curPos + types.eventHeaderSize + entry.body.length ≤ endPosOfData) :
    (processor.afterHeader types entry.header).handleEntry types isSupported
      page endPosOfData (types.typeLen entry.header) (types.timeDelta entry.header) =
      (true, processor.passed types isSupported entry) := by
  cases entry with
  | shortRecord header payload => exact handleEntry_shortRecord isRingBuffer wellFormed here
  | longRecord header lengthWord payload =>
    rw [RingBufferEntry.body, append_assoc] at here
    rw [RingBufferEntry.body, length_append, wellFormed.2.2.1] at inside
    exact handleEntry_longRecord isRingBuffer wellFormed hasId here (by omega)
  | timeExtend header extension =>
    rw [RingBufferEntry.body, wellFormed.2.2] at inside
    exact handleEntry_timeExtend isRingBuffer wellFormed here inside
  | timeStamp header extension =>
    rw [RingBufferEntry.body, wellFormed.2.2] at inside
    exact handleEntry_timeStamp isRingBuffer wellFormed here inside
  | padding header lengthWord filler =>
    rw [RingBufferEntry.body, append_assoc] at here
    rw [RingBufferEntry.body, length_append, wellFormed.2.2.2.1] at inside
    exact handleEntry_padding wellFormed here (by omega)

theorem handleEntries_end (beyond : endPosOfData ≤ processor.curPos) :
    processor.handleEntries types isSupported page endPosOfData = (true, processor) := by
  rw [handleEntries, if_neg (not_lt.2 beyond)]

theorem handleEntries_turn {header : List UInt8}
    (inside : processor.curPos < endPosOfData) (isHeader :
      readInfo page processor.curPos endPosOfData types.eventHeaderSize = some header) :
    processor.handleEntries types isSupported page endPosOfData =
      let handled :=
        (processor.afterHeader types header).handleEntry types isSupported
          page endPosOfData (types.typeLen header) (types.timeDelta header)
      if handled.1 then handled.2.handleEntries types isSupported page endPosOfData
      else handled := by
  rw [handleEntries, if_pos inside, isHeader]

theorem handleEntries_step (isRingBuffer : types.IsRingBuffer) (wellFormed : entry.WellFormed types)
    (hasId : entry.HasEventId) (here : page.drop processor.curPos = entry.bytes ++ behind)
    (inside : processor.curPos + entry.bytes.length ≤ endPosOfData) :
    processor.handleEntries types isSupported page endPosOfData =
      (processor.passed types isSupported entry).handleEntries types
        isSupported page endPosOfData := by
  have headerLength := wellFormed.1
  have positive := types.eventHeaderSize_pos
  rw [RingBufferEntry.bytes, append_assoc] at here
  rw [RingBufferEntry.bytes, length_append, headerLength] at inside
  have header : readInfo page processor.curPos endPosOfData types.eventHeaderSize =
    some entry.header :=
    readInfo_of_drop here headerLength positive (by omega)
  have body : page.drop (processor.curPos + types.eventHeaderSize) = entry.body ++ behind := by
    rw [← drop_drop, here, drop_left' headerLength]
  have handled : (processor.afterHeader types entry.header).handleEntry types
    isSupported page endPosOfData (types.typeLen entry.header)
    (types.timeDelta entry.header) = (true, processor.passed types isSupported entry) :=
    handleEntry_eq isRingBuffer wellFormed hasId body (by omega)
  rw [handleEntries_turn (by omega) header]
  dsimp only
  rw [handled]
  rfl

/-- The loop visits the records of a page, and hands on the supported ones. -/
theorem handleEntries_eq (isRingBuffer : types.IsRingBuffer) {entries : List RingBufferEntry}
    (wellFormed : ∀ entry ∈ entries, entry.WellFormed types)
    (hasIds : ∀ entry ∈ entries, entry.HasEventId)
    (paddingLast : ∀ entry ∈ entries.dropLast, ¬ entry.IsPadding)
    (here : page.drop processor.curPos = allBytes entries ++ behind)
    (atEnd : processor.curPos + (allBytes entries).length = endPosOfData) :
    ∃ final, processor.handleEntries types isSupported page endPosOfData = (true, final) ∧
      final.visited = processor.visited ++ records types processor.curTimestamp entries ∧
        final.appended = processor.appended ++
          (records types processor.curTimestamp entries).filter
            fun record => isSupported record.eventId := by
  induction entries generalizing processor with
  | nil =>
    refine ⟨processor, ?_, (append_nil _).symm, (append_nil _).symm⟩
    exact handleEntries_end atEnd.ge
  | cons entry entries induction =>
    have split : allBytes (entry :: entries) = entry.bytes ++ allBytes entries := rfl
    rw [split, append_assoc] at here
    rw [split, length_append] at atEnd
    have first := wellFormed entry mem_cons_self
    have firstId := hasIds entry mem_cons_self
    have step : processor.handleEntries types isSupported page endPosOfData =
      (processor.passed types isSupported entry).handleEntries types
        isSupported page endPosOfData :=
      handleEntries_step isRingBuffer first firstId here (by omega)
    rw [step]
    by_cases isPadding : entry.IsPadding
    · -- padding is the last entry, and the cursor is behind the data
      cases entries with
      | cons second rest => exact absurd isPadding (paddingLast entry mem_cons_self)
      | nil =>
        have beyond : (processor.passed types isSupported entry).curPos =
          processor.curPos + entry.bytes.length + 4 := by
          rw [passed]
          exact congrArg (_ + ·) (if_pos isPadding)
        have nothing : (allBytes ([] : List RingBufferEntry)).length = 0 := rfl
        refine ⟨processor.passed types isSupported entry, ?_, ?_, ?_⟩
        · exact handleEntries_end (by omega)
        · rw [records, records, append_nil]
          rfl
        · rw [records, records, append_nil]
          rfl
    · have next : (processor.passed types isSupported entry).curPos =
        processor.curPos + entry.bytes.length := by
        rw [passed]
        exact congrArg (_ + ·) (if_neg isPadding)
      have later : ∀ other ∈ entries.dropLast, ¬ other.IsPadding := by
        intro other member
        refine paddingLast other ?_
        cases entries with
        | nil => cases member
        | cons second rest => exact mem_cons_of_mem _ member
      rcases induction (fun other member =>
        wellFormed other (mem_cons_of_mem _ member))
        (fun other member => hasIds other (mem_cons_of_mem _ member))
        later
        (by rw [next, ← drop_drop, here, drop_left])
        (by rw [next, add_assoc, atEnd]) with
        ⟨final, handled, visited, appended⟩
      refine ⟨final, handled, ?_, ?_⟩
      · rw [visited, records, ← append_assoc]
        rfl
      · rw [appended, records, filter_append, ← append_assoc]
        rfl

end

structure RingBufferPage (types : FtraceCommonType) where
  timestampBytes : List UInt8
  commitBytes : List UInt8
  entries : List RingBufferEntry
  filler : List UInt8
  timestampLength : timestampBytes.length = 8
  commitLength : commitBytes.length = 4 ∨ commitBytes.length = 8
  wellFormed : ∀ entry ∈ entries, entry.WellFormed types
  commit : (UInt64.ofNat (littleEndian commitBytes) &&& pageDataMask).toNat =
    (allBytes entries).length

def RingBufferPage.bytes {types : FtraceCommonType} (page : RingBufferPage types) : List UInt8 :=
  page.timestampBytes ++ (page.commitBytes ++ (allBytes page.entries ++ page.filler))

def RingBufferPage.timestamp {types : FtraceCommonType} (page : RingBufferPage types) : UInt64 :=
  UInt64.ofNat (littleEndian page.timestampBytes)

/-- The page is decoded: its records are visited, with their timestamps. -/
def Decoded (types : FtraceCommonType) (isSupported : UInt16 → Bool)
    (processor : FtraceProcessor) (page : RingBufferPage types) : Prop :=
  ∃ final, handlePage types isSupported page.commitBytes.length processor page.bytes
    page.bytes.length =
    (true, final) ∧
    final.visited = processor.visited ++ records types page.timestamp page.entries ∧
      final.appended = processor.appended ++
        (records types page.timestamp page.entries).filter fun record =>
          isSupported record.eventId

/--
A page is decoded if padding is only its last entry and its long records have
event ids.
-/
theorem decoded_of_paddingLast (types : FtraceCommonType) (isRingBuffer : types.IsRingBuffer)
    (isSupported : UInt16 → Bool) (processor : FtraceProcessor) (page : RingBufferPage types)
    (paddingLast : ∀ entry ∈ page.entries.dropLast, ¬ entry.IsPadding)
    (hasIds : ∀ entry ∈ page.entries, entry.HasEventId) :
    Decoded types isSupported processor page := by
  have timestamp : readInfo page.bytes 0 page.bytes.length 8 = some page.timestampBytes := by
    refine readInfo_of_drop drop_zero page.timestampLength (by decide) ?_
    rw [RingBufferPage.bytes, length_append, page.timestampLength]
    omega
  have behindTimestamp : page.bytes.drop 8 =
    page.commitBytes ++ (allBytes page.entries ++ page.filler) :=
    drop_left' page.timestampLength
  have positive : 0 < page.commitBytes.length := by
    rcases page.commitLength with four | eight <;> omega
  have commit : readInfo page.bytes 8 page.bytes.length page.commitBytes.length =
    some page.commitBytes := by
    refine readInfo_of_drop behindTimestamp rfl positive ?_
    rw [RingBufferPage.bytes, length_append, length_append, page.timestampLength]
    omega
  have header : handlePageHeader page.bytes page.bytes.length page.commitBytes.length =
    (page.timestamp, 8 + page.commitBytes.length,
      8 + page.commitBytes.length + (allBytes page.entries).length) := by
    rw [handlePageHeader, timestamp]
    dsimp only
    rw [commit]
    dsimp only
    rw [page.commit]
    rfl
  have data : page.bytes.drop (8 + page.commitBytes.length) =
    allBytes page.entries ++ page.filler := by
    rw [← drop_drop, behindTimestamp, drop_left]
  rw [Decoded, handlePage, header]
  exact handleEntries_eq isRingBuffer page.wellFormed hasIds paddingLast data rfl

def kernelTypes : FtraceCommonType where
  eventHeaderSize := 4
  typeLen header := UInt32.ofNat (littleEndian header) &&& 31
  timeDelta header := UInt32.ofNat (littleEndian header) >>> 5
  arrayElementSize := 4
  bufferTypePadding := 29
  bufferTypeTimeExtend := 30
  bufferTypeTimeStamp := 31
  eventHeaderSize_pos := by decide

theorem kernelTypes_isRingBuffer : kernelTypes.IsRingBuffer := by constructor <;> decide

def initial : FtraceProcessor where
  curPos := 0
  curTimestamp := 0
  visited := []
  appended := []

def oneRecord : RingBufferEntry := shortRecord [2, 0, 0, 0] [1, 0, 0, 0, 0, 0, 0, 0]

def onePadding : RingBufferEntry := padding [61, 0, 0, 0] [8, 0, 0, 0] [0, 0, 0, 0]

theorem oneRecord_wellFormed : oneRecord.WellFormed kernelTypes :=
  ⟨rfl, by decide, by decide, by decide⟩

theorem onePadding_wellFormed : onePadding.WellFormed kernelTypes :=
  ⟨rfl, by decide, by decide, rfl, by decide⟩

def endsWithPadding : RingBufferPage kernelTypes where
  timestampBytes := [7, 0, 0, 0, 0, 0, 0, 0]
  commitBytes := [24, 0, 0, 0, 0, 0, 0, 0]
  entries := [oneRecord, onePadding]
  filler := []
  timestampLength := rfl
  commitLength := .inr rfl
  wellFormed := by simp [oneRecord_wellFormed, onePadding_wellFormed]
  commit := by decide

theorem decoded_endsWithPadding : Decoded kernelTypes (fun _ => true) initial endsWithPadding :=
  decoded_of_paddingLast kernelTypes kernelTypes_isRingBuffer _ initial
    endsWithPadding (by decide) (by
      intro entry member
      simp only [endsWithPadding, mem_cons, not_mem_nil, or_false] at member
      rcases member with rfl | rfl <;> trivial)

def startsWithPadding : RingBufferPage kernelTypes where
  timestampBytes := [7, 0, 0, 0, 0, 0, 0, 0]
  commitBytes := [24, 0, 0, 0, 0, 0, 0, 0]
  entries := [onePadding, oneRecord]
  filler := []
  timestampLength := rfl
  commitLength := .inr rfl
  wellFormed := by simp [oneRecord_wellFormed, onePadding_wellFormed]
  commit := by decide

def behindPadding : FtraceProcessor where
  curPos := 32
  curTimestamp := 8
  visited := []
  appended := []

/-- The event id of a record is read as the header of an entry. -/
theorem not_decoded_startsWithPadding :
    ¬ Decoded kernelTypes (fun _ => true) initial startsWithPadding := by
  have behindHeader : startsWithPadding.bytes.drop
    ({ initial with curPos := 16, curTimestamp := 7 } : FtraceProcessor).curPos =
      onePadding.bytes ++ oneRecord.bytes :=
    rfl
  have first : handleEntries kernelTypes (fun _ => true) startsWithPadding.bytes 40
    { initial with curPos := 16, curTimestamp := 7 } =
      handleEntries kernelTypes (fun _ => true) startsWithPadding.bytes 40 behindPadding :=
    handleEntries_step kernelTypes_isRingBuffer onePadding_wellFormed trivial
      behindHeader (by decide)
  have header : readInfo startsWithPadding.bytes behindPadding.curPos 40
    kernelTypes.eventHeaderSize = some [1, 0, 0, 0] :=
    rfl
  have inside : behindPadding.curPos < 40 := by decide
  have second : handleEntries kernelTypes (fun _ => true) startsWithPadding.bytes 40 behindPadding =
    handleEntries kernelTypes (fun _ => true) startsWithPadding.bytes 40
      { curPos := 40
        curTimestamp := 8
        visited := [⟨8, 0, [0, 0, 0, 0]⟩]
        appended := [⟨8, 0, [0, 0, 0, 0]⟩] } :=
    handleEntries_turn inside header
  have walk : handlePage kernelTypes (fun _ => true) 8 initial startsWithPadding.bytes
    startsWithPadding.bytes.length =
      handleEntries kernelTypes (fun _ => true) startsWithPadding.bytes 40
        { initial with curPos := 16, curTimestamp := 7 } :=
    rfl
  rintro ⟨final, handled, visited, _⟩
  rw [show startsWithPadding.commitBytes.length = 8 from rfl, walk, first,
    second, handleEntries_end (le_refl 40)] at handled
  cases handled
  revert visited
  decide

end FtraceProcessor

end SysAnalyzer.Parser
