import SysAnalyzer.Foundation.Run
import SysAnalyzer.Foundation.VarInt

/-!
# The framing of raw traces

`RawTraceParser` gets a file in chunks and hands the contents of its segments to
their handlers.  A read of bytes that are not in `packagesBuffer_` has no
result.  The handlers are parameters: what they return may depend on the
segments before.
-/

namespace SysAnalyzer.Parser

open Foundation List

/-- The size of `RawTraceFileHeader`, with its padding. -/
def rawTraceFileHeaderSize : Nat := 12

/-- `reserved` of `RawTraceFileHeader`. -/
def rawTraceReserved (header : List UInt8) : UInt32 :=
  UInt32.ofNat (littleEndian ((header.drop 8).take 4))

namespace RawTraceContentType

/-- `CONTENT_TYPE_EVENTS_FORMAT`. -/
def eventsFormat : UInt8 := 1

/-- `CONTENT_TYPE_CMDLINES`. -/
def cmdlines : UInt8 := 2

/-- `CONTENT_TYPE_TGIDS`. -/
def tgids : UInt8 := 3

/-- `CONTENT_TYPE_CPU_RAW`. -/
def cpuRaw : UInt8 := 4

/-- `CONTENT_TYPE_HEADER_PAGE`. -/
def headerPage : UInt8 := 30

/-- `CONTENT_TYPE_PRINTK_FORMATS`. -/
def printkFormats : UInt8 := 31

/-- `CONTENT_TYPE_KALLSYMS`. -/
def kallsyms : UInt8 := 32

end RawTraceContentType

/-- `cpuRawMax_` as the header gives it. -/
def rawTraceCpuRawMax (header : List UInt8) : UInt8 :=
  let cpuNum := ((rawTraceReserved header >>> 1) &&& 0x0F).toUInt8
  cpuNum + RawTraceContentType.cpuRaw

/-- A segment as it is taken from the buffer. -/
structure Dispatched where
  type : UInt32
  content : List UInt8
  deriving DecidableEq

/-- The handlers of segments, with what was dispatched before. -/
structure RawTraceHandlers where
  parseCpuRawData : (past : List Dispatched) → (cpuId : UInt8) → (content : List UInt8) → Bool
  handleCmdlines : (past : List Dispatched) → (content : List UInt8) → Bool
  handleTgids : (past : List Dispatched) → (content : List UInt8) → Bool
  initEventFormats : (past : List Dispatched) → (content : List UInt8) → Bool
  handleHeaderPageFormat : (past : List Dispatched) → (content : List UInt8) → Bool
  handlePrintkSyms : (past : List Dispatched) → (content : List UInt8) → Bool
  handleKallSyms : (past : List Dispatched) → (content : List UInt8) → Bool

/-- The handler of a segment; it is false where the call ends behind it. -/
def RawTraceHandlers.dispatch (handlers : RawTraceHandlers) (cpuRawMax : UInt8)
    (past : List Dispatched) (segment : Dispatched) : Bool :=
  let curType := segment.type.toUInt8
  if RawTraceContentType.cpuRaw ≤ curType ∧ curType ≤ cpuRawMax then
    handlers.parseCpuRawData past (curType - RawTraceContentType.cpuRaw) segment.content
  else if curType = RawTraceContentType.cmdlines then handlers.handleCmdlines past segment.content
  else if curType = RawTraceContentType.tgids then handlers.handleTgids past segment.content
  else if curType = RawTraceContentType.eventsFormat then
    handlers.initEventFormats past segment.content
  else if curType = RawTraceContentType.headerPage then
    handlers.handleHeaderPageFormat past segment.content
  else if curType = RawTraceContentType.printkFormats then
    handlers.handlePrintkSyms past segment.content
  else if curType = RawTraceContentType.kallsyms then handlers.handleKallSyms past segment.content
  else false

/-- The state of the framing, with the segments that were dispatched. -/
structure RawTraceParser where
  packagesBuffer : List UInt8
  hasGotHeader : Bool
  cpuRawMax : UInt8
  dispatched : List Dispatched

namespace RawTraceParser

def initial : RawTraceParser where
  packagesBuffer := []
  hasGotHeader := false
  cpuRawMax := 0
  dispatched := []

/-- `InitRawTraceFileHeader`; `none` where it returns false. -/
def initRawTraceFileHeader (parser : RawTraceParser) : Option RawTraceParser :=
  if parser.packagesBuffer.length < rawTraceFileHeaderSize then none
  else
    some { parser with
      packagesBuffer := parser.packagesBuffer.drop rawTraceFileHeaderSize
      hasGotHeader := true
      cpuRawMax := rawTraceCpuRawMax parser.packagesBuffer }

variable (handlers : RawTraceHandlers)

/-- The size of `type`, and of `len`. -/
def wordSize : Nat := 4

/-- The loop of `ParseDataRecursively`; it only ends by returning false. -/
def parseSegments (parser : RawTraceParser) : Option RawTraceParser :=
  -- both words are read before any length is checked
  if parser.packagesBuffer.length < 2 * wordSize then none
  else
    let type := UInt32.ofNat (littleEndian (parser.packagesBuffer.take wordSize))
    let len := UInt32.ofNat (littleEndian ((parser.packagesBuffer.drop wordSize).take wordSize))
    let rest := parser.packagesBuffer.drop (2 * wordSize)
    let restDataLen := UInt32.ofNat rest.length
    if len ≤ restDataLen then
      let segment : Dispatched := ⟨type, rest.take len.toNat⟩
      let next :=
        { parser with
          packagesBuffer := rest.drop len.toNat
          dispatched := parser.dispatched ++ [segment] }
      if handlers.dispatch parser.cpuRawMax parser.dispatched segment then parseSegments next
      else some next
    else some parser
termination_by parser.packagesBuffer.length
decreasing_by
  rename_i enough _ _
  show ((parser.packagesBuffer.drop (2 * wordSize)).drop _).length < _
  rw [length_drop, length_drop]
  unfold wordSize at enough ⊢
  omega

def parseDataRecursively (parser : RawTraceParser) : Option RawTraceParser :=
  if parser.hasGotHeader then parser.parseSegments handlers
  else
    match parser.initRawTraceFileHeader with
    | none => some parser
    | some inited => inited.parseSegments handlers

def parseTraceDataSegment (parser : RawTraceParser)
    (bufferStr : List UInt8) : Option RawTraceParser :=
  parseDataRecursively handlers { parser with packagesBuffer := parser.packagesBuffer ++ bufferStr }

end RawTraceParser

end SysAnalyzer.Parser
