import SysAnalyzer.Foundation.VarInt
import SysAnalyzer.Foundation.BlockReader

/-!
# The framing of htrace files

`HtraceParser` gets a file in segments, keeps what it has not consumed in
`packagesBuffer_`, and hands the items of the profiler sections, and the bodies
of the perf and ebpf sections, to their parsers.  The iterator together with
`currentLength` is the list of the bytes from the iterator on.  The model is
that of the native build outside split mode.
-/

namespace SysAnalyzer.Parser

open Foundation List

def packetHeaderLength : Nat := 1024

def packetSegLength : Nat := 4

namespace ProfilerTraceFileHeader

def headerMagic : UInt64 := 0x464F5250534F484F

def hiperfData : UInt32 := 1

def standaloneData : UInt32 := 1000

def unknowType : UInt32 := 1024

def field (header : List UInt8) (offset width : Nat) : List UInt8 := (header.drop offset).take width

def magic (header : List UInt8) : UInt64 := UInt64.ofNat (littleEndian (field header 0 8))

def length (header : List UInt8) : UInt64 := UInt64.ofNat (littleEndian (field header 8 8))

def dataType (header : List UInt8) : UInt32 := UInt32.ofNat (littleEndian (field header 56 4))

/-- `standalonePluginName`, up to its end. -/
def standalonePluginName (header : List UInt8) : List UInt8 :=
  (field header 108 128).takeWhile fun byte => byte ≠ 0

end ProfilerTraceFileHeader

/-- `EBPF_PLUGIN_NAME`: the text hiebpf-plugin. -/
def ebpfPluginName : List UInt8 := [104, 105, 101, 98, 112, 102, 45, 112, 108, 117, 103, 105, 110]

/-! ## The parser -/

inductive Handed where
  | traceDataItem (buffer : List UInt8)
  | perfData (buffer : List UInt8)
  | ebpfData (buffer : List UInt8)

/-- The state of the framing, with what was handed to the parsers. -/
structure HtraceParser where
  packagesBuffer : List UInt8
  hasGotHeader : Bool
  hasGotSegLength : Bool
  nextLength : UInt32
  profilerDataType : UInt32
  profilerDataLength : UInt64
  htraceCurentLength : UInt64
  standalonePluginName : List UInt8
  handed : List Handed

namespace HtraceParser

def initial : HtraceParser where
  packagesBuffer := []
  hasGotHeader := false
  hasGotSegLength := false
  nextLength := 0
  profilerDataType := ProfilerTraceFileHeader.unknowType
  profilerDataLength := 0
  htraceCurentLength := 0
  standalonePluginName := []
  handed := []

/-- `InitProfilerTraceFileHeader`; `none` where it returns false. -/
def initProfilerTraceFileHeader (parser : HtraceParser) : Option HtraceParser :=
  if parser.packagesBuffer.length < packetHeaderLength then none
  else
    let header := parser.packagesBuffer.take packetHeaderLength
    if ProfilerTraceFileHeader.length header ≤ UInt64.ofNat packetHeaderLength ∨
      ProfilerTraceFileHeader.magic header ≠ ProfilerTraceFileHeader.headerMagic then
      none
    else
      some { parser with
        profilerDataLength := ProfilerTraceFileHeader.length header
        profilerDataType := ProfilerTraceFileHeader.dataType header
        standalonePluginName := ProfilerTraceFileHeader.standalonePluginName header }

def bodyLength (parser : HtraceParser) : UInt64 :=
  parser.profilerDataLength - UInt64.ofNat packetHeaderLength

/-- What `ParseDataRecursively` does with the header of a section. -/
def gotHeader (parser : HtraceParser) : HtraceParser :=
  { parser with
    packagesBuffer := parser.packagesBuffer.drop packetHeaderLength
    htraceCurentLength := parser.bodyLength
    hasGotHeader := true }

def endSection (parser : HtraceParser) : HtraceParser :=
  { parser with
    profilerDataType := ProfilerTraceFileHeader.unknowType
    hasGotHeader := false }

def parseHiperfData (parser : HtraceParser) (packagesBegin : List UInt8) :
    Bool × HtraceParser × List UInt8 :=
  if parser.bodyLength.toNat ≤ parser.packagesBuffer.length then
    let size := parser.bodyLength.toNat
    (true, { parser.endSection with
      handed :=
        parser.handed ++ [.perfData (parser.packagesBuffer.take size)] },
      packagesBegin.drop size)
  else (false, parser, packagesBegin)

def calcEbpfCutOffset (parser : HtraceParser) (packagesBegin : List UInt8) :
    HtraceParser × List UInt8 :=
  if parser.standalonePluginName = ebpfPluginName ∧
    parser.bodyLength.toNat ≤ parser.packagesBuffer.length then
    let size := parser.bodyLength.toNat
    ({ parser.endSection with
      handed :=
        parser.handed ++ [.ebpfData (parser.packagesBuffer.take size)] },
      packagesBegin.drop size)
  else (parser, packagesBegin)

/-- What the loop does when it reads the length of an item. -/
def gotSegLength (parser : HtraceParser) (packagesBegin : List UInt8) : HtraceParser :=
  { parser with
    nextLength := UInt32.ofNat (littleEndian (packagesBegin.take packetSegLength))
    hasGotSegLength := true
    htraceCurentLength := parser.htraceCurentLength - UInt64.ofNat packetSegLength }

def gotItem (parser : HtraceParser) (packagesBegin : List UInt8) : HtraceParser :=
  { parser with
    handed :=
      parser.handed ++
        [.traceDataItem (packagesBegin.take parser.nextLength.toNat)]
    hasGotSegLength := false
    htraceCurentLength := parser.htraceCurentLength - parser.nextLength.toUInt64 }

theorem hasGotSegLength_of_init {parser inited : HtraceParser}
    (isInited : parser.initProfilerTraceFileHeader = some inited) :
    inited.hasGotSegLength = parser.hasGotSegLength := by
  unfold initProfilerTraceFileHeader at isInited
  dsimp only at isInited
  split at isInited
  · cases isInited
  · split at isInited
    · cases isInited
    · cases isInited
      rfl

-- each turn of the loop consumes bytes, or at least an item of no bytes
mutual

/-- `ParseDataRecursively`, with the header of a section. -/
def parseDataRecursively (parser : HtraceParser)
    (packagesBegin : List UInt8) : Bool × HtraceParser × List UInt8 :=
  if parser.hasGotHeader then parser.parseBody packagesBegin
  else
    match _inited : parser.initProfilerTraceFileHeader with
    | none => (false, parser, packagesBegin)
    | some inited =>
      let behind := packagesBegin.drop packetHeaderLength
      if behind.length = 0 then (false, inited.gotHeader, behind)
      else inited.gotHeader.parseBody behind
termination_by
  4 * (2 * packagesBegin.length + parser.hasGotSegLength.toNat) + 3
decreasing_by
  · omega
  · show 4 * (2 * (packagesBegin.drop packetHeaderLength).length +
      inited.hasGotSegLength.toNat) + 2 < _
    rw [hasGotSegLength_of_init _inited, length_drop]
    omega

/-- `ParseDataRecursively`, from the type of the section on. -/
def parseBody (parser : HtraceParser) (packagesBegin : List UInt8) :
    Bool × HtraceParser × List UInt8 :=
  if parser.profilerDataType = ProfilerTraceFileHeader.hiperfData then
    parser.parseHiperfData packagesBegin
  else if parser.profilerDataType = ProfilerTraceFileHeader.standaloneData then
    let cut := parser.calcEbpfCutOffset packagesBegin
    (false, cut.1, cut.2)
  else parser.parseItems packagesBegin
termination_by
  4 * (2 * packagesBegin.length + parser.hasGotSegLength.toNat) + 2

/-- The loop of `ParseDataRecursively`. -/
def parseItems (parser : HtraceParser) (packagesBegin : List UInt8) :
    Bool × HtraceParser × List UInt8 :=
  if parser.hasGotSegLength then parser.parseItem packagesBegin
  else if packagesBegin.length < packetSegLength then (true, parser, packagesBegin)
  else (parser.gotSegLength packagesBegin).parseItem (packagesBegin.drop packetSegLength)
termination_by
  4 * (2 * packagesBegin.length + parser.hasGotSegLength.toNat) + 1
decreasing_by
  · simp_all
  · rename_i enough
    rw [length_drop]
    unfold packetSegLength at enough ⊢
    omega

/-- The loop of `ParseDataRecursively`, when the length of an item is known. -/
def parseItem (parser : HtraceParser) (packagesBegin : List UInt8) :
    Bool × HtraceParser × List UInt8 :=
  if packagesBegin.length < parser.nextLength.toNat then (true, parser, packagesBegin)
  else
    let got := parser.gotItem packagesBegin
    let behind := packagesBegin.drop parser.nextLength.toNat
    if got.htraceCurentLength = 0 then
      parseDataRecursively { got.endSection with packagesBuffer := behind } behind
    else got.parseItems behind
termination_by 4 * (2 * packagesBegin.length + 1)
decreasing_by
  all_goals
    show 4 * (2 * (packagesBegin.drop parser.nextLength.toNat).length + 0) + _
      < _
    rw [length_drop]
    omega

end

def parseTraceDataSegment (parser : HtraceParser) (bufferStr : List UInt8) : HtraceParser :=
  let packagesBuffer := parser.packagesBuffer ++ bufferStr
  let parsed := parseDataRecursively { parser with packagesBuffer } packagesBuffer
  if parsed.1 then { parsed.2.1 with packagesBuffer := parsed.2.2 }
  else parsed.2.1

end HtraceParser

end SysAnalyzer.Parser
