import SysAnalyzer.Foundation.Words

/-!
# Splitting a perf file

`PerfDataParser` gets a perf file in calls of `SplitPerfData` and collects in
`splitResult_` what a part of the file is made of: its header, ranges of the
input and the section of the features.  What a call does not process is given
to the next call again.  The header and the features are pieces of memory that
are patched after they were put to the result, and so is the profiler header of
a file that is a section of a trace.

Sums of sizes are those of natural numbers.  Differences, which can be negative
in a broken file, and the offsets of ranges, which start from the 32 bits of
`perfDataOffset_`, are cut to 64 bits.
-/

namespace SysAnalyzer.Parser

open Foundation

/-! ## The formats -/

/-- `sizeof(perf_file_header)`. -/
def perfFileHeaderSize : Nat := 104

/-- `PERF_MAGIC`: the text PERFILE2. -/
def perfMagic : List UInt8 := [80, 69, 82, 70, 73, 76, 69, 50]

namespace PerfFileHeader

def attrSize (header : List UInt8) : Nat := word header 16

/-- `attrs.offset`. -/
def attrsOffset (header : List UInt8) : Nat := word header 24

/-- `attrs.size`. -/
def attrsSize (header : List UInt8) : Nat := word header 32

/-- `data.offset`. -/
def dataOffset (header : List UInt8) : Nat := word header 40

/-- `data.size`. -/
def dataSize (header : List UInt8) : Nat := word header 48

/-- `data.size` is patched. -/
def setDataSize (header : List UInt8) (size : Nat) : List UInt8 := setWord header 48 size

def features (header : List UInt8) : List UInt8 := (header.drop 72).take 32

end PerfFileHeader

/-- `data.length` of a `ProfilerTraceFileHeader` gets smaller. -/
def shortenProfilerHeader (header : List UInt8) (size : Nat) : List UInt8 :=
  setWord header 8 (subWord (word header 8) size)

def bitCount (bytes : List UInt8) : Nat :=
  (bytes.map fun byte => (List.range 8).countP fun index => byte.toNat.testBit index).sum

/-- `sizeof(perf_event_header)`. -/
def perfEventHeaderSize : Nat := 8

/-- `type` of `perf_event_header`. -/
def perfEventType (header : List UInt8) : Nat := littleEndian (header.take 4)

/-- `size` of `perf_event_header`. -/
def perfEventSize (header : List UInt8) : Nat := littleEndian ((header.drop 6).take 2)

def perfRecordSample : Nat := 9

/-- `sizeof(perf_file_section)`. -/
def perfFileSectionSize : Nat := 16

/-- `sizeof(perf_file_attr)`: the 112 bytes of a `perf_event_attr` of the patched
header, and the section of its ids. -/
def perfFileAttrSize : Nat := 128

/-- `sample_type` of the first attribute of an attribute section. -/
def perfSampleType (attrs : List UInt8) : Nat := word attrs 24

/-- `PERF_SAMPLE_TIME` is in a sample type. -/
def hasSampleTime (sampleType : Nat) : Bool := sampleType.testBit 2

/--
`sampleTimeOffset_`: the words of `PERF_SAMPLE_IDENTIFIER`, `PERF_SAMPLE_IP` and
`PERF_SAMPLE_TID` are in front of the time.
-/
def sampleTimeOffsetOf (sampleType : Nat) : Nat :=
  ((sampleType.testBit 16).toNat + (sampleType.testBit 0).toNat + (sampleType.testBit 1).toNat) * 8

/--
The time of a sample, read from a copy of the record without its header, which
is as long as the record.
-/
def sampleTime (sampleTimeOffset : Nat) (record : List UInt8) : Nat :=
  word (record.drop perfEventHeaderSize ++ List.replicate perfEventHeaderSize 0) sampleTimeOffset

/-! ## The parser -/

inductive SplitPerfState where
  | starting
  | parsingHead
  | waitForAttr
  | parsingAttr
  | waitForData
  | parsingData
  | parsingFeatureSection
  | waitForFinish
  deriving DecidableEq

/-- `HtraceSplitResult`: memory of the parser, or a range of the input. -/
inductive SplitPiece where
  | profilerHeader
  | perfHeader
  | featureSection
  | json (offset size : Nat)

/-- `SplitFileMinTime` and `SplitFileMaxTime`. -/
structure SplitWindow where
  minTime : Nat
  maxTime : Nat

/--
The fields of `PerfDataParser` that splitting reads.  There is a
`profilerHeader` when `hasProfilerHead_` is set.
-/
structure PerfDataParser where
  profilerHeader : Option (List UInt8)
  perfHeader : List UInt8
  featureCount : Nat
  sampleTimeOffset : Nat
  processedLength : Nat
  splitDataEnd : Bool
  perfSplitError : Bool
  perfDataOffset : Int
  featureSection : List UInt8
  splitState : SplitPerfState
  splitDataSize : Nat
  splitResult : List SplitPiece

/-- What a function of a state returns; `invalid` is an error of the file. -/
inductive SplitStep where
  | again (parser : PerfDataParser) (processedLen : Nat)
  | wait (parser : PerfDataParser) (processedLen : Nat)
  | invalid (parser : PerfDataParser)

namespace PerfDataParser

/-- A fresh parser, to which `RecordPerfProfilerHeader` may have given a header. -/
def initial (profilerHeader : Option (List UInt8)) : PerfDataParser where
  profilerHeader := profilerHeader
  perfHeader := []
  featureCount := 0
  sampleTimeOffset := 0
  processedLength := 0
  splitDataEnd := false
  perfSplitError := false
  perfDataOffset := 0
  featureSection := []
  splitState := .starting
  splitDataSize := 0
  splitResult := []

/-- `SplitDataWithdraw`, after an error. -/
def withdraw (parser : PerfDataParser) : PerfDataParser :=
  { parser with
    processedLength := 0
    splitDataEnd := false
    perfSplitError := true
    perfDataOffset := 0
    featureSection := []
    splitState := .starting
    splitDataSize := 0
    splitResult := [] }

def inputOffset (parser : PerfDataParser) (place : Nat) : Nat :=
  ((parser.perfDataOffset + place) % 2 ^ 64).toNat

/-- A range of the input is put behind the pieces. -/
def addJson (parser : PerfDataParser) (offset size : Nat) : PerfDataParser :=
  { parser with
    splitResult := parser.splitResult ++ [.json offset size] }

/-- A range of the input is put behind the pieces or to the last range. -/
def extendJson (parser : PerfDataParser) (offset size : Nat) : PerfDataParser :=
  match parser.splitResult.getLast? with
  | some (.json lastOffset lastSize) =>
    if (lastOffset + lastSize) % 2 ^ 64 = offset then
      { parser with
        splitResult :=
          parser.splitResult.dropLast ++
            [.json lastOffset (lastSize + size)] }
    else parser.addJson offset size
  | _ => parser.addJson offset size

def splitPerfStarting (parser : PerfDataParser) (processedLen : Nat) : SplitStep :=
  .again { parser with
    splitState := .parsingHead
    splitResult :=
      if parser.profilerHeader.isSome then parser.splitResult ++ [.profilerHeader]
      else parser.splitResult }
    processedLen

def splitPerfParsingHead (parser : PerfDataParser) (buffer : List UInt8) : SplitStep :=
  if buffer.length < perfFileHeaderSize then .wait parser 0
  else
    let header := buffer.take perfFileHeaderSize
    if header.take perfMagic.length ≠ perfMagic then .invalid { parser with perfHeader := header }
    else
      .again { parser with
        perfHeader := header
        featureCount := bitCount (PerfFileHeader.features header)
        splitState := .waitForAttr
        splitResult := parser.splitResult ++ [.perfHeader] }
        perfFileHeaderSize

def splitPerfWaitForAttr (parser : PerfDataParser) (buffer : List UInt8)
    (processedLen : Nat) : SplitStep :=
  let offset := PerfFileHeader.attrsOffset parser.perfHeader
  if offset < parser.processedLength + processedLen then .invalid parser
  else if parser.processedLength + buffer.length < offset then .wait parser buffer.length
  else
    .again { parser with splitState := .parsingAttr }
      (processedLen + (offset - (parser.processedLength + processedLen)))

/-- `SplitPerfParsingAttr`; `attrCount` is an `int`. -/
def splitPerfParsingAttr (parser : PerfDataParser) (buffer : List UInt8)
    (processedLen : Nat) : SplitStep :=
  let size := PerfFileHeader.attrsSize parser.perfHeader
  let attrCount := size / PerfFileHeader.attrSize parser.perfHeader % 2 ^ 32
  if attrCount = 0 then .invalid parser
  else if buffer.length - processedLen < size then .wait parser processedLen
  else
    let sampleType := perfSampleType ((buffer.drop processedLen).take size)
    if hasSampleTime sampleType then
      .again { parser with
        sampleTimeOffset := sampleTimeOffsetOf sampleType
        splitState := .waitForData }
        (processedLen + size)
    else .invalid parser

def splitPerfWaitForData (parser : PerfDataParser) (buffer : List UInt8)
    (processedLen : Nat) : SplitStep :=
  let offset := PerfFileHeader.dataOffset parser.perfHeader
  if offset < parser.processedLength + processedLen then .invalid parser
  else if parser.processedLength + buffer.length < offset then .wait parser buffer.length
  else
    .again { parser.addJson (parser.inputOffset perfFileHeaderSize)
      (offset - perfFileHeaderSize) with
      splitState := .parsingData }
      (processedLen + (offset - (parser.processedLength + processedLen)))

/-- Whether a record is kept, with `splitDataEnd_` behind it. -/
def needRecord (window : SplitWindow) (sampleTimeOffset : Nat)
    (splitDataEnd : Bool) (record : List UInt8) : Bool × Bool :=
  if splitDataEnd then (false, true)
  else if perfEventType record = perfRecordSample then
    let time := sampleTime sampleTimeOffset record
    if time < window.minTime then (false, false)
    else if window.maxTime < time then (false, true)
    else (true, false)
  else (true, false)

def splitPerfParsingData (parser : PerfDataParser) (window : SplitWindow)
    (buffer : List UInt8) (processedLen : Nat) : SplitStep :=
  let totalDataRemain :=
    subWord (PerfFileHeader.dataOffset parser.perfHeader +
      PerfFileHeader.dataSize parser.perfHeader)
      (parser.processedLength + processedLen)
  if totalDataRemain < perfEventHeaderSize then
    .again { parser with
      splitDataSize := parser.splitDataSize + totalDataRemain
      splitState := .parsingFeatureSection }
      (processedLen + totalDataRemain)
  else if buffer.length - processedLen < perfEventHeaderSize then .wait parser processedLen
  else
    let size := perfEventSize (buffer.drop processedLen)
    if size < perfEventHeaderSize then .invalid parser
    else if buffer.length - processedLen < size then .wait parser processedLen
    else
      let record := (buffer.drop processedLen).take size
      let needed := needRecord window parser.sampleTimeOffset parser.splitDataEnd record
      let parser := { parser with splitDataEnd := needed.2 }
      if needed.1 then
        .again { parser.extendJson
          (parser.inputOffset (parser.processedLength + processedLen))
          size with
          splitDataSize := parser.splitDataSize + size }
          (processedLen + size)
      else .again parser (processedLen + size)

/-- The offsets of the features are moved to the front. -/
def patchSections : (count : Nat) → (drop : Nat) → List UInt8 → List UInt8
  | 0, _, bytes => bytes
  | count + 1, drop, bytes =>
    setWord (bytes.take perfFileSectionSize) 0 (subWord (word bytes 0) drop) ++
      patchSections count drop (bytes.drop perfFileSectionSize)

def splitPerfParsingFeatureSection (parser : PerfDataParser)
    (buffer : List UInt8) (processedLen : Nat) : SplitStep :=
  let featureSectioSize := parser.featureCount * perfFileSectionSize
  if featureSectioSize = 0 then .wait { parser with splitState := .waitForFinish } processedLen
  else if buffer.length - processedLen < featureSectioSize then .wait parser processedLen
  else
    let splitDropSize := subWord (PerfFileHeader.dataSize parser.perfHeader) parser.splitDataSize
    .again { parser with
      profilerHeader :=
        parser.profilerHeader.map fun header => shortenProfilerHeader header splitDropSize
      perfHeader := PerfFileHeader.setDataSize parser.perfHeader parser.splitDataSize
      featureSection :=
        patchSections parser.featureCount splitDropSize
          ((buffer.drop processedLen).take featureSectioSize)
      splitState := .waitForFinish
      splitResult := parser.splitResult ++ [.featureSection] }
      (processedLen + featureSectioSize)

def splitFunc (parser : PerfDataParser) (window : SplitWindow)
    (buffer : List UInt8) (processedLen : Nat) : SplitStep :=
  match parser.splitState with
  | .starting => parser.splitPerfStarting processedLen
  | .parsingHead => parser.splitPerfParsingHead buffer
  | .waitForAttr => parser.splitPerfWaitForAttr buffer processedLen
  | .parsingAttr => parser.splitPerfParsingAttr buffer processedLen
  | .waitForData => parser.splitPerfWaitForData buffer processedLen
  | .parsingData => parser.splitPerfParsingData window buffer processedLen
  | .parsingFeatureSection => parser.splitPerfParsingFeatureSection buffer processedLen
  | .waitForFinish => .wait parser processedLen

/--
The loop of `SplitPerfData`, with what the call has processed.  Every turn but
the last goes on to the next state or behind a record, so `fuel` is enough when
it is more than the bytes and the states.
-/
def splitLoop (window : SplitWindow) (buffer : List UInt8) (isFinish : Bool) :
    (fuel : Nat) → PerfDataParser → (processedLen : Nat) → PerfDataParser × Nat
  | 0, parser, processedLen => (parser, processedLen)
  | fuel + 1, parser, processedLen =>
    if isFinish ∧ parser.splitState = .waitForFinish then
      ({ parser.addJson
        (parser.inputOffset (parser.processedLength + processedLen))
        (buffer.length - processedLen) with
        processedLength := parser.processedLength + buffer.length },
        buffer.length)
    else
      match parser.splitFunc window buffer processedLen with
      | .again parser processedLen => splitLoop window buffer isFinish fuel parser processedLen
      | .invalid parser => (parser.withdraw, buffer.length)
      | .wait parser processedLen =>
        if isFinish then (parser.withdraw, buffer.length)
        else
          ({ parser with
            processedLength := parser.processedLength + processedLen },
            processedLen)

/-- An offset as `perfDataOffset_`, which is an `int32_t`, stores it. -/
def storedOffset (offset : Nat) : Int := Int.bmod offset (2 ^ 32)

/-- `SplitPerfData`, with the length it returns. -/
def splitPerfData (parser : PerfDataParser) (window : SplitWindow)
    (buffer : List UInt8) (offset : Nat) (isFinish : Bool) : PerfDataParser × Nat :=
  let parser :=
    if parser.processedLength = 0 then
      { parser with
        perfDataOffset := storedOffset offset
        perfSplitError := false }
    else parser
  if parser.perfSplitError then (parser, buffer.length)
  else splitLoop window buffer isFinish (buffer.length + 9) parser 0

/--
The calls for a file that comes in chunks: what a call has not processed comes
again with the next chunk, and the last call has `isFinish` set.
-/
def splitChunks (window : SplitWindow) (offset : Nat) :
    PerfDataParser → (rest : List UInt8) → List (List UInt8) → PerfDataParser
  | parser, _, [] => parser
  | parser, rest, [chunk] => (parser.splitPerfData window (rest ++ chunk) offset true).1
  | parser, rest, chunk :: next :: chunks =>
    let split := parser.splitPerfData window (rest ++ chunk) offset false
    splitChunks window offset split.1 ((rest ++ chunk).drop split.2) (next :: chunks)

def pieceBytes (parser : PerfDataParser) (input : List UInt8) : SplitPiece → List UInt8
  | .profilerHeader => parser.profilerHeader.getD []
  | .perfHeader => parser.perfHeader
  | .featureSection => parser.featureSection
  | .json offset size => (input.drop offset).take size

/-- The concatenation of the pieces. -/
def output (parser : PerfDataParser) (input : List UInt8) : List UInt8 :=
  parser.splitResult.flatMap (parser.pieceBytes input)

end PerfDataParser

end SysAnalyzer.Parser
