import SysAnalyzer.Parser.PerfSplitCases

/-!
# The steps of a split

`Stage` says for each state of the parser what it has read and put to the
result up to its place in the file.  The function of every state goes from one
stage to the next or waits for bytes that are still to come, so a file that is
presented in any chunks is split the same way.
-/

namespace SysAnalyzer.Parser

open Foundation List

namespace PerfDataParser

def headPieces (profilerHeader : Option (List UInt8)) : List SplitPiece :=
  (if profilerHeader.isSome then [.profilerHeader] else []) ++ [.perfHeader]

/-- The parser has not read a record. -/
structure Unread (profilerHeader : Option (List UInt8))
    (parser : PerfDataParser) : Prop where
  profiler : parser.profilerHeader = profilerHeader
  size : parser.splitDataSize = 0
  dataEnd : parser.splitDataEnd = false

/-- The parser has read the records in front of `records` and kept `kept`. -/
structure Reading (file : PerfFile) (window : SplitWindow)
    (profilerHeader : Option (List UInt8)) (offset : Nat)
    (parser : PerfDataParser) (kept records : List (List UInt8)) :
    Prop where
  head : HeadRead file parser
  profiler : parser.profilerHeader = profilerHeader
  time : parser.sampleTimeOffset = sampleTimeOffsetOf file.sampleType
  keeps : kept ++ keptRecords window parser.sampleTimeOffset parser.splitDataEnd
    records =
    keptOf file window
  size : parser.splitDataSize = kept.flatten.length
  result : ∃ ranges, parser.splitResult = headPieces profilerHeader ++ jsonPieces ranges ∧
    Ranges file offset ranges kept.flatten

/-- The parser has read the entries of the features. -/
structure Patched (file : PerfFile) (window : SplitWindow)
    (profilerHeader : Option (List UInt8)) (offset : Nat)
    (parser : PerfDataParser) (behind : List SplitPiece) : Prop where
  profiler : parser.profilerHeader = profilerHeader.map fun header =>
    shortenProfilerHeader header (file.records.flatten.length -
      (keptOf file window).flatten.length)
  header : parser.perfHeader = (file.withRecords (keptOf file window)).header
  sections : parser.featureSection = (file.withRecords (keptOf file window)).sections
  result : ∃ ranges, parser.splitResult =
    headPieces profilerHeader ++ jsonPieces ranges ++ ([.featureSection] ++ behind) ∧
    Ranges file offset ranges (keptOf file window).flatten

/-- What the parser has read up to a place of the file. -/
inductive Stage (file : PerfFile) (window : SplitWindow)
    (profilerHeader : Option (List UInt8)) (offset : Nat) :
    PerfDataParser → (place : Nat) → Prop where
  | starting
    {parser : PerfDataParser}
    (state : parser.splitState = .starting)
    (unread : Unread profilerHeader parser)
    (result : parser.splitResult = []) :
    Stage file window profilerHeader offset parser 0
  | parsingHead
    {parser : PerfDataParser}
    (state : parser.splitState = .parsingHead)
    (unread : Unread profilerHeader parser)
    (result : parser.splitResult ++ [.perfHeader] = headPieces profilerHeader) :
    Stage file window profilerHeader offset parser 0
  | waitForAttr
    {parser : PerfDataParser} {place : Nat}
    (state : parser.splitState = .waitForAttr)
    (unread : Unread profilerHeader parser)
    (head : HeadRead file parser)
    (result : parser.splitResult = headPieces profilerHeader)
    (inFront : place ≤ PerfFileHeader.attrsOffset file.header) :
    Stage file window profilerHeader offset parser place
  | parsingAttr
    {parser : PerfDataParser}
    (state : parser.splitState = .parsingAttr)
    (unread : Unread profilerHeader parser)
    (head : HeadRead file parser)
    (result : parser.splitResult = headPieces profilerHeader) :
    Stage file window profilerHeader offset parser (PerfFileHeader.attrsOffset file.header)
  | waitForData
    {parser : PerfDataParser} {place : Nat}
    (state : parser.splitState = .waitForData)
    (unread : Unread profilerHeader parser)
    (head : HeadRead file parser)
    (time : parser.sampleTimeOffset = sampleTimeOffsetOf file.sampleType)
    (result : parser.splitResult = headPieces profilerHeader)
    (inFront : place ≤ PerfFileHeader.dataOffset file.header) :
    Stage file window profilerHeader offset parser place
  | parsingData
    {parser : PerfDataParser} (done kept records : List (List UInt8))
    (state : parser.splitState = .parsingData)
    (split : file.records = done ++ records)
    (reading : Reading file window profilerHeader offset parser kept records) :
    Stage file window profilerHeader offset parser
      (PerfFileHeader.dataOffset file.header + done.flatten.length)
  | parsingFeatureSection
    {parser : PerfDataParser}
    (state : parser.splitState = .parsingFeatureSection)
    (reading : Reading file window profilerHeader offset parser (keptOf file window) []) :
    Stage file window profilerHeader offset parser file.dataEnd
  | waitForFinish
    {parser : PerfDataParser}
    (state : parser.splitState = .waitForFinish)
    (patched : Patched file window profilerHeader offset parser []) :
    Stage file window profilerHeader offset parser (file.dataEnd + file.sections.length)

def SplitPerfState.left : SplitPerfState → Nat
  | .starting => 7
  | .parsingHead => 6
  | .waitForAttr => 5
  | .parsingAttr => 4
  | .waitForData => 3
  | .parsingData => 2
  | .parsingFeatureSection => 1
  | .waitForFinish => 0

/-- A step goes to the next stage or waits for what is still to come. -/
def StepOk (file : PerfFile) (window : SplitWindow)
    (profilerHeader : Option (List UInt8)) (offset : Nat)
    (parser : PerfDataParser) (buffer remaining : List UInt8)
    (processedLen : Nat) : SplitStep → Prop
  | .again next processed =>
    Stage file window profilerHeader offset next
      (parser.processedLength + processed) ∧
      next.processedLength = parser.processedLength ∧
      next.perfDataOffset = parser.perfDataOffset ∧
      next.perfSplitError = parser.perfSplitError ∧
      processed ≤ buffer.length ∧
      buffer.length - processed + SplitPerfState.left next.splitState <
        buffer.length - processedLen + SplitPerfState.left parser.splitState
  | .wait next processed =>
    next = parser ∧ Stage file window profilerHeader offset parser
      (parser.processedLength + processed) ∧
      processed ≤ buffer.length ∧
      (remaining ≠ [] ∨ parser.splitState = .waitForFinish)
  | .invalid _ => False

theorem inputOffset_eq {parser : PerfDataParser} {offset : Nat}
    (placed : parser.perfDataOffset = storedOffset offset) (place : Nat) :
    parser.inputOffset place = placeInInput offset place := by
  rw [inputOffset, placed, placeInInput]

section Steps

variable {file : PerfFile} {window : SplitWindow}
  {profilerHeader : Option (List UInt8)} {offset : Nat}
  {parser : PerfDataParser} {buffer remaining : List UInt8}
  {processedLen : Nat}
  (presented : Presented file parser buffer remaining processedLen)

include presented

theorem splitPerfStarting_ok (start : parser.processedLength + processedLen = 0)
    (state : parser.splitState = .starting)
    (unread : Unread profilerHeader parser) (result : parser.splitResult = []) :
    StepOk file window profilerHeader offset parser buffer remaining
      processedLen (parser.splitPerfStarting processedLen) := by
  refine ⟨?_, rfl, rfl, rfl, presented.inside, ?_⟩
  · rw [start]
    refine .parsingHead rfl ⟨unread.profiler, unread.size, unread.dataEnd⟩ ?_
    dsimp only
    rw [result, unread.profiler]
    rfl
  · rw [state]
    exact Nat.lt_succ_self _

section

variable (wellFormed : file.WellFormed)
include wellFormed

theorem splitPerfParsingHead_ok (start : parser.processedLength + processedLen = 0)
    (state : parser.splitState = .parsingHead) (unread : Unread profilerHeader parser)
    (result : parser.splitResult ++ [.perfHeader] = headPieces profilerHeader) :
    StepOk file window profilerHeader offset parser buffer remaining
      processedLen (parser.splitPerfParsingHead buffer) := by
  have fileLength := wellFormed.length_bytes
  have dataEnd := wellFormed.dataEnd_eq
  rcases Nat.add_eq_zero_iff.1 start with ⟨processed, fresh⟩
  rcases splitPerfParsingHead_cases presented wellFormed.complete start with
    ⟨short, waits⟩ | ⟨long, goes⟩
  · rw [waits]
    refine ⟨rfl, ?_, Nat.zero_le _, Or.inl ?_⟩
    · rw [add_zero, processed]
      exact .parsingHead state unread result
    · exact presented.remaining_ne perfFileHeaderSize short (by omega)
  · rw [goes]
    refine ⟨?_, rfl, rfl, rfl, long, ?_⟩
    · rw [processed, zero_add]
      exact .waitForAttr rfl ⟨unread.profiler, unread.size, unread.dataEnd⟩
        ⟨rfl, rfl⟩ result wellFormed.attrsBehindHeader
    · rw [state, fresh]
      simp only [SplitPerfState.left]
      omega

theorem splitPerfWaitForAttr_ok (inFront :
    parser.processedLength + processedLen ≤ PerfFileHeader.attrsOffset file.header)
    (state : parser.splitState = .waitForAttr)
    (unread : Unread profilerHeader parser) (head : HeadRead file parser)
    (result : parser.splitResult = headPieces profilerHeader) :
    StepOk file window profilerHeader offset parser buffer remaining
      processedLen (parser.splitPerfWaitForAttr buffer processedLen) := by
  have fileLength := wellFormed.length_bytes
  have attrs := wellFormed.attrsBeforeData
  rcases splitPerfWaitForAttr_cases inFront head.header buffer with
    ⟨short, waits⟩ | ⟨long, goes⟩
  · rw [waits]
    refine ⟨rfl, ?_, le_refl _, Or.inl ?_⟩
    · exact .waitForAttr state unread head result (le_of_lt short)
    · refine presented.remaining_ne _ short ?_
      rw [fileLength, PerfFile.dataEnd]
      omega
  · rw [goes]
    refine ⟨?_, rfl, rfl, rfl, ?_, ?_⟩
    · rw [← add_assoc, Nat.add_sub_cancel' inFront]
      exact .parsingAttr rfl ⟨unread.profiler, unread.size, unread.dataEnd⟩
        ⟨head.header, head.count⟩ result
    · omega
    · rw [state]
      simp only [SplitPerfState.left]
      omega

theorem splitPerfParsingAttr_ok (start :
    parser.processedLength + processedLen = PerfFileHeader.attrsOffset file.header)
    (state : parser.splitState = .parsingAttr)
    (unread : Unread profilerHeader parser) (head : HeadRead file parser)
    (result : parser.splitResult = headPieces profilerHeader) :
    StepOk file window profilerHeader offset parser buffer remaining
      processedLen (parser.splitPerfParsingAttr buffer processedLen) := by
  have fileLength := wellFormed.length_bytes
  have attrs := wellFormed.attrsBeforeData
  have sampleTypeInAttr := wellFormed.sampleTypeInAttr
  have attrInAttrs := wellFormed.attrInAttrs
  rcases splitPerfParsingAttr_cases presented wellFormed.complete start head.header with
    ⟨short, waits⟩ | ⟨long, goes⟩
  · rw [waits]
    refine ⟨rfl, ?_, presented.inside, Or.inl ?_⟩
    · rw [start]
      exact .parsingAttr state unread head result
    · refine presented.remaining_ne _ short ?_
      rw [fileLength, PerfFile.dataEnd]
      omega
  · rw [goes]
    refine ⟨?_, rfl, rfl, rfl, by omega, ?_⟩
    · rw [← add_assoc, start]
      exact .waitForData rfl ⟨unread.profiler, unread.size, unread.dataEnd⟩
        ⟨head.header, head.count⟩ rfl result attrs
    · rw [state]
      simp only [SplitPerfState.left]
      omega

theorem splitPerfWaitForData_ok (addressable : offset + file.bytes.length < 2 ^ 63)
    (placed : parser.perfDataOffset = storedOffset offset) (inFront :
      parser.processedLength + processedLen ≤ PerfFileHeader.dataOffset file.header)
    (state : parser.splitState = .waitForData)
    (unread : Unread profilerHeader parser) (head : HeadRead file parser)
    (time : parser.sampleTimeOffset = sampleTimeOffsetOf file.sampleType)
    (result : parser.splitResult = headPieces profilerHeader) :
    StepOk file window profilerHeader offset parser buffer remaining
      processedLen (parser.splitPerfWaitForData buffer processedLen) := by
  have fileLength := wellFormed.length_bytes
  rcases splitPerfWaitForData_cases inFront head.header buffer with
    ⟨short, waits⟩ | ⟨long, goes⟩
  · rw [waits]
    refine ⟨rfl, ?_, le_refl _, Or.inl ?_⟩
    · exact .waitForData state unread head time result (le_of_lt short)
    · refine presented.remaining_ne _ short ?_
      rw [fileLength, PerfFile.dataEnd]
      omega
  · rw [goes]
    refine ⟨?_, rfl, rfl, rfl, ?_, ?_⟩
    · rw [← add_assoc, Nat.add_sub_cancel' inFront]
      refine .parsingData [] [] file.records rfl rfl ?_
      refine ⟨⟨head.header, head.count⟩, unread.profiler, time, ?_, unread.size, ?_⟩
      · rw [nil_append]
        dsimp only [addJson]
        rw [time, unread.dataEnd]
        rfl
      · refine ⟨_, ?_, Ranges.start wellFormed addressable⟩
        dsimp only [addJson]
        rw [result, inputOffset_eq placed, wellFormed.dataOffset,
          Nat.add_sub_cancel_left, jsonPieces, map_singleton]
    · omega
    · rw [state]
      simp only [SplitPerfState.left]
      omega

end

variable {kept records : List (List UInt8)}

omit presented in
theorem Reading.lastRange (reading :
    Reading file window profilerHeader offset parser kept records) :
    ∃ ranges last, parser.splitResult = headPieces profilerHeader ++ jsonPieces (ranges ++ [last]) ∧
      Ranges file offset (ranges ++ [last]) kept.flatten := by
  rcases reading.result with ⟨ranges, result, held⟩
  rcases held.first with ⟨size, more, first, _⟩
  rcases eq_nil_or_concat ranges with empty | ⟨others, last, concat⟩
  · rw [empty] at first
    exact absurd first.symm (cons_ne_nil _ _)
  · rw [concat_eq_append] at concat
    rw [concat] at result held
    exact ⟨others, last, result, held⟩

omit presented in
theorem Reading.next (addressable : offset + file.bytes.length < 2 ^ 63)
    (placed : parser.perfDataOffset = storedOffset offset)
    {record : List UInt8} {place : Nat} (reading :
      Reading file window profilerHeader offset parser kept (record :: records))
    (inside : place + record.length ≤ file.bytes.length)
    (present : (file.bytes.drop place).take record.length = record) :
    ∃ nowKept, Reading file window profilerHeader offset
      (parser.takeRecord window place record) nowKept records := by
  have keeps := reading.keeps
  rw [keptRecords] at keeps
  rw [takeRecord]
  dsimp only at keeps ⊢
  generalize needRecord window parser.sampleTimeOffset parser.splitDataEnd record =
    needed at keeps ⊢
  split
  next keep =>
    rw [if_pos keep] at keeps
    rcases reading.lastRange with ⟨ranges, last, result, held⟩
    have decidedResult : ({ parser with splitDataEnd := needed.2 }).splitResult =
      headPieces profilerHeader ++ jsonPieces (ranges ++ [last]) :=
      result
    have extended := extendJson_splitResult decidedResult (parser.inputOffset place) record.length
    refine ⟨kept ++ [record], ?_⟩
    rw [extended, inputOffset_eq placed]
    refine ⟨⟨reading.head.header, reading.head.count⟩, reading.profiler, reading.time, ?_, ?_, ?_⟩
    · rw [append_assoc]
      exact keeps
    · dsimp only
      rw [reading.size, flatten_append, length_append, flatten_singleton]
    · refine ⟨_, rfl, ?_⟩
      rw [flatten_append, flatten_singleton]
      exact held.put addressable inside present
  next leave =>
    rw [if_neg leave] at keeps
    exact ⟨kept, ⟨reading.head.header, reading.head.count⟩,
      reading.profiler, reading.time, keeps, reading.size, reading.result⟩

/-- The state for the data keeps the records in the window. -/
theorem splitPerfParsingData_ok (wellFormed : file.WellFormed)
    (addressable : offset + file.bytes.length < 2 ^ 63)
    (placed : parser.perfDataOffset = storedOffset offset)
    {done : List (List UInt8)} (place : parser.processedLength + processedLen =
      PerfFileHeader.dataOffset file.header + done.flatten.length)
    (state : parser.splitState = .parsingData) (split : file.records = done ++ records) (reading :
      Reading file window profilerHeader offset parser kept records) :
    StepOk file window profilerHeader offset parser buffer remaining processedLen
      (parser.splitPerfParsingData window buffer processedLen) := by
  have fileLength := wellFormed.length_bytes
  have dataEnd : file.dataEnd = PerfFileHeader.dataOffset file.header +
    (done.flatten.length + records.flatten.length) := by
    rw [PerfFile.dataEnd, wellFormed.dataSize, split, flatten_append, length_append]
  cases records with
  | nil =>
    have all : kept = keptOf file window := by
      have keeps := reading.keeps
      rw [keptRecords, append_nil] at keeps
      exact keeps
    rw [flatten_nil, length_nil, add_zero, ← place] at dataEnd
    rw [splitPerfParsingData_end presented wellFormed.complete (by omega)
      window dataEnd.symm reading.head.header]
    refine ⟨?_, rfl, rfl, rfl, presented.inside, ?_⟩
    · rw [← dataEnd]
      rw [all] at reading
      exact .parsingFeatureSection rfl ⟨⟨reading.head.header, reading.head.count⟩, reading.profiler,
        reading.time, reading.keeps, reading.size, reading.result⟩
    · rw [state]
      exact Nat.lt_succ_self _
  | cons record records =>
    have known : record ∈ file.records := by
      rw [split]
      exact mem_append_right _ mem_cons_self
    have some : 0 < record.length :=
      lt_of_lt_of_le (by decide) (wellFormed.recordSize record known).1
    rw [flatten_cons, length_append] at dataEnd
    rcases splitPerfParsingData_cases presented wellFormed.complete
      (by omega) window place reading.head.header split with
      ⟨short, waits⟩ | ⟨whole, goes⟩
    · rw [waits]
      refine ⟨rfl, ?_, presented.inside, Or.inl ?_⟩
      · rw [place]
        exact .parsingData done kept (record :: records) state split reading
      · exact presented.remaining_ne _ short (by omega)
    · have present : (file.bytes.drop (parser.processedLength + processedLen)).take
        record.length = record := by
        rw [place, ← drop_drop, wellFormed.complete.drop_dataOffset, split, flatten_append,
          append_assoc, drop_left, flatten_cons,
          append_assoc, take_left]
      have split' : file.records = (done ++ [record]) ++ records := by
        rw [split, append_assoc, singleton_append]
      have placeBehind : parser.processedLength + (processedLen + record.length) =
        PerfFileHeader.dataOffset file.header + (done ++ [record]).flatten.length := by
        rw [flatten_append, length_append, flatten_singleton]
        omega
      rcases reading.next addressable placed (by omega) present with
        ⟨nowKept, next⟩
      rw [goes]
      refine ⟨?_, takeRecord_processedLength _ _ _ _, takeRecord_perfDataOffset _ _ _ _,
        takeRecord_perfSplitError _ _ _ _, by omega, ?_⟩
      · rw [placeBehind]
        exact .parsingData _ nowKept records
          ((takeRecord_splitState _ _ _ _).trans state) split' next
      · rw [takeRecord_splitState]
        omega

omit presented in
theorem length_keptOf_le (file : PerfFile) (window : SplitWindow) :
    (keptOf file window).flatten.length ≤ file.records.flatten.length :=
  PerfFile.length_flatten_le (keptRecords_sublist _ _ _ _)

theorem splitPerfParsingFeatureSection_ok (wellFormed : file.WellFormed)
    (place : parser.processedLength + processedLen = file.dataEnd)
    (state : parser.splitState = .parsingFeatureSection) (reading :
      Reading file window profilerHeader offset parser (keptOf file window) []) :
    StepOk file window profilerHeader offset parser buffer remaining processedLen
      (parser.splitPerfParsingFeatureSection buffer processedLen) := by
  have fileLength := wellFormed.length_bytes
  rcases splitPerfParsingFeatureSection_cases presented wellFormed.complete
    place reading.head.count wellFormed.hasFeature with
    ⟨short, waits⟩ | ⟨there, goes⟩
  · rw [waits]
    refine ⟨rfl, ?_, presented.inside, Or.inl ?_⟩
    · rw [place]
      exact .parsingFeatureSection state reading
    · exact presented.remaining_ne _ short (by omega)
  · have dropped : subWord (PerfFileHeader.dataSize parser.perfHeader) parser.splitDataSize =
      file.records.flatten.length - (keptOf file window).flatten.length := by
      have small : file.records.flatten.length < 2 ^ 64 := by
        rw [← wellFormed.dataSize]
        exact word_lt _ _
      rw [reading.head.header, reading.size, wellFormed.dataSize,
        subWord_of_le small (length_keptOf_le file window)]
    rcases reading.result with ⟨ranges, result, held⟩
    rw [goes, takeSections, dropped]
    refine ⟨?_, rfl, rfl, rfl, by omega, ?_⟩
    · rw [← add_assoc, place]
      refine .waitForFinish rfl ⟨?_, ?_, ?_, ranges, ?_, held⟩
      · dsimp only
        rw [reading.profiler]
      · dsimp only
        rw [reading.head.header, reading.size]
        rfl
      · dsimp only
        rw [reading.head.count]
        rfl
      · dsimp only
        rw [result, append_nil]
    · rw [state]
      simp only [SplitPerfState.left]
      omega

theorem splitFunc_ok (wellFormed : file.WellFormed)
    (addressable : offset + file.bytes.length < 2 ^ 63)
    (placed : parser.perfDataOffset = storedOffset offset) (stage :
      Stage file window profilerHeader offset parser (parser.processedLength + processedLen)) :
    StepOk file window profilerHeader offset parser buffer remaining
      processedLen (parser.splitFunc window buffer processedLen) := by
  generalize reached : parser.processedLength + processedLen = place at stage
  cases stage with
  | starting state unread result =>
    rw [splitFunc, state]
    exact splitPerfStarting_ok presented reached state unread result
  | parsingHead state unread result =>
    rw [splitFunc, state]
    exact splitPerfParsingHead_ok presented wellFormed reached state unread result
  | waitForAttr state unread head result inFront =>
    rw [splitFunc, state]
    exact splitPerfWaitForAttr_ok presented wellFormed (reached ▸ inFront) state unread head result
  | parsingAttr state unread head result =>
    rw [splitFunc, state]
    exact splitPerfParsingAttr_ok presented wellFormed reached state unread head result
  | waitForData state unread head time result inFront =>
    rw [splitFunc, state]
    exact splitPerfWaitForData_ok presented wellFormed addressable placed
      (reached ▸ inFront) state unread head time result
  | parsingData done kept records state split reading =>
    rw [splitFunc, state]
    exact splitPerfParsingData_ok presented wellFormed addressable placed
      reached state split reading
  | parsingFeatureSection state reading =>
    rw [splitFunc, state]
    exact splitPerfParsingFeatureSection_ok presented wellFormed reached state reading
  | waitForFinish state patched =>
    rw [splitFunc, state]
    refine ⟨rfl, ?_, presented.inside, Or.inr state⟩
    rw [reached]
    exact .waitForFinish state patched

end Steps

/-! ## A call, and all calls -/

/-- What the parser is when the whole file was split. -/
def Done (file : PerfFile) (window : SplitWindow)
    (profilerHeader : Option (List UInt8)) (offset : Nat) (parser : PerfDataParser) : Prop :=
  Patched file window profilerHeader offset parser
    [.json (placeInInput offset (file.dataEnd + file.sections.length)) file.tail.length]

section

variable {file : PerfFile} {window : SplitWindow}
  {profilerHeader : Option (List UInt8)} {offset place : Nat}
  {parser : PerfDataParser}
  (stage : Stage file window profilerHeader offset parser place)
include stage

theorem Stage.processed (processedLength : Nat) : Stage file window profilerHeader offset
    { parser with processedLength := processedLength } place := by
  cases stage with
  | starting state unread result =>
    exact .starting state ⟨unread.profiler, unread.size, unread.dataEnd⟩ result
  | parsingHead state unread result =>
    exact .parsingHead state ⟨unread.profiler, unread.size, unread.dataEnd⟩ result
  | waitForAttr state unread head result inFront =>
    exact .waitForAttr state ⟨unread.profiler, unread.size, unread.dataEnd⟩
      ⟨head.header, head.count⟩ result inFront
  | parsingAttr state unread head result =>
    exact .parsingAttr state ⟨unread.profiler, unread.size, unread.dataEnd⟩
      ⟨head.header, head.count⟩ result
  | waitForData state unread head time result inFront =>
    exact .waitForData state ⟨unread.profiler, unread.size, unread.dataEnd⟩
      ⟨head.header, head.count⟩ time result inFront
  | parsingData done kept records state split reading =>
    exact .parsingData done kept records state split
      ⟨⟨reading.head.header, reading.head.count⟩, reading.profiler,
        reading.time, reading.keeps, reading.size, reading.result⟩
  | parsingFeatureSection state reading =>
    exact .parsingFeatureSection state ⟨⟨reading.head.header, reading.head.count⟩, reading.profiler,
      reading.time, reading.keeps, reading.size, reading.result⟩
  | waitForFinish state patched =>
    exact .waitForFinish state ⟨patched.profiler, patched.header, patched.sections, patched.result⟩

theorem Stage.finished (finish : parser.splitState = .waitForFinish) :
    place = file.dataEnd + file.sections.length ∧
      Patched file window profilerHeader offset parser [] := by
  cases stage with
  | waitForFinish state patched => exact ⟨rfl, patched⟩
  | starting state
  | parsingHead state
  | waitForAttr state
  | parsingAttr state
  | waitForData state
  | parsingData _ _ _ state
  | parsingFeatureSection state => exact absurd (state.symm.trans finish) (by decide)

end

section Calls

variable {file : PerfFile} {window : SplitWindow}
  {profilerHeader : Option (List UInt8)} {offset : Nat}

/-- What a call leaves: a stage in front of what it did not process. -/
structure CallOk (file : PerfFile) (window : SplitWindow)
    (profilerHeader : Option (List UInt8)) (offset : Nat)
    (parser : PerfDataParser) (buffer : List UInt8)
    (called : PerfDataParser × Nat) : Prop where
  stage : Stage file window profilerHeader offset called.1 called.1.processedLength
  processed : called.1.processedLength = parser.processedLength + called.2
  inside : called.2 ≤ buffer.length
  placed : called.1.perfDataOffset = storedOffset offset
  fine : called.1.perfSplitError = false

theorem splitLoop_ok (wellFormed : file.WellFormed)
    (addressable : offset + file.bytes.length < 2 ^ 63)
    {parser : PerfDataParser} {buffer remaining : List UInt8} {processedLen fuel : Nat}
    (presented : Presented file parser buffer remaining processedLen)
    (placed : parser.perfDataOffset = storedOffset offset)
    (fine : parser.perfSplitError = false) (stage : Stage file window profilerHeader offset parser
      (parser.processedLength + processedLen)) (enough :
      buffer.length - processedLen + SplitPerfState.left parser.splitState < fuel) :
    CallOk file window profilerHeader offset parser buffer
      (splitLoop window buffer false fuel parser processedLen) := by
  induction fuel generalizing parser processedLen with
  | zero => exact absurd enough (Nat.not_lt_zero _)
  | succ fuel induction =>
    have step := splitFunc_ok presented wellFormed addressable placed stage
    rw [splitLoop, if_neg (fun finish => Bool.false_ne_true finish.1)]
    cases result : parser.splitFunc window buffer processedLen with
    | again next processed =>
      rw [result] at step
      rcases step with
        ⟨nextStage, length, offsetSame, errorSame, inside, less⟩
      have call :=
        induction (presented.next length inside) (offsetSame.trans placed) (errorSame.trans fine)
          (length ▸ nextStage) (by omega)
      exact ⟨call.stage, length ▸ call.processed, call.inside, call.placed, call.fine⟩
    | wait next processed =>
      rw [result] at step
      rcases step with ⟨same, nextStage, inside, _⟩
      rw [same]
      dsimp only
      exact ⟨nextStage.processed _, rfl, inside, placed, fine⟩
    | invalid next =>
      rw [result] at step
      exact step.elim

theorem splitLoop_done (wellFormed : file.WellFormed)
    (addressable : offset + file.bytes.length < 2 ^ 63)
    {parser : PerfDataParser} {buffer : List UInt8} {processedLen fuel : Nat}
    (presented : Presented file parser buffer [] processedLen)
    (placed : parser.perfDataOffset = storedOffset offset) (stage :
      Stage file window profilerHeader offset parser
        (parser.processedLength + processedLen)) (enough :
      buffer.length - processedLen + SplitPerfState.left parser.splitState < fuel) :
    Done file window profilerHeader offset
      (splitLoop window buffer true fuel parser processedLen).1 := by
  induction fuel generalizing parser processedLen with
  | zero => exact absurd enough (Nat.not_lt_zero _)
  | succ fuel induction =>
    have step := splitFunc_ok presented wellFormed addressable placed stage
    rw [splitLoop]
    split
    next finish =>
      rcases stage.finished finish.2 with ⟨reached, patched⟩
      have length := presented.length
      have fileLength := wellFormed.length_bytes
      rw [length_nil] at length
      have tail : buffer.length - processedLen = file.tail.length := by omega
      rcases patched.result with ⟨ranges, result, held⟩
      refine ⟨patched.profiler, patched.header, patched.sections, ranges, ?_, held⟩
      dsimp only [addJson]
      rw [result, inputOffset_eq placed, reached, tail, append_nil, append_assoc]
    next notFinish =>
      cases result : parser.splitFunc window buffer processedLen with
      | again next processed =>
        rw [result] at step
        rcases step with
          ⟨nextStage, length, offsetSame, errorSame, inside, less⟩
        exact induction (presented.next length inside)
          (offsetSame.trans placed) (length ▸ nextStage) (by omega)
      | wait next processed =>
        rw [result] at step
        rcases step with ⟨_, _, _, toCome | finished⟩
        · exact absurd rfl toCome
        · exact absurd ⟨rfl, finished⟩ notFinish
      | invalid next =>
        rw [result] at step
        exact step.elim

/-- `SplitPerfData` stores the offset while nothing was processed. -/
def begun (parser : PerfDataParser) (offset : Nat) : PerfDataParser :=
  if parser.processedLength = 0 then
    { parser with
      perfDataOffset := storedOffset offset
      perfSplitError := false }
  else parser

theorem begun_eq {parser : PerfDataParser} (placed : parser.perfDataOffset = storedOffset offset)
    (fine : parser.perfSplitError = false) : parser.begun offset = parser := by
  rw [begun, ← placed, ← fine]
  exact ite_self parser

theorem splitPerfData_eq
    {parser : PerfDataParser} (fine : (parser.begun offset).perfSplitError = false)
    (window : SplitWindow) (buffer : List UInt8) (isFinish : Bool) :
    parser.splitPerfData window buffer offset isFinish =
      splitLoop window buffer isFinish (buffer.length + 9) (parser.begun offset) 0 := by
  change (if (parser.begun offset).perfSplitError = true then _ else _) = _
  rw [if_neg (Bool.eq_false_iff.1 fine)]
  rfl

theorem left_lt (state : SplitPerfState) (length : Nat) :
    length - 0 + SplitPerfState.left state < length + 9 := by
  cases state <;> simp only [SplitPerfState.left] <;> omega

section

variable (wellFormed : file.WellFormed)
include wellFormed

theorem splitPerfData_ok (addressable : offset + file.bytes.length < 2 ^ 63)
    {parser : PerfDataParser} {buffer remaining : List UInt8} (presented :
      Presented file (parser.begun offset) buffer remaining 0)
    (placed : (parser.begun offset).perfDataOffset = storedOffset offset)
    (fine : (parser.begun offset).perfSplitError = false) (stage :
      Stage file window profilerHeader offset (parser.begun offset)
        (parser.begun offset).processedLength) :
    CallOk file window profilerHeader offset (parser.begun offset) buffer
      (parser.splitPerfData window buffer offset false) := by
  rw [splitPerfData_eq fine]
  exact splitLoop_ok wellFormed addressable presented placed fine stage (left_lt _ _)

theorem splitPerfData_done (addressable : offset + file.bytes.length < 2 ^ 63)
    {parser : PerfDataParser} {buffer : List UInt8}
    (presented : Presented file (parser.begun offset) buffer [] 0)
    (placed : (parser.begun offset).perfDataOffset = storedOffset offset)
    (fine : (parser.begun offset).perfSplitError = false) (stage :
      Stage file window profilerHeader offset (parser.begun offset)
        (parser.begun offset).processedLength) :
    Done file window profilerHeader offset (parser.splitPerfData window buffer offset true).1 := by
  rw [splitPerfData_eq fine]
  exact splitLoop_done wellFormed addressable presented placed stage (left_lt _ _)

variable {chunks : List (List UInt8)}

/--
All calls, by induction on the chunks: what a call does not process comes in
front of the next chunk.
-/
theorem splitChunks_done (addressable : offset + file.bytes.length < 2 ^ 63)
    (someChunk : chunks ≠ []) {parser : PerfDataParser} {rest : List UInt8} (presented :
      Presented file (parser.begun offset) rest chunks.flatten 0)
    (placed : (parser.begun offset).perfDataOffset = storedOffset offset)
    (fine : (parser.begun offset).perfSplitError = false) (stage :
      Stage file window profilerHeader offset (parser.begun offset)
        (parser.begun offset).processedLength) :
    Done file window profilerHeader offset (splitChunks window offset parser rest chunks) := by
  induction chunks generalizing parser rest with
  | nil => exact absurd rfl someChunk
  | cons chunk chunks induction =>
    have read := presented.read
    have length := presented.length
    rw [flatten_cons] at read length
    rw [length_append] at length
    have nextPresented : Presented file (parser.begun offset) (rest ++ chunk) chunks.flatten 0 := by
      refine ⟨?_, ?_, Nat.zero_le _⟩
      · rw [read, append_assoc]
      · rw [length_append]
        omega
    cases chunks with
    | nil => exact splitPerfData_done wellFormed addressable nextPresented placed fine stage
    | cons next chunks =>
      have call := splitPerfData_ok wellFormed addressable nextPresented placed fine stage
      rw [splitChunks]
      generalize parser.splitPerfData window (rest ++ chunk) offset false = called at call ⊢
      have same := begun_eq call.placed call.fine
      refine induction (cons_ne_nil _ _) ?_ ?_ ?_ ?_ <;> rw [same]
      · have inside := call.inside
        have whole := nextPresented.length
        refine ⟨?_, ?_, Nat.zero_le _⟩
        · rw [call.processed, ← drop_drop, nextPresented.read, drop_append_of_le_length inside]
        · rw [call.processed, length_drop]
          omega
      · exact call.placed
      · exact call.fine
      · exact call.stage

theorem initial_done (addressable : offset + file.bytes.length < 2 ^ 63)
    (flat : chunks.flatten = file.bytes) : Done file window profilerHeader offset
      (splitChunks window offset (initial profilerHeader) [] chunks) := by
  have someChunk : chunks ≠ [] := by
    intro none
    have length := wellFormed.length_bytes
    have dataEnd := wellFormed.dataEnd_eq
    rw [← flat, none, flatten_nil, length_nil, dataEnd, perfFileHeaderSize] at length
    omega
  have begins : (initial profilerHeader).begun offset =
    { initial profilerHeader with
      perfDataOffset := storedOffset offset } :=
    if_pos rfl
  refine splitChunks_done wellFormed addressable someChunk ?_ ?_ ?_ ?_ <;> rw [begins]
  · refine ⟨?_, ?_, le_refl _⟩
    · rw [flat]
      exact drop_zero
    · rw [flat]
      exact zero_add _
  · exact rfl
  · exact .starting rfl ⟨rfl, rfl, rfl⟩ rfl

end

end Calls

end PerfDataParser

end SysAnalyzer.Parser
