import SysAnalyzer.Parser.PerfSplit

/-!
# What the functions of the states do

The function of each state is given a place of a complete file.  It does one of
two things: it waits, because the bytes it needs are still to come, or it goes
on to a place further on.
-/

namespace SysAnalyzer.Parser

open Foundation List

namespace PerfDataParser

structure HeadRead (file : PerfFile) (parser : PerfDataParser) : Prop where
  header : parser.perfHeader = file.header
  count : parser.featureCount = file.featureCount

structure Presented (file : PerfFile) (parser : PerfDataParser)
    (buffer remaining : List UInt8) (processedLen : Nat) : Prop where
  read : file.bytes.drop parser.processedLength = buffer ++ remaining
  length : parser.processedLength + buffer.length + remaining.length = file.bytes.length
  inside : processedLen ≤ buffer.length

section Presented

variable {file : PerfFile} {parser : PerfDataParser}
  {buffer remaining : List UInt8} {processedLen : Nat}

section

variable (presented : Presented file parser buffer remaining processedLen)
include presented

theorem Presented.drop : file.bytes.drop (parser.processedLength + processedLen) =
    buffer.drop processedLen ++ remaining := by
  rw [← drop_drop, presented.read, drop_append_of_le_length presented.inside]

theorem Presented.take (size : Nat) (there : size ≤ buffer.length - processedLen) :
    (buffer.drop processedLen).take size =
      (file.bytes.drop (parser.processedLength + processedLen)).take size := by
  rw [presented.drop, take_append_of_le_length]
  rw [length_drop]
  exact there

theorem Presented.next {next : PerfDataParser} {processed : Nat}
    (length : next.processedLength = parser.processedLength) (inside : processed ≤ buffer.length) :
    Presented file next buffer remaining processed where
  read := length ▸ presented.read
  length := length ▸ presented.length
  inside := inside

theorem Presented.remaining_ne
    (place : Nat) (short : parser.processedLength + buffer.length < place)
    (inside : place ≤ file.bytes.length) : remaining ≠ [] := by
  intro empty
  have length := presented.length
  rw [empty, length_nil] at length
  omega

end

end Presented

theorem perfEventSize_append {record : List UInt8} (long : perfEventHeaderSize ≤ record.length)
    (rest : List UInt8) : perfEventSize (record ++ rest) = perfEventSize record := by
  rw [perfEventHeaderSize] at long
  rw [perfEventSize, perfEventSize, drop_append_of_le_length (by omega), take_append_of_le_length]
  rw [length_drop]
  omega

section ExtendJson

variable (parser : PerfDataParser) (offset size : Nat)

theorem extendJson_splitState : (parser.extendJson offset size).splitState = parser.splitState := by
  rw [extendJson]
  split
  · split <;> rfl
  · rfl

theorem extendJson_processedLength :
    (parser.extendJson offset size).processedLength = parser.processedLength := by
  rw [extendJson]
  split
  · split <;> rfl
  · rfl

theorem extendJson_perfDataOffset :
    (parser.extendJson offset size).perfDataOffset = parser.perfDataOffset := by
  rw [extendJson]
  split
  · split <;> rfl
  · rfl

theorem extendJson_perfSplitError :
    (parser.extendJson offset size).perfSplitError = parser.perfSplitError := by
  rw [extendJson]
  split
  · split <;> rfl
  · rfl

theorem extendJson_perfHeader : (parser.extendJson offset size).perfHeader = parser.perfHeader := by
  rw [extendJson]
  split
  · split <;> rfl
  · rfl

theorem extendJson_featureCount :
    (parser.extendJson offset size).featureCount = parser.featureCount := by
  rw [extendJson]
  split
  · split <;> rfl
  · rfl

end ExtendJson

/-- What `SplitPerfParsingData` does with a record at a place. -/
def takeRecord (parser : PerfDataParser) (window : SplitWindow)
    (place : Nat) (record : List UInt8) : PerfDataParser :=
  let needed := needRecord window parser.sampleTimeOffset parser.splitDataEnd record
  if needed.1 then
    { ({ parser with splitDataEnd := needed.2 }).extendJson
        (parser.inputOffset place) record.length with
      splitDataSize := parser.splitDataSize + record.length }
  else { parser with splitDataEnd := needed.2 }

section TakeRecord

variable (parser : PerfDataParser) (window : SplitWindow) (place : Nat)
  (record : List UInt8)

theorem takeRecord_splitState :
    (parser.takeRecord window place record).splitState = parser.splitState := by
  rw [takeRecord]
  dsimp only
  split
  · exact extendJson_splitState _ _ _
  · rfl

theorem takeRecord_processedLength :
    (parser.takeRecord window place record).processedLength = parser.processedLength := by
  rw [takeRecord]
  dsimp only
  split
  · exact extendJson_processedLength _ _ _
  · rfl

theorem takeRecord_perfDataOffset :
    (parser.takeRecord window place record).perfDataOffset = parser.perfDataOffset := by
  rw [takeRecord]
  dsimp only
  split
  · exact extendJson_perfDataOffset _ _ _
  · rfl

theorem takeRecord_perfSplitError :
    (parser.takeRecord window place record).perfSplitError = parser.perfSplitError := by
  rw [takeRecord]
  dsimp only
  split
  · exact extendJson_perfSplitError _ _ _
  · rfl

theorem takeRecord_perfHeader :
    (parser.takeRecord window place record).perfHeader = parser.perfHeader := by
  rw [takeRecord]
  dsimp only
  split
  · exact extendJson_perfHeader _ _ _
  · rfl

theorem takeRecord_featureCount :
    (parser.takeRecord window place record).featureCount = parser.featureCount := by
  rw [takeRecord]
  dsimp only
  split
  · exact extendJson_featureCount _ _ _
  · rfl

end TakeRecord

/-- What `SplitPerfParsingFeatureSection` does with the entries. -/
def takeSections (parser : PerfDataParser) (sections : List UInt8) : PerfDataParser :=
  let splitDropSize := subWord (PerfFileHeader.dataSize parser.perfHeader) parser.splitDataSize
  { parser with
    profilerHeader :=
      parser.profilerHeader.map fun header => shortenProfilerHeader header splitDropSize
    perfHeader := PerfFileHeader.setDataSize parser.perfHeader parser.splitDataSize
    featureSection := patchSections parser.featureCount splitDropSize sections
    splitState := .waitForFinish
    splitResult := parser.splitResult ++ [.featureSection] }

section Cases

variable {file : PerfFile} {parser : PerfDataParser}
  {buffer remaining : List UInt8} {processedLen : Nat}
  (presented : Presented file parser buffer remaining processedLen)
  (complete : file.Complete)

include presented complete

theorem splitPerfParsingHead_cases (start : parser.processedLength + processedLen = 0) :
    parser.processedLength + buffer.length < perfFileHeaderSize ∧
      parser.splitPerfParsingHead buffer = .wait parser 0 ∨
      perfFileHeaderSize ≤ buffer.length ∧ parser.splitPerfParsingHead buffer = .again { parser with
        perfHeader := file.header
        featureCount := file.featureCount
        splitState := .waitForAttr
        splitResult := parser.splitResult ++ [.perfHeader] }
        perfFileHeaderSize := by
  rcases Nat.add_eq_zero_iff.1 start with ⟨processed, fresh⟩
  rw [splitPerfParsingHead]
  split
  next short =>
    rw [processed, zero_add]
    exact Or.inl ⟨short, rfl⟩
  next long =>
    have header : buffer.take perfFileHeaderSize = file.header := by
      have taken := presented.take perfFileHeaderSize (by omega)
      rw [processed, fresh, drop_zero, drop_zero, complete.take_header] at taken
      exact taken
    rw [header]
    dsimp only
    rw [if_neg (not_not_intro complete.magic)]
    exact Or.inr ⟨Nat.le_of_not_lt long, rfl⟩

omit presented complete in
theorem splitPerfWaitForAttr_cases (inFront :
    parser.processedLength + processedLen ≤ PerfFileHeader.attrsOffset file.header)
    (header : parser.perfHeader = file.header) (buffer : List UInt8) :
    parser.processedLength + buffer.length < PerfFileHeader.attrsOffset file.header ∧
      parser.splitPerfWaitForAttr buffer processedLen = .wait parser buffer.length ∨
      PerfFileHeader.attrsOffset file.header ≤ parser.processedLength + buffer.length ∧
        parser.splitPerfWaitForAttr buffer processedLen =
          .again { parser with splitState := .parsingAttr } (processedLen +
            (PerfFileHeader.attrsOffset file.header -
              (parser.processedLength + processedLen))) := by
  rw [splitPerfWaitForAttr, header, if_neg (Nat.not_lt_of_le inFront)]
  split
  next short => exact Or.inl ⟨short, rfl⟩
  next long => exact Or.inr ⟨Nat.le_of_not_lt long, rfl⟩

theorem splitPerfParsingAttr_cases (start :
    parser.processedLength + processedLen = PerfFileHeader.attrsOffset file.header)
    (header : parser.perfHeader = file.header) :
    parser.processedLength + buffer.length < PerfFileHeader.attrsOffset file.header +
      PerfFileHeader.attrsSize file.header ∧
      parser.splitPerfParsingAttr buffer processedLen = .wait parser processedLen ∨
      PerfFileHeader.attrsOffset file.header + PerfFileHeader.attrsSize file.header ≤
        parser.processedLength + buffer.length ∧
        parser.splitPerfParsingAttr buffer processedLen = .again { parser with
          sampleTimeOffset := sampleTimeOffsetOf file.sampleType
          splitState := .waitForData }
          (processedLen + PerfFileHeader.attrsSize file.header) := by
  have inside := presented.inside
  have attrInAttrs := complete.attrInAttrs
  have sampleTypeInAttr := complete.sampleTypeInAttr
  have counted : PerfFileHeader.attrsSize file.header /
    PerfFileHeader.attrSize file.header % 2 ^ 32 ≠ 0 := by
    have bound := complete.attrCount
    have some : 0 < PerfFileHeader.attrsSize file.header / PerfFileHeader.attrSize file.header :=
      Nat.div_pos attrInAttrs (by omega)
    omega
  rw [splitPerfParsingAttr, header]
  dsimp only
  rw [if_neg counted]
  split
  next short => exact Or.inl ⟨by omega, rfl⟩
  next long =>
    have sampleType : perfSampleType ((buffer.drop processedLen).take
      (PerfFileHeader.attrsSize file.header)) =
      file.sampleType := by
      rw [presented.take _ (by omega), perfSampleType, word_take (by omega), word_drop, start]
      rfl
    rw [sampleType, if_pos complete.samplesHaveTime]
    exact Or.inr ⟨by omega, rfl⟩

omit presented complete in
theorem splitPerfWaitForData_cases (inFront :
    parser.processedLength + processedLen ≤ PerfFileHeader.dataOffset file.header)
    (header : parser.perfHeader = file.header) (buffer : List UInt8) :
    parser.processedLength + buffer.length < PerfFileHeader.dataOffset file.header ∧
      parser.splitPerfWaitForData buffer processedLen = .wait parser buffer.length ∨
      PerfFileHeader.dataOffset file.header ≤ parser.processedLength + buffer.length ∧
        parser.splitPerfWaitForData buffer processedLen = .again
          { parser.addJson (parser.inputOffset perfFileHeaderSize)
              (PerfFileHeader.dataOffset file.header - perfFileHeaderSize) with
            splitState := .parsingData } (processedLen + (PerfFileHeader.dataOffset file.header -
              (parser.processedLength + processedLen))) := by
  rw [splitPerfWaitForData, header]
  dsimp only
  rw [if_neg (Nat.not_lt_of_le inFront)]
  split
  next short => exact Or.inl ⟨short, rfl⟩
  next long => exact Or.inr ⟨Nat.le_of_not_lt long, rfl⟩

section

variable (addressable : file.bytes.length < 2 ^ 64)
include addressable

variable {done records : List (List UInt8)}

theorem totalDataRemain_eq (place : parser.processedLength + processedLen =
    PerfFileHeader.dataOffset file.header + done.flatten.length)
    (header : parser.perfHeader = file.header) (split : file.records = done ++ records) :
    subWord (PerfFileHeader.dataOffset parser.perfHeader +
      PerfFileHeader.dataSize parser.perfHeader) (parser.processedLength + processedLen) =
      records.flatten.length := by
  have fileLength := complete.length_bytes
  have dataEnd : file.dataEnd = PerfFileHeader.dataOffset file.header +
    (done.flatten.length + records.flatten.length) := by
    rw [PerfFile.dataEnd, complete.dataSize, split, flatten_append, length_append]
  have inside := presented.inside
  rw [header, ← PerfFile.dataEnd, subWord_of_le (by omega) (by omega)]
  omega

theorem splitPerfParsingData_end (window : SplitWindow)
    (place : parser.processedLength + processedLen = file.dataEnd)
    (header : parser.perfHeader = file.header) :
    parser.splitPerfParsingData window buffer processedLen =
      .again { parser with splitState := .parsingFeatureSection } processedLen := by
  have remain :=
    totalDataRemain_eq presented complete addressable
      (by rw [place, PerfFile.dataEnd, complete.dataSize]) header
      (append_nil file.records).symm
  rw [splitPerfParsingData]
  dsimp only
  rw [remain, flatten_nil, length_nil, if_pos (by decide), add_zero, add_zero]

theorem splitPerfParsingData_cases (window : SplitWindow)
    {record : List UInt8} (place : parser.processedLength + processedLen =
      PerfFileHeader.dataOffset file.header + done.flatten.length)
    (header : parser.perfHeader = file.header) (split : file.records = done ++ record :: records) :
    parser.processedLength + buffer.length < parser.processedLength + processedLen + record.length ∧
      parser.splitPerfParsingData window buffer processedLen = .wait parser processedLen ∨
      parser.processedLength + processedLen + record.length ≤
        parser.processedLength + buffer.length ∧
        parser.splitPerfParsingData window buffer processedLen = .again (parser.takeRecord window
          (parser.processedLength + processedLen) record) (processedLen + record.length) := by
  have inside := presented.inside
  have known : record ∈ file.records := by
    rw [split]
    exact mem_append_right _ mem_cons_self
  rcases complete.recordSize record known with ⟨long, sized⟩
  have remain := totalDataRemain_eq presented complete addressable place header split
  have stands : file.bytes.drop (parser.processedLength + processedLen) =
    record ++ (records.flatten ++ (file.sections ++ file.tail)) := by
    rw [place, ← drop_drop, complete.drop_dataOffset, split,
      flatten_append, append_assoc, drop_left,
      flatten_cons, append_assoc]
  rw [splitPerfParsingData]
  dsimp only
  rw [remain, flatten_cons, length_append, if_neg (by omega)]
  split
  next short => exact Or.inl ⟨by omega, rfl⟩
  next there =>
    have size : perfEventSize (buffer.drop processedLen) = record.length := by
      have read : perfEventHeaderSize ≤ (buffer.drop processedLen).length := by
        rw [length_drop]
        omega
      rw [← sized, ← perfEventSize_append read remaining,
        ← presented.drop, stands, perfEventSize_append long]
    rw [size, if_neg (Nat.not_lt_of_le long)]
    split
    next short => exact Or.inl ⟨by omega, rfl⟩
    next whole =>
      refine Or.inr ⟨by omega, ?_⟩
      rw [presented.take _ (by omega), stands, take_left, takeRecord]
      dsimp only
      split <;> rfl

end

omit presented complete in
theorem splitPerfParsingFeatureSection_none
    (count : parser.featureCount = 0) (buffer : List UInt8) :
    parser.splitPerfParsingFeatureSection buffer processedLen =
      .wait { parser with splitState := .waitForFinish } processedLen := by
  rw [splitPerfParsingFeatureSection]
  dsimp only
  rw [count, zero_mul, if_pos rfl]

theorem splitPerfParsingFeatureSection_cases
    (place : parser.processedLength + processedLen = file.dataEnd)
    (count : parser.featureCount = file.featureCount) (hasFeature : 0 < file.featureCount) :
    parser.processedLength + buffer.length < file.dataEnd + file.sections.length ∧
      parser.splitPerfParsingFeatureSection buffer processedLen = .wait parser processedLen ∨
      file.dataEnd + file.sections.length ≤ parser.processedLength + buffer.length ∧
        parser.splitPerfParsingFeatureSection buffer processedLen =
          .again (parser.takeSections file.sections) (processedLen + file.sections.length) := by
  have inside := presented.inside
  have size : parser.featureCount * perfFileSectionSize = file.sections.length := by
    rw [count, complete.sectionsLength]
  have notEmpty : file.sections.length ≠ 0 := by
    rw [complete.sectionsLength, perfFileSectionSize]
    omega
  rw [splitPerfParsingFeatureSection]
  dsimp only
  rw [size, if_neg notEmpty]
  split
  next short => exact Or.inl ⟨by omega, rfl⟩
  next there =>
    refine Or.inr ⟨by omega, ?_⟩
    have sections : (buffer.drop processedLen).take file.sections.length = file.sections := by
      rw [presented.take _ (by omega), place, complete.drop_dataEnd, take_left]
    rw [sections]
    rfl

end Cases

end PerfDataParser

end SysAnalyzer.Parser
