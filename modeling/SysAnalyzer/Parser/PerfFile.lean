import Mathlib.Data.List.Flatten
import SysAnalyzer.Parser.PerfDataParser

/-!
# Perf files and their splits

A `PerfFile` is a perf file in its parts: the header, what stands between the
header and the data (the attributes are in it), the records of the data, the
section of the features and what stands behind it.  `WellFormed` says how the
parts fit together, and `IsSplit` what the split of a file by a window of time
is.
-/

namespace SysAnalyzer.Parser

open Foundation List

structure PerfFile where
  header : List UInt8
  preamble : List UInt8
  records : List (List UInt8)
  sections : List UInt8
  tail : List UInt8

namespace PerfFile

def bytes (file : PerfFile) : List UInt8 :=
  file.header ++ file.preamble ++ file.records.flatten ++ file.sections ++ file.tail

/-- The place behind the data, where the section of the features is. -/
def dataEnd (file : PerfFile) : Nat :=
  PerfFileHeader.dataOffset file.header + PerfFileHeader.dataSize file.header

def featureCount (file : PerfFile) : Nat := bitCount (PerfFileHeader.features file.header)

/-- `sample_type` of the first attribute. -/
def sampleType (file : PerfFile) : Nat :=
  word file.bytes (PerfFileHeader.attrsOffset file.header + 24)

/-- `offset` of the section of a feature. -/
def sectionOffset (file : PerfFile) (index : Nat) : Nat :=
  word file.sections (index * perfFileSectionSize)

/-- `size` of the section of a feature. -/
def sectionSize (file : PerfFile) (index : Nat) : Nat :=
  word file.sections (index * perfFileSectionSize + 8)

def sectionBytes (file : PerfFile) (index : Nat) : List UInt8 :=
  (file.bytes.drop (file.sectionOffset index)).take (file.sectionSize index)

def timePlace (file : PerfFile) : Nat := perfEventHeaderSize + sampleTimeOffsetOf file.sampleType

def IsSample (record : List UInt8) : Prop := perfEventType record = perfRecordSample

instance decidableIsSample (record : List UInt8) : Decidable (IsSample record) :=
  inferInstanceAs (Decidable (_ = _))

def time (file : PerfFile) (record : List UInt8) : Nat := word record file.timePlace

/--
A perf file whose parts fit together.  Nothing is said of what the entries of
the features point at, and there need not be a feature.
-/
structure Complete (file : PerfFile) : Prop where
  headerLength : file.header.length = perfFileHeaderSize
  magic : file.header.take perfMagic.length = perfMagic
  attrsBehindHeader : perfFileHeaderSize ≤ PerfFileHeader.attrsOffset file.header
  attrsBeforeData : PerfFileHeader.attrsOffset file.header + PerfFileHeader.attrsSize file.header ≤
    PerfFileHeader.dataOffset file.header
  wholeAttr : perfFileAttrSize ≤ PerfFileHeader.attrSize file.header
  attrInAttrs : PerfFileHeader.attrSize file.header ≤ PerfFileHeader.attrsSize file.header
  attrCount : PerfFileHeader.attrsSize file.header / PerfFileHeader.attrSize file.header < 2 ^ 31
  samplesHaveTime : hasSampleTime file.sampleType = true
  dataOffset : PerfFileHeader.dataOffset file.header = perfFileHeaderSize + file.preamble.length
  dataSize : PerfFileHeader.dataSize file.header = file.records.flatten.length
  recordSize : ∀ record ∈ file.records, perfEventHeaderSize ≤ record.length ∧
    perfEventSize record = record.length
  sectionsLength : file.sections.length = file.featureCount * perfFileSectionSize

namespace Complete

variable {file : PerfFile}

section

variable (complete : file.Complete)
include complete

theorem sampleTypeInAttr : 32 ≤ PerfFileHeader.attrSize file.header :=
  Nat.le_trans (by decide) complete.wholeAttr

theorem dataEnd_eq :
    file.dataEnd = perfFileHeaderSize + file.preamble.length + file.records.flatten.length := by
  rw [dataEnd, complete.dataOffset, complete.dataSize]

theorem length_bytes :
    file.bytes.length = file.dataEnd + file.sections.length + file.tail.length := by
  simp only [bytes, length_append, complete.dataEnd_eq, complete.headerLength]

theorem take_header : file.bytes.take perfFileHeaderSize = file.header := by
  simp only [bytes, append_assoc]
  exact take_left' complete.headerLength

theorem drop_header : file.bytes.drop perfFileHeaderSize = file.preamble ++
    (file.records.flatten ++ (file.sections ++ file.tail)) := by
  simp only [bytes, append_assoc]
  exact drop_left' complete.headerLength

theorem drop_dataOffset : file.bytes.drop (PerfFileHeader.dataOffset file.header) =
    file.records.flatten ++ (file.sections ++ file.tail) := by
  rw [complete.dataOffset, ← drop_drop, complete.drop_header, drop_left]

theorem drop_dataEnd : file.bytes.drop file.dataEnd = file.sections ++ file.tail := by
  rw [dataEnd, complete.dataSize, ← drop_drop, complete.drop_dataOffset, drop_left]

end

end Complete

structure WellFormed (file : PerfFile) : Prop where
  headerLength : file.header.length = perfFileHeaderSize
  magic : file.header.take perfMagic.length = perfMagic
  attrsBehindHeader : perfFileHeaderSize ≤ PerfFileHeader.attrsOffset file.header
  attrsBeforeData : PerfFileHeader.attrsOffset file.header + PerfFileHeader.attrsSize file.header ≤
    PerfFileHeader.dataOffset file.header
  wholeAttr : perfFileAttrSize ≤ PerfFileHeader.attrSize file.header
  attrInAttrs : PerfFileHeader.attrSize file.header ≤ PerfFileHeader.attrsSize file.header
  attrCount : PerfFileHeader.attrsSize file.header / PerfFileHeader.attrSize file.header < 2 ^ 31
  samplesHaveTime : hasSampleTime file.sampleType = true
  dataOffset : PerfFileHeader.dataOffset file.header = perfFileHeaderSize + file.preamble.length
  dataSize : PerfFileHeader.dataSize file.header = file.records.flatten.length
  recordSize : ∀ record ∈ file.records, perfEventHeaderSize ≤ record.length ∧
    perfEventSize record = record.length
  timeInRecord : ∀ record ∈ file.records, IsSample record → file.timePlace + 8 ≤ record.length
  hasFeature : 0 < file.featureCount
  sectionsLength : file.sections.length = file.featureCount * perfFileSectionSize
  sectionsBehind : ∀ index < file.featureCount,
    file.dataEnd + file.sections.length ≤ file.sectionOffset index ∧
      file.sectionOffset index + file.sectionSize index ≤ file.bytes.length

namespace WellFormed

variable {file : PerfFile}

section

variable (wellFormed : file.WellFormed)
include wellFormed

theorem complete : file.Complete where
  headerLength := wellFormed.headerLength
  magic := wellFormed.magic
  attrsBehindHeader := wellFormed.attrsBehindHeader
  attrsBeforeData := wellFormed.attrsBeforeData
  wholeAttr := wellFormed.wholeAttr
  attrInAttrs := wellFormed.attrInAttrs
  attrCount := wellFormed.attrCount
  samplesHaveTime := wellFormed.samplesHaveTime
  dataOffset := wellFormed.dataOffset
  dataSize := wellFormed.dataSize
  recordSize := wellFormed.recordSize
  sectionsLength := wellFormed.sectionsLength

theorem sampleTypeInAttr : 32 ≤ PerfFileHeader.attrSize file.header :=
  wellFormed.complete.sampleTypeInAttr

theorem dataEnd_eq :
    file.dataEnd = perfFileHeaderSize + file.preamble.length + file.records.flatten.length :=
  wellFormed.complete.dataEnd_eq

theorem length_bytes : file.bytes.length = file.dataEnd + file.sections.length + file.tail.length :=
  wellFormed.complete.length_bytes

theorem drop_sections {place : Nat} (behind : file.dataEnd + file.sections.length ≤ place) :
    file.bytes.drop place = file.tail.drop (place - (file.dataEnd + file.sections.length)) := by
  calc
    file.bytes.drop place = ((file.bytes.drop file.dataEnd).drop file.sections.length).drop
      (place - (file.dataEnd + file.sections.length)) := by
      rw [drop_drop, drop_drop, ← add_assoc, Nat.add_sub_cancel' behind]
    _ = _ := by rw [wellFormed.complete.drop_dataEnd, drop_left]

end

end WellFormed

def IsLate (file : PerfFile) (window : SplitWindow) (record : List UInt8) : Prop :=
  IsSample record ∧ window.maxTime < file.time record

def InWindow (file : PerfFile) (window : SplitWindow) (record : List UInt8) : Prop :=
  IsSample record → window.minTime ≤ file.time record ∧ file.time record ≤ window.maxTime

instance decidableIsLate (file : PerfFile) (window : SplitWindow)
    (record : List UInt8) : Decidable (file.IsLate window record) :=
  inferInstanceAs (Decidable (_ ∧ _))

instance decidableInWindow (file : PerfFile) (window : SplitWindow)
    (record : List UInt8) : Decidable (file.InWindow window record) :=
  inferInstanceAs (Decidable (_ → _))

/--
The records that a window keeps: those in it that precede the first sample
later than it.
-/
def recordsIn (file : PerfFile) (window : SplitWindow) : List (List UInt8) :=
  (file.records.takeWhile fun record =>
    decide (¬ file.IsLate window record)).filter fun record => decide (file.InWindow window record)

/--
A perf file is the split of a file by a window: it has the records that the
window keeps, the header has their size, and the entries of the features point
at the bytes they pointed at.
-/
structure IsSplit (file : PerfFile) (window : SplitWindow)
    (split : PerfFile) : Prop where
  wellFormed : split.WellFormed
  header : split.header = PerfFileHeader.setDataSize file.header split.records.flatten.length
  preamble : split.preamble = file.preamble
  records : split.records = file.recordsIn window
  sectionBytes : ∀ index < file.featureCount, split.sectionBytes index = file.sectionBytes index
  tail : split.tail = file.tail

end PerfFile

namespace PerfFileHeader

variable {header : List UInt8} {size : Nat}

section

variable (length : header.length = perfFileHeaderSize)
include length

theorem length_setDataSize : (setDataSize header size).length = perfFileHeaderSize := by
  have inside : 48 + 8 ≤ header.length := by
    rw [length, perfFileHeaderSize]
    decide
  rw [setDataSize, length_setWord inside, length]

theorem dataSize_setDataSize (small : size < 2 ^ 64) :
    dataSize (setDataSize header size) = size := by
  refine word_setWord ?_ small
  rw [length, perfFileHeaderSize]
  decide

theorem take_setDataSize {count : Nat} (front : count ≤ 48) :
    (setDataSize header size).take count = header.take count := by
  refine take_setWord ?_ front
  rw [length, perfFileHeaderSize]
  decide

theorem word_setDataSize {place : Nat} (front : place + 8 ≤ 48) :
    word (setDataSize header size) place = word header place := by
  refine word_setWord_front ?_ front
  rw [length, perfFileHeaderSize]
  decide

theorem features_setDataSize : features (setDataSize header size) = features header := by
  rw [features, features, setDataSize, drop_setWord]
  · rw [length, perfFileHeaderSize]
    decide
  · decide

end

end PerfFileHeader

namespace PerfDataParser

theorem length_patchSections {count drop : Nat} {bytes : List UInt8}
    (length : bytes.length = count * perfFileSectionSize) :
    (patchSections count drop bytes).length = count * perfFileSectionSize := by
  induction count generalizing bytes with
  | zero => exact length
  | succ count induction =>
    simp only [perfFileSectionSize] at length induction ⊢
    have first : (bytes.take 16).length = 16 := length_take_of_le (by omega)
    have others : (bytes.drop 16).length = count * 16 := by
      rw [length_drop]
      omega
    rw [patchSections, length_append, perfFileSectionSize,
      length_setWord (by omega), first, induction others]
    omega

theorem word_patchSections {count drop index : Nat} {bytes : List UInt8}
    (length : bytes.length = count * perfFileSectionSize) (inside : index < count) :
    word (patchSections count drop bytes) (index * perfFileSectionSize) =
      subWord (word bytes (index * perfFileSectionSize)) drop ∧
      word (patchSections count drop bytes) (index * perfFileSectionSize + 8) =
        word bytes (index * perfFileSectionSize + 8) := by
  induction count generalizing bytes index with
  | zero => exact absurd inside (Nat.not_lt_zero index)
  | succ count induction =>
    simp only [perfFileSectionSize] at length induction ⊢
    have first : (bytes.take 16).length = 16 := length_take_of_le (by omega)
    have others : (bytes.drop 16).length = count * 16 := by
      rw [length_drop]
      omega
    have patched : (setWord (bytes.take 16) 0 (subWord (word bytes 0) drop)).length = 16 := by
      rw [length_setWord (by omega), first]
    rw [patchSections, perfFileSectionSize]
    cases index with
    | zero =>
      rw [zero_mul, zero_add, word_append_left (by omega), word_append_left (by omega)]
      constructor
      · exact word_setWord (by omega) (Nat.mod_lt _ (by decide))
      · rw [word_setWord_behind (by omega) (by decide), word_take (by decide)]
    | succ index =>
      have place : (index + 1) * 16 = 16 + index * 16 := by omega
      rw [place, add_assoc, word_append_right patched,
        word_append_right patched, ← word_drop bytes 16,
        ← word_drop bytes 16]
      exact induction others (Nat.lt_of_succ_lt_succ inside)

end PerfDataParser

namespace PerfFile

/-! ## A file with some of the records -/

def withRecords (file : PerfFile) (records : List (List UInt8)) : PerfFile where
  header := PerfFileHeader.setDataSize file.header records.flatten.length
  preamble := file.preamble
  records := records
  sections :=
    PerfDataParser.patchSections file.featureCount
      (file.records.flatten.length - records.flatten.length) file.sections
  tail := file.tail

section WithRecords

variable {file : PerfFile} {records : List (List UInt8)}

section

variable (wellFormed : file.WellFormed)
include wellFormed

theorem featureCount_withRecords : (file.withRecords records).featureCount = file.featureCount := by
  rw [featureCount, withRecords, PerfFileHeader.features_setDataSize wellFormed.headerLength]
  rfl

theorem length_sections_withRecords (records : List (List UInt8)) :
    (file.withRecords records).sections.length = file.sections.length := by
  rw [wellFormed.sectionsLength]
  exact PerfDataParser.length_patchSections wellFormed.sectionsLength

theorem dataOffset_withRecords : PerfFileHeader.dataOffset (file.withRecords records).header =
    PerfFileHeader.dataOffset file.header :=
  PerfFileHeader.word_setDataSize wellFormed.headerLength (by decide)

theorem attrsOffset_withRecords : PerfFileHeader.attrsOffset (file.withRecords records).header =
    PerfFileHeader.attrsOffset file.header :=
  PerfFileHeader.word_setDataSize wellFormed.headerLength (by decide)

theorem attrsSize_withRecords : PerfFileHeader.attrsSize (file.withRecords records).header =
    PerfFileHeader.attrsSize file.header :=
  PerfFileHeader.word_setDataSize wellFormed.headerLength (by decide)

theorem attrSize_withRecords : PerfFileHeader.attrSize (file.withRecords records).header =
    PerfFileHeader.attrSize file.header :=
  PerfFileHeader.word_setDataSize wellFormed.headerLength (by decide)

theorem sampleType_withRecords : (file.withRecords records).sampleType = file.sampleType := by
  have place : ∃ inside, PerfFileHeader.attrsOffset file.header + 24 = perfFileHeaderSize + inside ∧
    inside + 8 ≤ file.preamble.length := by
    refine ⟨PerfFileHeader.attrsOffset file.header + 24 - perfFileHeaderSize, ?_, ?_⟩
    · have := wellFormed.attrsBehindHeader
      omega
    · have := wellFormed.attrsBehindHeader
      have := wellFormed.attrsBeforeData
      have := wellFormed.sampleTypeInAttr
      have := wellFormed.attrInAttrs
      have := wellFormed.dataOffset
      omega
  rcases place with ⟨inside, place, fits⟩
  have patchedLength : (PerfFileHeader.setDataSize file.header
    records.flatten.length).length = perfFileHeaderSize :=
    PerfFileHeader.length_setDataSize wellFormed.headerLength
  rw [sampleType, attrsOffset_withRecords wellFormed, sampleType, place, bytes, bytes]
  simp only [withRecords, append_assoc]
  rw [word_append_right patchedLength, word_append_left fits,
    word_append_right wellFormed.headerLength, word_append_left fits]

end

theorem length_flatten_le (kept : records.Sublist file.records) :
    records.flatten.length ≤ file.records.flatten.length :=
  kept.flatten.length_le

variable (wellFormed : file.WellFormed)
  (kept : records.Sublist file.records)
  (addressable : file.bytes.length < 2 ^ 64)

include wellFormed kept addressable

theorem dataSize_withRecords :
    PerfFileHeader.dataSize (file.withRecords records).header = records.flatten.length := by
  refine PerfFileHeader.dataSize_setDataSize wellFormed.headerLength ?_
  have := length_flatten_le kept
  have := wellFormed.length_bytes
  have := wellFormed.dataEnd_eq
  omega

theorem dataEnd_withRecords :
    (file.withRecords records).dataEnd + (file.records.flatten.length - records.flatten.length) =
      file.dataEnd := by
  rw [dataEnd, dataEnd, dataOffset_withRecords wellFormed,
    dataSize_withRecords wellFormed kept addressable, wellFormed.dataSize]
  have := length_flatten_le kept
  omega

omit addressable in
theorem length_withRecords : (file.withRecords records).bytes.length +
    (file.records.flatten.length - records.flatten.length) =
    file.bytes.length := by
  have sections := length_sections_withRecords wellFormed records
  have header : (file.withRecords records).header.length = perfFileHeaderSize :=
    PerfFileHeader.length_setDataSize wellFormed.headerLength
  have := length_flatten_le kept
  simp only [bytes, length_append, header, sections, wellFormed.headerLength]
  simp only [withRecords]
  omega

omit kept addressable in
theorem sectionOffset_withRecords
    (records : List (List UInt8)) {index : Nat} (inside : index < file.featureCount) :
    (file.withRecords records).sectionOffset index +
      (file.records.flatten.length - records.flatten.length) = file.sectionOffset index := by
  have patched : word (file.withRecords records).sections (index * perfFileSectionSize) =
    subWord (file.sectionOffset index) (file.records.flatten.length - records.flatten.length) :=
    (PerfDataParser.word_patchSections wellFormed.sectionsLength inside).1
  have behind := (wellFormed.sectionsBehind index inside).1
  have dataEnd := wellFormed.dataEnd_eq
  have small : file.records.flatten.length - records.flatten.length ≤ file.sectionOffset index := by
    omega
  have bound : file.sectionOffset index < 2 ^ 64 := word_lt _ _
  rw [subWord_of_le bound small] at patched
  rw [sectionOffset, patched]
  exact Nat.sub_add_cancel small

omit kept addressable in
theorem sectionSize_withRecords {index : Nat} (inside : index < file.featureCount) :
    (file.withRecords records).sectionSize index = file.sectionSize index :=
  (PerfDataParser.word_patchSections wellFormed.sectionsLength inside).2

theorem withRecords_wellFormed : (file.withRecords records).WellFormed where
  headerLength := PerfFileHeader.length_setDataSize wellFormed.headerLength
  magic :=
    (PerfFileHeader.take_setDataSize wellFormed.headerLength (by decide)).trans wellFormed.magic
  attrsBehindHeader := by
    rw [attrsOffset_withRecords wellFormed]
    exact wellFormed.attrsBehindHeader
  attrsBeforeData := by
    rw [attrsOffset_withRecords wellFormed,
      attrsSize_withRecords wellFormed, dataOffset_withRecords wellFormed]
    exact wellFormed.attrsBeforeData
  wholeAttr := by
    rw [attrSize_withRecords wellFormed]
    exact wellFormed.wholeAttr
  attrInAttrs := by
    rw [attrSize_withRecords wellFormed, attrsSize_withRecords wellFormed]
    exact wellFormed.attrInAttrs
  attrCount := by
    rw [attrSize_withRecords wellFormed, attrsSize_withRecords wellFormed]
    exact wellFormed.attrCount
  samplesHaveTime := by
    rw [sampleType_withRecords wellFormed]
    exact wellFormed.samplesHaveTime
  dataOffset := by
    rw [dataOffset_withRecords wellFormed]
    exact wellFormed.dataOffset
  dataSize := dataSize_withRecords wellFormed kept addressable
  recordSize := fun record present => wellFormed.recordSize record (kept.subset present)
  timeInRecord := fun record present sample => by
    rw [timePlace, sampleType_withRecords wellFormed]
    exact wellFormed.timeInRecord record (kept.subset present) sample
  hasFeature := by
    rw [featureCount_withRecords wellFormed]
    exact wellFormed.hasFeature
  sectionsLength := by
    rw [length_sections_withRecords wellFormed records, featureCount_withRecords wellFormed]
    exact wellFormed.sectionsLength
  sectionsBehind := fun index inside => by
    rw [featureCount_withRecords wellFormed] at inside
    rw [sectionSize_withRecords wellFormed inside, length_sections_withRecords wellFormed]
    have offset := sectionOffset_withRecords wellFormed records inside
    have dataEnd := dataEnd_withRecords wellFormed kept addressable
    have length := length_withRecords wellFormed kept
    have behind := wellFormed.sectionsBehind index inside
    omega

theorem sectionBytes_withRecords {index : Nat} (inside : index < file.featureCount) :
    (file.withRecords records).sectionBytes index = file.sectionBytes index := by
  have sections := length_sections_withRecords wellFormed records
  have offset := sectionOffset_withRecords wellFormed records inside
  have dataEnd := dataEnd_withRecords wellFormed kept addressable
  have behind := (wellFormed.sectionsBehind index inside).1
  have patched := withRecords_wellFormed wellFormed kept addressable
  have same : (file.withRecords records).sectionOffset index - ((file.withRecords records).dataEnd +
    (file.withRecords records).sections.length) =
    file.sectionOffset index - (file.dataEnd + file.sections.length) := by
    omega
  rw [sectionBytes, sectionSize_withRecords wellFormed inside,
    patched.drop_sections (by omega), same, sectionBytes,
    wellFormed.drop_sections behind]
  rfl

end WithRecords

theorem recordsIn_sublist (file : PerfFile) (window : SplitWindow) :
    (file.recordsIn window).Sublist file.records :=
  filter_sublist.trans (takeWhile_sublist _)

theorem isSplit_withRecords {file : PerfFile} {window : SplitWindow}
    (wellFormed : file.WellFormed) (addressable : file.bytes.length < 2 ^ 64) :
    file.IsSplit window (file.withRecords (file.recordsIn window)) where
  wellFormed := withRecords_wellFormed wellFormed (file.recordsIn_sublist window) addressable
  header := rfl
  preamble := rfl
  records := rfl
  sectionBytes := fun _ inside =>
    sectionBytes_withRecords wellFormed (file.recordsIn_sublist window) addressable inside
  tail := rfl

end PerfFile

end SysAnalyzer.Parser
