import SysAnalyzer.Foundation.Words

/-!
# Splitting an ebpf section

`EbpfSplitter` gets the body of an ebpf section in pieces and collects what a
part of the file is made of: the header of the section, that of the ebpf data
and the ranges of the items that are public or in the window of the part.  Of
the header of the section, which is given as a piece of memory, only the length
is used and changed.
-/

namespace SysAnalyzer.Parser

open Foundation

/-! ## The formats -/

/-- `sizeof(ProfilerTraceFileHeader)`. -/
def profilerTraceFileHeaderSize : UInt64 := 1024

namespace EbpfDataHeader

def ebpfDataHeaderSize : Nat := 1024

def headerMagic : Nat := 0x454C494646504245

def magic (header : List UInt8) : Nat := word header 0

def headSize (header : List UInt8) : Nat := littleEndian ((header.drop 8).take 4)

end EbpfDataHeader

/-- `EBPF_DATA_TYPE`. -/
def itemEventMaps : UInt32 := 0

@[inherit_doc itemEventMaps] def itemSymbolInfo : UInt32 := 1

@[inherit_doc itemEventMaps] def itemEventFs : UInt32 := 2

@[inherit_doc itemEventMaps] def itemEventVm : UInt32 := 3

@[inherit_doc itemEventMaps] def itemEventBio : UInt32 := 4

@[inherit_doc itemEventMaps] def itemEventStr : UInt32 := 5

@[inherit_doc itemEventMaps] def itemEventKenelSymbolInfo : UInt32 := 0x10001

structure EbpfTypeAndLength where
  type : UInt32
  length : UInt32

def ebpfTitleSize : UInt32 := 8

def readTitle (buffer : List UInt8) : EbpfTypeAndLength where
  type := UInt32.ofNat (littleEndian (buffer.take 4))
  length := UInt32.ofNat (littleEndian ((buffer.drop 4).take 4))

structure FixedHeader where
  size : Nat
  startTime : Nat
  endTime : Nat

def fsFixedHeader : FixedHeader := ⟨104, 16, 24⟩

def pagedMemoryFixedHeader : FixedHeader := ⟨80, 16, 24⟩

def bioFixedHeader : FixedHeader := ⟨80, 24, 32⟩

/-- The items of these types belong to every part of the file. -/
def IsPublic (type : UInt32) : Prop :=
  type = itemEventMaps ∨ type = itemSymbolInfo ∨ type = itemEventStr ∨
    type = itemEventKenelSymbolInfo

instance (type : UInt32) : Decidable (IsPublic type) := inferInstanceAs (Decidable (_ ∨ _))

/-- The items of these types belong to the parts that they happen in. -/
def fixedHeaderOf (type : UInt32) : Option FixedHeader :=
  if type = itemEventFs then some fsFixedHeader
  else if type = itemEventVm then some pagedMemoryFixedHeader
  else if type = itemEventBio then some bioFixedHeader
  else none

/-- `HtraceSplitResult`: a header in memory or a range of the file. -/
inductive EbpfSplitResult where
  | profilerHeader
  | ebpfHeader
  | json (offset size : UInt64)

/-- `EbpfSplitter`; `length` is that of `profilerHeader_`. -/
structure EbpfSplitter where
  splittedLen : UInt64
  usefulDataLen : UInt64
  ebpfBuffer : List UInt8
  offsetOfEbpfDataInFile : UInt64
  splitFileMinTs : UInt64
  splitFileMaxTs : UInt64
  ebpfSplitResult : List EbpfSplitResult
  ebpfHeader : Option (List UInt8)
  length : UInt64

namespace EbpfSplitter

def splitEbpfHeader (splitter : EbpfSplitter) : Bool × EbpfSplitter :=
  let header := splitter.ebpfBuffer.take EbpfDataHeader.ebpfDataHeaderSize
  let withHeader := { splitter with ebpfHeader := some header }
  if EbpfDataHeader.magic header ≠ EbpfDataHeader.headerMagic then (false, withHeader)
  else if EbpfDataHeader.headSize header ≠ EbpfDataHeader.ebpfDataHeaderSize then
    (false, withHeader)
  else
    (true, { withHeader with
      splittedLen :=
        splitter.splittedLen +
          UInt64.ofNat EbpfDataHeader.ebpfDataHeaderSize
      ebpfBuffer := splitter.ebpfBuffer.drop EbpfDataHeader.ebpfDataHeaderSize })

def inWindow (splitter : EbpfSplitter) (layout : FixedHeader) (header : List UInt8) : Bool :=
  decide (UInt64.ofNat (word header layout.endTime) ≤ splitter.splitFileMaxTs ∧
    splitter.splitFileMinTs ≤ UInt64.ofNat (word header layout.startTime))

/-- An item of some type is one of the part; its `data` follow the title. -/
def wants (splitter : EbpfSplitter) (type : UInt32) (data : List UInt8) : Bool :=
  if IsPublic type then true
  else
    match fixedHeaderOf type with
    | none => false
    | some layout => splitter.inWindow layout (data.take layout.size)

/-- One pass of the loop of `SplitEbpfBodyData`. -/
def splitItem (splitter : EbpfSplitter) (dataTitle : EbpfTypeAndLength) : EbpfSplitter :=
  let segLen := ebpfTitleSize + dataTitle.length
  let wanted := splitter.wants dataTitle.type (splitter.ebpfBuffer.drop ebpfTitleSize.toNat)
  { splitter with
    splittedLen := splitter.splittedLen + segLen.toUInt64
    usefulDataLen :=
      if wanted then splitter.usefulDataLen + segLen.toUInt64
      else splitter.usefulDataLen
    ebpfBuffer := splitter.ebpfBuffer.drop segLen.toNat
    ebpfSplitResult :=
      if wanted then
        splitter.ebpfSplitResult ++
          [.json (splitter.offsetOfEbpfDataInFile + splitter.splittedLen)
            segLen.toUInt64]
      else splitter.ebpfSplitResult }

def left (splitter : EbpfSplitter) : UInt64 :=
  splitter.length - profilerTraceFileHeaderSize - splitter.splittedLen

/--
`SplitEbpfBodyData`; `none` where the loop does not end.  The length of an item
and its title is a number of 32 bits, and where it comes out as zero the loop
finds the same title again.
-/
def splitEbpfBodyData (splitter : EbpfSplitter) : Option EbpfSplitter :=
  if ebpfTitleSize.toUInt64 < splitter.left ∧ ebpfTitleSize.toNat < splitter.ebpfBuffer.length then
    let dataTitle := readTitle splitter.ebpfBuffer
    if splitter.ebpfBuffer.length < (dataTitle.length + ebpfTitleSize).toNat then some splitter
    else if ebpfTitleSize + dataTitle.length = 0 then none
    else (splitter.splitItem dataTitle).splitEbpfBodyData
  else some splitter
termination_by splitter.ebpfBuffer.length
decreasing_by
  rename_i going _ some
  have behindTitle : 8 < splitter.ebpfBuffer.length := going.2
  have positive : 0 < (ebpfTitleSize + (readTitle splitter.ebpfBuffer).length).toNat := by
    refine Nat.pos_of_ne_zero fun zero => some ?_
    exact UInt32.toNat_inj.1 zero
  simp only [splitItem, List.length_drop]
  exact Nat.sub_lt (Nat.zero_lt_of_lt behindTitle) positive

/-- The end of `AddAndSplitEbpfData`. -/
def splitBody (splitter : EbpfSplitter) : Option EbpfSplitter :=
  splitter.splitEbpfBodyData.map fun split =>
    if split.left < ebpfTitleSize.toUInt64 then
      { split with
        length :=
          split.usefulDataLen + profilerTraceFileHeaderSize +
            UInt64.ofNat EbpfDataHeader.ebpfDataHeaderSize }
    else split

def addAndSplitEbpfData (splitter : EbpfSplitter)
    (dequeBuffer : List UInt8) : Option EbpfSplitter :=
  let received := { splitter with ebpfBuffer := splitter.ebpfBuffer ++ dequeBuffer }
  if received.ebpfHeader.isNone then
    let announced :=
      { received with
        ebpfSplitResult := received.ebpfSplitResult ++ [.profilerHeader] }
    if EbpfDataHeader.ebpfDataHeaderSize ≤ announced.ebpfBuffer.length then
      -- a header that is refused is queued, too
      let split := announced.splitEbpfHeader.2
      let withHeader : EbpfSplitter :=
        { split with
          ebpfSplitResult := split.ebpfSplitResult ++ [.ebpfHeader] }
      withHeader.splitBody
    else some announced
  else received.splitBody

end EbpfSplitter

end SysAnalyzer.Parser
