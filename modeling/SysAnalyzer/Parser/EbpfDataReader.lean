import SysAnalyzer.Foundation.ByteRange
import SysAnalyzer.Parser.EbpfSplitter

/-!
# Reading the items of an ebpf body

`EbpfDataReader` goes through the items of a body and enters the symbols of the
ELF files and of the kernel into tables.  A pointer is a place in the buffer, and
`size_t` has 64 bits.  What the symbol tables are read with is recorded: each
divisor, and where each entry and each name starts.
-/

namespace SysAnalyzer.Parser

open Foundation List

/-! ## The formats -/

/-- A number of `count` bytes at a place of the buffer. -/
def readNumber (buffer : List UInt8) (place count : Nat) : Nat :=
  littleEndian ((buffer.drop place).take count)

/-- The characters from a place on and before the first zero. -/
def readString (buffer : List UInt8) (place : Nat) : List UInt8 :=
  (buffer.drop place).takeWhile (fun byte => byte ≠ 0)

/-- `sizeof(MapsFixedHeader)`. -/
def mapsFixedHeaderSize : Nat := 28

/-- `sizeof(ElfEventFixedHeader)`. -/
def elfEventFixedHeaderSize : Nat := 28

/-- `sizeof(StrEventFixedHeader)`. -/
def strEventFixedHeaderSize : Nat := 32

/-- `sizeof(KernelSymbolInfoHeader)`. -/
def kernelSymbolInfoHeaderSize : Nat := 24

/-- `sizeof(KernelSymItem)`. -/
def kernelSymItemSize : Nat := 16

/-- `ElfEventFixedHeader`, as far as it is read here. -/
structure ElfEventFixedHeader where
  strTabLen : Nat
  symTabLen : Nat
  fileNameLen : Nat
  symEntLen : Nat

def ElfEventFixedHeader.read (buffer : List UInt8) (elfAddr : Nat) : ElfEventFixedHeader where
  strTabLen := readNumber buffer (elfAddr + 12) 4
  symTabLen := readNumber buffer (elfAddr + 16) 4
  fileNameLen := readNumber buffer (elfAddr + 20) 4
  symEntLen := readNumber buffer (elfAddr + 24) 4

structure KernelSymbolInfoHeader where
  vaddrStart : Nat
  vaddrEnd : Nat
  symTabLen : Nat
  strTabLen : Nat

def KernelSymbolInfoHeader.read (buffer : List UInt8) (elfAddr : Nat) : KernelSymbolInfoHeader where
  vaddrStart := readNumber buffer elfAddr 8
  vaddrEnd := readNumber buffer (elfAddr + 8) 8
  symTabLen := readNumber buffer (elfAddr + 16) 4
  strTabLen := readNumber buffer (elfAddr + 20) 4

structure SymbolFormat where
  size : Nat
  stInfo : Nat
  stValue : Nat
  stValueSize : Nat

def elf32Sym : SymbolFormat := ⟨16, 12, 4, 4⟩

def elf64Sym : SymbolFormat := ⟨24, 4, 8, 8⟩

def sttFunc : Nat := 2

/-! ## The symbol tables -/

/-- What a symbol table is read with. -/
inductive SymbolAccess where
  | division (divisor : Nat)
  | entry (place : Nat)
  | name (place : Nat)
  deriving DecidableEq

/-- `AddrDesc`, with the name that `name` is the index of. -/
structure AddrDesc where
  size : Nat
  name : List UInt8
  deriving DecidableEq

structure SymbolTables where
  elfAddrAndStValueToSymAddr : List ((Nat × Nat) × Nat)
  kernelSymbolMap : List (Nat × AddrDesc)
  maxKernelAddr : Nat
  minKernelAddr : Nat
  accesses : List (ByteRange × SymbolAccess)
  deriving DecidableEq

namespace SymbolTables

def recorded (tables : SymbolTables) (item : ByteRange) (access : SymbolAccess) : SymbolTables :=
  { tables with accesses := tables.accesses ++ [(item, access)] }

/-- One turn of `AddSymbolsToTable`. -/
def addSymbol (buffer : List UInt8) (format : SymbolFormat) (elfAddr : Nat)
    (item : ByteRange) (tables : SymbolTables) (symAddr : Nat) : SymbolTables :=
  let read := tables.recorded item (.entry symAddr)
  let stInfo := readNumber buffer (symAddr + format.stInfo) 1
  let stValue := readNumber buffer (symAddr + format.stValue) format.stValueSize
  if stInfo &&& sttFunc ≠ 0 ∧ stValue ≠ 0 then
    { read with
      elfAddrAndStValueToSymAddr :=
        ((elfAddr, stValue), symAddr) ::
          read.elfAddrAndStValueToSymAddr.filter
            (fun known => known.1 ≠ (elfAddr, stValue)) }
  else read

def addSymbolsToTable (buffer : List UInt8) (format : SymbolFormat)
    (firstSymbolAddr size elfAddr : Nat) (item : ByteRange)
    (tables : SymbolTables) : SymbolTables :=
  ((List.range size).map (fun i => firstSymbolAddr + i * format.size)).foldl
    (addSymbol buffer format elfAddr item) tables

end SymbolTables

/-- The turns of a loop whose bound, an `int`, gets an unsigned number. -/
def intBound (number : Nat) : Nat := if number < 2 ^ 31 then number else 0

namespace ElfEventFixedHeader

def Fits (elf : ElfEventFixedHeader) (size : Nat) : Prop :=
  elfEventFixedHeaderSize + elf.strTabLen + elf.symTabLen + elf.fileNameLen ≤ size

instance (elf : ElfEventFixedHeader) (size : Nat) : Decidable (elf.Fits size) :=
  inferInstanceAs (Decidable (_ ≤ _))

def format (elf : ElfEventFixedHeader) : SymbolFormat :=
  if elf.symEntLen = elf32Sym.size then elf32Sym else elf64Sym

/-- The entries that are read. -/
def symbolCount (elf : ElfEventFixedHeader) : Nat := intBound (elf.symTabLen / elf.symEntLen)

end ElfEventFixedHeader

/--
`UpdateElfAddrAndStValueToSymAddrMap`; the flag says that the program is still
there, which ends when it divides by zero.
-/
def updateElfAddrAndStValueToSymAddrMap (buffer : List UInt8)
    (elfAddr size : Nat) (tables : SymbolTables) : SymbolTables × Bool :=
  let elf := ElfEventFixedHeader.read buffer elfAddr
  let item : ByteRange := ⟨elfAddr, elfAddr + size⟩
  if elf.Fits size then
    let symTabHeadAddr := elfAddr + elfEventFixedHeaderSize + elf.strTabLen
    let divided := tables.recorded item (.division elf.symEntLen)
    if elf.symEntLen = 0 then (divided, false)
    else
      (divided.addSymbolsToTable buffer elf.format symTabHeadAddr
        elf.symbolCount elfAddr item, true)
  else (tables, true)

def maxSymbolLength : Nat := 256

/-- What `strncpy_s` leaves in `strSymbolName_`: nothing of a text too long. -/
def copiedName (buffer : List UInt8) (place : Nat) : List UInt8 :=
  if (readString buffer place).length < maxSymbolLength then readString buffer place
  else []

namespace KernelSymbolInfoHeader

def Fits (elf : KernelSymbolInfoHeader) (size : Nat) : Prop :=
  kernelSymbolInfoHeaderSize + elf.symTabLen + elf.strTabLen ≤ size

instance (elf : KernelSymbolInfoHeader) (size : Nat) : Decidable (elf.Fits size) :=
  inferInstanceAs (Decidable (_ ≤ _))

def sysItemSize (elf : KernelSymbolInfoHeader) : Nat := elf.symTabLen / kernelSymItemSize

end KernelSymbolInfoHeader

/-- The place of an entry of the kernel's table. -/
def kernelSymItemAddr (elfAddr i : Nat) : Nat :=
  elfAddr + kernelSymbolInfoHeaderSize + i * kernelSymItemSize

/-- `nameOffset` of an entry of the kernel's table. -/
def kernelNameOffset (buffer : List UInt8) (elfAddr i : Nat) : Nat :=
  readNumber buffer (kernelSymItemAddr elfAddr i + 12) 4

namespace SymbolTables

/-- One turn of the loop of `ReadKernelSymAddrMap`. -/
def addKernelSymbol (buffer : List UInt8) (elfAddr strTab : Nat)
    (item : ByteRange) (tables : SymbolTables) (i : Nat) : SymbolTables :=
  let place := kernelSymItemAddr elfAddr i
  let namePlace := strTab + kernelNameOffset buffer elfAddr i
  let read := (tables.recorded item (.entry place)).recorded item (.name namePlace)
  let value := readNumber buffer place 8
  let desc : AddrDesc := ⟨readNumber buffer (place + 8) 4, copiedName buffer namePlace⟩
  if read.kernelSymbolMap.any (fun known => known.1 = value) then read
  else { read with kernelSymbolMap := (value, desc) :: read.kernelSymbolMap }

end SymbolTables

def readKernelSymAddrMap (buffer : List UInt8) (elfAddr size : Nat)
    (tables : SymbolTables) : SymbolTables :=
  let elf := KernelSymbolInfoHeader.read buffer elfAddr
  let item : ByteRange := ⟨elfAddr, elfAddr + size⟩
  if elf.Fits size then
    (List.range elf.sysItemSize).foldl (SymbolTables.addKernelSymbol buffer elfAddr
      (kernelSymItemAddr elfAddr elf.sysItemSize) item)
      { tables with
        maxKernelAddr := elf.vaddrEnd
        minKernelAddr := elf.vaddrStart }
  else tables

/-! ## The reader -/

/-- `EbpfDataReader`; a write behind the buffer changes none of its bytes. -/
structure EbpfDataReader where
  buffer : List UInt8
  startAddr : Nat
  unresolvedLen : Nat
  tables : SymbolTables
  elfPathToElfFixedHeaderAddr : List (List UInt8 × Nat)
  deriving DecidableEq

namespace EbpfDataReader

def advance (reader : EbpfDataReader) (count : Nat) : EbpfDataReader :=
  { reader with
    startAddr := reader.startAddr + count
    unresolvedLen := reader.unresolvedLen - count }

/--
`UpdateElfPathIndexToElfAddrMap`, which is called also when the announced tables
do not fit: the space left for the name then wraps around.
-/
def updateElfPathIndexToElfAddrMap
    (reader : EbpfDataReader) (elfAddr size : Nat) : EbpfDataReader :=
  let elf := ElfEventFixedHeader.read reader.buffer elfAddr
  let left := subWord (subWord (size - elfEventFixedHeaderSize) elf.strTabLen) elf.symTabLen
  if left < elf.fileNameLen ∨ elf.fileNameLen = 0 then reader
  else
    let fileNameAddr := elfAddr + elfEventFixedHeaderSize + elf.strTabLen + elf.symTabLen
    let ended := reader.buffer.set (fileNameAddr + (elf.fileNameLen - 1)) 0
    let path := readString ended fileNameAddr
    { reader with
      buffer := ended
      elfPathToElfFixedHeaderAddr :=
        if reader.elfPathToElfFixedHeaderAddr.any
          (fun known => known.1 = path) then
          reader.elfPathToElfFixedHeaderAddr
        else (path, elfAddr) :: reader.elfPathToElfFixedHeaderAddr }

/--
A reader and what was returned; nothing when the program ended in a division by
zero.
-/
abbrev Outcome := EbpfDataReader × Option Bool

def readItemSymbolInfo (reader : EbpfDataReader) (elfAddr size : Nat) : Outcome :=
  if size < elfEventFixedHeaderSize then (reader, some false)
  else
    let updated := updateElfAddrAndStValueToSymAddrMap reader.buffer elfAddr size reader.tables
    let withSymbols := { reader with tables := updated.1 }
    if updated.2 then (withSymbols.updateElfPathIndexToElfAddrMap elfAddr size, some true)
    else (withSymbols, none)

def reaItemKernelSymbolInfo (reader : EbpfDataReader) (elfAddr size : Nat) : Outcome :=
  if size < kernelSymbolInfoHeaderSize then (reader, some false)
  else
    ({ reader with
      tables :=
        readKernelSymAddrMap reader.buffer elfAddr size reader.tables },
      some true)

/-- The check of `ReadItemEventMaps` and of the readers of events. -/
def readItemEvent (headerSize : Nat) (reader : EbpfDataReader) (size : Nat) : Outcome :=
  (reader, some (decide (headerSize ≤ size)))

def readItemEventStr (reader : EbpfDataReader) (addr size : Nat) : Outcome :=
  if size < strEventFixedHeaderSize then (reader, some false)
  else
    let strLen := readNumber reader.buffer (addr + 24) 4
    if size - strEventFixedHeaderSize < strLen ∨ strLen = 0 then (reader, some true)
    else
      ({ reader with
        buffer :=
          reader.buffer.set (addr + strEventFixedHeaderSize + (strLen - 1)) 0 },
        some true)

/-- The choice by the type of the item, which is at `startAddr_`. -/
def readItem (reader : EbpfDataReader) (type : UInt32) (length : Nat) : Outcome :=
  if type = itemEventMaps then readItemEvent mapsFixedHeaderSize reader length
  else if type = itemSymbolInfo then reader.readItemSymbolInfo reader.startAddr length
  else if type = itemEventFs then readItemEvent fsFixedHeader.size reader length
  else if type = itemEventVm then readItemEvent pagedMemoryFixedHeader.size reader length
  else if type = itemEventBio then readItemEvent bioFixedHeader.size reader length
  else if type = itemEventStr then reader.readItemEventStr reader.startAddr length
  else if type = itemEventKenelSymbolInfo then
    reader.reaItemKernelSymbolInfo reader.startAddr length
  else (reader, some true)

inductive Turn where
  | next (reader : EbpfDataReader)
  | stop (outcome : Outcome)
  deriving DecidableEq

def titleAt (reader : EbpfDataReader) (dataTitle : Nat) : EbpfTypeAndLength :=
  readTitle (reader.buffer.drop dataTitle)

/-- One turn of the loop; the length is read again behind the item. -/
def turn (reader : EbpfDataReader) : Turn :=
  if reader.unresolvedLen ≤ ebpfTitleSize.toNat then .stop (reader, some true)
  else
    let dataTitle := reader.startAddr
    let title := reader.titleAt dataTitle
    let behind := reader.advance ebpfTitleSize.toNat
    if behind.unresolvedLen < title.length.toNat then .stop (behind, some false)
    else if title.length = 0 then .next behind
    else
      let done := behind.readItem title.type title.length.toNat
      if done.2 = some true then .next (done.1.advance (done.1.titleAt dataTitle).length.toNat)
      else .stop done

/-- Reading an item changes no byte in front of it and does not move on. -/
structure StaysBehind (before after : EbpfDataReader) : Prop where
  startAddr : after.startAddr = before.startAddr
  unresolvedLen : after.unresolvedLen = before.unresolvedLen
  length : after.buffer.length = before.buffer.length
  front : after.buffer.take before.startAddr = before.buffer.take before.startAddr

variable (reader : EbpfDataReader) (size : Nat)

theorem staysBehind_refl : StaysBehind reader reader := ⟨rfl, rfl, rfl, rfl⟩

theorem staysBehind_updateElfPathIndexToElfAddrMap :
    StaysBehind reader (reader.updateElfPathIndexToElfAddrMap reader.startAddr size) := by
  unfold updateElfPathIndexToElfAddrMap
  dsimp only
  split
  · exact staysBehind_refl reader
  · exact ⟨rfl, rfl, length_set, take_set_of_le (by omega)⟩

theorem staysBehind_readItemSymbolInfo :
    StaysBehind reader (reader.readItemSymbolInfo reader.startAddr size).1 := by
  unfold readItemSymbolInfo
  dsimp only
  split
  · exact staysBehind_refl reader
  · split
    · rcases staysBehind_updateElfPathIndexToElfAddrMap { reader with
        tables :=
          (updateElfAddrAndStValueToSymAddrMap reader.buffer
            reader.startAddr size reader.tables).1 }
        size with ⟨startAddr, unresolvedLen, length, front⟩
      exact ⟨startAddr, unresolvedLen, length, front⟩
    · exact ⟨rfl, rfl, rfl, rfl⟩

theorem staysBehind_reaItemKernelSymbolInfo :
    StaysBehind reader (reader.reaItemKernelSymbolInfo reader.startAddr size).1 := by
  unfold reaItemKernelSymbolInfo
  split
  · exact staysBehind_refl reader
  · exact ⟨rfl, rfl, rfl, rfl⟩

theorem staysBehind_readItemEventStr :
    StaysBehind reader (reader.readItemEventStr reader.startAddr size).1 := by
  unfold readItemEventStr
  dsimp only
  split
  · exact staysBehind_refl reader
  · split
    · exact staysBehind_refl reader
    · exact ⟨rfl, rfl, length_set, take_set_of_le (by omega)⟩

theorem staysBehind_readItem (type : UInt32) :
    StaysBehind reader (reader.readItem type size).1 := by
  unfold readItem
  split
  · exact staysBehind_refl reader
  split
  · exact staysBehind_readItemSymbolInfo reader size
  split
  · exact staysBehind_refl reader
  split
  · exact staysBehind_refl reader
  split
  · exact staysBehind_refl reader
  split
  · exact staysBehind_readItemEventStr reader size
  split
  · exact staysBehind_reaItemKernelSymbolInfo reader size
  · exact staysBehind_refl reader

variable {reader}

theorem unresolvedLen_of_next {next : EbpfDataReader} (more : reader.turn = .next next) :
    next.unresolvedLen < reader.unresolvedLen := by
  unfold turn at more
  split at more
  · cases more
  · rename_i left
    have title : ebpfTitleSize.toNat = 8 := rfl
    dsimp only at more
    split at more
    · cases more
    · split at more
      · injection more with more
        rw [← more, advance]
        dsimp only
        omega
      · split at more
        · injection more with more
          have stays :=
            (staysBehind_readItem (reader.advance ebpfTitleSize.toNat)
              (reader.titleAt reader.startAddr).length.toNat
              (reader.titleAt reader.startAddr).type).unresolvedLen
          rw [← more, advance]
          dsimp only
          rw [stays, advance]
          dsimp only
          omega
        · cases more

/-- `ReadEbpfData`, which ends because each turn takes a title. -/
def readEbpfData (reader : EbpfDataReader) : Outcome :=
  match _more : reader.turn with
  | .next next => readEbpfData next
  | .stop outcome => outcome
termination_by reader.unresolvedLen
decreasing_by exact unresolvedLen_of_next _more

theorem readEbpfData_of_next {next : EbpfDataReader} (more : reader.turn = .next next) :
    reader.readEbpfData = next.readEbpfData := by
  rw [readEbpfData]
  split
  · rename_i same
    rw [more] at same
    cases same
    rfl
  · rename_i same
    rw [more] at same
    cases same

theorem readEbpfData_of_stop {outcome : Outcome} (ends : reader.turn = .stop outcome) :
    reader.readEbpfData = outcome := by
  rw [readEbpfData]
  split
  · rename_i same
    rw [ends] at same
    cases same
  · rename_i same
    rw [ends] at same
    cases same
    rfl

def initial (body : List UInt8) : EbpfDataReader where
  buffer := body
  startAddr := 0
  unresolvedLen := body.length
  tables := ⟨[], [], 0, 2 ^ 64 - 1, []⟩
  elfPathToElfFixedHeaderAddr := []

/-- The checks of `InitEbpfHeader`. -/
def HeaderAccepted (body : List UInt8) : Prop :=
  EbpfDataHeader.ebpfDataHeaderSize ≤ body.length ∧
    EbpfDataHeader.magic body = EbpfDataHeader.headerMagic ∧
    EbpfDataHeader.headSize body = EbpfDataHeader.ebpfDataHeaderSize

instance (body : List UInt8) : Decidable (HeaderAccepted body) :=
  inferInstanceAs (Decidable (_ ∧ _))

def behindHeader (body : List UInt8) : EbpfDataReader :=
  (initial body).advance EbpfDataHeader.ebpfDataHeaderSize

def initEbpfData (body : List UInt8) : Outcome :=
  if HeaderAccepted body then (behindHeader body).readEbpfData
  else (initial body, some false)

end EbpfDataReader

end SysAnalyzer.Parser
