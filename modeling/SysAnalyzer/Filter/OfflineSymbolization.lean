import SysAnalyzer.Base.TripleMap
import SysAnalyzer.Base.TsCommon
import SysAnalyzer.Foundation.OrderedMap

/-!
# Offline symbolization

`OfflineSymbolizationFilter` turns an address into a frame: the map that holds
the address gives the file, the symbol table of the file gives the name.  A
frame is kept in `ipToFrameInfo_`, also when only a part of it was found.

`NativeHookFilter` brings maps and symbol tables up to date and removes the
frames that they change.  Before it removes any it symbolizes the call stacks
that are waiting; these come with the event.  What follows of a text in the
dictionary is a parameter.
-/

namespace SysAnalyzer.Filter

open Foundation List
open Base (StdMap)

structure MapsInfo where
  start : UInt64
  end_ : UInt64
  offset : UInt64
  filePathId : UInt32
  deriving DecidableEq

structure SymbolTable where
  filePathId : UInt32
  textExecVaddr : UInt64
  textExecVaddrFileOffset : UInt64
  symEntrySize : UInt32
  symTable : List UInt8
  strTable : List UInt8

/-- `FrameInfo`, as its constructor leaves it. -/
structure FrameInfo where
  filePathId : UInt32 := invalidUint32
  ip : UInt64 := invalidUint64
  symbolIndex : UInt64 := invalidUint64
  offset : UInt64 := invalidUint64
  symbolOffset : UInt64 := invalidUint64
  symVaddr : UInt64 := invalidUint64

/-! ## Symbols -/

def elf32Sym : UInt32 := 16

def sttFunc : UInt8 := 2

/-- The fields of `Elf32_Sym` and of `Elf64_Sym`. -/
structure ElfSym where
  stName : UInt32
  stInfo : UInt8
  stValue : UInt64
  stSize : UInt64

/-- The number in `count` bytes from an offset on. -/
def numberAt (bytes : List UInt8) (offset count : Nat) : Nat :=
  littleEndian ((bytes.drop offset).take count)

/-- An `Elf32_Sym`. -/
def ElfSym.ofBytes32 (bytes : List UInt8) : ElfSym where
  stName := UInt32.ofNat (numberAt bytes 0 4)
  stValue := UInt64.ofNat (numberAt bytes 4 4)
  stSize := UInt64.ofNat (numberAt bytes 8 4)
  stInfo := UInt8.ofNat (numberAt bytes 12 1)

/-- An `Elf64_Sym`. -/
def ElfSym.ofBytes64 (bytes : List UInt8) : ElfSym where
  stName := UInt32.ofNat (numberAt bytes 0 4)
  stInfo := UInt8.ofNat (numberAt bytes 4 1)
  stValue := UInt64.ofNat (numberAt bytes 8 8)
  stSize := UInt64.ofNat (numberAt bytes 16 8)

namespace SymbolTable

variable (table : SymbolTable)

/-- The number of bytes that a pointer to a symbol moves by. -/
def symLength : Nat := if table.symEntrySize = elf32Sym then 16 else 24

/-- `size`, the number of symbols that are read. -/
def size : Nat := table.symTable.length / table.symEntrySize.toNat

/-- The symbols can be read: no division by zero, and none behind the table. -/
def Readable : Prop := table.symEntrySize ≠ 0 ∧ table.size * table.symLength ≤ table.symTable.length

instance : Decidable table.Readable := inferInstanceAs (Decidable (_ ∧ _))

def symAt (index : Nat) : ElfSym :=
  let bytes := table.symTable.drop (index * table.symLength)
  if table.symEntrySize = elf32Sym then ElfSym.ofBytes32 bytes
  else ElfSym.ofBytes64 bytes

/--
The inner map of `symbolTablePtrAndStValueToSymAddr_`, after
`UpdateSymbolTablePtrAndStValueToSymAddrMap`.
-/
def stValueToSym : OrderedMap UInt64 ElfSym :=
  ((List.range table.size).map table.symAt).foldl (fun map sym =>
    if sym.stInfo &&& sttFunc ≠ 0 ∧ sym.stValue ≠ 0 then map.assign sym.stValue sym
    else map)
    .empty

/-- `st_value + st_size`, in the width of the entries. -/
def symEnd (sym : ElfSym) : UInt64 :=
  if table.symEntrySize = elf32Sym then (sym.stValue.toUInt32 + sym.stSize.toUInt32).toUInt64
  else sym.stValue + sym.stSize

def getSymbolStartMaybeUpdateFrameInfo (elfSym : ElfSym) (symVaddr ip : UInt64)
    (symbolStart : UInt32) (frameInfo : FrameInfo) : UInt32 × FrameInfo :=
  if table.symEnd elfSym ≥ symVaddr then
    (elfSym.stName, { frameInfo with
      offset := if elfSym.stValue ≠ 0 then elfSym.stValue else ip
      symbolOffset := symVaddr - elfSym.stValue })
  else (symbolStart, frameInfo)

/-- The text at a place of the table, which a zero or the end closes. -/
def mangle (symbolStart : UInt32) : List UInt8 :=
  (table.strTable.drop symbolStart.toNat).takeWhile (· ≠ 0)

/-- What `OfflineSymbolization` fills in when the symbol table was found. -/
def fillSymbol (symbolIndex : List UInt8 → UInt64) (ip vmStart vmOffset : UInt64)
    (frameInfo : FrameInfo) : FrameInfo :=
  let symVaddr := ip - vmStart + vmOffset + table.textExecVaddr - table.textExecVaddrFileOffset
  let frameInfo := { frameInfo with symVaddr }
  -- `Find` answers `nullptr` for a table without symbols
  if table.stValueToSym.entries = [] then frameInfo
  else
    let (symbolStart, frameInfo) :=
      match table.stValueToSym.lastUpTo symVaddr with
      | some (_, elfSym) =>
        table.getSymbolStartMaybeUpdateFrameInfo elfSym symVaddr ip invalidUint32 frameInfo
      | none => (invalidUint32, frameInfo)
    if symbolStart = invalidUint32 ∨ symbolStart.toNat ≥ table.strTable.length then
      { frameInfo with offset := ip, symbolOffset := 0 }
    else { frameInfo with symbolIndex := symbolIndex (table.mangle symbolStart) }

end SymbolTable

/-! ## Frames -/

/-- The maps, the symbol tables, and the frames that are kept. -/
structure OfflineSymbolizationFilter where
  startAddrToMapsInfoMap : OrderedMap UInt64 MapsInfo
  filePathIdToSymbolTableMap : StdMap UInt32 SymbolTable
  ipToFrameInfo : OrderedMap UInt64 FrameInfo

namespace OfflineSymbolizationFilter

def initial : OfflineSymbolizationFilter := ⟨.empty, fun _ => none, .empty⟩

/-- `FillFrameInfo`: a frame with its file, `vmStart` and `vmOffset`. -/
def fillFrameInfo (filter : OfflineSymbolizationFilter) (ip : UInt64) :
    Option (FrameInfo × UInt64 × UInt64) :=
  let found : FrameInfo × UInt64 × UInt64 :=
    match filter.startAddrToMapsInfoMap.lastUpTo ip with
    | some (_, mapsInfo) =>
      if ip < mapsInfo.end_ then
        ({ ip, filePathId := mapsInfo.filePathId }, mapsInfo.start, mapsInfo.offset)
      else ({ ip }, invalidUint64, invalidUint64)
    | none => ({ ip }, invalidUint64, invalidUint64)
  if found.1.filePathId = invalidUint32 then none else some found

section Symbolization

variable (symbolIndex : List UInt8 → UInt64)

/-- The frame that `OfflineSymbolization` computes for an address. -/
def computeFrame (filter : OfflineSymbolizationFilter) (ip : UInt64) : Option FrameInfo :=
  match filter.fillFrameInfo ip with
  | none => none
  | some (frameInfo, vmStart, vmOffset) =>
    match filter.filePathIdToSymbolTableMap frameInfo.filePathId with
    | none => some frameInfo
    | some symbolTable => some (symbolTable.fillSymbol symbolIndex ip vmStart vmOffset frameInfo)

/-- `OfflineSymbolization` of an address. -/
def offlineSymbolization (filter : OfflineSymbolizationFilter) (ip : UInt64) :
    Option FrameInfo × OfflineSymbolizationFilter :=
  match filter.ipToFrameInfo.find? ip with
  | some frameInfo => (some frameInfo, filter)
  | none =>
    match filter.computeFrame symbolIndex ip with
    | none => (none, filter)
    | some frameInfo =>
      (some frameInfo, { filter with
        ipToFrameInfo := filter.ipToFrameInfo.insert ip frameInfo })

/-- `OfflineSymbolization` of a call stack, which stops at a failure. -/
def symbolizeStack (filter : OfflineSymbolizationFilter) : List UInt64 → OfflineSymbolizationFilter
  | [] => filter
  | ip :: ips =>
    match filter.offlineSymbolization symbolIndex ip with
    | (none, filter) => filter
    | (some _, filter) => symbolizeStack filter ips

/--
The call stacks that `ParseFramesInOfflineSymbolizationMode` and
`ReparseStacksWithDifferentMeans` symbolize.
-/
def symbolizeStacks (filter : OfflineSymbolizationFilter)
    (callStacks : List (List UInt64)) : OfflineSymbolizationFilter :=
  callStacks.foldl (symbolizeStack symbolIndex) filter

section Frame

variable (filter : OfflineSymbolizationFilter)

@[simp]
theorem maps_offlineSymbolization (ip : UInt64) :
    (filter.offlineSymbolization symbolIndex ip).2.startAddrToMapsInfoMap =
      filter.startAddrToMapsInfoMap := by
  unfold offlineSymbolization
  split
  · rfl
  · split <;> rfl

@[simp]
theorem tables_offlineSymbolization (ip : UInt64) :
    (filter.offlineSymbolization symbolIndex ip).2.filePathIdToSymbolTableMap =
      filter.filePathIdToSymbolTableMap := by
  unfold offlineSymbolization
  split
  · rfl
  · split <;> rfl

theorem symbolizeStack_cons (ip : UInt64) (ips : List UInt64) :
    filter.symbolizeStack symbolIndex (ip :: ips) =
      if (filter.offlineSymbolization symbolIndex ip).1.isSome then
        (filter.offlineSymbolization symbolIndex ip).2.symbolizeStack symbolIndex ips
      else (filter.offlineSymbolization symbolIndex ip).2 := by
  rw [symbolizeStack]
  rcases filter.offlineSymbolization symbolIndex ip with ⟨_ | _, _⟩ <;> rfl

@[simp]
theorem maps_symbolizeStack (ips : List UInt64) :
    (filter.symbolizeStack symbolIndex ips).startAddrToMapsInfoMap =
      filter.startAddrToMapsInfoMap := by
  induction ips generalizing filter with
  | nil => rfl
  | cons ip ips induction =>
    rw [symbolizeStack_cons]
    split
    · rw [induction, maps_offlineSymbolization]
    · exact maps_offlineSymbolization symbolIndex filter ip

@[simp]
theorem tables_symbolizeStack (ips : List UInt64) :
    (filter.symbolizeStack symbolIndex ips).filePathIdToSymbolTableMap =
      filter.filePathIdToSymbolTableMap := by
  induction ips generalizing filter with
  | nil => rfl
  | cons ip ips induction =>
    rw [symbolizeStack_cons]
    split
    · rw [induction, tables_offlineSymbolization]
    · exact tables_offlineSymbolization symbolIndex filter ip

@[simp]
theorem maps_symbolizeStacks (callStacks : List (List UInt64)) :
    (filter.symbolizeStacks symbolIndex callStacks).startAddrToMapsInfoMap =
      filter.startAddrToMapsInfoMap := by
  unfold symbolizeStacks
  induction callStacks generalizing filter with
  | nil => rfl
  | cons ips callStacks induction => rw [foldl_cons, induction, maps_symbolizeStack]

@[simp]
theorem tables_symbolizeStacks (callStacks : List (List UInt64)) :
    (filter.symbolizeStacks symbolIndex callStacks).filePathIdToSymbolTableMap =
      filter.filePathIdToSymbolTableMap := by
  unfold symbolizeStacks
  induction callStacks generalizing filter with
  | nil => rfl
  | cons ips callStacks induction => rw [foldl_cons, induction, tables_symbolizeStack]

end Frame

def backToFile (entries : List (UInt64 × MapsInfo)) (filePathId : UInt32) : Nat → Nat
  | 0 => 0
  | startItor + 1 =>
    if (entries[startItor]?).any fun entry => entry.2.filePathId ≠ filePathId
    then startItor + 1
    else backToFile entries filePathId startItor

def firstBehind (maps : OrderedMap UInt64 MapsInfo) (startAddr : UInt64) : Nat :=
  let startItor := maps.upperBound startAddr
  if startItor ≠ 0 then
    if (maps.entries[startItor - 1]?).any fun entry =>
      startAddr ≥ entry.2.end_ then
      startItor
    else startItor - 1
  else startItor

def startOfFile (maps : OrderedMap UInt64 MapsInfo) (startItor : Nat) : UInt64 :=
  match maps.entries[startItor]? with
  | none => invalidUint64
  | some entry =>
    match maps.entries[backToFile maps.entries entry.2.filePathId startItor]?
    with
    | none => invalidUint64
    | some first => first.1

def startOfOtherFile (maps : OrderedMap UInt64 MapsInfo) (endItor : Nat) : UInt64 :=
  match maps.entries[endItor - 1]? with
  | none => invalidUint64
  | some last =>
    match (maps.entries.drop endItor).find? fun entry =>
      last.2.filePathId ≠ entry.2.filePathId with
    | none => invalidUint64
    | some entry => entry.2.start

def getNeedUpdateProcessMapsAddrRange (maps : OrderedMap UInt64 MapsInfo)
    (startAddr endAddr : UInt64) : UInt64 × UInt64 :=
  if startAddr ≥ endAddr then (invalidUint64, invalidUint64)
  else
    let start := startOfFile maps (firstBehind maps startAddr)
    let endItor := maps.upperBound endAddr
    if endItor = maps.entries.length then (start, invalidUint64)
    else if endItor = 0 then (invalidUint64, invalidUint64)
    else (start, startOfOtherFile maps endItor)

/-- `start != INVALID_UINT64 && start != end`. -/
def Conflicting (range : UInt64 × UInt64) : Prop := range.1 ≠ invalidUint64 ∧ range.1 ≠ range.2

instance (range : UInt64 × UInt64) : Decidable (Conflicting range) :=
  inferInstanceAs (Decidable (_ ∧ _))

def inRange (range : UInt64 × UInt64) (key : UInt64) : Bool := range.1 ≤ key && key < range.2

/-- `ParseMapsEvent`, with the call stacks that are waiting. -/
def parseMapsEvent (filter : OfflineSymbolizationFilter) (mapsInfo : MapsInfo)
    (waiting : List (List UInt64)) : OfflineSymbolizationFilter :=
  let range :=
    getNeedUpdateProcessMapsAddrRange filter.startAddrToMapsInfoMap mapsInfo.start mapsInfo.end_
  let filter :=
    if Conflicting range then
      let filter := filter.symbolizeStacks symbolIndex waiting
      { filter with
        ipToFrameInfo := filter.ipToFrameInfo.eraseWhere (inRange range)
        startAddrToMapsInfoMap := filter.startAddrToMapsInfoMap.eraseWhere (inRange range) }
    else filter
  { filter with
    startAddrToMapsInfoMap := filter.startAddrToMapsInfoMap.insert mapsInfo.start mapsInfo }

/--
`ParseSymbolTableEvent`, with the call stacks that are waiting.  There is no
result where the loop over the frames goes on from one that it has erased, or
where the symbols cannot be read.
-/
def parseSymbolTableEvent (filter : OfflineSymbolizationFilter)
    (reader : SymbolTable) (waiting : List (List UInt64)) : Option OfflineSymbolizationFilter :=
  let known := (filter.filePathIdToSymbolTableMap reader.filePathId).isSome
  let filter := if known then filter.symbolizeStacks symbolIndex waiting else filter
  if known ∧ ∃ cached ∈ filter.ipToFrameInfo.entries, cached.2.filePathId = reader.filePathId then
    none
  else if ¬ reader.Readable then none
  else
    some { filter with
      filePathIdToSymbolTableMap :=
        Function.update filter.filePathIdToSymbolTableMap reader.filePathId
          (some reader) }

/-- What happens to the filter. -/
inductive Event where
  | maps (mapsInfo : MapsInfo) (waiting : List (List UInt64))
  | symbolTable (reader : SymbolTable) (waiting : List (List UInt64))
  | query (ip : UInt64)

def step (filter : OfflineSymbolizationFilter) : Event → Option OfflineSymbolizationFilter
  | .maps mapsInfo waiting => some (filter.parseMapsEvent symbolIndex mapsInfo waiting)
  | .symbolTable reader waiting => filter.parseSymbolTableEvent symbolIndex reader waiting
  | .query ip => some (filter.offlineSymbolization symbolIndex ip).2

end Symbolization

end OfflineSymbolizationFilter

end SysAnalyzer.Filter
