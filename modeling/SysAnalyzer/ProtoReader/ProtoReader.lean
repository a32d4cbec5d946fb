import SysAnalyzer.Foundation.VarInt
import Mathlib

/-!
# The protobuf reader

`TypedProtoReader` reads a message once and keeps the last occurrence of each
field in a slot of its own, at the start of one storage.  An occurrence that is
replaced is moved behind the slots, and the storage is doubled when it is full.
A pointer into the message is the list of the bytes from it to the end.
-/

namespace SysAnalyzer.ProtoReader

open Foundation

/-- A pointer into the message: the bytes from it to `endAddr_`. -/
abbrev Pointer := List UInt8

/-- `intValue_`: a number, or the address of the data. -/
inductive IntValue where
  | number (value : UInt64)
  | address (data : Pointer)

/-- One occurrence of a field. -/
structure DataArea where
  intValue : IntValue
  size : UInt32
  dataAreaID : UInt16
  type : UInt8

/-- `DataArea{}`, and what `memset_s` leaves. -/
def DataArea.empty : DataArea := ⟨.number 0, 0, 0, 0⟩

def DataArea.dataAreaValid (dataArea : DataArea) : Bool := dataArea.dataAreaID ≠ 0

def sizeofDataArea : Nat := 16

inductive ProtoWireType where
  | kVarInt
  | kFixed64
  | kLengthDelimited
  | kFixed32
  deriving DecidableEq

def ProtoWireType.toUInt8 : ProtoWireType → UInt8
  | .kVarInt => 0
  | .kFixed64 => 1
  | .kLengthDelimited => 2
  | .kFixed32 => 5

/-- The wire types that `dataAreaTypeToParseFuncMap_` has a function for. -/
def ProtoWireType.ofUInt8 (type : UInt8) : Option ProtoWireType :=
  if type = 0 then some .kVarInt
  else if type = 1 then some .kFixed64
  else if type = 2 then some .kLengthDelimited
  else if type = 5 then some .kFixed32
  else none

/-- The longest payload that is kept. -/
def kMaxMessageLength : UInt64 := 2 ^ 28 - 1

/-! ## One data area -/

/-- The loop of `VarIntDecode`. -/
def varIntDecodeFrom (temp : UInt64) (shift : Nat) : Pointer → Option (UInt64 × Pointer)
  | [] => none
  | currentByte :: cursor =>
    let temp := temp ||| ((currentByte &&& 0x7f).toUInt64 <<< UInt64.ofNat shift)
    if currentByte &&& 0x80 = 0 then some (temp, cursor)
    else if shift + 7 < 64 then varIntDecodeFrom temp (shift + 7) cursor
    else none

/-- `VarIntDecode`; `none` where it returns the pointer it started from. -/
def varIntDecode (start : Pointer) : Option (UInt64 × Pointer) := varIntDecodeFrom 0 0 start

inductive ParseProtoStatus where
  | abort
  | skip
  | ok
  deriving DecidableEq

structure ParseDataAreaResult where
  status : ParseProtoStatus
  next : Pointer
  dataArea : DataArea

def getNextProtoTag (startAddr : Pointer) : Option (UInt64 × Pointer) :=
  let decoded :=
    match startAddr with
    | [] => none
    | first :: cursor =>
      if first &&& 0x80 ≠ 0 then varIntDecode startAddr
      else some (first.toUInt64, cursor)
  match decoded with
  | none => none
  | some (_, []) => none
  | some found => some found

def parseVarIntValue (result : ParseDataAreaResult) (startAddr : Pointer) : ParseDataAreaResult :=
  match varIntDecode startAddr with
  | none => result
  | some (intValue, cursor) =>
    { status := .ok
      next := cursor
      dataArea := { result.dataArea with intValue := .number intValue } }

def parseLengthDelimitedValue (result : ParseDataAreaResult)
    (startAddr : Pointer) : ParseDataAreaResult :=
  match varIntDecode startAddr with
  | none => result
  | some (length, cursor) =>
    if cursor.length < length.toNat then result
    else
      { status := if length > kMaxMessageLength then .skip else .ok
        next := cursor.drop length.toNat
        dataArea :=
          { result.dataArea with
            intValue := .address cursor
            size := length.toUInt32 } }

/-- `ParseFixed64Value` and `ParseFixed32Value`, by their number of bytes. -/
def parseFixedValue (bytes : Nat) (result : ParseDataAreaResult)
    (startAddr : Pointer) : ParseDataAreaResult :=
  if startAddr.length < bytes then result
  else
    { status := .ok
      next := startAddr.drop bytes
      dataArea :=
        { result.dataArea with
          intValue := .number (UInt64.ofNat (littleEndian (startAddr.take bytes))) } }

def parseFixed64Value : ParseDataAreaResult → Pointer → ParseDataAreaResult := parseFixedValue 8

def parseFixed32Value : ParseDataAreaResult → Pointer → ParseDataAreaResult := parseFixedValue 4

/-- `dataAreaTypeToParseFuncMap_`. -/
def ProtoWireType.parseValue : ProtoWireType → ParseDataAreaResult → Pointer → ParseDataAreaResult
  | .kVarInt => parseVarIntValue
  | .kFixed64 => parseFixed64Value
  | .kLengthDelimited => parseLengthDelimitedValue
  | .kFixed32 => parseFixed32Value

def parseOneDataArea (startAddr : Pointer) : ParseDataAreaResult :=
  let result : ParseDataAreaResult := ⟨.abort, startAddr, .empty⟩
  match getNextProtoTag startAddr with
  | none => result
  | some (dataAreaTag, cursor) =>
    let dataAreaId : UInt32 := (dataAreaTag >>> 3).toUInt32
    if dataAreaId = 0 then result
    else if dataAreaId > 65535 then
      -- only the tag is skipped, not the value
      { result with status := .skip, next := cursor }
    else
      let dataAreaType := dataAreaTag.toUInt8 &&& 7
      let result :=
        { result with
          dataArea :=
            { result.dataArea with
              dataAreaID := dataAreaId.toUInt16
              type := dataAreaType } }
      match ProtoWireType.ofUInt8 dataAreaType with
      | none => result
      | some wireType => wireType.parseValue result cursor

variable {cursor : Pointer}

theorem length_of_varIntDecodeFrom {temp : UInt64} {shift : Nat} {start : Pointer} {value : UInt64}
    (decoded : varIntDecodeFrom temp shift start = some (value, cursor)) :
    cursor.length < start.length := by
  induction start generalizing temp shift with
  | nil => cases decoded
  | cons byte rest induction =>
    unfold varIntDecodeFrom at decoded
    dsimp only at decoded
    split at decoded
    · cases decoded
      simp
    · split at decoded
      · exact Nat.lt_trans (induction decoded) (by simp)
      · cases decoded

theorem length_of_varIntDecode {start : Pointer} {value : UInt64}
    (decoded : varIntDecode start = some (value, cursor)) : cursor.length < start.length :=
  length_of_varIntDecodeFrom decoded

theorem length_of_getNextProtoTag {startAddr : Pointer} {dataAreaTag : UInt64}
    (found : getNextProtoTag startAddr = some (dataAreaTag, cursor)) :
    cursor.length < startAddr.length := by
  unfold getNextProtoTag at found
  cases startAddr with
  | nil => cases found
  | cons first rest =>
    dsimp only at found
    split at found
    · cases found
    · cases found
    · next other decoded =>
        cases found
        split at decoded
        · exact length_of_varIntDecode decoded
        · cases decoded
          simp

def ParseDataAreaResult.Behind (result : ParseDataAreaResult) (startAddr : Pointer) : Prop :=
  result.status = .abort ∨ result.next.length ≤ startAddr.length

theorem behind_parseVarIntValue (result : ParseDataAreaResult) (startAddr : Pointer)
    (aborted : result.status = .abort) : (parseVarIntValue result startAddr).Behind startAddr := by
  unfold parseVarIntValue
  cases decoded : varIntDecode startAddr with
  | none => exact .inl aborted
  | some found => exact .inr (Nat.le_of_lt (length_of_varIntDecode decoded))

theorem behind_parseLengthDelimitedValue (result : ParseDataAreaResult) (startAddr : Pointer)
    (aborted : result.status = .abort) :
    (parseLengthDelimitedValue result startAddr).Behind startAddr := by
  unfold parseLengthDelimitedValue
  cases decoded : varIntDecode startAddr with
  | none => exact .inl aborted
  | some found =>
    dsimp only
    split
    · exact .inl aborted
    · right
      rw [List.length_drop]
      have before := length_of_varIntDecode decoded
      omega

theorem behind_parseFixedValue (bytes : Nat) (result : ParseDataAreaResult) (startAddr : Pointer)
    (aborted : result.status = .abort) :
    (parseFixedValue bytes result startAddr).Behind startAddr := by
  unfold parseFixedValue
  split
  · exact .inl aborted
  · exact .inr (by simp)

theorem behind_parseValue (wireType : ProtoWireType) (result : ParseDataAreaResult)
    (startAddr : Pointer) (aborted : result.status = .abort) :
    (wireType.parseValue result startAddr).Behind startAddr := by
  cases wireType with
  | kVarInt => exact behind_parseVarIntValue result startAddr aborted
  | kFixed64 => exact behind_parseFixedValue 8 result startAddr aborted
  | kLengthDelimited => exact behind_parseLengthDelimitedValue result startAddr aborted
  | kFixed32 => exact behind_parseFixedValue 4 result startAddr aborted

theorem length_of_parseOneDataArea {startAddr : Pointer}
    (goesOn : (parseOneDataArea startAddr).status ≠ .abort) :
    (parseOneDataArea startAddr).next.length < startAddr.length := by
  unfold parseOneDataArea at goesOn ⊢
  cases found : getNextProtoTag startAddr with
  | none => simp [found] at goesOn
  | some tagged =>
    have behindTag := length_of_getNextProtoTag found
    rw [found] at goesOn
    dsimp only at goesOn ⊢
    split at goesOn
    · exact absurd rfl goesOn
    · next notZero =>
        rw [if_neg notZero]
        split at goesOn
        · next tooBig =>
            rw [if_pos tooBig]
            exact behindTag
        · next small =>
            rw [if_neg small]
            cases known : ProtoWireType.ofUInt8 (tagged.1.toUInt8 &&& 7) with
            | none =>
              rw [known] at goesOn
              exact absurd rfl goesOn
            | some wireType =>
              rw [known] at goesOn
              rcases behind_parseValue wireType ⟨.abort, startAddr, ⟨.number 0, 0, _, _⟩⟩ tagged.2
                rfl with aborted | behind
              · exact absurd aborted goesOn
              · exact Nat.lt_of_le_of_lt behind behindTag

/-- The reader; `dataAreas` are the `size_` areas of the storage in use. -/
structure ProtoReaderBase where
  dataAreas : List DataArea
  dataAreasCount : UInt32
  volume : UInt32

def ProtoReaderBase.size (reader : ProtoReaderBase) : Nat := reader.dataAreas.length

section Storage

variable
  (memsetS memcpyS : (destMax count : Nat) → Bool)

/-- `MoveToLargerHeapStorage`; `none` leaves storage that nothing wrote to. -/
def ProtoReaderBase.moveToLargerHeapStorage (reader : ProtoReaderBase) : Option ProtoReaderBase :=
  let largerVolume := reader.volume <<< 1
  if memcpyS (sizeofDataArea * largerVolume.toNat) (sizeofDataArea * reader.size) then
    some { reader with volume := largerVolume }
  else none

/-- What `ParseAllDataAreas` does with an area that is parsed. -/
def ProtoReaderBase.store (reader : ProtoReaderBase) (parsed : DataArea) : Option ProtoReaderBase :=
  let dataAreaId := parsed.dataAreaID.toNat
  if reader.dataAreasCount.toNat ≤ dataAreaId then some reader
  else
    match reader.dataAreas[dataAreaId]? with
    | none => none
    | some dataArea =>
      if dataArea.dataAreaValid then
        let larger :=
          if reader.size ≥ reader.volume.toNat then reader.moveToLargerHeapStorage memcpyS
          else some reader
        larger.map fun reader =>
          { reader with
            dataAreas := (reader.dataAreas ++ [dataArea]).set dataAreaId parsed }
      else
        some
          { reader with
            dataAreas := reader.dataAreas.set dataAreaId parsed }

/-- The loop of `ParseAllDataAreas`. -/
def ProtoReaderBase.parseFrom (reader : ProtoReaderBase) (cur : Pointer) : Option ProtoReaderBase :=
  let result := parseOneDataArea cur
  match _status : result.status with
  | .skip => reader.parseFrom result.next
  | .abort => some reader
  | .ok =>
    match reader.store memcpyS result.dataArea with
    | none => none
    | some reader => reader.parseFrom result.next
termination_by cur.length
decreasing_by
  all_goals
    exact length_of_parseOneDataArea (by rw [_status]; decide)

/-- The constructor of `TypedProtoReader<MAX_DATA_AREA_ID>`. -/
def typedProtoReader (maxDataAreaId : Fin (2 ^ 31 - 1)) (buffer : Pointer) :
    Option ProtoReaderBase :=
  let dataAreasCount := UInt32.ofNat (maxDataAreaId + 1)
  let dataAreasSize := sizeofDataArea * dataAreasCount.toNat
  if memsetS dataAreasSize dataAreasSize then
    ProtoReaderBase.parseFrom memcpyS ⟨List.replicate dataAreasCount.toNat .empty, dataAreasCount,
      dataAreasCount⟩
      buffer
  else none

end Storage

/-- `at<DATA_AREA_ID>`. -/
def ProtoReaderBase.atId (reader : ProtoReaderBase) (dataAreaId : Nat) : DataArea :=
  (reader.dataAreas[dataAreaId]?).getD .empty

/-- `RepeatedDataAreaIterator`; the addresses are places in the storage. -/
structure RepeatedDataAreaIterator where
  dataAreaId : Nat
  currentAddr : Nat
  endAddr : Nat
  lastAddr : Nat

/-- The loop of `FindNextMatchingDataAreaId`, from one address on. -/
def findNextMatchingDataAreaId (dataAreas : List DataArea)
    (dataAreaId endAddr lastAddr currentAddr : Nat) : Nat :=
  if currentAddr < endAddr then
    if ((dataAreas[currentAddr]?).getD .empty).dataAreaID.toNat = dataAreaId then currentAddr
    else findNextMatchingDataAreaId dataAreas dataAreaId endAddr lastAddr (currentAddr + 1)
  else if ((dataAreas[lastAddr]?).getD .empty).dataAreaValid then lastAddr
  else endAddr
termination_by endAddr - currentAddr

/-- The iterator moved to the next match from an address on. -/
def RepeatedDataAreaIterator.moveFrom (dataAreas : List DataArea)
    (itor : RepeatedDataAreaIterator) (currentAddr : Nat) : RepeatedDataAreaIterator :=
  { itor with
    currentAddr :=
      findNextMatchingDataAreaId dataAreas itor.dataAreaId itor.endAddr
        itor.lastAddr currentAddr }

def ProtoReaderBase.getRepeated (reader : ProtoReaderBase)
    (dataAreaId : Nat) : RepeatedDataAreaIterator :=
  RepeatedDataAreaIterator.moveFrom reader.dataAreas
    { dataAreaId
      currentAddr := reader.dataAreasCount.toNat
      endAddr := reader.size
      lastAddr := dataAreaId }
    reader.dataAreasCount.toNat

/-- `operator++`. -/
def RepeatedDataAreaIterator.increment (dataAreas : List DataArea)
    (itor : RepeatedDataAreaIterator) : RepeatedDataAreaIterator :=
  if itor.currentAddr ≠ itor.lastAddr then itor.moveFrom dataAreas (itor.currentAddr + 1)
  else { itor with currentAddr := itor.endAddr }

/-- The areas that a loop over the iterator sees in so many steps. -/
def RepeatedDataAreaIterator.enumerate (dataAreas : List DataArea) :
    Nat → RepeatedDataAreaIterator → Option (List DataArea)
  | 0, _ => none
  | steps + 1, itor =>
    if itor.currentAddr ≠ itor.endAddr then
      (enumerate dataAreas steps (itor.increment dataAreas)).map
        (((dataAreas[itor.currentAddr]?).getD .empty) :: ·)
    else some []

end SysAnalyzer.ProtoReader
