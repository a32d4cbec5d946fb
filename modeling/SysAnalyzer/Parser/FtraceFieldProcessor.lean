import SysAnalyzer.Foundation.ByteRange
import SysAnalyzer.Foundation.VarInt

/-!
# The fields of an event record

`FtraceFieldProcessor` takes a field out of a record by the format of the
trace.  The bytes are counted from the start of the record, and those behind its
end are there too, as the record is a part of a page.  With each value the model
gives the bytes that are read for it and the copies that are made to variables.

The calls stay in bounds under conditions that differ with the kind of the
field.  A number has to have the size of the type that it is read as, a vector
has to end inside the record, and a string that is as long as what is left of the
record has to have a zero in it, for the byte behind it is looked at, too.
-/

namespace SysAnalyzer.Parser

open Foundation

inductive EventFieldType
  | invalid
  | bool
  | int8
  | uint8
  | int16
  | uint16
  | int32
  | uint32
  | int64
  | uint64
  | fixedCString
  | cString
  | stringPtr
  | inode32
  | inode64
  | pid32
  | commonPid32
  | devId32
  | devId64
  | dataLoc
  | symAddr32
  | symAddr64

/--
`FieldFormat`.  It comes from a header that is not part of the sources; its
numbers are written to the log as unsigned ints.
-/
structure FieldFormat where
  offset : UInt32
  size : UInt32
  filedType : EventFieldType

/-! ## What a call does -/

/-- Bytes that are copied to a variable, and the bytes that it has. -/
structure Copy where
  bytes : Nat
  room : Nat
  deriving DecidableEq

/-- The value that a call returns, what it reads of the record and copies. -/
structure Handled (Value : Type) where
  value : Value
  reads : List ByteRange
  copies : List Copy

namespace Handled

open List

variable {Value : Type}

/-- A call that touches nothing. -/
def untouched (value : Value) : Handled Value where
  value := value
  reads := []
  copies := []

/-- A call reads only inside the record and copies no more than fits. -/
def InBounds (handled : Handled Value) (size : Nat) : Prop :=
  AllInside handled.reads size ∧ ∀ copy ∈ handled.copies, copy.bytes ≤ copy.room

@[simp]
theorem inBounds_untouched (value : Value) (size : Nat) : (untouched value).InBounds size :=
  ⟨allInside_nil, fun _ member => absurd member not_mem_nil⟩

theorem inBounds_append {First Second Value : Type} (first : Handled First)
    (second : Handled Second) (value : Value) (size : Nat) :
    (⟨value, first.reads ++ second.reads, first.copies ++ second.copies⟩ :
      Handled Value).InBounds size ↔ first.InBounds size ∧ second.InBounds size := by
  simp only [InBounds, allInside_append, forall_mem_append]
  exact and_and_and_comm

theorem inBounds_flatMap {calls : List (Handled Value)} {Values : Type}
    (values : Values) (size : Nat) :
    (⟨values, calls.flatMap reads, calls.flatMap copies⟩ : Handled Values).InBounds size ↔
      ∀ call ∈ calls, call.InBounds size := by
  unfold InBounds
  simp only [allInside_flatMap, mem_flatMap, forall_exists_index, and_imp]
  constructor
  · rintro ⟨inside, fits⟩ call member
    exact ⟨inside call member, fun copy ofCall => fits copy call member ofCall⟩
  · intro inBounds
    exact ⟨fun call member => (inBounds call member).1,
      fun copy call member ofCall => (inBounds call member).2 copy ofCall⟩

end Handled

namespace FtraceFieldProcessor

open List

def bytesAt (data : Nat → UInt8) (startPos count : Nat) : List UInt8 :=
  (range count).map fun index => data (startPos + index)

/-- The cursor of `HandleString`, which is at most so far from the end. -/
def stringEnd (data : Nat → UInt8) : (left cursor : Nat) → Nat
  | 0, cursor => cursor
  | left + 1, cursor => if data cursor = 0 then cursor else stringEnd data left (cursor + 1)

/--
`HandleString`.  The byte at the cursor is looked at before the cursor is
compared with the end.
-/
def handleString (data : Nat → UInt8) (startPos endPos : Nat)
    (size : Int32) : Handled (List UInt8) :=
  if (endPos : Int) - startPos < size.toInt then .untouched []
  else
    let curCursor := stringEnd data size.toInt.toNat startPos
    { value := bytesAt data startPos (curCursor - startPos)
      reads := [⟨startPos, curCursor + 1⟩]
      copies := [] }

/-- What the calls do that are given the fields and the number of one. -/
def handleField {Value : Type} (handle : FieldFormat → Handled Value)
    (default : Value) (fields : List FieldFormat) (id : Nat) : Handled Value :=
  match fields[id]? with
  | none => .untouched default
  | some format => handle format

theorem handleField_inBounds_iff {Value : Type}
    (handle : FieldFormat → Handled Value) (default : Value)
    (fields : List FieldFormat) (id size : Nat) :
    (handleField handle default fields id).InBounds size ↔
      ∀ format, fields[id]? = some format → (handle format).InBounds size := by
  unfold handleField
  cases fields[id]? with
  | none => simp
  | some format => simp

section

variable (serve : (destMax count : Nat) → Bool)
  (getSymbol : UInt64 → List UInt8) (unsignedLong : Nat)
  (data : Nat → UInt8)

/--
`HandleTypeData`, to a variable of some room.  `memcpy_s` copies what it serves;
it is not part of the sources.
-/
def handleTypeData (startPos endPos room size : Nat) : Handled (Option (List UInt8)) :=
  if (endPos : Int) - startPos < size then .untouched none
  else if serve size size then
    { value := some (bytesAt data startPos size)
      reads := [⟨startPos, startPos + size⟩]
      copies := [⟨size, room⟩] }
  else .untouched none

/-- `HandleIntField`, for a type of some size; the value is given unsigned. -/
def handleIntField (valueSize : Nat) (format : FieldFormat) (size : Nat) : Handled Nat :=
  let copied := handleTypeData serve data format.offset.toNat size valueSize format.size.toNat
  { copied with
    value := littleEndian ((copied.value.getD []).take valueSize) }

/-- `HandleVectorIntField` for a field. -/
def handleVector (valueSize : Nat) (format : FieldFormat) : Handled (List Nat) :=
  let handled :=
    (range (format.size.toNat / unsignedLong)).map fun index =>
      let startPos := format.offset.toNat + index * unsignedLong
      handleTypeData serve data startPos (startPos + unsignedLong) valueSize unsignedLong
  { value :=
      handled.map fun copied => littleEndian ((copied.value.getD []).take valueSize)
    reads := handled.flatMap Handled.reads
    copies := handled.flatMap Handled.copies }

/-- `HandleVectorIntField`; the size of the record is not used. -/
def handleVectorIntField (valueSize : Nat) (fields : List FieldFormat)
    (id _size : Nat) : Handled (List Nat) :=
  handleField (handleVector serve unsignedLong data valueSize) [] fields id

/-- The case `FIELD_TYPE_STRINGPTR` of `HandleStrField`. -/
def handleStringPtr (format : FieldFormat) : Handled (List UInt8) :=
  let startPos := format.offset.toNat
  let curStrSize := min format.size.toNat 8
  if serve 8 curStrSize then
    { value :=
        getSymbol
          (UInt64.ofNat (littleEndian (bytesAt data startPos curStrSize)))
      reads := [⟨startPos, startPos + curStrSize⟩]
      copies := [⟨curStrSize, 8⟩] }
  else .untouched []

/-- The word of a `__data_loc` field, zero where it could not be copied. -/
def curLocData (format : FieldFormat) (size : Nat) : UInt32 :=
  UInt32.ofNat (littleEndian
    ((handleTypeData serve data format.offset.toNat size 4 4).value.getD []))

/-- `LOCDATA_OFFSET_MASK`. -/
def curDataOffset (locData : UInt32) : Nat := (locData &&& 0xffff).toNat

/-- `LOCDATA_LENGTH_SHIFT` and `LOCDATA_LENGTH_MASK`. -/
def curDataLength (locData : UInt32) : Nat := (locData >>> 16 &&& 0xffff).toNat

/-- The case `FIELD_TYPE_DATALOC` of `HandleStrField`. -/
def handleDataLoc (format : FieldFormat) (size : Nat) : Handled (List UInt8) :=
  let copied := handleTypeData serve data format.offset.toNat size 4 4
  let locData := curLocData serve data format size
  let string :=
    if 0 < curDataOffset locData ∧ curDataOffset locData + curDataLength locData ≤ size then
      handleString data (curDataOffset locData) size (Int32.ofNat (curDataLength locData))
    else .untouched []
  { value := string.value
    reads := copied.reads ++ string.reads
    copies := copied.copies ++ string.copies }

/-- `HandleStrField`.  The offset and the size are added in 32 bits. -/
def handleStrField (format : FieldFormat) (size : Nat) : Handled (List UInt8) :=
  if size < (format.offset + format.size).toNat then .untouched []
  else
    match format.filedType with
    | .fixedCString => handleString data format.offset.toNat size format.size.toInt32
    | .cString =>
      let curStrSize :=
        if format.size = 0 then size - format.offset.toNat
        else format.size.toNat
      handleString data format.offset.toNat size (Int32.ofNat curStrSize)
    | .stringPtr => handleStringPtr serve getSymbol data format
    | .dataLoc => handleDataLoc serve data format size
    | _ => .untouched []

end

section

variable (serve : (destMax count : Nat) → Bool) (unsignedLong : Nat)
  (data : Nat → UInt8)

/-- A number that is copied is not larger than the type that it is read as. -/
def IntFits (valueSize : Nat) (format : FieldFormat) (size : Nat) : Prop :=
  format.offset.toNat + format.size.toNat ≤ size →
    serve format.size.toNat format.size.toNat = true → format.size.toNat ≤ valueSize

/-- A vector ends inside the record; its type has the size of its items. -/
def VectorFits (valueSize : Nat) (format : FieldFormat) (size : Nat) : Prop :=
  0 < format.size.toNat / unsignedLong →
    serve unsignedLong unsignedLong = true → format.offset.toNat +
      format.size.toNat / unsignedLong * unsignedLong ≤ size ∧
      unsignedLong ≤ valueSize

/--
A string that is not refused ends before the record does, or there is a zero
in what is left of the record.
-/
def StringFits (startPos size : Nat) (length : Int32) : Prop :=
  length.toInt ≤ (size : Int) - startPos → startPos + length.toInt.toNat < size ∨
    ∃ position, startPos ≤ position ∧ position < size ∧ data position = 0

/-- The same for each kind of field that `HandleStrField` takes a string of. -/
def StrFits (format : FieldFormat) (size : Nat) : Prop :=
  (format.offset + format.size).toNat ≤ size → match format.filedType with
    | .fixedCString => StringFits data format.offset.toNat size format.size.toInt32
    | .cString =>
      StringFits data format.offset.toNat size (Int32.ofNat
        (if format.size = 0 then size - format.offset.toNat else format.size.toNat))
    | .stringPtr =>
      serve 8 (min format.size.toNat 8) = true → 0 < format.size →
        format.offset.toNat + min format.size.toNat 8 ≤ size
    | .dataLoc =>
      let locData := curLocData serve data format size
      0 < curDataOffset locData → curDataOffset locData + curDataLength locData ≤ size →
        StringFits data (curDataOffset locData) size (Int32.ofNat (curDataLength locData))
    | _ => True

end

section

variable {serve : (destMax count : Nat) → Bool} {unsignedLong : Nat}
  {getSymbol : UInt64 → List UInt8} {data : Nat → UInt8}

theorem handleTypeData_inBounds_iff {startPos endPos room size bound : Nat} :
    (handleTypeData serve data startPos endPos room size).InBounds bound ↔
      (startPos + size ≤ endPos → serve size size = true →
        (⟨startPos, startPos + size⟩ : ByteRange).Inside bound ∧ size ≤ room) := by
  unfold handleTypeData
  split_ifs with beyond served
  · simp only [Handled.inBounds_untouched, true_iff]
    omega
  · have enough : startPos + size ≤ endPos := by omega
    simp [Handled.InBounds, enough, served]
  · simp [served]

theorem handleIntField_inBounds_iff (valueSize : Nat) (format : FieldFormat) (size : Nat) :
    (handleIntField serve data valueSize format size).InBounds size ↔
      IntFits serve valueSize format size := by
  have copied : (handleIntField serve data valueSize format size).InBounds size ↔
    (handleTypeData serve data format.offset.toNat size valueSize
      format.size.toNat).InBounds size :=
    Iff.rfl
  rw [copied, handleTypeData_inBounds_iff, IntFits]
  constructor
  · intro fits enough served
    exact (fits enough served).2
  · intro fits enough served
    exact ⟨ByteRange.inside_of_le enough, fits enough served⟩

theorem handleVector_inBounds_iff (valueSize : Nat) (format : FieldFormat) (size : Nat) :
    (handleVector serve unsignedLong data valueSize format).InBounds size ↔
      VectorFits serve unsignedLong valueSize format size := by
  rw [handleVector, Handled.inBounds_flatMap, VectorFits]
  simp only [forall_mem_map, mem_range, handleTypeData_inBounds_iff, le_refl, true_imp_iff]
  have positive : 0 < format.size.toNat / unsignedLong → 0 < unsignedLong := by
    intro some
    by_contra zero
    rw [Nat.eq_zero_of_not_pos zero, Nat.div_zero] at some
    exact lt_irrefl 0 some
  revert positive
  generalize format.size.toNat / unsignedLong = valueNum
  intro positive
  constructor
  · intro fits some served
    have last := fits (valueNum - 1) (by omega) served
    refine ⟨?_, last.2⟩
    have split : valueNum * unsignedLong = (valueNum - 1) * unsignedLong + unsignedLong := by
      rw [← Nat.succ_mul, Nat.succ_eq_add_one, Nat.sub_add_cancel some]
    have nonempty := positive some
    have inside := (ByteRange.inside_iff (by simp only; omega)).1 last.1
    simp only at inside
    omega
  · intro fits index listed served
    have whole := fits (Nat.zero_lt_of_lt listed) served
    refine ⟨ByteRange.inside_of_le ?_, whole.2⟩
    have before : (index + 1) * unsignedLong ≤ valueNum * unsignedLong :=
      Nat.mul_le_mul_right _ listed
    rw [Nat.succ_mul] at before
    have bounded := whole.1
    simp only
    omega

theorem le_stringEnd (left cursor : Nat) : cursor ≤ stringEnd data left cursor := by
  induction left generalizing cursor with
  | zero => exact le_refl _
  | succ left ih =>
    rw [stringEnd]
    split_ifs with zero
    · exact le_refl _
    · exact (Nat.le_succ _).trans (ih (cursor + 1))

theorem stringEnd_lt_iff (left cursor bound : Nat) :
    stringEnd data left cursor < bound ↔ cursor + left < bound ∨ ∃ position,
      cursor ≤ position ∧ position < bound ∧ data position = 0 := by
  induction left generalizing cursor with
  | zero =>
    rw [stringEnd, add_zero]
    constructor
    · exact Or.inl
    · rintro (before | ⟨position, behind, before, _⟩)
      · exact before
      · exact lt_of_le_of_lt behind before
  | succ left ih =>
    rw [stringEnd]
    split_ifs with zero
    · constructor
      · intro before
        exact Or.inr ⟨cursor, le_refl _, before, zero⟩
      · rintro (before | ⟨position, behind, before, _⟩)
        · omega
        · exact lt_of_le_of_lt behind before
    · rw [ih]
      constructor
      · rintro (before | ⟨position, behind, before, isZero⟩)
        · exact Or.inl (by omega)
        · exact Or.inr ⟨position, by omega, before, isZero⟩
      · rintro (before | ⟨position, behind, before, isZero⟩)
        · exact Or.inl (by omega)
        · have distinct : position ≠ cursor := by
            rintro rfl
            exact zero isZero
          exact Or.inr ⟨position, by omega, before, isZero⟩

theorem handleString_inBounds_iff (startPos size : Nat) (length : Int32) :
    (handleString data startPos size length).InBounds size ↔
      StringFits data startPos size length := by
  unfold handleString StringFits
  split_ifs with beyond
  · simp only [Handled.inBounds_untouched, true_iff]
    omega
  · have enough : length.toInt ≤ (size : Int) - startPos := by omega
    have behind : startPos ≤ stringEnd data length.toInt.toNat startPos :=
      le_stringEnd length.toInt.toNat startPos
    have inside : (⟨startPos, stringEnd data length.toInt.toNat startPos + 1⟩ :
      ByteRange).Inside size ↔ stringEnd data length.toInt.toNat startPos < size :=
      ByteRange.inside_iff (by simp only; omega)
    simp only [Handled.InBounds, allInside_cons, allInside_nil, and_true,
      not_mem_nil, false_imp_iff, implies_true, enough, true_imp_iff]
    rw [inside, stringEnd_lt_iff]

theorem handleStringPtr_inBounds_iff (format : FieldFormat) (size : Nat) :
    (handleStringPtr serve getSymbol data format).InBounds size ↔
      (serve 8 (min format.size.toNat 8) = true → 0 < format.size →
        format.offset.toNat + min format.size.toNat 8 ≤ size) := by
  have positive : 0 < format.size ↔ 0 < format.size.toNat := UInt32.lt_iff_toNat_lt
  unfold handleStringPtr
  dsimp only
  split_ifs with served
  · simp only [Handled.InBounds, allInside_cons, allInside_nil, and_true,
      forall_mem_cons, min_le_right, not_mem_nil,
      false_imp_iff, implies_true, served, true_imp_iff, positive]
    by_cases empty : format.size.toNat = 0
    · simp only [empty, lt_irrefl, false_imp_iff, iff_true]
      exact ByteRange.inside_of_empty (by simp)
    · rw [ByteRange.inside_iff (by simp only; omega)]
      exact ⟨fun inside _ => inside, fun inside => inside (by omega)⟩
  · simp [served]

theorem handleDataLoc_inBounds_iff (format : FieldFormat) (size : Nat) :
    (handleDataLoc serve data format size).InBounds size ↔
      (0 < curDataOffset (curLocData serve data format size) →
        curDataOffset (curLocData serve data format size) +
          curDataLength (curLocData serve data format size) ≤ size →
          StringFits data (curDataOffset (curLocData serve data format size)) size (Int32.ofNat
            (curDataLength (curLocData serve data format size)))) := by
  have word : (handleTypeData serve data format.offset.toNat size 4 4).InBounds size := by
    rw [handleTypeData_inBounds_iff]
    exact fun enough _ => ⟨ByteRange.inside_of_le enough, le_refl 4⟩
  rw [handleDataLoc, Handled.inBounds_append]
  simp only [word, true_and]
  split_ifs with located
  · simp only [located, true_imp_iff, handleString_inBounds_iff]
  · simp only [Handled.inBounds_untouched, true_iff]
    exact fun positive enough => absurd ⟨positive, enough⟩ located

theorem handleStrField_inBounds_iff (format : FieldFormat) (size : Nat) :
    (handleStrField serve getSymbol data format size).InBounds size ↔
      StrFits serve data format size := by
  unfold handleStrField StrFits
  by_cases beyond : size < (format.offset + format.size).toNat
  · simp only [if_pos beyond, Handled.inBounds_untouched, true_iff]
    exact fun enough => absurd beyond (not_lt.2 enough)
  · simp only [if_neg beyond, not_lt.1 beyond, true_imp_iff]
    cases format.filedType with
    | fixedCString => exact handleString_inBounds_iff _ _ _
    | cString => exact handleString_inBounds_iff _ _ _
    | stringPtr => exact handleStringPtr_inBounds_iff format size
    | dataLoc => exact handleDataLoc_inBounds_iff format size
    | _ => simp

end

/--
The calls stay in bounds exactly when the number fits its type, the vector and
its items fit, and the string ends inside the record.
-/
theorem inBounds_iff (serve : (destMax count : Nat) → Bool)
    (getSymbol : UInt64 → List UInt8) (unsignedLong valueSize : Nat)
    (data : Nat → UInt8) (size : Nat) (format : FieldFormat)
    (fields : List FieldFormat) (id : Nat) :
    ((handleIntField serve data valueSize format size).InBounds size ↔
      IntFits serve valueSize format size) ∧
      ((handleVectorIntField serve unsignedLong data valueSize fields id size).InBounds size ↔
        ∀ field, fields[id]? = some field → VectorFits serve unsignedLong valueSize field size) ∧
      ((handleStrField serve getSymbol data format size).InBounds size ↔
        StrFits serve data format size) := by
  refine ⟨handleIntField_inBounds_iff valueSize format size, ?_,
    handleStrField_inBounds_iff format size⟩
  rw [handleVectorIntField, handleField_inBounds_iff]
  simp only [handleVector_inBounds_iff]

/-- A copy is made unless the destination is empty, too large or too small. -/
def servesCopy (destMax count : Nat) : Bool :=
  decide (0 < destMax ∧ destMax ≤ 0x7fffffff ∧ count ≤ destMax)

def noZeros : Nat → UInt8 := fun _ => 1

theorem handleIntField_not_inBounds :
    ¬ (handleIntField servesCopy noZeros 4 ⟨0, 8, .int64⟩ 8).InBounds 8 := by
  intro inBounds
  exact absurd (inBounds.2 ⟨8, 4⟩ (by decide)) (by decide)

theorem handleStrField_not_inBounds :
    ¬ (handleStrField servesCopy (fun _ => []) noZeros ⟨0, 8, .fixedCString⟩ 8).InBounds 8 := by
  intro inBounds
  have read := inBounds.1 ⟨0, 9⟩ (by decide)
  exact absurd (read 8 (by decide) (by decide)) (by decide)

theorem not_inBounds : ¬ (handleIntField servesCopy noZeros 4 ⟨0, 8, .int64⟩ 8).InBounds 8 ∧
    ¬ (handleVectorIntField servesCopy 8 noZeros 8 [⟨4, 8, .invalid⟩] 0 8).InBounds 8 ∧
    ¬ (handleStrField servesCopy (fun _ => []) noZeros ⟨0, 8, .fixedCString⟩ 8).InBounds 8 := by
  refine ⟨handleIntField_not_inBounds, ?_, handleStrField_not_inBounds⟩
  intro inBounds
  have read := inBounds.1 ⟨4, 12⟩ (by decide)
  exact absurd (read 8 (by decide) (by decide)) (by decide)

end FtraceFieldProcessor

end SysAnalyzer.Parser
