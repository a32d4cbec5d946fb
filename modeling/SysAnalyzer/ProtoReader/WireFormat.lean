import SysAnalyzer.ProtoReader.ProtoReader

/-!
# The wire format

A message is a sequence of fields: a tag with the number and the wire type, then
the value.  What the reader does at the start of a field depends on the number
and the length alone: it reads the area of the field, skips the field, or skips
no more than its tag.
-/

namespace SysAnalyzer.ProtoReader

open Foundation List

theorem toNat_or_shiftLeft {temp : UInt64} {low : UInt8} {shift : Nat} (inRange : shift < 64)
    (below : temp.toNat < 2 ^ shift) : (temp ||| (low.toUInt64 <<< UInt64.ofNat shift)).toNat =
      temp.toNat + low.toNat * 2 ^ shift % 2 ^ 64 := by
  have split : 2 ^ 64 = 2 ^ shift * 2 ^ (64 - shift) := by
    rw [← Nat.pow_add]
    congr 1
    omega
  have shifted : (low.toUInt64 <<< UInt64.ofNat shift).toNat =
    2 ^ shift * (low.toNat % 2 ^ (64 - shift)) := by
    rw [UInt64.toNat_shiftLeft, UInt8.toNat_toUInt64, UInt64.toNat_ofNat']
    rw [Nat.mod_eq_of_lt (show shift < 2 ^ 64 by omega),
      Nat.mod_eq_of_lt inRange, Nat.shiftLeft_eq, split, Nat.mul_comm low.toNat,
      Nat.mul_mod_mul_left]
  rw [UInt64.toNat_or, shifted, Nat.or_comm,
    ← Nat.two_pow_add_eq_or_of_lt below, split, mul_comm low.toNat,
    Nat.mul_mod_mul_left, add_comm]

theorem varIntDecodeFrom_append {bytes : List UInt8} (terminated : Terminated bytes) {index : Nat}
    (short : index + bytes.length ≤ 10) {temp : UInt64}
    (below : temp.toNat < 2 ^ (7 * index)) (rest : Pointer) :
    varIntDecodeFrom temp (7 * index) (bytes ++ rest) = some
      (UInt64.ofNat (temp.toNat + base128 bytes * 2 ^ (7 * index)), rest) := by
  induction bytes generalizing index temp with
  | nil => cases terminated
  | cons byte bytes induction =>
    have inRange : 7 * index < 64 := by
      rw [length_cons] at short
      omega
    have added : (temp ||| ((byte &&& 0x7f).toUInt64 <<< UInt64.ofNat (7 * index))).toNat =
      temp.toNat + byte.toNat % 128 * 2 ^ (7 * index) % 2 ^ 64 := by
      rw [toNat_or_shiftLeft inRange below, toNat_and_low_bits]
    rw [cons_append, varIntDecodeFrom]
    cases bytes with
    | nil =>
      have isLast : byte &&& 0x80 = 0 := (and_high_bit_eq_zero_iff byte).2 terminated
      rw [if_pos isLast, nil_append]
      refine congrArg (fun value => some (value, rest)) ?_
      rw [← UInt64.toNat_inj, UInt64.toNat_ofNat', base128, base128,
        mul_zero, add_zero, ← Nat.add_mod_mod, ← added]
      exact (Nat.mod_eq_of_lt (UInt64.toNat_lt _)).symm
    | cons next bytes =>
      rcases terminated with ⟨high, terminated⟩
      have notLast : byte &&& 0x80 ≠ 0 := by
        rw [ne_eq, and_high_bit_eq_zero_iff]
        omega
      rw [length_cons, length_cons] at short
      rw [if_neg notLast, if_pos (by omega)]
      have step : 2 ^ (7 * (index + 1)) = 128 * 2 ^ (7 * index) := by
        rw [Nat.mul_succ, Nat.pow_add, mul_comm]
      have fits : 2 ^ (7 * (index + 1)) ≤ 2 ^ 63 := Nat.pow_le_pow_right (by decide) (by omega)
      have lowBits : byte.toNat % 128 < 128 := Nat.mod_lt _ (by decide)
      have product : byte.toNat % 128 * 2 ^ (7 * index) + 2 ^ (7 * index) ≤
        128 * 2 ^ (7 * index) := by
        rw [← Nat.succ_mul]
        exact Nat.mul_le_mul_right _ lowBits
      rw [Nat.mod_eq_of_lt (by omega)] at added
      have stillBelow : (temp ||| ((byte &&& 0x7f).toUInt64 <<< UInt64.ofNat (7 * index))).toNat <
        2 ^ (7 * (index + 1)) := by
        rw [added, step]
        omega
      have shorter : index + 1 + (next :: bytes).length ≤ 10 := by
        rw [length_cons]
        omega
      have decoded := induction terminated shorter stillBelow
      rw [step, added, Nat.mul_succ] at decoded
      rw [decoded]
      refine congrArg (fun value => some (UInt64.ofNat value, rest)) ?_
      have spelled : base128 (byte :: next :: bytes) =
        byte.toNat % 128 + 128 * base128 (next :: bytes) := rfl
      rw [spelled]
      ring

theorem varIntDecode_append (varInt : VarInt) (rest : Pointer) :
    varIntDecode (varInt.bytes ++ rest) = some (varInt.value, rest) := by
  have decoded : varIntDecodeFrom 0 (7 * 0) (varInt.bytes ++ rest) = _ :=
    varIntDecodeFrom_append varInt.terminated (by simpa using varInt.short) (by decide) rest
  simpa [varIntDecode, VarInt.value] using decoded

theorem varIntDecodeFrom_eq_none_iff (start : Pointer) (temp : UInt64)
    {index : Nat} (inRange : index < 10) : varIntDecodeFrom temp (7 * index) start = none ↔
      ∀ byte ∈ start.take (10 - index), byte &&& 0x80 ≠ 0 := by
  induction start generalizing temp index with
  | nil => simp [varIntDecodeFrom]
  | cons byte cursor induction =>
    rw [varIntDecodeFrom, show 10 - index = 9 - index + 1 by omega,
      take_succ_cons, forall_mem_cons]
    by_cases isLast : byte &&& 0x80 = 0
    · rw [if_pos isLast]
      simp [isLast]
    rw [if_neg isLast, and_iff_right isLast]
    by_cases more : index + 1 < 10
    · rw [if_pos (by omega), ← Nat.mul_succ, induction _ more,
        show 10 - (index + 1) = 9 - index by omega]
    · -- the tenth byte is the last that is shifted in
      rw [if_neg (by omega), show 9 - index = 0 by omega]
      simp

/--
The shortest form of a number is read back, whatever follows it, and nothing is
read exactly if none of the first ten bytes ends a number.
-/
theorem varIntDecode_spec : (∀ (value : UInt64) (rest : Pointer),
    varIntDecode (shortestBytes value.toNat ++ rest) = some (value, rest)) ∧
    ∀ (first : UInt8) (rest : Pointer), varIntDecode (first :: rest) = none ↔
      ∀ byte ∈ (first :: rest).take 10, byte &&& 0x80 ≠ 0 := by
  constructor
  · intro value rest
    have decoded := varIntDecode_append (VarInt.ofNat value.toNat value.toNat_lt) rest
    rwa [VarInt.value_ofNat, UInt64.ofNat_toNat] at decoded
  · intro first rest
    have fails := varIntDecodeFrom_eq_none_iff (first :: rest) 0 (Nat.zero_lt_succ 9)
    exact fails

theorem getNextProtoTag_append (tag : VarInt) {rest : Pointer} (followed : rest ≠ []) :
    getNextProtoTag (tag.bytes ++ rest) = some (tag.value, rest) := by
  have decoded := varIntDecode_append tag rest
  rcases exists_cons_of_ne_nil followed with ⟨next, behind, rfl⟩
  rcases tag with ⟨bytes, terminated, short⟩
  cases bytes with
  | nil => cases terminated
  | cons first bytes =>
    unfold getNextProtoTag
    rw [cons_append] at decoded ⊢
    dsimp only
    by_cases isLast : first &&& 0x80 = 0
    · -- a tag of one byte is read without the loop
      rw [if_neg (not_not.2 isLast)]
      have low := (and_high_bit_eq_zero_iff first).1 isLast
      cases bytes with
      | nil =>
        have value : (VarInt.mk [first] terminated short).value = first.toUInt64 := by
          rw [← UInt64.toNat_inj, VarInt.value, UInt64.toNat_ofNat', UInt8.toNat_toUInt64]
          simp only [base128]
          omega
        rw [value]
        rfl
      | cons second bytes => exact absurd terminated.1 (not_le.2 low)
    · rw [if_pos isLast, decoded]

inductive WireValue where
  | varInt (value : VarInt)
  | fixed64 (bytes : List UInt8) (length : bytes.length = 8)
  | lengthDelimited (length : VarInt) (payload : List UInt8)
    (announced : length.value.toNat = payload.length)
  | fixed32 (bytes : List UInt8) (length : bytes.length = 4)

namespace WireValue

def wireType : WireValue → ProtoWireType
  | varInt _ => .kVarInt
  | fixed64 _ _ => .kFixed64
  | lengthDelimited _ _ _ => .kLengthDelimited
  | fixed32 _ _ => .kFixed32

def bytes : WireValue → List UInt8
  | varInt value => value.bytes
  | fixed64 bytes _ => bytes
  | lengthDelimited length payload _ => length.bytes ++ payload
  | fixed32 bytes _ => bytes

def payloadLength : WireValue → Nat
  | lengthDelimited _ payload _ => payload.length
  | _ => 0

/-- What the reader keeps of a value, with the bytes behind it. -/
def intValue (rest : Pointer) : WireValue → IntValue
  | varInt value => .number value.value
  | fixed64 bytes _ => .number (UInt64.ofNat (littleEndian bytes))
  | lengthDelimited _ payload _ => .address (payload ++ rest)
  | fixed32 bytes _ => .number (UInt64.ofNat (littleEndian bytes))

theorem bytes_ne_nil (value : WireValue) : value.bytes ≠ [] := by
  cases value with
  | varInt value => exact value.terminated.ne_nil
  | fixed64 bytes length => exact ne_nil_of_length_eq_add_one length
  | lengthDelimited length payload announced =>
    exact append_ne_nil_of_left_ne_nil length.terminated.ne_nil payload
  | fixed32 bytes length => exact ne_nil_of_length_eq_add_one length

end WireValue

structure Field where
  number : Nat
  value : WireValue
  tag : VarInt
  positive : 0 < number
  bounded : number < 2 ^ 29
  tagged : tag.value.toNat = 8 * number + value.wireType.toUInt8.toNat

def Field.bytes (field : Field) : List UInt8 := field.tag.bytes ++ field.value.bytes

def messageBytes (fields : List Field) : List UInt8 := fields.flatMap Field.bytes

/-- What the reader keeps of a field, with the bytes behind it. -/
def Field.dataArea (field : Field) (rest : Pointer) : DataArea where
  intValue := field.value.intValue rest
  size := UInt32.ofNat field.value.payloadLength
  dataAreaID := UInt16.ofNat field.number
  type := field.value.wireType.toUInt8

/-! ## One field -/

theorem toNat_kMaxMessageLength : kMaxMessageLength.toNat = 2 ^ 28 - 1 := rfl

theorem parseValue_append (value : WireValue) (startAddr rest : Pointer) (dataAreaID : UInt16)
    (type : UInt8) : value.wireType.parseValue ⟨.abort, startAddr, ⟨.number 0, 0, dataAreaID, type⟩⟩
      (value.bytes ++ rest) = ⟨if 2 ^ 28 - 1 < value.payloadLength then .skip else .ok, rest,
      ⟨value.intValue rest, UInt32.ofNat value.payloadLength, dataAreaID, type⟩⟩ := by
  cases value with
  | varInt value =>
    show parseVarIntValue _ (value.bytes ++ rest) = _
    unfold parseVarIntValue
    rw [varIntDecode_append]
    rfl
  | fixed64 bytes length =>
    show parseFixedValue 8 _ (bytes ++ rest) = _
    unfold parseFixedValue
    rw [if_neg (by simp [length]), ← length, take_left, drop_left]
    rfl
  | lengthDelimited length payload announced =>
    show parseLengthDelimitedValue _ ((length.bytes ++ payload) ++ rest) = _
    unfold parseLengthDelimitedValue
    rw [append_assoc, varIntDecode_append]
    dsimp only
    have sameSize : length.value.toUInt32 = UInt32.ofNat payload.length := by
      rw [← announced]
      simp
    have sameStatus : (length.value > kMaxMessageLength) = (2 ^ 28 - 1 < payload.length) := by
      rw [gt_iff_lt, UInt64.lt_iff_toNat_lt, toNat_kMaxMessageLength, announced]
    rw [if_neg (by simp [announced]), announced, drop_left, sameSize]
    simp only [sameStatus]
    rfl
  | fixed32 bytes length =>
    show parseFixedValue 4 _ (bytes ++ rest) = _
    unfold parseFixedValue
    rw [if_neg (by simp [length]), ← length, take_left, drop_left]
    rfl

theorem ofUInt8_toUInt8 (wireType : ProtoWireType) :
    ProtoWireType.ofUInt8 wireType.toUInt8 = some wireType := by
  cases wireType <;> rfl

theorem toUInt8_lt (wireType : ProtoWireType) : wireType.toUInt8.toNat < 8 := by
  cases wireType <;> decide

namespace Field

variable (field : Field)

theorem toNat_dataAreaId : ((field.tag.value >>> 3).toUInt32).toNat = field.number := by
  have wireType := toUInt8_lt field.value.wireType
  have bounded := field.bounded
  rw [UInt64.toNat_toUInt32, UInt64.toNat_shiftRight, field.tagged]
  show (8 * field.number + _) >>> 3 % 2 ^ 32 = _
  rw [Nat.shiftRight_eq_div_pow]
  omega

theorem dataAreaType : field.tag.value.toUInt8 &&& 7 = field.value.wireType.toUInt8 := by
  have wireType := toUInt8_lt field.value.wireType
  rw [← UInt8.toNat_inj, UInt8.toNat_and, UInt64.toNat_toUInt8, field.tagged]
  have low := Nat.and_two_pow_sub_one_eq_mod
    ((8 * field.number + field.value.wireType.toUInt8.toNat) % 2 ^ 8) 3
  refine low.trans ?_
  omega

theorem append_ne_nil (rest : Pointer) : field.value.bytes ++ rest ≠ [] :=
  append_ne_nil_of_left_ne_nil field.value.bytes_ne_nil rest

theorem dataAreaId_ne_zero : (field.tag.value >>> 3).toUInt32 ≠ 0 := by
  intro zero
  have number := field.toNat_dataAreaId
  rw [zero] at number
  exact ne_of_gt field.positive number.symm

theorem parseOneDataArea_append (fits : field.number ≤ 65535) (rest : Pointer) :
    parseOneDataArea (field.bytes ++ rest) =
      ⟨if 2 ^ 28 - 1 < field.value.payloadLength then .skip else .ok, rest,
        field.dataArea rest⟩ := by
  have small : ¬ (field.tag.value >>> 3).toUInt32 > 65535 := by
    rw [gt_iff_lt, UInt32.lt_iff_toNat_lt, field.toNat_dataAreaId]
    exact not_lt.2 fits
  have sameId : (field.tag.value >>> 3).toUInt32.toUInt16 = UInt16.ofNat field.number := by
    rw [← UInt16.toNat_inj, UInt32.toNat_toUInt16, field.toNat_dataAreaId, UInt16.toNat_ofNat']
  unfold parseOneDataArea bytes
  rw [append_assoc, getNextProtoTag_append _ (field.append_ne_nil rest)]
  dsimp only
  rw [if_neg field.dataAreaId_ne_zero, if_neg small, field.dataAreaType, ofUInt8_toUInt8, sameId]
  exact parseValue_append field.value _ rest _ _

theorem parseOneDataArea_append_of_large (large : 65535 < field.number) (rest : Pointer) :
    parseOneDataArea (field.bytes ++ rest) = ⟨.skip, field.value.bytes ++ rest, .empty⟩ := by
  have tooBig : (field.tag.value >>> 3).toUInt32 > 65535 := by
    rw [gt_iff_lt, UInt32.lt_iff_toNat_lt, field.toNat_dataAreaId]
    exact large
  unfold parseOneDataArea bytes
  rw [append_assoc, getNextProtoTag_append _ (field.append_ne_nil rest)]
  dsimp only
  rw [if_neg field.dataAreaId_ne_zero, if_pos tooBig]

end Field

theorem dataAreaID_parseValue (wireType : ProtoWireType) (result : ParseDataAreaResult)
    (startAddr : Pointer) :
    (wireType.parseValue result startAddr).dataArea.dataAreaID = result.dataArea.dataAreaID := by
  have fixed (bytes : Nat) : (parseFixedValue bytes result startAddr).dataArea.dataAreaID =
    result.dataArea.dataAreaID := by
    unfold parseFixedValue
    split <;> rfl
  cases wireType with
  | kVarInt =>
    show (parseVarIntValue result startAddr).dataArea.dataAreaID = _
    unfold parseVarIntValue
    split <;> rfl
  | kFixed64 => exact fixed 8
  | kLengthDelimited =>
    show (parseLengthDelimitedValue result startAddr).dataArea.dataAreaID = _
    unfold parseLengthDelimitedValue
    split
    · rfl
    · split <;> rfl
  | kFixed32 => exact fixed 4

theorem dataAreaID_ne_zero_of_ok
    {startAddr : Pointer} (isOk : (parseOneDataArea startAddr).status = .ok) :
    (parseOneDataArea startAddr).dataArea.dataAreaID ≠ 0 := by
  unfold parseOneDataArea at isOk ⊢
  cases found : getNextProtoTag startAddr with
  | none =>
    rw [found] at isOk
    cases isOk
  | some tagged =>
    rw [found] at isOk
    dsimp only at isOk ⊢
    by_cases zero : (tagged.1 >>> 3).toUInt32 = 0
    · rw [if_pos zero] at isOk
      cases isOk
    · rw [if_neg zero] at isOk ⊢
      by_cases tooBig : (tagged.1 >>> 3).toUInt32 > 65535
      · rw [if_pos tooBig] at isOk
        cases isOk
      · rw [if_neg tooBig] at isOk ⊢
        have keepsNumber : (tagged.1 >>> 3).toUInt32.toUInt16 ≠ 0 := by
          intro wrapped
          rw [gt_iff_lt, UInt32.lt_iff_toNat_lt] at tooBig
          have small : (tagged.1 >>> 3).toUInt32.toNat < 2 ^ 16 :=
            Nat.lt_succ_of_le (not_lt.1 tooBig)
          rw [← UInt16.toNat_inj, UInt32.toNat_toUInt16, Nat.mod_eq_of_lt small] at wrapped
          exact zero (UInt32.toNat_inj.1 wrapped)
        cases known : ProtoWireType.ofUInt8 (tagged.1.toUInt8 &&& 7) with
        | none =>
          rw [known] at isOk
          cases isOk
        | some wireType =>
          dsimp only
          rw [dataAreaID_parseValue]
          exact keepsNumber

inductive FieldData where
  | number (value : UInt64)
  | bytes (data : List UInt8)

/-- What a reader can see of an occurrence of a field. -/
structure Occurrence where
  number : Nat
  type : UInt8
  data : FieldData

/-- The data of a data area: `ToUint64`, or `Size()` bytes from `Data()` on. -/
def DataArea.occurrence (dataArea : DataArea) : Occurrence where
  number := dataArea.dataAreaID.toNat
  type := dataArea.type
  data :=
    match dataArea.intValue with
    | .number value => .number value
    | .address data => .bytes (data.take dataArea.size.toNat)

def WireValue.data : WireValue → FieldData
  | varInt value => .number value.value
  | fixed64 bytes _ => .number (UInt64.ofNat (littleEndian bytes))
  | lengthDelimited _ payload _ => .bytes payload
  | fixed32 bytes _ => .number (UInt64.ofNat (littleEndian bytes))

def Field.occurrence (field : Field) : Occurrence where
  number := field.number
  type := field.value.wireType.toUInt8
  data := field.value.data

theorem Field.occurrence_dataArea (field : Field) (fits : field.number ≤ 65535)
    (short : field.value.payloadLength ≤ 2 ^ 28 - 1) (rest : Pointer) :
    (field.dataArea rest).occurrence = field.occurrence := by
  have sameNumber : (UInt16.ofNat field.number).toNat = field.number := by
    rw [UInt16.toNat_ofNat']
    exact Nat.mod_eq_of_lt (Nat.lt_succ_of_le fits)
  have sameSize : (UInt32.ofNat field.value.payloadLength).toNat = field.value.payloadLength := by
    rw [UInt32.toNat_ofNat']
    omega
  unfold DataArea.occurrence Field.occurrence Field.dataArea
  dsimp only
  rw [sameNumber, sameSize]
  cases field.value with
  | varInt value => rfl
  | fixed64 bytes length => rfl
  | lengthDelimited length payload announced =>
    simp [WireValue.intValue, WireValue.payloadLength, WireValue.data, WireValue.wireType]
  | fixed32 bytes length => rfl

end SysAnalyzer.ProtoReader
