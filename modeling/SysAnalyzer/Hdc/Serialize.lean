import SysAnalyzer.Foundation.VarInt
import SysAnalyzer.Foundation.TextDecoder

/-!
# Fields of hdc messages

`Serialize` writes a field as a tag and a variable-length integer, and reads an
integer at the start of what is left of a buffer.  The bit operators work on
signed integers of 32 bits; the reader answers `-1` when the bytes run out.

For numbers below `2 ^ 31` the writer produces the shortest form, and the reader
finds the number again in front of any other bytes.
-/

namespace SysAnalyzer.Hdc

open Foundation List

/-- The operand of a bit operator, as a signed integer of 32 bits. -/
def toInt32 (value : Int) : BitVec 32 := BitVec.ofInt 32 value

/-- An index of `slice`; a negative one counts from the end. -/
def sliceIndex (length : Nat) (index : Int) : Nat :=
  if index < 0 then (length + index).toNat else min index.toNat length

/-- `ArrayBuffer.slice` with one index. -/
def sliceFrom (buffer : List UInt8) (first : Int) : List UInt8 :=
  buffer.drop (sliceIndex buffer.length first)

/-- `ArrayBuffer.slice` from the start. -/
def sliceTo (buffer : List UInt8) (final : Int) : List UInt8 :=
  buffer.take (sliceIndex buffer.length final)

theorem sliceFrom_natCast (buffer : List UInt8) (first : Nat) :
    sliceFrom buffer first = buffer.drop first := by
  have notNegative : ¬ (first : Int) < 0 := not_lt.2 (Int.natCast_nonneg _)
  rw [sliceFrom, sliceIndex, if_neg notNegative, Int.toNat_natCast]
  rcases le_total first buffer.length with inside | behind
  · rw [min_eq_left inside]
  · rw [min_eq_right behind, drop_length, drop_eq_nil_of_le behind]

theorem sliceTo_natCast (buffer : List UInt8) (final : Nat) :
    sliceTo buffer final = buffer.take final := by
  have notNegative : ¬ (final : Int) < 0 := not_lt.2 (Int.natCast_nonneg _)
  rw [sliceTo, sliceIndex, if_neg notNegative, Int.toNat_natCast]
  rcases le_total final buffer.length with inside | behind
  · rw [min_eq_left inside]
  · rw [min_eq_right behind, take_length, take_of_length_le behind]

namespace Serialize

def varint : Int := 0

def lengthDelimeted : Int := 2

/-- The loop of `writeVarIntU32`, with the number of bytes it may still write. -/
def writeLoop : Nat → BitVec 32 → List UInt8
  | 0, _ => []
  | count + 1, u32value =>
    let byte := u32value &&& 0b01111111
    let shifted := u32value.sshiftRight 7
    if shifted ≠ 0 then UInt8.ofBitVec ((byte ||| 0b10000000).setWidth 8) :: writeLoop count shifted
    else [UInt8.ofBitVec (byte.setWidth 8)]

def writeVarIntU32 (u32value : Int) : List UInt8 := writeLoop 5 (toInt32 u32value)

def makeTagWireType (tag wireType : Int) : Int := (toInt32 tag <<< 3 ||| toInt32 wireType).toInt

def writeTagWriteType (tag wireType : Int) : List UInt8 :=
  writeVarIntU32 (makeTagWireType tag wireType)

def serializeU32 (tag value : Int) : List UInt8 :=
  writeTagWriteType tag varint ++ writeVarIntU32 value

def serializeU8 (tag value : Int) : List UInt8 := serializeU32 tag value

/-- `serializeToString`; `value.length` counts code units. -/
def serializeToString (tag : Int) (value : List Char) : List UInt8 :=
  writeVarIntU32 (makeTagWireType tag lengthDelimeted) ++
    writeVarIntU32 (utf16 value).length ++ utf8 value

/--
The loop of `readVarIntU32`, with the number of bytes it may still read, the
index of the next one and the bits read so far.
-/
def readLoop : Nat → Nat → BitVec 32 → List UInt8 → Int
  | 0, _, _, _ => -1
  | _ + 1, _, _, [] => -1
  | count + 1, index, u32IntValue, int8 :: rest =>
    let readValue := int8 &&& 0b01111111
    let u32IntValue := u32IntValue ||| readValue.toBitVec.setWidth 32 <<< (7 * index)
    if int8 &&& 0b10000000 = 0 then u32IntValue.toInt
    else readLoop count (index + 1) u32IntValue rest

def readVarIntU32 (bytes : List UInt8) : Int := readLoop 5 0 0 bytes

/-- `parseU32`; the size it is given is not used. -/
def parseU32 (bytes : List UInt8) (_size : Nat) : Int := readVarIntU32 bytes

def parseU8 (bytes : List UInt8) (size : Nat) : Int := parseU32 bytes size

def parseString (buffer : List UInt8) (size : Int) : UnitString :=
  TextDecoder.decode (sliceTo buffer size)

/-! ## Integers that are written and read -/

variable {number : Nat}

theorem sshiftRight_ofNat (small : number < 2 ^ 31) :
    (BitVec.ofNat 32 number).sshiftRight 7 = BitVec.ofNat 32 (number / 128) := by
  have positive : (BitVec.ofNat 32 number).msb = false := by
    rw [BitVec.msb_eq_false_iff_two_mul_lt, BitVec.toNat_ofNat]
    omega
  rw [BitVec.sshiftRight_eq_of_msb_false positive]
  apply BitVec.eq_of_toNat_eq
  rw [BitVec.toNat_ushiftRight, BitVec.toNat_ofNat, BitVec.toNat_ofNat, Nat.shiftRight_eq_div_pow]
  omega

theorem and_127_toNat (number : Nat) :
    (BitVec.ofNat 32 number &&& 0b01111111).toNat = number % 128 := by
  have mask : (0b01111111 : BitVec 32).toNat = 2 ^ 7 - 1 := by decide
  rw [BitVec.toNat_and, mask, Nat.and_two_pow_sub_one_eq_mod, BitVec.toNat_ofNat]
  omega

theorem lastByte (small : number < 128) :
    UInt8.ofBitVec ((BitVec.ofNat 32 number &&& 0b01111111).setWidth 8) = UInt8.ofNat number := by
  apply UInt8.toNat_inj.1
  rw [UInt8.toNat_ofBitVec, BitVec.toNat_setWidth, and_127_toNat, UInt8.toNat_ofNat']
  omega

theorem or_128_toNat {byte : BitVec 32} (small : byte.toNat < 128) :
    (byte ||| 0b10000000).toNat = byte.toNat + 128 := by
  have high : (0b10000000 : BitVec 32).toNat = 2 ^ 7 * 1 := by decide
  rw [BitVec.toNat_or, high, Nat.or_comm,
    ← Nat.two_pow_add_eq_or_of_lt small, mul_one, add_comm]

theorem moreByte (number : Nat) :
    UInt8.ofBitVec (((BitVec.ofNat 32 number &&& 0b01111111) ||| 0b10000000).setWidth 8) =
      UInt8.ofNat (number % 128 + 128) := by
  have low := and_127_toNat number
  apply UInt8.toNat_inj.1
  rw [UInt8.toNat_ofBitVec, BitVec.toNat_setWidth, or_128_toNat (by omega), low, UInt8.toNat_ofNat']

theorem writeLoop_last (count : Nat) (oneByte : number < 128) :
    writeLoop (count + 1) (BitVec.ofNat 32 number) = [UInt8.ofNat number] := by
  have done : (BitVec.ofNat 32 number).sshiftRight 7 = 0 := by
    rw [sshiftRight_ofNat (by omega), Nat.div_eq_of_lt oneByte]
    rfl
  rw [writeLoop]
  simp only [done, ne_eq, not_true_eq_false, if_false]
  rw [lastByte oneByte]

theorem writeLoop_more (count : Nat) (small : number < 2 ^ 31) (more : ¬ number < 128) :
    writeLoop (count + 1) (BitVec.ofNat 32 number) = UInt8.ofNat (number % 128 + 128) ::
      writeLoop count (BitVec.ofNat 32 (number / 128)) := by
  have goesOn : BitVec.ofNat 32 (number / 128) ≠ 0 := by
    intro isZero
    have asNat : (number / 128) % 2 ^ 32 = 0 := by
      rw [← BitVec.toNat_ofNat, isZero]
      rfl
    omega
  rw [writeLoop]
  simp only [sshiftRight_ofNat small]
  rw [if_pos goesOn, moreByte]

theorem writeLoop_eq_shortestBytes {count : Nat} (small : number < 2 ^ 31)
    (fits : number < 128 ^ (count + 1)) :
    writeLoop (count + 1) (BitVec.ofNat 32 number) = shortestBytes number := by
  induction count generalizing number with
  | zero =>
    have oneByte : number < 128 := by simpa using fits
    rw [writeLoop_last 0 oneByte, shortestBytes_small oneByte]
  | succ count induction =>
    by_cases oneByte : number < 128
    · rw [writeLoop_last _ oneByte, shortestBytes_small oneByte]
    · have rest : number / 128 < 128 ^ (count + 1) := by
        rw [Nat.div_lt_iff_lt_mul (by decide)]
        rwa [← pow_succ]
      rw [writeLoop_more _ small oneByte, shortestBytes_large oneByte, induction (by omega) rest]

theorem writeVarIntU32_eq_shortestBytes (small : number < 2 ^ 31) :
    writeVarIntU32 number = shortestBytes number := by
  have asBits : toInt32 number = BitVec.ofNat 32 number := by simp [toInt32]
  rw [writeVarIntU32, asBits]
  exact writeLoop_eq_shortestBytes small (lt_of_lt_of_le small (by decide))

variable {u32IntValue : BitVec 32}

variable {index : Nat}

theorem toNat_or_shifted {payload : Nat} (below : u32IntValue.toNat < 2 ^ (7 * index))
    (small : payload * 2 ^ (7 * index) < 2 ^ 32) :
    (u32IntValue ||| BitVec.ofNat 32 payload <<< (7 * index)).toNat =
      u32IntValue.toNat + payload * 2 ^ (7 * index) := by
  have positive : 0 < 2 ^ (7 * index) := Nat.two_pow_pos _
  have payloadSmall : payload < 2 ^ 32 :=
    lt_of_le_of_lt (Nat.le_mul_of_pos_right payload positive) small
  have shifted : (BitVec.ofNat 32 payload <<< (7 * index)).toNat = 2 ^ (7 * index) * payload := by
    rw [BitVec.toNat_shiftLeft, BitVec.toNat_ofNat,
      Nat.mod_eq_of_lt payloadSmall, Nat.shiftLeft_eq, Nat.mod_eq_of_lt small,
      mul_comm]
  rw [BitVec.toNat_or, shifted, Nat.or_comm,
    ← Nat.two_pow_add_eq_or_of_lt below, add_comm, mul_comm]

theorem readValue_eq (int8 : UInt8) :
    (int8 &&& 0b01111111).toBitVec.setWidth 32 = BitVec.ofNat 32 (int8.toNat % 128) := by
  have low := toNat_and_low_bits int8
  apply BitVec.eq_of_toNat_eq
  rw [BitVec.toNat_setWidth, UInt8.toNat_toBitVec, low, BitVec.toNat_ofNat]

theorem readLoop_last (count : Nat) (rest : List UInt8) (oneByte : number < 128)
    (below : u32IntValue.toNat < 2 ^ (7 * index))
    (small : u32IntValue.toNat + number * 2 ^ (7 * index) < 2 ^ 31) :
    readLoop (count + 1) index u32IntValue (UInt8.ofNat number :: rest) =
      (u32IntValue.toNat + number * 2 ^ (7 * index) : Nat) := by
  have asNat : (UInt8.ofNat number).toNat = number := by
    rw [UInt8.toNat_ofNat']
    omega
  have isLast : UInt8.ofNat number &&& 0b10000000 = 0 :=
    (and_high_bit_eq_zero_iff _).2 (by rw [asNat]; exact oneByte)
  have combined :=
    toNat_or_shifted below (lt_of_le_of_lt (Nat.le_add_left _ _)
      (lt_of_lt_of_le small (by decide)))
  rw [readLoop]
  simp only [readValue_eq, asNat, Nat.mod_eq_of_lt oneByte]
  rw [if_pos isLast, BitVec.toInt_eq_toNat_of_lt (by omega), combined]

theorem readLoop_more (count : Nat) (rest : List UInt8) :
    readLoop (count + 1) index u32IntValue (UInt8.ofNat (number % 128 + 128) :: rest) =
      readLoop count (index + 1) (u32IntValue ||| BitVec.ofNat 32 (number % 128) <<< (7 * index))
        rest := by
  have asNat : (UInt8.ofNat (number % 128 + 128)).toNat = number % 128 + 128 := by
    rw [UInt8.toNat_ofNat']
    omega
  have notLast : ¬ UInt8.ofNat (number % 128 + 128) &&& 0b10000000 = 0 := by
    rw [and_high_bit_eq_zero_iff, asNat]
    omega
  rw [readLoop]
  simp only [readValue_eq, asNat, Nat.add_mod_right, Nat.mod_mod]
  rw [if_neg notLast]

theorem readLoop_shortestBytes {count : Nat} (rest : List UInt8)
    (below : u32IntValue.toNat < 2 ^ (7 * index))
    (small : u32IntValue.toNat + number * 2 ^ (7 * index) < 2 ^ 31)
    (enough : (shortestBytes number).length ≤ count) :
    readLoop count index u32IntValue (shortestBytes number ++ rest) =
      (u32IntValue.toNat + number * 2 ^ (7 * index) : Nat) := by
  induction count generalizing number index u32IntValue with
  | zero =>
    have something := (terminated_shortestBytes number).ne_nil
    exact absurd (length_eq_zero_iff.1 (Nat.le_zero.1 enough)) something
  | succ count induction =>
    by_cases oneByte : number < 128
    · rw [shortestBytes_small oneByte, singleton_append]
      exact readLoop_last count rest oneByte below small
    · rw [shortestBytes_large oneByte, length_cons] at enough
      rw [shortestBytes_large oneByte, cons_append, readLoop_more]
      have power : 2 ^ (7 * (index + 1)) = 2 ^ (7 * index) * 128 := by rw [mul_add, Nat.pow_add]
      have parts : number * 2 ^ (7 * index) = number % 128 * 2 ^ (7 * index) +
        number / 128 * (2 ^ (7 * index) * 128) := by
        calc
          number * 2 ^ (7 * index) = (number % 128 + 128 * (number / 128)) * 2 ^ (7 * index) := by
            rw [Nat.mod_add_div]
          _ = _ := by ring
      have combined :=
        toNat_or_shifted below (show number % 128 * 2 ^ (7 * index) < 2 ^ 32 by omega)
      have grown : number % 128 * 2 ^ (7 * index) ≤ 127 * 2 ^ (7 * index) :=
        Nat.mul_le_mul_right _ (by omega)
      rw [induction (by rw [combined, power]; omega)
        (by rw [combined, power]; omega) (by omega), combined, power, parts]
      congr 1
      omega

theorem readVarIntU32_shortestBytes (small : number < 2 ^ 31) (rest : List UInt8) :
    readVarIntU32 (shortestBytes number ++ rest) = number := by
  have enough : (shortestBytes number).length ≤ 5 :=
    length_shortestBytes_le number 4 (lt_of_lt_of_le small (by decide))
  have read : readLoop 5 0 0 (shortestBytes number ++ rest) =
    ((0 : BitVec 32).toNat + number * 2 ^ (7 * 0) : Nat) :=
    readLoop_shortestBytes rest (by decide) (by simpa using small) enough
  rw [readVarIntU32, read]
  simp

theorem serializeU32_eq {value : Nat} (tag : Nat) (tagSmall : tag < 16) (small : value < 2 ^ 31) :
    serializeU32 tag value = UInt8.ofNat (8 * tag) :: shortestBytes value := by
  have ofTag : writeTagWriteType tag varint = [UInt8.ofNat (8 * tag)] := by
    interval_cases tag <;> decide
  rw [serializeU32, ofTag, writeVarIntU32_eq_shortestBytes small, singleton_append]

theorem serializeToString_eq {value : List Char} (tag : Nat) (tagSmall : tag < 16)
    (small : (utf16 value).length < 2 ^ 31) :
    serializeToString tag value = UInt8.ofNat (8 * tag + 2) ::
      (shortestBytes (utf16 value).length ++ utf8 value) := by
  have ofTag : writeVarIntU32 (makeTagWireType tag lengthDelimeted) =
    [UInt8.ofNat (8 * tag + 2)] := by
    interval_cases tag <;> decide
  rw [serializeToString, ofTag, writeVarIntU32_eq_shortestBytes small,
    singleton_append, cons_append]

end Serialize

end SysAnalyzer.Hdc
