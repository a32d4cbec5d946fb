import SysAnalyzer.Hdc.Serialize

/-!
# Integers of 64 bits and the transfer configuration

`writeVarIntU64` and `readVarIntU64` differ from the pair for 32 bits only in
the number of their rounds.  Both use bit operators, which see the lowest 32 bits
of a number and take them as a signed integer.

A number from `2 ^ 31` on is lost: either its 32 bits are negative, so that the
shift never makes them zero and every byte says that another one follows, or its
higher bits are not written.
-/

namespace SysAnalyzer.Hdc

open Foundation List

/-- `TransferConfig`; what is written are texts, what is read code units. -/
structure TransferConfig (Text : Type) where
  fileSize : Int
  atime : Int
  mtime : Int
  options : Text
  path : Text
  optionalName : Text
  updateIfNew : Bool
  compressType : Int
  holdTimestamp : Bool
  functionName : Text
  clientCwd : Text
  reserve1 : Text
  reserve2 : Text

namespace Serialize

def writeVarIntU64 (u64value : Int) : List UInt8 := writeLoop 10 (toInt32 u64value)

def serializeU64 (tag value : Int) : List UInt8 :=
  writeTagWriteType tag varint ++ writeVarIntU64 value

def serializeTransferConfig (transferConfig : TransferConfig (List Char)) : List UInt8 :=
  let fileSizeValue := serializeU64 1 transferConfig.fileSize
  let atimeValue := serializeU64 2 transferConfig.atime
  let mtimeValue := serializeU64 3 transferConfig.mtime
  let optionsValue := serializeToString 4 transferConfig.options
  let pathValue := serializeToString 5 transferConfig.path
  let optionalNameValue := serializeToString 6 transferConfig.optionalName
  let updateIfNewValue := serializeU32 7 (if transferConfig.updateIfNew then 1 else 0)
  let compressTypeValue := serializeU8 8 transferConfig.compressType
  let holdTimestampValue := serializeU32 9 (if transferConfig.holdTimestamp then 1 else 0)
  let functionNameValue := serializeToString 10 transferConfig.functionName
  let clientCwdValue := serializeToString 11 transferConfig.clientCwd
  let reserve1Value := serializeToString 12 transferConfig.reserve1
  let reserve2Value := serializeToString 13 transferConfig.reserve2
  fileSizeValue ++ (atimeValue ++ mtimeValue ++ optionsValue ++ pathValue ++
    optionalNameValue ++ updateIfNewValue ++ compressTypeValue ++
    holdTimestampValue ++ functionNameValue ++ clientCwdValue ++
    reserve1Value ++ reserve2Value)

/--
The loop of `readVarIntU64`; of the number of places to shift by, the operator
takes the lowest five bits.
-/
def readLoopU64 : Nat → Nat → BitVec 32 → List UInt8 → Int
  | 0, _, _, _ => -1
  | _ + 1, _, _, [] => -1
  | count + 1, u62IntIndex, u62IntValue, int8 :: rest =>
    let readValue := int8 &&& 0b01111111
    let u62IntValue := u62IntValue ||| readValue.toBitVec.setWidth 32 <<< (7 * u62IntIndex % 32)
    if int8 &&& 0b10000000 = 0 then u62IntValue.toInt
    else readLoopU64 count (u62IntIndex + 1) u62IntValue rest

def readVarIntU64 (bytes : List UInt8) : Int := readLoopU64 10 0 0 bytes

/-- `parseU64`; the size it is given is not used. -/
def parseU64 (bytes : List UInt8) (_size : Nat) : Int := readVarIntU64 bytes

/-- `parseTransferConfig`; the tag is read too, but nothing looks at it. -/
def parseTransferConfig (dataBuffer : List UInt8) : TransferConfig UnitString :=
  let channelDataBuffer := sliceFrom dataBuffer 1
  let fileSize := parseU64 channelDataBuffer 1
  ⟨fileSize, 0, 0, [], [], [], false, 0, false, [], [], [], []⟩

variable {count : Nat}

theorem readLoopU64_eq_readLoop {bytes : List UInt8} (ended : Terminated bytes) (rest : List UInt8)
    {index : Nat} (few : index + bytes.length ≤ 5) (u62IntValue : BitVec 32) :
    readLoopU64 count index u62IntValue (bytes ++ rest) =
      readLoop count index u62IntValue (bytes ++ rest) := by
  induction bytes generalizing count index u62IntValue with
  | nil => exact ended.elim
  | cons int8 others induction =>
    cases count with
    | zero => rfl
    | succ count =>
      have places : 7 * index % 32 = 7 * index := by
        rw [length_cons] at few
        omega
      simp only [cons_append, readLoopU64, readLoop, places]
      split_ifs with isLast
      · rfl
      · cases others with
        | nil => exact absurd ((and_high_bit_eq_zero_iff int8).2 ended) isLast
        | cons next behind =>
          apply induction ended.2
          simp only [length_cons] at few ⊢
          omega

theorem readLoopU64_of_fewRounds {index : Nat} (few : index + count ≤ 5) (u62IntValue : BitVec 32)
    (bytes : List UInt8) :
    readLoopU64 count index u62IntValue bytes = readLoop count index u62IntValue bytes := by
  induction bytes generalizing count index u62IntValue with
  | nil => cases count <;> rfl
  | cons int8 rest induction =>
    cases count with
    | zero => rfl
    | succ count =>
      have places : 7 * index % 32 = 7 * index := by omega
      simp only [readLoopU64, readLoop, places]
      rw [induction (by omega)]

theorem writeVarIntU64_eq_shortestBytes {number : Nat} (small : number < 2 ^ 31) :
    writeVarIntU64 number = shortestBytes number := by
  have asBits : toInt32 number = BitVec.ofNat 32 number := by simp [toInt32]
  rw [writeVarIntU64, asBits]
  exact writeLoop_eq_shortestBytes small (Nat.lt_of_lt_of_le small (by decide))

theorem readVarIntU64_shortestBytes {number : Nat} (small : number < 2 ^ 31) (rest : List UInt8) :
    readVarIntU64 (shortestBytes number ++ rest) = number := by
  have short : (shortestBytes number).length ≤ 5 :=
    length_shortestBytes_le number 4 (Nat.lt_of_lt_of_le small (by decide))
  have same : readLoopU64 10 0 0 (shortestBytes number ++ rest) =
    readLoop 10 0 0 (shortestBytes number ++ rest) := by
    apply readLoopU64_eq_readLoop (terminated_shortestBytes number)
    omega
  have read : readLoop 10 0 0 (shortestBytes number ++ rest) =
    ((0 : BitVec 32).toNat + number * 2 ^ (7 * 0) : Nat) :=
    readLoop_shortestBytes rest (by decide) (by simpa using small) (by omega)
  rw [readVarIntU64, same, read]
  simp

def Unended (bytes : List UInt8) : Prop := ∀ byte ∈ bytes, ¬ byte &&& 0b10000000 = 0

theorem sshiftRight_of_msb {number : BitVec 32} (negative : number.msb = true) :
    (number.sshiftRight 7).msb = true := by
  rw [BitVec.msb_sshiftRight]
  exact negative

theorem unended_writeLoop (count : Nat) {number : BitVec 32} (negative : number.msb = true) :
    (writeLoop count number).length = count ∧ Unended (writeLoop count number) := by
  induction count generalizing number with
  | zero => exact ⟨rfl, fun _ member => absurd member not_mem_nil⟩
  | succ count induction =>
    have shifted := sshiftRight_of_msb negative
    have goesOn : number.sshiftRight 7 ≠ 0 := by
      intro isZero
      rw [isZero] at shifted
      cases shifted
    rcases induction shifted with ⟨length, unended⟩
    rw [writeLoop]
    simp only [goesOn, ne_eq, not_false_eq_true, if_true]
    constructor
    · rw [length_cons, length]
    · intro byte member
      rcases List.mem_cons.1 member with rfl | later
      · have high := moreByte number.toNat
        rw [BitVec.ofNat_toNat, BitVec.setWidth_eq] at high
        rw [high, and_high_bit_eq_zero_iff, UInt8.toNat_ofNat']
        omega
      · exact unended byte later

theorem readLoopU64_unended {bytes : List UInt8} (unended : Unended bytes) (rest : List UInt8)
    (enough : count ≤ bytes.length) (index : Nat) (value : BitVec 32) :
    readLoopU64 count index value (bytes ++ rest) = -1 := by
  induction bytes generalizing count index value with
  | nil =>
    rw [Nat.le_zero.1 enough]
    rfl
  | cons int8 others induction =>
    cases count with
    | zero => rfl
    | succ count =>
      have more := unended int8 mem_cons_self
      simp only [cons_append, readLoopU64, more, if_false]
      exact induction (fun byte member =>
        unended byte (mem_cons_of_mem _ member))
        (Nat.le_of_succ_le_succ enough) _ _

variable (number : Nat)

theorem toInt32_natCast : toInt32 number = BitVec.ofNat 32 number := BitVec.ofInt_natCast 32 number

theorem toInt32_mod : toInt32 ((number % 2 ^ 32 : Nat) : Int) = toInt32 number := by
  rw [toInt32_natCast, toInt32_natCast]
  apply BitVec.eq_of_toNat_eq
  rw [BitVec.toNat_ofNat, BitVec.toNat_ofNat, Nat.mod_mod]

theorem msb_toInt32 {number : Nat} (large : ¬ number % 2 ^ 32 < 2 ^ 31) :
    (toInt32 number).msb = true := by
  rw [toInt32_natCast]
  cases sign : (BitVec.ofNat 32 number).msb with
  | true => rfl
  | false =>
    rw [BitVec.msb_eq_false_iff_two_mul_lt, BitVec.toNat_ofNat] at sign
    omega

theorem readVarIntU32_writeVarIntU32 (rest : List UInt8) :
    readVarIntU32 (writeVarIntU32 number ++ rest) =
      if number % 2 ^ 32 < 2 ^ 31 then ((number % 2 ^ 32 : Nat) : Int) else -1 := by
  have seen : writeVarIntU32 number = writeVarIntU32 (number % 2 ^ 32 : Nat) := by
    rw [writeVarIntU32, writeVarIntU32, toInt32_mod]
  split_ifs with small
  · rw [seen, writeVarIntU32_eq_shortestBytes small]
    exact readVarIntU32_shortestBytes small rest
  · rcases unended_writeLoop 5 (msb_toInt32 small) with ⟨length, unended⟩
    have read := readLoopU64_unended unended rest length.ge 0 0
    rwa [readLoopU64_of_fewRounds (by omega)] at read

theorem readVarIntU64_writeVarIntU64 (rest : List UInt8) :
    readVarIntU64 (writeVarIntU64 number ++ rest) =
      if number % 2 ^ 32 < 2 ^ 31 then ((number % 2 ^ 32 : Nat) : Int) else -1 := by
  have seen : writeVarIntU64 number = writeVarIntU64 (number % 2 ^ 32 : Nat) := by
    rw [writeVarIntU64, writeVarIntU64, toInt32_mod]
  split_ifs with small
  · rw [seen, writeVarIntU64_eq_shortestBytes small]
    exact readVarIntU64_shortestBytes small rest
  · rcases unended_writeLoop 10 (msb_toInt32 small) with ⟨length, unended⟩
    exact readLoopU64_unended unended rest length.ge 0 0

theorem comesBack_iff :
    (if number % 2 ^ 32 < 2 ^ 31 then ((number % 2 ^ 32 : Nat) : Int) else -1) = number ↔
      number < 2 ^ 31 := by
  split_ifs with small
  · rw [Int.natCast_inj]
    omega
  · constructor
    · intro same
      exact same.elim
    · intro below
      omega

theorem fileSize_parseTransferConfig (transferConfig : TransferConfig (List Char)) :
    ∃ rest, (parseTransferConfig (serializeTransferConfig transferConfig)).fileSize =
      readVarIntU64 (writeVarIntU64 transferConfig.fileSize ++ rest) := by
  have tag : writeTagWriteType 1 varint = [8] := by decide
  have first : ∃ rest, serializeTransferConfig transferConfig =
    serializeU64 1 transferConfig.fileSize ++ rest :=
    ⟨_, rfl⟩
  rcases first with ⟨rest, first⟩
  refine ⟨rest, ?_⟩
  rw [parseTransferConfig, first, serializeU64, tag]
  rfl

/--
A number comes back through the pair for 32 bits, through the pair for 64 bits
and as a file size exactly when it is below `2 ^ 31`.
-/
theorem varInt_roundTrip_iff (number : Nat) :
    (number < 2 ^ 32 → (readVarIntU32 (writeVarIntU32 number) = number ↔ number < 2 ^ 31)) ∧
    (number < 2 ^ 53 → (readVarIntU64 (writeVarIntU64 number) = number ↔ number < 2 ^ 31)) ∧
    ∀ transferConfig : TransferConfig (List Char),
      transferConfig.fileSize = number → number < 2 ^ 53 → ((parseTransferConfig
        (serializeTransferConfig transferConfig)).fileSize = transferConfig.fileSize ↔
        number < 2 ^ 31) := by
  refine ⟨fun _ => ?_, fun _ => ?_, ?_⟩
  · rw [← comesBack_iff, ← readVarIntU32_writeVarIntU32 number [], append_nil]
  · rw [← comesBack_iff, ← readVarIntU64_writeVarIntU64 number [], append_nil]
  · intro transferConfig isNumber _
    rcases fileSize_parseTransferConfig transferConfig with ⟨rest, read⟩
    rw [read, isNumber, readVarIntU64_writeVarIntU64, comesBack_iff]

def largeFile : TransferConfig (List Char) where
  fileSize := 2 ^ 31
  atime := 0
  mtime := 0
  options := []
  path := []
  optionalName := []
  updateIfNew := false
  compressType := 0
  holdTimestamp := false
  functionName := []
  clientCwd := []
  reserve1 := []
  reserve2 := []

/-- Neither pair brings `2 ^ 31` back, and the size of a large file is lost. -/
theorem not_roundTrip_twoGigabytes :
    ¬ ((∀ number : Nat, number < 2 ^ 32 → readVarIntU32 (writeVarIntU32 number) = number) ∨
      (∀ number : Nat, number < 2 ^ 53 → readVarIntU64 (writeVarIntU64 number) = number) ∨
      (parseTransferConfig (serializeTransferConfig largeFile)).fileSize =
        largeFile.fileSize) := by
  rintro (all | all | same)
  · exact absurd (all (2 ^ 31) (by decide)) (by decide)
  · exact absurd (all (2 ^ 31) (by decide)) (by decide)
  · exact absurd same (by decide)

end Serialize

end SysAnalyzer.Hdc
