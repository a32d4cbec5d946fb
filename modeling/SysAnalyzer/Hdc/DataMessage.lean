import SysAnalyzer.Foundation.Words
import SysAnalyzer.Hdc.Serialize

/-!
# Frames of hdc

`DataProcessing.send` puts a payload behind a head of fixed size and the
serialized `PayloadProtect`; the constructor of `DataMessage` takes the body
apart again.  All four fields of `PayloadProtect` are variable-length integers,
but the reader goes on by one byte behind each of them.

Where a field takes more than one byte, the next field is read out of its own
bytes or out of a tag.  `ReadsCommandFlag` and `ReadsProtect` are the inputs on
which the reader finds the right numbers nevertheless, field by field.
-/

namespace SysAnalyzer.Hdc

open Foundation List Option

structure PayloadProtect where
  channelId : Int
  commandFlag : Int
  checkSum : Int
  vCode : Int
  deriving DecidableEq

namespace Serialize

def serializePayloadProtect (payloadProtect : PayloadProtect) : List UInt8 :=
  let channelId := serializeU32 1 payloadProtect.channelId
  let commandFlag := serializeU32 2 payloadProtect.commandFlag
  let checkSum := serializeU8 3 payloadProtect.checkSum
  let vCode := serializeU8 4 payloadProtect.vCode
  channelId ++ commandFlag ++ checkSum ++ vCode

/-- `parsePayloadProtect`; the tags are read too, but nothing looks at them. -/
def parsePayloadProtect (dataBuffer : List UInt8) : PayloadProtect :=
  let channelDataBuffer := sliceFrom dataBuffer 1
  let channelId := parseU32 channelDataBuffer 1
  let commandTagBuffer := sliceFrom channelDataBuffer 1
  let commandDataBuffer := sliceFrom commandTagBuffer 1
  let commandFlag := parseU32 commandDataBuffer 1
  let checkSumTagBuffer := sliceFrom commandDataBuffer 1
  let checkSumDataBuffer := sliceFrom checkSumTagBuffer 1
  let checkSum := parseU8 checkSumDataBuffer 1
  let vCodeTagBuffer := sliceFrom checkSumDataBuffer 1
  let vCodeDataBuffer := sliceFrom vCodeTagBuffer 1
  let vCode := parseU8 vCodeDataBuffer 1
  ⟨channelId, commandFlag, checkSum, vCode⟩

end Serialize

/-- The bytes of a number, highest first, as `DataView` writes them. -/
def bigEndianBytes (count number : Nat) : List UInt8 := (littleEndianBytes count number).reverse

/-- The number that bytes spell, highest first. -/
def bigEndian (bytes : List UInt8) : Nat := littleEndian bytes.reverse

structure PayloadHead where
  flag : Nat × Nat
  reserve : Nat × Nat
  protocolVer : Nat
  headSize : Nat
  dataSize : Nat

namespace PayloadHead

def getDataView (head : PayloadHead) : List UInt8 :=
  bigEndianBytes 1 head.flag.1 ++ bigEndianBytes 1 head.flag.2 ++
    bigEndianBytes 1 head.reserve.1 ++ bigEndianBytes 1 head.reserve.2 ++
    bigEndianBytes 1 head.protocolVer ++ bigEndianBytes 2 head.headSize ++
    bigEndianBytes 4 head.dataSize

/-- A getter of `DataView`; `none` where it throws. -/
def getUint (data : List UInt8) (count place : Nat) : Option Nat :=
  if place + count ≤ data.length then some (bigEndian ((data.drop place).take count))
  else none

/-- `parsePlayHead`; `none` where a getter throws. -/
def parsePlayHead (data : List UInt8) : Option PayloadHead := do
  let flagZero ← getUint data 1 0
  let flagOne ← getUint data 1 1
  let reserveZero ← getUint data 1 2
  let reserveOne ← getUint data 1 3
  let protocolVer ← getUint data 1 4
  let headSize ← getUint data 2 5
  let dataSize ← if data.length < 11 then some 0 else getUint data 4 7
  return ⟨(flagZero, flagOne), (reserveZero, reserveOne), protocolVer, headSize, dataSize⟩

end PayloadHead

/-- `DataProcessing.checkSum`. -/
def dataProcessingCheckSum : Int := 0

/-- `DataProcessing.vCode`. -/
def dataProcessingVCode : Int := 0x09

/-- `PACKET_FLAG`, "HW". -/
def packetFlag : Nat × Nat := (0x48, 0x57)

/--
The body that `DataProcessing.send` writes behind the packet header; `none`
where `Uint8Array.set` throws because the data do not fit.
-/
def sendBody (channelId commandFlag : Int) (data : List UInt8)
    (dataSize : Nat) : Option (List UInt8) :=
  let protectBuf : PayloadProtect :=
    ⟨channelId, commandFlag, dataProcessingCheckSum, dataProcessingVCode⟩
  let pbs := Serialize.serializePayloadProtect protectBuf
  let payloadHead : PayloadHead := ⟨packetFlag, (0, 0), 1, pbs.length, dataSize⟩
  let dataView := payloadHead.getDataView
  if data.length ≤ dataSize then
    some (dataView ++ pbs ++ data ++ replicate (dataSize - data.length) 0)
  else none

def cmdKernelChannelClose : Int := 2

/-- What the constructor of `DataMessage` reads out of a body. -/
structure DataMessage where
  channelId : Int
  commandFlag : Int
  channelClose : Bool
  resArrayBuffer : Option (List UInt8)
  deriving DecidableEq

/-- `splitData`; `none` where the head is too short to be read. -/
def DataMessage.splitData (body : List UInt8) : Option DataMessage :=
  match PayloadHead.parsePlayHead (body.take 11) with
  | none => none
  | some resultPayloadHead =>
    let headSize := resultPayloadHead.headSize
    let dataSize := resultPayloadHead.dataSize
    let resultPlayProtectBuffer := (body.take (11 + headSize)).drop 11
    let payloadProtect := Serialize.parsePayloadProtect resultPlayProtectBuffer
    if payloadProtect.commandFlag = cmdKernelChannelClose then
      some ⟨payloadProtect.channelId, payloadProtect.commandFlag, true, none⟩
    else
      let resArrayBuffer :=
        if dataSize > 0 then some ((body.take (11 + headSize + dataSize)).drop (11 + headSize))
        else none
      some ⟨payloadProtect.channelId, payloadProtect.commandFlag, false, resArrayBuffer⟩

/-! ## Reading behind a number -/

namespace Serialize

variable {number : Nat}

theorem drop_two_of_small (small : number < 128) (tag : UInt8) (rest : List UInt8) :
    (shortestBytes number ++ tag :: rest).drop 2 = rest := by
  rw [shortestBytes_small small]
  rfl

theorem drop_two_of_middle (notSmall : ¬ number < 128) (middle : number < 2 ^ 14)
    (rest : List UInt8) : (shortestBytes number ++ rest).drop 2 = rest := by
  rw [shortestBytes_large notSmall, shortestBytes_small (by omega)]
  rfl

theorem drop_two_of_large (large : 2 ^ 14 ≤ number) (rest : List UInt8) :
    (shortestBytes number ++ rest).drop 2 = shortestBytes (number / 2 ^ 14) ++ rest := by
  rw [shortestBytes_large (by omega), shortestBytes_large (by omega), Nat.div_div_eq_div_mul]
  rfl

theorem readVarIntU32_byte (number : Nat) (small : number < 128) (rest : List UInt8) :
    readVarIntU32 (UInt8.ofNat number :: rest) = number := by
  rw [← readVarIntU32_shortestBytes (show number < 2 ^ 31 by omega) rest,
    shortestBytes_small small, singleton_append]

def protectBytes (channelId commandFlag checkSum vCode : Nat) : List UInt8 :=
  shortestBytes channelId ++ 16 :: (shortestBytes commandFlag ++ 24 ::
    (shortestBytes checkSum ++ 32 :: shortestBytes vCode))

section Protect

variable {channelId commandFlag checkSum vCode : Nat}

theorem serializePayloadProtect_eq
    (channelIdSmall : channelId < 2 ^ 31) (commandFlagSmall : commandFlag < 2 ^ 31)
    (checkSumSmall : checkSum < 2 ^ 31) (vCodeSmall : vCode < 2 ^ 31) :
    serializePayloadProtect ⟨channelId, commandFlag, checkSum, vCode⟩ =
      8 :: protectBytes channelId commandFlag checkSum vCode := by
  have first := serializeU32_eq 1 (by decide) channelIdSmall
  have second := serializeU32_eq 2 (by decide) commandFlagSmall
  have third := serializeU32_eq 3 (by decide) checkSumSmall
  have fourth := serializeU32_eq 4 (by decide) vCodeSmall
  rw [Nat.cast_one] at first
  rw [Nat.cast_ofNat] at second third fourth
  simp only [serializePayloadProtect, serializeU8, first, second, third, fourth, protectBytes]
  simp

theorem sliceFrom_one (buffer : List UInt8) : sliceFrom buffer 1 = buffer.drop 1 :=
  sliceFrom_natCast buffer 1

theorem parsePayloadProtect_cons
    (channelIdSmall : channelId < 2 ^ 31) (tag : UInt8) (rest : List UInt8) :
    parsePayloadProtect (tag :: (shortestBytes channelId ++ rest)) =
      let behind := (shortestBytes channelId ++ rest).drop 2
      ⟨channelId, readVarIntU32 behind, readVarIntU32 (behind.drop 2),
        readVarIntU32 ((behind.drop 2).drop 2)⟩ := by
  simp only [parsePayloadProtect, sliceFrom_one, parseU8, parseU32,
    drop_succ_cons, drop_zero, drop_drop,
    readVarIntU32_shortestBytes channelIdSmall]

theorem readVarIntU32_behind {number next : Nat} (numberSmall : number < 2 ^ 31)
    (tag : Nat) (tagSmall : tag < 128) (nextSmall : next < 2 ^ 31) (rest : List UInt8) :
    readVarIntU32 ((shortestBytes number ++
      UInt8.ofNat tag :: (shortestBytes next ++ rest)).drop 2) =
      ((if number < 128 then next else if number < 2 ^ 14 then tag
        else number / 2 ^ 14 : Nat) : Int) := by
  by_cases small : number < 128
  · rw [drop_two_of_small small, readVarIntU32_shortestBytes nextSmall, if_pos small]
  by_cases middle : number < 2 ^ 14
  · rw [drop_two_of_middle small middle, readVarIntU32_byte tag tagSmall,
      if_neg small, if_pos middle]
  · rw [drop_two_of_large (by omega), readVarIntU32_shortestBytes (by omega),
      if_neg small, if_neg middle]

def ReadsCommandFlag (channelId commandFlag : Nat) : Prop :=
  channelId < 128 ∨ 128 ≤ channelId ∧ channelId < 2 ^ 14 ∧ commandFlag = 16 ∨
    2 ^ 14 ≤ channelId ∧ commandFlag = channelId / 2 ^ 14

/-- The inputs on which all four numbers are read behind each other. -/
def ReadsProtect (channelId commandFlag checkSum vCode : Nat) : Prop :=
  channelId < 128 ∧ (commandFlag < 128 ∧ (checkSum < 128 ∨ vCode = 32) ∨
    128 ≤ commandFlag ∧ commandFlag < 2 ^ 14 ∧ checkSum = 24 ∧ vCode = 32 ∨
    2 ^ 14 ≤ commandFlag ∧ commandFlag < 2 ^ 21 ∧
      checkSum = commandFlag / 2 ^ 14 ∧ vCode = checkSum ∨
    2 ^ 21 ≤ commandFlag ∧ checkSum = commandFlag / 2 ^ 14 ∧ vCode = 24) ∨
    128 ≤ channelId ∧ channelId < 2 ^ 14 ∧ commandFlag = 16 ∧ checkSum = 24 ∧ vCode = 32 ∨
    2 ^ 14 ≤ channelId ∧ channelId < 2 ^ 21 ∧
      commandFlag = channelId / 2 ^ 14 ∧ checkSum = commandFlag ∧ vCode = checkSum ∨
    2 ^ 21 ≤ channelId ∧ channelId < 2 ^ 28 ∧ commandFlag = channelId / 2 ^ 14 ∧ checkSum = 16 ∧
      vCode = commandFlag / 128

theorem commandFlag_eq_iff (channelIdSmall : channelId < 2 ^ 31)
    (commandFlagSmall : commandFlag < 2 ^ 31) (rest : List UInt8) :
    readVarIntU32 ((shortestBytes channelId ++ 16 ::
      (shortestBytes commandFlag ++ rest)).drop 2) = commandFlag ↔
      ReadsCommandFlag channelId commandFlag := by
  have behind := readVarIntU32_behind channelIdSmall 16 (by decide) commandFlagSmall rest
  rw [show (16 : UInt8) = UInt8.ofNat 16 from rfl, behind, ReadsCommandFlag]
  split_ifs <;> omega

variable {behind : List UInt8}

theorem rest_eq_iff_of_small (commandFlagSmall : commandFlag < 2 ^ 31)
    (checkSumSmall : checkSum < 256) (vCodeSmall : vCode < 256)
    (bytes : behind = shortestBytes commandFlag ++
      24 :: (shortestBytes checkSum ++ 32 :: (shortestBytes vCode ++ []))) :
    (readVarIntU32 (behind.drop 2) = checkSum ∧ readVarIntU32 ((behind.drop 2).drop 2) = vCode) ↔
      (commandFlag < 128 ∧ (checkSum < 128 ∨ vCode = 32) ∨
        128 ≤ commandFlag ∧ commandFlag < 2 ^ 14 ∧ checkSum = 24 ∧ vCode = 32 ∨
        2 ^ 14 ≤ commandFlag ∧ commandFlag < 2 ^ 21 ∧
          checkSum = commandFlag / 2 ^ 14 ∧ vCode = checkSum ∨
        2 ^ 21 ≤ commandFlag ∧ checkSum = commandFlag / 2 ^ 14 ∧ vCode = 24) := by
  have first :=
    readVarIntU32_behind commandFlagSmall 24 (by decide)
      (show checkSum < 2 ^ 31 by omega) (32 :: (shortestBytes vCode ++ []))
  have asBytes : behind = shortestBytes commandFlag ++ UInt8.ofNat 24 ::
    (shortestBytes checkSum ++ 32 :: (shortestBytes vCode ++ [])) :=
    bytes
  rw [← asBytes] at first
  by_cases oneByte : commandFlag < 128
  · have second :=
      readVarIntU32_behind (show checkSum < 2 ^ 31 by omega) 32 (by decide)
        (show vCode < 2 ^ 31 by omega) []
    have dropped : behind.drop 2 = shortestBytes checkSum ++
      UInt8.ofNat 32 :: (shortestBytes vCode ++ []) :=
      bytes ▸ drop_two_of_small oneByte _ _
    rw [← dropped] at second
    rw [first, second, if_pos oneByte]
    split_ifs <;> omega
  by_cases twoBytes : commandFlag < 2 ^ 14
  · rw [first, if_neg oneByte, if_pos twoBytes]
    by_cases isTag : checkSum = 24
    · have second : readVarIntU32 ((behind.drop 2).drop 2) = (32 : Nat) := by
        rw [bytes, drop_two_of_middle oneByte twoBytes, isTag,
          shortestBytes_small (show 24 < 128 by decide)]
        exact readVarIntU32_byte 32 (by decide) _
      rw [second]
      omega
    · omega
  · have second :=
      readVarIntU32_behind (show commandFlag / 2 ^ 14 < 2 ^ 31 by omega) 24
        (by decide) (show checkSum < 2 ^ 31 by omega)
        (32 :: (shortestBytes vCode ++ []))
    have dropped : behind.drop 2 = shortestBytes (commandFlag / 2 ^ 14) ++ UInt8.ofNat 24 ::
      (shortestBytes checkSum ++ 32 :: (shortestBytes vCode ++ [])) :=
      bytes ▸ drop_two_of_large (by omega) _
    rw [← dropped] at second
    rw [first, second, if_neg oneByte, if_neg twoBytes]
    split_ifs <;> omega

theorem rest_eq_iff_of_middle (bytes : behind = 16 :: (shortestBytes 16 ++ 24 ::
    (shortestBytes checkSum ++ 32 :: (shortestBytes vCode ++ [])))) :
    (readVarIntU32 (behind.drop 2) = checkSum ∧ readVarIntU32 ((behind.drop 2).drop 2) = vCode) ↔
      checkSum = 24 ∧ vCode = 32 := by
  have dropped : behind.drop 2 =
    24 :: (shortestBytes checkSum ++ 32 :: (shortestBytes vCode ++ [])) := by
    rw [bytes, shortestBytes_small (show 16 < 128 by decide)]
    rfl
  have first : readVarIntU32 (behind.drop 2) = (24 : Nat) := by
    rw [dropped]
    exact readVarIntU32_byte 24 (by decide) _
  rw [first]
  by_cases isTag : checkSum = 24
  · have second : readVarIntU32 ((behind.drop 2).drop 2) = (32 : Nat) := by
      rw [dropped, isTag, shortestBytes_small (show 24 < 128 by decide)]
      exact readVarIntU32_byte 32 (by decide) _
    rw [second]
    omega
  · omega

theorem rest_eq_iff_of_large (commandFlagSmall : commandFlag < 2 ^ 17)
    (checkSumSmall : checkSum < 256) (vCodeSmall : vCode < 256)
    (bytes : behind = shortestBytes commandFlag ++ 16 :: (shortestBytes commandFlag ++ 24 ::
      (shortestBytes checkSum ++ 32 :: (shortestBytes vCode ++ [])))) :
    (readVarIntU32 (behind.drop 2) = checkSum ∧ readVarIntU32 ((behind.drop 2).drop 2) = vCode) ↔
      commandFlag < 128 ∧ checkSum = commandFlag ∧ vCode = checkSum ∨
        128 ≤ commandFlag ∧ commandFlag < 2 ^ 14 ∧ checkSum = 16 ∧ vCode = commandFlag / 128 := by
  have first :=
    readVarIntU32_behind (show commandFlag < 2 ^ 31 by omega) 16 (by decide)
      (show commandFlag < 2 ^ 31 by omega)
      (24 :: (shortestBytes checkSum ++ 32 :: (shortestBytes vCode ++ [])))
  have asBytes : behind = shortestBytes commandFlag ++ UInt8.ofNat 16 ::
    (shortestBytes commandFlag ++ 24 ::
      (shortestBytes checkSum ++ 32 :: (shortestBytes vCode ++ []))) :=
    bytes
  rw [← asBytes] at first
  by_cases oneByte : commandFlag < 128
  · have second :=
      readVarIntU32_behind (show commandFlag < 2 ^ 31 by omega) 24 (by decide)
        (show checkSum < 2 ^ 31 by omega) (32 :: (shortestBytes vCode ++ []))
    have dropped : behind.drop 2 = shortestBytes commandFlag ++ UInt8.ofNat 24 ::
      (shortestBytes checkSum ++ 32 :: (shortestBytes vCode ++ [])) :=
      bytes ▸ drop_two_of_small oneByte _ _
    rw [← dropped] at second
    rw [first, second, if_pos oneByte, if_pos oneByte]
    omega
  by_cases twoBytes : commandFlag < 2 ^ 14
  · have second : readVarIntU32 ((behind.drop 2).drop 2) = (commandFlag / 128 : Nat) := by
      rw [bytes, drop_two_of_middle oneByte twoBytes, shortestBytes_large oneByte]
      exact readVarIntU32_shortestBytes (by omega) _
    rw [first, second, if_neg oneByte, if_pos twoBytes]
    omega
  · -- the next number read is the command flag itself, too large for a byte
    have second : readVarIntU32 ((behind.drop 2).drop 2) = commandFlag := by
      rw [bytes, drop_two_of_large (by omega), drop_two_of_small (by omega)]
      exact readVarIntU32_shortestBytes (by omega) _
    rw [second]
    omega

theorem parsePayloadProtect_eq_iff (channelIdSmall : channelId < 2 ^ 31)
    (commandFlagSmall : commandFlag < 2 ^ 31)
    (checkSumSmall : checkSum < 256) (vCodeSmall : vCode < 256) :
    parsePayloadProtect (serializePayloadProtect ⟨channelId, commandFlag, checkSum, vCode⟩) =
      ⟨channelId, commandFlag, checkSum, vCode⟩ ↔
      ReadsProtect channelId commandFlag checkSum vCode := by
  have flag := commandFlag_eq_iff channelIdSmall commandFlagSmall
    (24 :: (shortestBytes checkSum ++ 32 :: (shortestBytes vCode ++ [])))
  rw [serializePayloadProtect_eq channelIdSmall commandFlagSmall (by omega)
    (by omega), protectBytes, parsePayloadProtect_cons channelIdSmall]
  simp only [PayloadProtect.mk.injEq, true_and]
  rw [← append_nil (shortestBytes vCode), flag]
  by_cases reads : ReadsCommandFlag channelId commandFlag
  case neg =>
    have notAll : ¬ ReadsProtect channelId commandFlag checkSum vCode := by
      unfold ReadsCommandFlag at reads
      unfold ReadsProtect
      omega
    exact ⟨fun both => absurd both.1 reads, fun all => absurd all notAll⟩
  case pos =>
    rw [and_iff_right reads]
    clear flag
    unfold ReadsCommandFlag at reads
    by_cases oneByte : channelId < 128
    · have notTwo : ¬ 128 ≤ channelId := by omega
      have notThree : ¬ 2 ^ 14 ≤ channelId := by omega
      have notFour : ¬ 2 ^ 21 ≤ channelId := by omega
      rw [rest_eq_iff_of_small commandFlagSmall checkSumSmall vCodeSmall
        (drop_two_of_small oneByte _ _)]
      simp only [ReadsProtect, oneByte, notTwo, notThree, notFour, true_and, false_and, or_false]
    by_cases twoBytes : channelId < 2 ^ 14
    · have isTag : commandFlag = 16 := by omega
      have two : 128 ≤ channelId := by omega
      have notThree : ¬ 2 ^ 14 ≤ channelId := by omega
      have notFour : ¬ 2 ^ 21 ≤ channelId := by omega
      subst isTag
      rw [rest_eq_iff_of_middle (drop_two_of_middle oneByte twoBytes _)]
      simp only [ReadsProtect, oneByte, twoBytes, two, notThree, notFour,
        true_and, false_and, or_false, false_or]
    · have isRest : commandFlag = channelId / 2 ^ 14 := by omega
      have three : 2 ^ 14 ≤ channelId := by omega
      have dropped := drop_two_of_large three (16 :: (shortestBytes commandFlag ++ 24 ::
        (shortestBytes checkSum ++ 32 :: (shortestBytes vCode ++ []))))
      rw [← isRest] at dropped
      have small : commandFlag < 128 ↔ channelId < 2 ^ 21 := by omega
      have middle : 128 ≤ commandFlag ∧ commandFlag < 2 ^ 14 ↔
        2 ^ 21 ≤ channelId ∧ channelId < 2 ^ 28 := by omega
      rw [rest_eq_iff_of_large (by omega) checkSumSmall vCodeSmall dropped,
        ← and_assoc (a := 128 ≤ commandFlag), small, middle]
      simp only [ReadsProtect, oneByte, twoBytes, three, isRest.symm, true_and,
        false_and, and_false, false_or, and_assoc]

end Protect

end Serialize

/-! ## Frames -/

theorem bigEndian_bigEndianBytes {count number : Nat} (small : number < 256 ^ count) :
    bigEndian (bigEndianBytes count number) = number := by
  rw [bigEndian, bigEndianBytes, reverse_reverse, littleEndian_littleEndianBytes small]

@[simp]
theorem length_bigEndianBytes (count number : Nat) :
    (bigEndianBytes count number).length = count := by
  simp [bigEndianBytes]

namespace PayloadHead

theorem getUint_eq_some {bytes rest : List UInt8} {count place number : Nat} (front : List UInt8)
    (parts : bytes = front ++ (bigEndianBytes count number ++ rest))
    (length : front.length = place) (small : number < 256 ^ count) :
    getUint bytes count place = some number := by
  have inside : place + count ≤ bytes.length := by simp [parts, length]
  have here : (bytes.drop place).take count = bigEndianBytes count number := by
    rw [parts, ← length, drop_left]
    exact take_left' (length_bigEndianBytes count number)
  rw [getUint, if_pos inside, here, bigEndian_bigEndianBytes small]

@[simp]
theorem length_getDataView (head : PayloadHead) : head.getDataView.length = 11 := by
  simp [getDataView]

theorem parsePlayHead_getDataView (head : PayloadHead)
    (flagZero : head.flag.1 < 256) (flagOne : head.flag.2 < 256)
    (reserveZero : head.reserve.1 < 256) (reserveOne : head.reserve.2 < 256)
    (protocolVer : head.protocolVer < 256)
    (headSize : head.headSize < 2 ^ 16) (dataSize : head.dataSize < 2 ^ 32) :
    parsePlayHead head.getDataView = some head := by
  let flagZeroByte := bigEndianBytes 1 head.flag.1
  let flags := flagZeroByte ++ bigEndianBytes 1 head.flag.2
  let reserves := flags ++ bigEndianBytes 1 head.reserve.1
  let front := reserves ++ bigEndianBytes 1 head.reserve.2
  let version := front ++ bigEndianBytes 1 head.protocolVer
  let sizes := version ++ bigEndianBytes 2 head.headSize
  have readFlagZero : getUint head.getDataView 1 0 = some head.flag.1 :=
    getUint_eq_some [] (by simp [getDataView]; rfl) rfl flagZero
  have readFlagOne : getUint head.getDataView 1 1 = some head.flag.2 :=
    getUint_eq_some flagZeroByte (by simp [getDataView, flagZeroByte]; rfl) rfl flagOne
  have readReserveZero : getUint head.getDataView 1 2 = some head.reserve.1 :=
    getUint_eq_some flags (by simp [getDataView, flags, flagZeroByte]; rfl) rfl reserveZero
  have readReserveOne : getUint head.getDataView 1 3 = some head.reserve.2 :=
    getUint_eq_some reserves (by simp [getDataView, reserves, flags, flagZeroByte]; rfl) rfl
      reserveOne
  have readVersion : getUint head.getDataView 1 4 = some head.protocolVer :=
    getUint_eq_some front (by simp [getDataView, front, reserves, flags, flagZeroByte]; rfl) rfl
      protocolVer
  have readHeadSize : getUint head.getDataView 2 5 = some head.headSize :=
    getUint_eq_some version (show head.getDataView =
      version ++ (bigEndianBytes 2 head.headSize ++ bigEndianBytes 4 head.dataSize) by
      simp [getDataView, version, front, reserves, flags, flagZeroByte])
      rfl headSize
  have readDataSize : getUint head.getDataView 4 7 = some head.dataSize :=
    getUint_eq_some sizes (show head.getDataView =
      sizes ++ (bigEndianBytes 4 head.dataSize ++ []) by
      simp [getDataView, sizes, version, front, reserves, flags, flagZeroByte])
      rfl dataSize
  simp [parsePlayHead, readFlagZero, readFlagOne, readReserveZero,
    readReserveOne, readVersion, readHeadSize, readDataSize]

end PayloadHead

namespace Serialize

theorem length_serializePayloadProtect_lt {channelId commandFlag : Nat}
    (channelIdSmall : channelId < 2 ^ 31) (commandFlagSmall : commandFlag < 2 ^ 31) :
    (serializePayloadProtect ⟨channelId, commandFlag, dataProcessingCheckSum,
      dataProcessingVCode⟩).length < 2 ^ 16 := by
  have bytes : serializePayloadProtect ⟨channelId, commandFlag, (0 : Nat), (9 : Nat)⟩ =
    8 :: protectBytes channelId commandFlag 0 9 :=
    serializePayloadProtect_eq channelIdSmall commandFlagSmall (by decide) (by decide)
  have channelIdBytes := length_shortestBytes_le channelId 4
    (lt_of_lt_of_le channelIdSmall (by decide))
  have commandFlagBytes := length_shortestBytes_le commandFlag 4
    (lt_of_lt_of_le commandFlagSmall (by decide))
  rw [show dataProcessingCheckSum = ((0 : Nat) : Int) from rfl,
    show dataProcessingVCode = ((9 : Nat) : Int) from rfl, bytes,
    protectBytes, shortestBytes_small (show 0 < 128 by decide),
    shortestBytes_small (show 9 < 128 by decide)]
  simp only [length_cons, length_append, length_nil]
  omega

end Serialize

namespace DataMessage

/-- The message of a payload behind a `PayloadProtect`. -/
def ofPayload (payloadProtect : PayloadProtect) (data : List UInt8) : DataMessage :=
  if payloadProtect.commandFlag = cmdKernelChannelClose then
    ⟨payloadProtect.channelId, payloadProtect.commandFlag, true, none⟩
  else
    ⟨payloadProtect.channelId, payloadProtect.commandFlag, false,
      if data = [] then none else some data⟩

@[simp]
theorem channelId_ofPayload (payloadProtect : PayloadProtect) (data : List UInt8) :
    (ofPayload payloadProtect data).channelId = payloadProtect.channelId := by
  unfold ofPayload
  split <;> rfl

@[simp]
theorem commandFlag_ofPayload (payloadProtect : PayloadProtect) (data : List UInt8) :
    (ofPayload payloadProtect data).commandFlag = payloadProtect.commandFlag := by
  unfold ofPayload
  split <;> rfl

theorem data_ofPayload {payloadProtect : PayloadProtect} (data : List UInt8)
    (notClose : payloadProtect.commandFlag ≠ cmdKernelChannelClose) :
    (ofPayload payloadProtect data).resArrayBuffer.getD [] = data := by
  rw [ofPayload, if_neg notClose]
  by_cases isEmpty : data = []
  · rw [if_pos isEmpty, isEmpty]
    rfl
  · rw [if_neg isEmpty]
    rfl

theorem splitData_sendBody {channelId commandFlag : Nat} (data : List UInt8)
    (channelIdSmall : channelId < 2 ^ 31) (commandFlagSmall : commandFlag < 2 ^ 31)
    (dataSmall : data.length < 2 ^ 32) :
    (sendBody channelId commandFlag data data.length).bind splitData = some
      (ofPayload (Serialize.parsePayloadProtect (Serialize.serializePayloadProtect
        ⟨channelId, commandFlag, dataProcessingCheckSum, dataProcessingVCode⟩)) data) := by
  let pbs :=
    Serialize.serializePayloadProtect
      ⟨channelId, commandFlag, dataProcessingCheckSum, dataProcessingVCode⟩
  let head : PayloadHead := ⟨packetFlag, (0, 0), 1, pbs.length, data.length⟩
  have pbsShort : pbs.length < 2 ^ 16 :=
    Serialize.length_serializePayloadProtect_lt channelIdSmall commandFlagSmall
  have headLength := PayloadHead.length_getDataView head
  have body : sendBody channelId commandFlag data data.length =
    some (head.getDataView ++ (pbs ++ data)) := by
    simp [sendBody, head, pbs]
  have headRead : PayloadHead.parsePlayHead
    ((head.getDataView ++ (pbs ++ data)).take 11) = some head := by
    rw [take_left' headLength]
    exact PayloadHead.parsePlayHead_getDataView head
      (show 0x48 < 256 by decide) (show 0x57 < 256 by decide)
      (show 0 < 256 by decide) (show 0 < 256 by decide)
      (show 1 < 256 by decide) pbsShort dataSmall
  have protectRead : ((head.getDataView ++ (pbs ++ data)).take (11 + pbs.length)).drop 11 =
    pbs := by
    rw [← append_assoc, take_left' (by rw [length_append, headLength]), drop_left' headLength]
  have dataRead : ((head.getDataView ++ (pbs ++ data)).take
    (11 + pbs.length + data.length)).drop (11 + pbs.length) = data := by
    rw [take_of_length_le (by simp [headLength]; omega), ← append_assoc,
      drop_left' (by rw [length_append, headLength])]
  rw [body, bind_some, splitData, headRead]
  simp only [head, protectRead, dataRead, ofPayload]
  split_ifs with isClose hasData isEmpty isEmpty
  · rfl
  · simp [isEmpty] at hasData
  · rfl
  · rfl
  · exact absurd (length_pos_iff.2 isEmpty) hasData

/--
The body of a frame gives back the channel id and the command flag, and the
payload unless the command closes the channel.
-/
def FrameRoundTrips (channelId commandFlag : Nat) (data : List UInt8) : Prop :=
  ∃ message, (sendBody channelId commandFlag data data.length).bind splitData = some message ∧
    message.channelId = channelId ∧ message.commandFlag = commandFlag ∧
    ((commandFlag : Int) ≠ cmdKernelChannelClose → message.resArrayBuffer.getD [] = data)

theorem frameRoundTrips_iff {channelId commandFlag : Nat} (data : List UInt8)
    (channelIdSmall : channelId < 2 ^ 31) (commandFlagSmall : commandFlag < 2 ^ 31)
    (dataSmall : data.length < 2 ^ 32) : FrameRoundTrips channelId commandFlag data ↔
      Serialize.ReadsCommandFlag channelId commandFlag := by
  have bytes : Serialize.serializePayloadProtect ⟨channelId, commandFlag, dataProcessingCheckSum,
    dataProcessingVCode⟩ =
    8 :: Serialize.protectBytes channelId commandFlag 0 9 :=
    Serialize.serializePayloadProtect_eq channelIdSmall commandFlagSmall (by decide) (by decide)
  have parsed := Serialize.parsePayloadProtect_cons channelIdSmall 8
    (16 :: (shortestBytes commandFlag ++ 24 :: (shortestBytes 0 ++ 32 :: shortestBytes 9)))
  have flag := Serialize.commandFlag_eq_iff channelIdSmall commandFlagSmall
    (24 :: (shortestBytes 0 ++ 32 :: shortestBytes 9))
  rw [FrameRoundTrips, splitData_sendBody data channelIdSmall commandFlagSmall dataSmall, bytes,
    Serialize.protectBytes, parsed]
  constructor
  · rintro ⟨message, sent, _, flagRead, _⟩
    rw [← some.inj sent, commandFlag_ofPayload] at flagRead
    exact flag.1 flagRead
  · intro reads
    have flagRead := flag.2 reads
    refine ⟨_, rfl, channelId_ofPayload _ data, ?_, ?_⟩
    · rw [commandFlag_ofPayload]
      exact flagRead
    · intro notClose
      exact data_ofPayload data (ne_of_eq_of_ne flagRead notClose)

/--
Where a frame and a `PayloadProtect` come back as they were: where each number
is found one byte behind the tag of its own field, or where the byte that is
found instead happens to spell it.
-/
theorem roundTrips_iff {channelId commandFlag checkSum vCode : Nat} (data : List UInt8)
    (channelIdSmall : channelId < 2 ^ 31) (commandFlagSmall : commandFlag < 2 ^ 31)
    (checkSumSmall : checkSum < 256) (vCodeSmall : vCode < 256) (dataSmall : data.length < 2 ^ 32) :
    (FrameRoundTrips channelId commandFlag data ↔
      Serialize.ReadsCommandFlag channelId commandFlag) ∧
      (Serialize.parsePayloadProtect (Serialize.serializePayloadProtect
        ⟨channelId, commandFlag, checkSum, vCode⟩) =
        ⟨channelId, commandFlag, checkSum, vCode⟩ ↔
        Serialize.ReadsProtect channelId commandFlag checkSum vCode) :=
  ⟨frameRoundTrips_iff data channelIdSmall commandFlagSmall dataSmall,
    Serialize.parsePayloadProtect_eq_iff channelIdSmall commandFlagSmall checkSumSmall vCodeSmall⟩

theorem roundTrips_iff_firstChannel :
    FrameRoundTrips 5 1001 [0x6C, 0x73] ∧ Serialize.parsePayloadProtect
      (Serialize.serializePayloadProtect ⟨5, 1, 0, 9⟩) = ⟨5, 1, 0, 9⟩ :=
  ⟨(@roundTrips_iff 5 1001 0 9 [0x6C, 0x73] (by decide) (by decide)
    (by decide) (by decide) (by decide)).1.2 (.inl (by decide)),
    (@roundTrips_iff 5 1 0 9 [] (by decide) (by decide) (by decide) (by decide) (by decide)).2.2
      (.inl ⟨by decide, .inl ⟨by decide, .inl (by decide)⟩⟩)⟩

/-- From the channel 128 on the command flag is read from its own tag. -/
theorem not_roundTrips_channel128 :
    ¬ FrameRoundTrips 128 1 [0x6C, 0x73] ∧ Serialize.parsePayloadProtect
      (Serialize.serializePayloadProtect ⟨128, 1, 0, 9⟩) ≠ ⟨128, 1, 0, 9⟩ := by
  have received : (sendBody 128 1 [0x6C, 0x73] 2).bind splitData =
    some ⟨128, 16, false, some [0x6C, 0x73]⟩ := by
    decide
  refine ⟨?_, by decide⟩
  rintro ⟨message, sent, _, sameFlag, _⟩
  have isReceived : message = ⟨128, 16, false, some [0x6C, 0x73]⟩ :=
    some.inj (sent.symm.trans received)
  rw [isReceived] at sameFlag
  exact absurd sameFlag (by decide)

end DataMessage

end SysAnalyzer.Hdc
