import SysAnalyzer.Foundation.PrefixCode
import SysAnalyzer.ProtoReader.WireFormat

/-!
# Packed repeated fields

The payload of a packed field is its elements one behind the other.  The
iterator takes them off one by one.  It tells of a payload that is not made of
elements through a flag: the constructor for a type of fixed size, which then
gives no element at all, and the increment for a varint.
-/

namespace SysAnalyzer.ProtoReader

open Foundation List Option

/-- `fixedTypeToSizeMap_`. -/
def fixedTypeToSize : ProtoWireType → Option Nat
  | .kFixed32 => some 4
  | .kFixed64 => some 8
  | .kVarInt => none
  | .kLengthDelimited => none

/--
The template arguments of an iterator: a wire type that has elements, and what
the code needs of the C++ type, whose values are `α`.
-/
structure PackedType (α : Type*) where
  wireType : ProtoWireType
  notLengthDelimited : wireType ≠ .kLengthDelimited
  /-- `sizeof(cppType)`. -/
  size : Nat
  sized : ∀ step ∈ fixedTypeToSize wireType, size = step
  zero : α
  /-- `static_cast<cppType>`. -/
  ofUInt64 : UInt64 → α
  /-- What the bytes of a value are copied to. -/
  ofBytes : List UInt8 → α

/-- `uint32_t` in the elements of a `fixed32` field. -/
def PackedType.fixed32 : PackedType UInt32 where
  wireType := .kFixed32
  notLengthDelimited := by decide
  size := 4
  sized := by decide
  zero := 0
  ofUInt64 := UInt64.toUInt32
  ofBytes := fun bytes => UInt32.ofNat (littleEndian bytes)

/-- `PackedRepeatedDataAreaIterator`, with the flag that it has the address of. -/
structure PackedRepeatedDataAreaIterator (α : Type*) where
  currentReadAddr : Pointer
  currentValue : α
  currentValueValid : Bool
  parseStatus : Bool

namespace PackedRepeatedDataAreaIterator

variable {α : Type*} (type : PackedType α)

/-- `operator++`; the payload ends at `endAddr_`. -/
def increment (itor : PackedRepeatedDataAreaIterator α) : PackedRepeatedDataAreaIterator α :=
  if !itor.currentValueValid then itor
  else if itor.currentReadAddr = [] then { itor with currentValueValid := false }
  else if type.wireType = .kVarInt then
    match varIntDecode itor.currentReadAddr with
    | some (newValue, nextPos) =>
      { itor with
        currentReadAddr := nextPos
        currentValue := type.ofUInt64 newValue }
    | none => { itor with parseStatus := true, currentValueValid := false }
  else
    match fixedTypeToSize type.wireType with
    | some step =>
      { itor with
        currentValue := type.ofBytes (itor.currentReadAddr.take type.size)
        currentReadAddr := itor.currentReadAddr.drop step }
    -- `at` would throw, but the type is not length-delimited
    | none => itor

def ofPayload (payload : Pointer) (parseStatus : Bool) : PackedRepeatedDataAreaIterator α :=
  let itor : PackedRepeatedDataAreaIterator α := ⟨payload, type.zero, true, parseStatus⟩
  if payload.length = 0 then { itor with currentValueValid := false }
  else
    match fixedTypeToSize type.wireType with
    | none => itor.increment type
    | some size =>
      if payload.length % size ≠ 0 then
        { itor with parseStatus := false, currentValueValid := false }
      else itor.increment type

/-- The values that a loop sees in so many steps, and the flag behind it. -/
def enumerate : Nat → PackedRepeatedDataAreaIterator α → Option (List α × Bool)
  | 0, _ => none
  | steps + 1, itor =>
    if itor.currentValueValid then
      (enumerate steps (itor.increment type)).map
        fun (values, flag) => (itor.currentValue :: values, flag)
    else some ([], itor.parseStatus)

end PackedRepeatedDataAreaIterator

def PackedType.IsElement {α : Type*} (type : PackedType α) (bytes : List UInt8) : Prop :=
  match fixedTypeToSize type.wireType with
  | none => Terminated bytes ∧ bytes.length ≤ 10
  | some size => bytes.length = size

def PackedType.valueOf {α : Type*} (type : PackedType α) (bytes : List UInt8) : α :=
  match fixedTypeToSize type.wireType with
  | none => type.ofUInt64 (UInt64.ofNat (base128 bytes))
  | some _ => type.ofBytes bytes

theorem fixedTypeToSize_pos {wireType : ProtoWireType} {size : Nat}
    (fixed : fixedTypeToSize wireType = some size) : 0 < size := by
  cases wireType <;> cases fixed <;> decide

theorem varInt_bytes_unique (first second : VarInt) {firstRest secondRest : Pointer}
    (same : first.bytes ++ firstRest = second.bytes ++ secondRest) :
    first.bytes = second.bytes := by
  have decoded := varIntDecode_append first firstRest
  rw [same, varIntDecode_append] at decoded
  have sameRest : secondRest = firstRest := by
    injection decoded with pair
    exact congrArg Prod.snd pair
  rw [sameRest] at same
  exact append_cancel_right same

theorem exists_terminated_of_varIntDecodeFrom
    {index : Nat} {temp value : UInt64} {start cursor : Pointer} (inRange : index < 10) (decoded :
      varIntDecodeFrom temp (7 * index) start = some (value, cursor)) :
    ∃ bytes, Terminated bytes ∧ index + bytes.length ≤ 10 ∧ start = bytes ++ cursor := by
  induction start generalizing index temp with
  | nil => cases decoded
  | cons byte start induction =>
    rw [varIntDecodeFrom] at decoded
    split at decoded
    · next isLast =>
        cases decoded
        refine ⟨[byte], (and_high_bit_eq_zero_iff byte).1 isLast, ?_, rfl⟩
        exact inRange
    · next notLast =>
        split at decoded
        · next goesOn =>
            rw [← Nat.mul_succ] at decoded
            have nextInRange : index + 1 < 10 := by omega
            rcases induction nextInRange decoded with
              ⟨bytes, terminated, short, rfl⟩
            have high : 128 ≤ byte.toNat := by
              rw [and_high_bit_eq_zero_iff] at notLast
              exact Nat.le_of_not_lt notLast
            refine ⟨byte :: bytes, terminated_cons high terminated, ?_, rfl⟩
            rw [length_cons]
            omega
        · cases decoded

theorem exists_varInt_of_varIntDecode {value : UInt64} {start cursor : Pointer}
    (decoded : varIntDecode start = some (value, cursor)) :
    ∃ varInt : VarInt, start = varInt.bytes ++ cursor ∧ varInt.value = value := by
  have fromZero : varIntDecodeFrom 0 (7 * 0) start = some (value, cursor) := decoded
  rcases exists_terminated_of_varIntDecodeFrom (by decide) fromZero with
    ⟨bytes, terminated, short, rfl⟩
  refine ⟨⟨bytes, terminated, by omega⟩, rfl, ?_⟩
  have again := varIntDecode_append ⟨bytes, terminated, by omega⟩ cursor
  rw [decoded] at again
  injection again with pair
  exact (congrArg Prod.fst pair).symm

def PackedType.code {α : Type*} (type : PackedType α) : PrefixCode UInt8 where
  IsWord := type.IsElement
  ne_nil := by
    intro word isElement
    unfold IsElement at isElement
    split at isElement
    · exact isElement.1.ne_nil
    · next size fixed =>
        rintro rfl
        exact ne_of_lt (fixedTypeToSize_pos fixed) isElement
  prefixFree := by
    intro first second firstRest secondRest isFirst isSecond same
    unfold IsElement at isFirst isSecond
    cases fixed : fixedTypeToSize type.wireType with
    | none =>
      rw [fixed] at isFirst isSecond
      exact varInt_bytes_unique ⟨first, isFirst.1, isFirst.2⟩ ⟨second, isSecond.1, isSecond.2⟩ same
    | some size =>
      rw [fixed] at isFirst isSecond
      exact append_inj_left same (isFirst.trans isSecond.symm)

section Increment

variable {α : Type*} {type : PackedType α}

theorem PackedType.varInt_or_fixed (type : PackedType α) :
    type.wireType = .kVarInt ∨ ∃ size, fixedTypeToSize type.wireType = some size := by
  have notLengthDelimited := type.notLengthDelimited
  cases isType : type.wireType with
  | kVarInt => exact .inl rfl
  | kFixed64 => exact .inr ⟨8, rfl⟩
  | kLengthDelimited => exact absurd isType notLengthDelimited
  | kFixed32 => exact .inr ⟨4, rfl⟩

theorem PackedType.isElement_of_varInt (isVarInt : type.wireType = .kVarInt) (bytes : List UInt8) :
    type.IsElement bytes ↔ Terminated bytes ∧ bytes.length ≤ 10 := by
  rw [IsElement, isVarInt]
  rfl

section

variable {size : Nat} (fixed : fixedTypeToSize type.wireType = some size)
include fixed

theorem PackedType.isElement_of_fixed
    (bytes : List UInt8) : type.IsElement bytes ↔ bytes.length = size := by
  rw [IsElement, fixed]

theorem PackedType.made_iff_of_fixed (payload : Pointer) :
    type.code.Made payload ↔ payload.length % size = 0 := by
  have positive := fixedTypeToSize_pos fixed
  constructor
  · rintro ⟨words, areWords, rfl⟩
    clear positive
    induction words with
    | nil => exact Nat.zero_mod size
    | cons word words induction =>
      have isElement := (isElement_of_fixed fixed word).1 (areWords word mem_cons_self)
      have behind := induction fun other member => areWords other (mem_cons_of_mem _ member)
      rw [append_nil] at behind ⊢
      rw [flatten_cons, length_append, isElement, Nat.add_mod_left]
      exact behind
  · intro aligned
    induction sameLength : payload.length using Nat.strongRecOn generalizing payload with
    | ind length induction =>
      subst sameLength
      by_cases isNil : payload = []
      · subst isNil
        exact ⟨[], PrefixCode.splits_nil []⟩
      · have notShort : size ≤ payload.length := by
          by_contra short
          rw [Nat.mod_eq_of_lt (by omega)] at aligned
          exact isNil (length_eq_zero_iff.1 aligned)
        have shorter : (payload.drop size).length < payload.length := by
          rw [length_drop]
          omega
        have stillAligned : (payload.drop size).length % size = 0 := by
          rw [length_drop, ← Nat.mod_eq_sub_mod notShort]
          exact aligned
        rcases induction _ shorter (payload.drop size) stillAligned rfl with
          ⟨words, splits⟩
        have isElement : type.code.IsWord (payload.take size) :=
          (isElement_of_fixed fixed _).2 (by rw [length_take, min_eq_left notShort])
        refine ⟨payload.take size :: words, ?_⟩
        have whole := splits.cons isElement
        rwa [take_append_drop] at whole

theorem PackedType.words_eq_nil_iff_of_fixed {payload rest : Pointer} {words : List (List UInt8)}
    (longest : type.code.Longest payload words rest) : words = [] ↔ payload.length < size := by
  cases words with
  | nil =>
    refine iff_of_true rfl ?_
    by_contra notShort
    have isElement : type.code.IsWord (payload.take size) :=
      (isElement_of_fixed fixed _).2
        (by rw [length_take, Nat.min_eq_left (Nat.le_of_not_lt notShort)])
    have isRest : rest = payload.take size ++ payload.drop size := by
      rw [take_append_drop, longest.joined]
      rfl
    exact longest.ne_append isElement isRest
  | cons word words =>
    refine iff_of_false (cons_ne_nil word words) (not_lt.2 ?_)
    have isElement := (isElement_of_fixed fixed word).1 (longest.areWords word mem_cons_self)
    rw [longest.joined, flatten_cons, length_append, length_append, isElement, add_assoc]
    exact Nat.le_add_right _ _

end

namespace PackedRepeatedDataAreaIterator

theorem increment_nil (value : α) (flag : Bool) :
    increment type ⟨[], value, true, flag⟩ = ⟨[], value, false, flag⟩ :=
  rfl

theorem increment_append {element : List UInt8} (isElement : type.IsElement element)
    (rest : Pointer) (value : α) (flag : Bool) :
    increment type ⟨element ++ rest, value, true, flag⟩ =
      ⟨rest, type.valueOf element, true, flag⟩ := by
  have notNil : element ++ rest ≠ [] :=
    append_ne_nil_of_left_ne_nil (type.code.ne_nil isElement) rest
  unfold increment PackedType.valueOf
  dsimp only
  rw [if_neg (by decide), if_neg notNil]
  rcases type.varInt_or_fixed with isVarInt | ⟨size, fixed⟩
  · rw [PackedType.isElement_of_varInt isVarInt] at isElement
    rw [if_pos isVarInt, isVarInt, varIntDecode_append ⟨element, isElement.1, isElement.2⟩ rest]
    rfl
  · have notVarInt : type.wireType ≠ .kVarInt := by
      intro isVarInt
      rw [isVarInt] at fixed
      cases fixed
    rw [PackedType.isElement_of_fixed fixed] at isElement
    rw [if_neg notVarInt, fixed, type.sized size fixed, ← isElement]
    simp

theorem increment_of_stuck
    (isVarInt : type.wireType = .kVarInt) {rest : Pointer} (notNil : rest ≠ [])
    (stuck : ∀ element behind, type.IsElement element →
      rest ≠ element ++ behind) (value : α) (flag : Bool) :
    increment type ⟨rest, value, true, flag⟩ = ⟨rest, value, false, true⟩ := by
  unfold increment
  dsimp only
  rw [if_neg (by decide), if_neg notNil, if_pos isVarInt]
  cases decoded : varIntDecode rest with
  | none => rfl
  | some found =>
    rcases exists_varInt_of_varIntDecode decoded with ⟨varInt, isRest, _⟩
    have isElement : type.IsElement varInt.bytes :=
      (PackedType.isElement_of_varInt isVarInt _).2 ⟨varInt.terminated, varInt.short⟩
    exact absurd isRest (stuck _ _ isElement)

theorem enumerate_unique {itor : PackedRepeatedDataAreaIterator α} {steps others : Nat}
    {first second : List α × Bool} (ends : enumerate type steps itor = some first)
    (otherEnds : enumerate type others itor = some second) : first = second := by
  induction steps generalizing itor others first second with
  | zero => cases ends
  | succ steps induction =>
    cases others with
    | zero => cases otherEnds
    | succ others =>
      rw [enumerate] at ends otherEnds
      by_cases valid : itor.currentValueValid = true
      · rw [if_pos valid] at ends otherEnds
        rcases map_eq_some_iff.1 ends with ⟨behind, goesOn, rfl⟩
        rcases map_eq_some_iff.1 otherEnds with
          ⟨otherBehind, otherGoesOn, rfl⟩
        rw [induction goesOn otherGoesOn]
      · rw [if_neg valid] at ends otherEnds
        exact some.inj (ends.symm.trans otherEnds)

theorem enumerate_invalid (rest : Pointer) (value : α) (flag : Bool) :
    enumerate type 1 ⟨rest, value, false, flag⟩ = some ([], flag) :=
  rfl

section

variable {payload rest : Pointer} {words : List (List UInt8)}
  (longest : type.code.Longest payload words rest)
include longest

theorem enumerate_increment
    (seen : type.wireType = .kVarInt ∨ rest = []) (value : α) (flag : Bool) :
    enumerate type (words.length + 1) (increment type ⟨payload, value, true, flag⟩) =
      some (words.map type.valueOf, if rest = [] then flag else true) := by
  have joined := longest.joined
  have areWords := longest.areWords
  have stuck : ∀ element behind, type.IsElement element → rest ≠ element ++ behind :=
    fun _ _ isElement => longest.ne_append isElement
  clear longest
  induction words generalizing payload value with
  | nil =>
    rw [flatten_nil, nil_append] at joined
    subst joined
    by_cases isNil : payload = []
    · subst isNil
      rw [increment_nil, if_pos rfl]
      exact enumerate_invalid [] value flag
    · have isVarInt := seen.resolve_right isNil
      rw [increment_of_stuck isVarInt isNil stuck, if_neg isNil]
      exact enumerate_invalid payload value true
  | cons word words induction =>
    have isElement : type.IsElement word := areWords word mem_cons_self
    rw [flatten_cons, append_assoc] at joined
    have behind := induction (type.valueOf word) rfl
      fun other member => areWords other (mem_cons_of_mem _ member)
    rw [joined, increment_append isElement, length_cons, enumerate, if_pos rfl, behind]
    rfl

theorem enumerate_ofPayload (seen : type.wireType = .kVarInt ∨ rest = []) (flag : Bool) :
    enumerate type (words.length + 1) (ofPayload type payload flag) =
      some (words.map type.valueOf, if rest = [] then flag else true) := by
  by_cases isNil : payload = []
  · subst isNil
    have nothing := longest.words_unique PrefixCode.longest_nil
    have noRest := longest.rest_unique PrefixCode.longest_nil
    subst nothing noRest
    rfl
  · have starts : ofPayload type payload flag =
      increment type ⟨payload, type.zero, true, flag⟩ := by
      unfold ofPayload
      dsimp only
      rw [if_neg (by simpa using isNil)]
      cases fixed : fixedTypeToSize type.wireType with
      | none => rfl
      | some size =>
        dsimp only
        rcases seen with isVarInt | noRest
        · rw [isVarInt] at fixed
          cases fixed
        · have aligned := (PackedType.made_iff_of_fixed fixed payload).1
            (longest.rest_eq_nil_iff.1 noRest)
          rw [if_neg (not_not.2 aligned)]
    rw [starts]
    exact enumerate_increment longest seen type.zero flag

end

theorem enumerate_ofPayload_of_misaligned
    {size : Nat} (fixed : fixedTypeToSize type.wireType = some size)
    {payload : Pointer} (misaligned : payload.length % size ≠ 0) (flag : Bool) :
    enumerate type 1 (ofPayload type payload flag) = some ([], false) := by
  have notEmpty : payload.length ≠ 0 := by
    intro isEmpty
    rw [isEmpty, Nat.zero_mod] at misaligned
    exact misaligned rfl
  unfold ofPayload
  dsimp only
  rw [if_neg notEmpty, fixed]
  dsimp only
  rw [if_pos misaligned]
  rfl

end PackedRepeatedDataAreaIterator

end Increment

def ProtoReaderBase.get (reader : ProtoReaderBase) (id : UInt32) : DataArea :=
  if id < reader.dataAreasCount then reader.atId id.toNat
  else reader.atId 0

/-- `Size()` bytes from `Data()` on; what is not an address has no size. -/
def DataArea.toBytes (dataArea : DataArea) : List UInt8 :=
  match dataArea.intValue with
  | .address data => data.take dataArea.size.toNat
  | .number _ => []

def ProtoReaderBase.getPackedRepeated {α : Type*} (reader : ProtoReaderBase)
    (type : PackedType α) (dataAreaId : UInt32) (parseError : Bool) :
    PackedRepeatedDataAreaIterator α :=
  let dataArea := reader.get dataAreaId
  if dataArea.dataAreaValid then .ofPayload type dataArea.toBytes parseError
  else .ofPayload type [] parseError

/--
A loop over a payload gives the elements of its longest well-formed start, and
changes the flag to the error value when more than these is in the payload.
-/
def PackedType.ReadAs {α : Type*} (type : PackedType α) (errorValue : Bool)
    (payload : Pointer) : Prop :=
  ∀ flag, ∃ words rest, type.code.Longest payload words rest ∧ ∃ steps,
    (PackedRepeatedDataAreaIterator.ofPayload type payload flag).enumerate type steps =
      some (words.map type.valueOf, if rest = [] then flag else errorValue)

open PackedRepeatedDataAreaIterator in
/--
A payload is read like this when it is made of elements.  Any other one is when
its elements are varints and the error value is `true`, or when it is too short
for one element of a fixed size and the error value is `false`.
-/
theorem PackedType.readAs_iff {α : Type*} (type : PackedType α)
    (errorValue : Bool) (payload : Pointer) :
    type.ReadAs errorValue payload ↔ type.code.Made payload ∨
      (type.wireType = .kVarInt ∧ errorValue = true) ∨
      (∃ size ∈ fixedTypeToSize type.wireType, payload.length < size) ∧ errorValue = false := by
  rcases type.code.exists_longest payload with ⟨words, rest, longest⟩
  have made := longest.rest_eq_nil_iff
  by_cases noRest : rest = []
  · refine iff_of_true (fun flag => ?_) (.inl (made.1 noRest))
    refine ⟨words, rest, longest, words.length + 1, ?_⟩
    rw [enumerate_ofPayload longest (.inr noRest), if_pos noRest, if_pos noRest]
  · rw [or_iff_right (mt made.2 noRest)]
    rcases type.varInt_or_fixed with isVarInt | ⟨size, fixed⟩
    · have ends := enumerate_ofPayload longest (.inl isVarInt)
      have notFixed : ¬ ∃ size ∈ fixedTypeToSize type.wireType, payload.length < size := by
        rw [isVarInt]
        simp [fixedTypeToSize]
      rw [or_iff_left fun short => notFixed short.1]
      constructor
      · intro read
        rcases read false with ⟨others, left, other, steps, otherEnds⟩
        have same := enumerate_unique (ends false) otherEnds
        rw [longest.rest_unique other, if_neg noRest, if_neg noRest] at same
        exact ⟨isVarInt, (congrArg Prod.snd same).symm⟩
      · rintro ⟨_, rfl⟩ flag
        exact ⟨words, rest, longest, _, ends flag⟩
    · have notVarInt : type.wireType ≠ .kVarInt := by
        intro isVarInt
        rw [isVarInt] at fixed
        cases fixed
      have misaligned : payload.length % size ≠ 0 := by
        intro aligned
        exact noRest (made.2 ((made_iff_of_fixed fixed payload).2 aligned))
      have ends := enumerate_ofPayload_of_misaligned fixed misaligned
      rw [or_iff_right fun isVarInt => notVarInt isVarInt.1, fixed]
      constructor
      · intro read
        rcases read true with ⟨others, left, other, steps, otherEnds⟩
        have same := enumerate_unique (ends true) otherEnds
        rw [longest.rest_unique other, longest.words_unique other, if_neg noRest] at same
        have noWords : words = [] := map_eq_nil_iff.1 (congrArg Prod.fst same).symm
        have short := (words_eq_nil_iff_of_fixed fixed longest).1 noWords
        exact ⟨⟨size, rfl, short⟩, (congrArg Prod.snd same).symm⟩
      · rintro ⟨⟨other, member, short⟩, rfl⟩ flag
        cases member
        have noWords := (words_eq_nil_iff_of_fixed fixed longest).2 short
        refine ⟨words, rest, longest, 1, ?_⟩
        rw [ends, noWords, if_neg noRest]
        rfl

/-- Five bytes of `fixed32` elements: the first element is not given. -/
theorem not_readAs_partial :
    ¬ ∃ errorValue : Bool, ∀ {α : Type} (type : PackedType α) (payload : Pointer),
      type.ReadAs errorValue payload := by
  rintro ⟨errorValue, read⟩
  rcases read .fixed32 [1, 0, 0, 0, 2] true with
    ⟨words, rest, longest, steps, ends⟩
  have nothing : (PackedRepeatedDataAreaIterator.ofPayload .fixed32 [1, 0, 0, 0, 2]
    true).enumerate .fixed32 1 = some ([], false) :=
    PackedRepeatedDataAreaIterator.enumerate_ofPayload_of_misaligned rfl (by decide) true
  have same := PackedRepeatedDataAreaIterator.enumerate_unique nothing ends
  have noWords : words = [] := map_eq_nil_iff.1 (congrArg Prod.fst same).symm
  have short := (PackedType.words_eq_nil_iff_of_fixed rfl longest).1 noWords
  exact absurd short (by decide)

end SysAnalyzer.ProtoReader
