import SysAnalyzer.ProtoReader.PackedRepeated
import SysAnalyzer.ProtoReader.RepeatedFields

/-!
# Packed fields in a message

A packed field of a whole message is read back.  The reader takes it from the
slot of its number, so the last occurrence counts, whatever fields are around it.
-/

namespace SysAnalyzer.ProtoReader

open Foundation List

variable {limit : Nat} {memsetS memcpyS : (destMax count : Nat) → Bool} {α : Type*}

theorem DataArea.toBytes_of_data {dataArea : DataArea} {payload : List UInt8}
    (packed : dataArea.occurrence.data = .bytes payload) : dataArea.toBytes = payload := by
  unfold occurrence at packed
  unfold toBytes
  cases isValue : dataArea.intValue with
  | number value =>
    rw [isValue] at packed
    cases packed
  | address data =>
    rw [isValue] at packed
    exact FieldData.bytes.inj packed

theorem ProtoReaderBase.getPackedRepeated_of_lastSeen {reader : ProtoReaderBase}
    (type : PackedType α) {dataAreaId : UInt32} (inRange : dataAreaId < reader.dataAreasCount)
    {seen : Occurrence} (last : reader.lastSeen dataAreaId.toNat = some seen)
    {payload : List UInt8} (packed : seen.data = .bytes payload) (parseError : Bool) :
    reader.getPackedRepeated type dataAreaId parseError = .ofPayload type payload parseError := by
  unfold lastSeen at last
  by_cases valid : (reader.atId dataAreaId.toNat).dataAreaValid = true
  · rw [if_pos valid, Option.some.injEq] at last
    subst last
    unfold getPackedRepeated ProtoReaderBase.get
    rw [if_pos inRange, if_pos valid, DataArea.toBytes_of_data packed]
  · rw [if_neg valid] at last
    cases last

theorem PackedType.longest_flatten {type : PackedType α} {words : List (List UInt8)}
    (areElements : ∀ word ∈ words, type.IsElement word) :
    type.code.Longest words.flatten words [] := by
  have splits : type.code.Splits words.flatten words [] := ⟨areElements, (append_nil _).symm⟩
  refine splits.longest_of_stuck ?_
  intro word behind isWord isNil
  exact type.code.ne_nil isWord (append_eq_nil_iff.1 isNil.symm).1

/-- The elements that are packed are the ones that a loop sees, and there is no error. -/
theorem getPackedRepeated_messageBytes (servesSet : Serves limit memsetS)
    (servesCopy : Serves limit memcpyS) (maxDataAreaId : Fin (2 ^ 31 - 1)) (fields : List Field)
    (fits : ∀ field ∈ fields, field.number ≤ 65535) (kept : ∀ field ∈ fields, field.Kept)
    (storageFits : StorageFits limit (maxDataAreaId + 1) (maxDataAreaId + 1 +
      repeats (maxDataAreaId + 1) (fields.map Field.occurrence)))
    (type : PackedType α) (words : List (List UInt8))
    (areElements : ∀ word ∈ words, type.IsElement word) (dataAreaId : UInt32)
    (inRange : dataAreaId.toNat ≤ maxDataAreaId) (packed : Field)
    (isLast : (fields.filter fun field => field.number = dataAreaId.toNat).getLast? = some packed)
    (payload : packed.value.data = .bytes words.flatten) (parseError : Bool) :
    ∃ reader, typedProtoReader memsetS memcpyS maxDataAreaId (messageBytes fields) = some reader ∧
      (reader.getPackedRepeated type dataAreaId parseError).enumerate type (words.length + 1) =
        some (words.map type.valueOf, parseError) := by
  have parsed := occurrence_parsedAreas_messageBytes fits kept
  have found :=
    (typedProtoReader_spec servesSet servesCopy maxDataAreaId (messageBytes fields) rfl).1
  rw [usedAreas_knownAreas, parsed] at found
  rcases found storageFits with ⟨reader, isReader, represents⟩
  have seen := (represents.seen (fun _ member => dataAreaID_ne_zero_of_mem_parsedAreas member)
    (Nat.lt_succ_of_le inRange)).1
  have occurrences : occurrencesOf dataAreaId.toNat (fields.map Field.occurrence) =
      (fields.filter fun field => field.number = dataAreaId.toNat).map Field.occurrence :=
    filter_map
  rw [parsed, occurrences, getLast?_map, isLast] at seen
  have inSlots : dataAreaId < reader.dataAreasCount := by
    rw [UInt32.lt_iff_toNat_lt, represents.slots]
    exact Nat.lt_succ_of_le inRange
  refine ⟨reader, isReader, ?_⟩
  rw [ProtoReaderBase.getPackedRepeated_of_lastSeen type inSlots seen payload]
  exact PackedRepeatedDataAreaIterator.enumerate_ofPayload
    (PackedType.longest_flatten areElements) (.inr rfl) parseError

def packedField : Field where
  number := 5
  value := .lengthDelimited (.ofNat 12 (by decide)) [1, 0, 0, 0, 2, 0, 0, 0, 3, 0, 0, 0]
    (VarInt.toNat_value_ofNat 12 (by decide))
  tag := .ofNat 42 (by decide)
  positive := by decide
  bounded := by decide
  tagged := VarInt.toNat_value_ofNat 42 (by decide)

theorem getPackedRepeated_messageBytes_fixed32 : ∃ reader,
    typedProtoReader securecServes securecServes ⟨5, by decide⟩ (messageBytes [packedField]) =
      some reader ∧
    (reader.getPackedRepeated .fixed32 5 true).enumerate .fixed32 4 = some ([1, 2, 3], true) := by
  refine getPackedRepeated_messageBytes serves_securecServes serves_securecServes ⟨5, by decide⟩
    [packedField] (by decide) (by decide) ⟨by decide, ?_⟩ .fixed32
    [[1, 0, 0, 0], [2, 0, 0, 0], [3, 0, 0, 0]]
    (by simp [PackedType.IsElement, PackedType.fixed32, fixedTypeToSize]) 5 (by decide)
    packedField rfl rfl true
  intro doublings needed
  exact absurd needed (Nat.not_lt.2 (Nat.le_mul_of_pos_right 6 (Nat.two_pow_pos doublings)))

end SysAnalyzer.ProtoReader
