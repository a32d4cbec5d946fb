import SysAnalyzer.ProtoReader.RepeatedFields

/-!
# Fields that the reader does not know

What is seen of a message are the occurrences in range, so a field out of range
that the parser gets past leaves no trace.  The parser gets past every field
whose number fits 16 bits; of a field with a larger number it skips the tag and
reads the value as fields.
-/

namespace SysAnalyzer.ProtoReader

open Foundation List

section Unknown

variable {limit : Nat} {memsetS memcpyS : (destMax count : Nat) → Bool}
  {maxDataAreaId : Fin (2 ^ 31 - 1)}

/-- Two buffers show the same in the fields from 1 to the largest number. -/
def SameFields (memsetS memcpyS : (destMax count : Nat) → Bool)
    (maxDataAreaId : Fin (2 ^ 31 - 1)) (first second : Pointer) : Prop :=
  (typedProtoReader memsetS memcpyS maxDataAreaId first = none ∧
      typedProtoReader memsetS memcpyS maxDataAreaId second = none) ∨
    ∃ firstReader secondReader,
      typedProtoReader memsetS memcpyS maxDataAreaId first = some firstReader ∧
        typedProtoReader memsetS memcpyS maxDataAreaId second = some secondReader ∧
          ∀ dataAreaId, 1 ≤ dataAreaId → dataAreaId ≤ maxDataAreaId.val →
            firstReader.lastSeen dataAreaId = secondReader.lastSeen dataAreaId ∧
              ∃ seen, firstReader.Repeats dataAreaId seen ∧ secondReader.Repeats dataAreaId seen

def knownOccurrences (count : Nat) (seen : List Occurrence) : List Occurrence :=
  seen.filter fun occurrence => occurrence.number < count

variable {number : Nat}

theorem occurrencesOf_knownOccurrences
    {count : Nat} (inRange : number < count) (seen : List Occurrence) :
    occurrencesOf number (knownOccurrences count seen) = occurrencesOf number seen := by
  unfold occurrencesOf knownOccurrences
  rw [filter_filter]
  apply filter_congr
  intro occurrence _
  by_cases same : occurrence.number = number
  · subst same
    simpa using inRange
  · simp [same]

theorem repeats_knownOccurrences (count : Nat) (seen : List Occurrence) :
    repeats count (knownOccurrences count seen) = repeats count seen := by
  unfold repeats knownOccurrences
  simp only [filter_filter, Bool.and_self]

theorem sameFields_of_known (servesSet : Serves limit memsetS) (servesCopy : Serves limit memcpyS)
    {first second : Pointer} (same : knownOccurrences (maxDataAreaId + 1)
          ((parsedAreas first).map DataArea.occurrence) =
        knownOccurrences (maxDataAreaId + 1) ((parsedAreas second).map DataArea.occurrence)) :
    SameFields memsetS memcpyS maxDataAreaId first second := by
  rcases typedProtoReader_spec servesSet servesCopy maxDataAreaId first rfl
    with ⟨firstFound, firstNotFound⟩
  rcases typedProtoReader_spec servesSet servesCopy maxDataAreaId second rfl
    with ⟨secondFound, secondNotFound⟩
  have sameUsed : usedAreas (maxDataAreaId + 1)
      (knownAreas (maxDataAreaId + 1) (parsedAreas first)) = usedAreas (maxDataAreaId + 1)
          (knownAreas (maxDataAreaId + 1) (parsedAreas second)) := by
    rw [usedAreas_knownAreas, ← repeats_knownOccurrences, same,
      repeats_knownOccurrences, ← usedAreas_knownAreas]
  rw [sameUsed] at firstFound firstNotFound
  by_cases fits : StorageFits limit (maxDataAreaId + 1) (usedAreas (maxDataAreaId + 1)
          (knownAreas (maxDataAreaId + 1) (parsedAreas second)))
  · rcases firstFound fits with ⟨firstReader, isFirst, firstRepresents⟩
    rcases secondFound fits with ⟨secondReader, isSecond, secondRepresents⟩
    refine .inr ⟨firstReader, secondReader, isFirst, isSecond, ?_⟩
    intro dataAreaId _ atMost
    have inRange : dataAreaId < maxDataAreaId + 1 := Nat.lt_succ_of_le atMost
    rcases firstRepresents.seen
      (fun _ member => dataAreaID_ne_zero_of_mem_parsedAreas member) inRange
      with ⟨firstLast, firstRepeats⟩
    rcases secondRepresents.seen
      (fun _ member => dataAreaID_ne_zero_of_mem_parsedAreas member) inRange
      with ⟨secondLast, secondRepeats⟩
    rw [← occurrencesOf_knownOccurrences inRange, same,
      occurrencesOf_knownOccurrences inRange] at firstLast firstRepeats
    exact ⟨firstLast.trans secondLast.symm, _, firstRepeats, secondRepeats⟩
  · exact .inl ⟨firstNotFound fits, secondNotFound fits⟩

theorem knownOccurrences_one (buffer : Pointer) :
    knownOccurrences (0 + 1) ((parsedAreas buffer).map DataArea.occurrence) = [] := by
  unfold knownOccurrences
  rw [filter_eq_nil_iff]
  intro occurrence member
  rcases mem_map.1 member with ⟨parsed, isParsed, rfl⟩
  have numbered := dataAreaID_ne_zero_of_mem_parsedAreas isParsed
  simp only [decide_eq_true_eq, zero_add, Nat.lt_one_iff]
  intro isZero
  exact numbered (UInt16.toNat_inj.1 isZero)

theorem knownOccurrences_insert {count : Nat} {before after : List Field} {field : Field}
    (fitsBefore : ∀ earlier ∈ before, earlier.number ≤ 65535)
    (fits : field.number ≤ 65535) (unknown : count ≤ field.number) :
    knownOccurrences count ((parsedAreas (messageBytes (before ++ field :: after))).map
          DataArea.occurrence) =
      knownOccurrences count ((parsedAreas (messageBytes (before ++ after))).map
          DataArea.occurrence) := by
  have skipped : knownOccurrences count ((parsedAreas (field.bytes ++ messageBytes after)).map
      DataArea.occurrence) =
      knownOccurrences count ((parsedAreas (messageBytes after)).map DataArea.occurrence) := by
    rw [parsedAreas_field_append fits]
    by_cases kept : field.Kept
    · rw [if_pos kept, map_cons, field.occurrence_dataArea fits kept]
      have outOfRange : ¬ field.occurrence.number < count :=
        not_lt.2 unknown
      simp [knownOccurrences, outOfRange]
    · rw [if_neg kept]
  unfold knownOccurrences at skipped ⊢
  rw [messageBytes_append, messageBytes_append, messageBytes_cons,
    parsedAreas_messageBytes_append fitsBefore,
    parsedAreas_messageBytes_append fitsBefore, map_append,
    map_append, map_occurrence_areasOf fitsBefore,
    map_occurrence_areasOf fitsBefore, filter_append,
    filter_append, skipped]

/-! ## A number of more than 16 bits -/

theorem zero_fits : 0 < 2 ^ 64 := by decide

def zeroValue : ProtoWireType → WireValue
  | .kVarInt => .varInt (.ofNat 0 zero_fits)
  | .kFixed64 => .fixed64 (replicate 8 0) rfl
  | .kLengthDelimited =>
    .lengthDelimited (.ofNat 0 zero_fits) [] (VarInt.toNat_value_ofNat 0 zero_fits)
  | .kFixed32 => .fixed32 (replicate 4 0) rfl

theorem wireType_zeroValue (wireType : ProtoWireType) :
    (zeroValue wireType).wireType = wireType := by
  cases wireType <;> rfl

theorem bytes_zeroValue (wireType : ProtoWireType) :
    ∃ more, (zeroValue wireType).bytes = 0 :: more := by
  have zeroVarInt : shortestBytes 0 = [0] :=
    shortestBytes_small (by decide)
  cases wireType with
  | kVarInt => exact ⟨[], zeroVarInt⟩
  | kFixed64 => exact ⟨replicate 7 0, rfl⟩
  | kLengthDelimited =>
    refine ⟨[], ?_⟩
    show shortestBytes 0 ++ [] = [0]
    rw [zeroVarInt]
    rfl
  | kFixed32 => exact ⟨replicate 3 0, rfl⟩

def zeroFieldOf (number : Nat) (positive : 0 < number)
    (bounded : number < 2 ^ 29) (wireType : ProtoWireType) : Field where
  number
  value := zeroValue wireType
  tag :=
    .ofNat (8 * number + wireType.toUInt8.toNat) (by have := toUInt8_lt wireType; omega)
  positive
  bounded
  tagged := by
    rw [VarInt.toNat_value_ofNat, wireType_zeroValue]

theorem parsedAreas_zero_cons
    {rest : Pointer} (followed : rest ≠ []) : parsedAreas (0 :: rest) = [] := by
  apply parsedAreas_of_abort
  rcases exists_cons_of_ne_nil followed with ⟨next, behind, rfl⟩
  rfl

theorem parsedAreas_zeroFieldOf (positive : 0 < number) (bounded : number < 2 ^ 29)
    (wireType : ProtoWireType) (large : 65535 < number) {rest : Pointer} (followed : rest ≠ []) :
    parsedAreas ((zeroFieldOf number positive bounded wireType).bytes ++ rest) = [] := by
  have parsed :=
    (zeroFieldOf number positive bounded wireType).parseOneDataArea_append_of_large large rest
  rw [parsedAreas_of_skip (by rw [parsed]), parsed]
  rcases bytes_zeroValue wireType with ⟨more, isZero⟩
  show parsedAreas ((zeroValue wireType).bytes ++ rest) = []
  rw [isZero, cons_append]
  exact parsedAreas_zero_cons (append_ne_nil_of_right_ne_nil more followed)

theorem growthFits_slots (limit count : Nat) : GrowthFits limit count count := by
  intro doublings needed
  have atLeast : count * 1 ≤ count * 2 ^ doublings :=
    Nat.mul_le_mul_left count Nat.one_le_two_pow
  omega

theorem lastSeen_of_typedProtoReader
    (servesSet : Serves limit memsetS) (servesCopy : Serves limit memcpyS)
    (served : sizeofDataArea * (maxDataAreaId + 1) ≤ limit)
    {buffer : Pointer} {seen : List Occurrence}
    (parsed : (parsedAreas buffer).map DataArea.occurrence = seen)
    (once : repeats (maxDataAreaId + 1) seen = 0) :
    ∃ reader, typedProtoReader memsetS memcpyS maxDataAreaId buffer = some reader ∧
        ∀ dataAreaId ≤ maxDataAreaId.val, reader.lastSeen dataAreaId =
            (occurrencesOf dataAreaId seen).getLast? := by
  have found :=
    (typedProtoReader_spec servesSet servesCopy maxDataAreaId buffer rfl).1
  rw [usedAreas_knownAreas, parsed, once] at found
  rcases found ⟨served, growthFits_slots limit _⟩ with
    ⟨reader, isReader, represents⟩
  refine ⟨reader, isReader, ?_⟩
  intro dataAreaId atMost
  rw [← parsed]
  exact (represents.seen (fun _ member => dataAreaID_ne_zero_of_mem_parsedAreas member)
    (Nat.lt_succ_of_le atMost)).1

theorem not_sameFields_zeroFieldOf
    (servesSet : Serves limit memsetS) (servesCopy : Serves limit memcpyS)
    (served : sizeofDataArea * (maxDataAreaId + 1) ≤ limit)
    (hasField : maxDataAreaId.val ≠ 0) (positive : 0 < number)
    (bounded : number < 2 ^ 29) (wireType : ProtoWireType) (large : 65535 < number) :
    ¬ SameFields memsetS memcpyS maxDataAreaId
        (messageBytes ([] ++ zeroFieldOf number positive bounded wireType :: [zeroField]))
        (messageBytes ([] ++ [zeroField])) := by
  have atMost : 1 ≤ maxDataAreaId.val := Nat.one_le_iff_ne_zero.2 hasField
  have hidden : (parsedAreas (messageBytes ([] ++ zeroFieldOf number positive bounded wireType ::
      [zeroField]))).map DataArea.occurrence = [] := by
    rw [nil_append, messageBytes_cons, parsedAreas_zeroFieldOf positive bounded wireType large
      (by rw [messageBytes_cons]
          exact append_ne_nil_of_left_ne_nil (append_ne_nil_of_left_ne_nil
            zeroField.tag.terminated.ne_nil _) _)]
    rfl
  have shown : (parsedAreas (messageBytes ([] ++ [zeroField]))).map
      DataArea.occurrence = [zeroField.occurrence] :=
    occurrence_parsedAreas_messageBytes (fun field member => by
        rw [mem_singleton.1 member]
        decide)
      (fun field member => by
        rw [mem_singleton.1 member]
        exact zeroField_kept)
  have once : repeats (maxDataAreaId + 1) [zeroField.occurrence] = 0 := by
    have inRange : zeroField.occurrence.number < maxDataAreaId.val + 1 :=
      Nat.lt_succ_of_le atMost
    have kept : [zeroField.occurrence].filter
        (fun occurrence => occurrence.number < maxDataAreaId.val + 1) = [zeroField.occurrence] :=
      filter_cons_of_pos (decide_eq_true inRange)
    unfold repeats
    rw [kept]
    rfl
  rcases lastSeen_of_typedProtoReader servesSet servesCopy served hidden rfl
    with ⟨hider, isHiding, hides⟩
  rcases lastSeen_of_typedProtoReader servesSet servesCopy served shown once
    with ⟨shower, isShowing, shows⟩
  rintro (⟨notHiding, _⟩ | ⟨first, second, isFirst, isSecond, same⟩)
  · rw [notHiding] at isHiding
    cases isHiding
  · rw [isHiding, Option.some.injEq] at isFirst
    rw [isShowing, Option.some.injEq] at isSecond
    subst isFirst isSecond
    have sameLast := (same 1 (le_refl 1) atMost).1
    rw [hides 1 atMost, shows 1 atMost] at sameLast
    have isOne : occurrencesOf 1 [zeroField.occurrence] = [zeroField.occurrence] :=
      rfl
    rw [isOne] at sameLast
    cases sameLast

theorem sameFields_insert (servesSet : Serves limit memsetS) (servesCopy : Serves limit memcpyS)
    {before after : List Field} {field : Field}
    (fitsBefore : ∀ earlier ∈ before, earlier.number ≤ 65535)
    (fits : field.number ≤ 65535) (unknown : maxDataAreaId.val < field.number) :
    SameFields memsetS memcpyS maxDataAreaId (messageBytes (before ++ field :: after))
      (messageBytes (before ++ after)) :=
  sameFields_of_known servesSet servesCopy (knownOccurrences_insert fitsBefore fits unknown)

/--
A field above the largest known number changes nothing that the decoder keeps,
wherever it stands, exactly when its number is at most 65535, or no field is
known, or the table of the fields is too large for memset_s.
-/
theorem unknown_field_transparent_iff
    (servesSet : Serves limit memsetS) (servesCopy : Serves limit memcpyS)
    (maxDataAreaId : Fin (2 ^ 31 - 1)) (number : Nat)
    (unknown : maxDataAreaId.val < number) (bounded : number < 2 ^ 29) (wireType : ProtoWireType) :
    (∀ (before after : List Field) (field : Field),
        field.number = number → field.value.wireType = wireType →
          (∀ earlier ∈ before, earlier.number ≤ 65535) → SameFields memsetS memcpyS maxDataAreaId
              (messageBytes (before ++ field :: after))
              (messageBytes (before ++ after))) ↔
      number ≤ 65535 ∨ maxDataAreaId.val = 0 ∨ limit < sizeofDataArea * (maxDataAreaId + 1) := by
  constructor
  · intro transparent
    by_contra isVisible
    rw [not_or, not_or, not_le, not_lt] at isVisible
    rcases isVisible with ⟨large, hasField, served⟩
    have positive : 0 < number := Nat.zero_lt_of_lt unknown
    exact not_sameFields_zeroFieldOf servesSet servesCopy served hasField positive
      bounded wireType large
      (transparent [] [zeroField] (zeroFieldOf number positive bounded wireType) rfl
        (wireType_zeroValue wireType) (fun _ member => by cases member))
  · rintro (fits | noField | notServed) before after field isNumber _ fitsBefore
    · exact sameFields_insert servesSet servesCopy fitsBefore
        (by rw [isNumber]; exact fits) (by rw [isNumber]; exact unknown)
    · exact sameFields_of_known servesSet servesCopy
        (by rw [noField, knownOccurrences_one, knownOccurrences_one])
    · have notFound (buffer : Pointer) :
          typedProtoReader memsetS memcpyS maxDataAreaId buffer = none :=
        (typedProtoReader_spec servesSet servesCopy maxDataAreaId buffer
          rfl).2 fun fits => not_lt.2 fits.1 notServed
      exact .inl ⟨notFound _, notFound _⟩

theorem unknown_field_transparent_iff_second :
    SameFields securecServes securecServes ⟨1, by decide⟩ (messageBytes ([zeroField] ++
          zeroFieldOf 2 (by decide) (by decide) .kFixed64 :: [zeroField]))
      (messageBytes ([zeroField] ++ [zeroField])) :=
  (unknown_field_transparent_iff serves_securecServes serves_securecServes
      ⟨1, by decide⟩ 2 (by decide) (by decide) .kFixed64).2
    (.inl (by decide)) [zeroField] [zeroField]
    (zeroFieldOf 2 (by decide) (by decide) .kFixed64) rfl rfl
    (fun earlier member => by
      rw [mem_singleton.1 member]
      decide)

theorem not_sameFields_largeNumber :
    ¬ SameFields securecServes securecServes ⟨1, by decide⟩ (messageBytes
          ([] ++ zeroFieldOf 65536 (by decide) (by decide) .kVarInt :: [zeroField]))
        (messageBytes ([] ++ [zeroField])) :=
  not_sameFields_zeroFieldOf serves_securecServes serves_securecServes
    (by decide) (by decide) (by decide) (by decide) .kVarInt (by decide)

end Unknown

end SysAnalyzer.ProtoReader
