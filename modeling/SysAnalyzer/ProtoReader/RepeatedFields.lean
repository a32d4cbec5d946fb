import SysAnalyzer.ProtoReader.ReaderStorage

/-!
# Every occurrence of a field

The iterator goes through the areas behind the slots and then to the slot of its
number.  So a message whose fields the reader can take gives for each number
exactly its occurrences, in their order, when the blocks of the storage are
served; the reader then has the last occurrence in the slot.
-/

namespace SysAnalyzer.ProtoReader

open Foundation List

def matchingFrom (dataAreas : List DataArea) (dataAreaId currentAddr : Nat) : List DataArea :=
  (dataAreas.drop currentAddr).filter fun dataArea => dataArea.number = dataAreaId

def lastArea (dataAreas : List DataArea) (lastAddr : Nat) : List DataArea :=
  if ((dataAreas[lastAddr]?).getD .empty).dataAreaValid then [(dataAreas[lastAddr]?).getD .empty]
  else []

section Iterator

variable {dataAreas : List DataArea} {dataAreaId lastAddr : Nat}

theorem enumerate_last (beforeEnd : lastAddr < dataAreas.length) {steps : Nat}
    (enough : 1 < steps) : RepeatedDataAreaIterator.enumerate dataAreas steps
      ⟨dataAreaId, lastAddr, dataAreas.length, lastAddr⟩ =
      some [(dataAreas[lastAddr]?).getD .empty] := by
  rcases Nat.exists_eq_add_of_lt enough with ⟨more, rfl⟩
  have notEnd : lastAddr ≠ dataAreas.length := ne_of_lt beforeEnd
  rw [show 1 + more + 1 = more + 1 + 1 by omega]
  simp [RepeatedDataAreaIterator.enumerate, RepeatedDataAreaIterator.increment, notEnd]

variable {currentAddr : Nat}

theorem matchingFrom_of_end (atEnd : ¬ currentAddr < dataAreas.length) :
    matchingFrom dataAreas dataAreaId currentAddr = [] := by
  unfold matchingFrom
  rw [drop_eq_nil_of_le (not_lt.1 atEnd)]
  rfl

theorem matchingFrom_of_match (inRange : currentAddr < dataAreas.length)
    (isMatch : ((dataAreas[currentAddr]?).getD .empty).number = dataAreaId) :
    matchingFrom dataAreas dataAreaId currentAddr = (dataAreas[currentAddr]?).getD .empty ::
      matchingFrom dataAreas dataAreaId (currentAddr + 1) := by
  rw [getElem?_eq_getElem inRange, Option.getD_some] at isMatch ⊢
  unfold matchingFrom
  rw [drop_eq_getElem_cons inRange, filter_cons_of_pos (by simpa using isMatch)]

theorem matchingFrom_of_no_match (inRange : currentAddr < dataAreas.length)
    (noMatch : ((dataAreas[currentAddr]?).getD .empty).number ≠ dataAreaId) :
    matchingFrom dataAreas dataAreaId currentAddr =
      matchingFrom dataAreas dataAreaId (currentAddr + 1) := by
  rw [getElem?_eq_getElem inRange, Option.getD_some] at noMatch
  unfold matchingFrom
  rw [drop_eq_getElem_cons inRange, filter_cons_of_neg (by simpa using noMatch)]

theorem findNextMatchingDataAreaId_of_lt {endAddr : Nat} (inRange : currentAddr < endAddr) :
    findNextMatchingDataAreaId dataAreas dataAreaId endAddr lastAddr currentAddr =
      if ((dataAreas[currentAddr]?).getD .empty).number = dataAreaId then currentAddr else
        findNextMatchingDataAreaId dataAreas dataAreaId endAddr lastAddr (currentAddr + 1) := by
  rw [findNextMatchingDataAreaId, if_pos inRange]
  rfl

theorem enumerate_find (beforeEnd : lastAddr < dataAreas.length) {steps : Nat}
    (behindLast : lastAddr < currentAddr) (enough : dataAreas.length - currentAddr + 1 < steps) :
    RepeatedDataAreaIterator.enumerate dataAreas steps ⟨dataAreaId,
      findNextMatchingDataAreaId dataAreas dataAreaId dataAreas.length lastAddr currentAddr,
      dataAreas.length, lastAddr⟩ =
      some (matchingFrom dataAreas dataAreaId currentAddr ++ lastArea dataAreas lastAddr) := by
  induction remaining : dataAreas.length - currentAddr generalizing currentAddr steps with
  | zero =>
    have atEnd : ¬ currentAddr < dataAreas.length :=
      not_lt.2 (Nat.sub_eq_zero_iff_le.1 remaining)
    rw [findNextMatchingDataAreaId, if_neg atEnd, matchingFrom_of_end atEnd, nil_append, lastArea]
    by_cases valid : ((dataAreas[lastAddr]?).getD .empty).dataAreaValid = true
    · rw [if_pos valid, if_pos valid]
      exact enumerate_last beforeEnd (by omega)
    · rw [if_neg valid, if_neg valid]
      rcases Nat.exists_eq_add_of_lt enough with ⟨more, rfl⟩
      simp [RepeatedDataAreaIterator.enumerate]
  | succ remaining induction =>
    have inRange : currentAddr < dataAreas.length := by omega
    rw [findNextMatchingDataAreaId_of_lt inRange]
    by_cases isMatch : ((dataAreas[currentAddr]?).getD .empty).number = dataAreaId
    · rw [if_pos isMatch, matchingFrom_of_match inRange isMatch]
      rcases Nat.exists_eq_add_of_lt (Nat.zero_lt_of_lt enough) with
        ⟨more, isMore⟩
      rw [zero_add] at isMore
      subst isMore
      rw [RepeatedDataAreaIterator.enumerate, if_pos (ne_of_lt inRange),
        RepeatedDataAreaIterator.increment,
        if_pos (ne_of_gt behindLast)]
      have behind : RepeatedDataAreaIterator.enumerate dataAreas more
        ⟨dataAreaId, findNextMatchingDataAreaId dataAreas dataAreaId
          dataAreas.length lastAddr (currentAddr + 1),
          dataAreas.length, lastAddr⟩ = _ :=
        induction (Nat.lt_succ_of_lt behindLast) (by omega) (by omega)
      rw [RepeatedDataAreaIterator.moveFrom, behind]
      rfl
    · rw [if_neg isMatch, matchingFrom_of_no_match inRange isMatch]
      exact induction (Nat.lt_succ_of_lt behindLast) (by omega) (by omega)

end Iterator

section Reading

variable {count : Nat} {areas : List DataArea} {reader : ProtoReaderBase}

theorem Represents.atId (represents : Represents count areas reader) {dataAreaId : Nat}
    (inRange : dataAreaId < count) :
    reader.atId dataAreaId = ((LastSlots.ofKey DataArea.number areas dataAreaId).getLast?).getD
      .empty := by
  rw [ProtoReaderBase.atId, represents.contents,
    getElem?_storedAreas areas inRange, Option.getD_some,
    LastSlots.slots_putAll]

theorem Represents.getRepeated (represents : Represents count areas reader)
    (numbered : ∀ parsed ∈ areas, parsed.dataAreaID ≠ 0) {dataAreaId : Nat}
    (inRange : dataAreaId < count) {steps : Nat} (enough : reader.size + 1 < steps) :
    (reader.getRepeated dataAreaId).enumerate reader.dataAreas steps =
      some (LastSlots.ofKey DataArea.number areas dataAreaId) := by
  have length : reader.dataAreas.length = usedAreas count areas := represents.size_eq
  have beforeEnd : dataAreaId < reader.dataAreas.length := by
    rw [length]
    exact Nat.lt_of_lt_of_le inRange (Nat.le_add_right _ _)
  have seen : (reader.getRepeated dataAreaId).enumerate reader.dataAreas steps = _ :=
    enumerate_find beforeEnd (by rw [represents.slots]; exact inRange)
      (by unfold ProtoReaderBase.size at enough; omega)
  have behindSlots : matchingFrom reader.dataAreas dataAreaId count =
    LastSlots.ofKey DataArea.number
      (LastSlots.putAll DataArea.number areas).evicted dataAreaId := by
    unfold matchingFrom LastSlots.ofKey
    rw [represents.contents, storedAreas, drop_left' (by simp)]
  have inSlot : lastArea reader.dataAreas dataAreaId =
    ((LastSlots.putAll DataArea.number areas).slots dataAreaId).toList := by
    unfold lastArea
    rw [represents.contents, getElem?_storedAreas areas inRange,
      Option.getD_some, dataAreaValid_slot numbered]
    cases (LastSlots.putAll DataArea.number areas).slots dataAreaId <;> rfl
  rw [seen, represents.slots, behindSlots, inSlot, LastSlots.ofKey_evicted_append]

end Reading

def Field.Kept (field : Field) : Prop := field.value.payloadLength ≤ 2 ^ 28 - 1

instance (field : Field) : Decidable field.Kept := inferInstanceAs (Decidable (_ ≤ _))

def areasOf : List Field → Pointer → List DataArea
  | [], _ => []
  | field :: later, rest =>
    if field.Kept then field.dataArea (messageBytes later ++ rest) :: areasOf later rest
    else areasOf later rest

theorem messageBytes_cons (field : Field) (later : List Field) :
    messageBytes (field :: later) = field.bytes ++ messageBytes later := by
  simp [messageBytes]

theorem messageBytes_append (first second : List Field) :
    messageBytes (first ++ second) = messageBytes first ++ messageBytes second := by
  simp [messageBytes]

theorem parsedAreas_field_append {field : Field} (fits : field.number ≤ 65535) (rest : Pointer) :
    parsedAreas (field.bytes ++ rest) = if field.Kept then field.dataArea rest :: parsedAreas rest
      else parsedAreas rest := by
  have parsed := field.parseOneDataArea_append fits rest
  by_cases kept : field.Kept
  · rw [if_neg (not_lt.2 kept)] at parsed
    rw [if_pos kept, parsedAreas_of_ok (by rw [parsed]), parsed]
  · rw [if_pos (not_le.1 kept)] at parsed
    rw [if_neg kept, parsedAreas_of_skip (by rw [parsed]), parsed]

section

variable {fields : List Field} (fits : ∀ field ∈ fields, field.number ≤ 65535)
include fits

theorem parsedAreas_messageBytes_append (rest : Pointer) :
    parsedAreas (messageBytes fields ++ rest) = areasOf fields rest ++ parsedAreas rest := by
  induction fields with
  | nil => rfl
  | cons field later induction =>
    rw [messageBytes_cons, append_assoc, parsedAreas_field_append (fits field (by simp)),
      induction fun other member => fits other (by simp [member]), areasOf]
    split <;> rfl

theorem map_occurrence_areasOf (rest : Pointer) : (areasOf fields rest).map DataArea.occurrence =
    (fields.filter fun field => field.Kept).map Field.occurrence := by
  induction fields with
  | nil => rfl
  | cons field later induction =>
    have others := induction fun other member => fits other (by simp [member])
    rw [areasOf]
    by_cases kept : field.Kept
    · rw [if_pos kept, filter_cons_of_pos (by simpa using kept), map_cons, map_cons, others,
        field.occurrence_dataArea (fits field (by simp)) kept]
    · rw [if_neg kept, filter_cons_of_neg (by simpa using kept), others]

end

def occurrencesOf (number : Nat) (seen : List Occurrence) : List Occurrence :=
  seen.filter fun occurrence => occurrence.number = number

/-- How many occurrences in range are not the first of their number. -/
def repeats (count : Nat) (seen : List Occurrence) : Nat :=
  let known := seen.filter fun occurrence => occurrence.number < count
  known.length - (known.map Occurrence.number).toFinset.card

theorem map_occurrence_filter (areas : List DataArea) (keep : Nat → Bool) :
    (areas.filter fun parsed => keep parsed.number).map DataArea.occurrence =
      (areas.map DataArea.occurrence).filter fun occurrence =>
        keep occurrence.number := by
  rw [filter_map]
  rfl

theorem map_occurrence_ofKey {count : Nat} (areas : List DataArea) {dataAreaId : Nat}
    (inRange : dataAreaId < count) :
    (LastSlots.ofKey DataArea.number (knownAreas count areas) dataAreaId).map DataArea.occurrence =
      occurrencesOf dataAreaId (areas.map DataArea.occurrence) := by
  have sameAreas : LastSlots.ofKey DataArea.number (knownAreas count areas) dataAreaId =
    areas.filter fun parsed => parsed.number = dataAreaId := by
    unfold LastSlots.ofKey knownAreas
    rw [filter_filter]
    apply filter_congr
    intro parsed _
    by_cases same : parsed.number = dataAreaId
    · subst same
      simpa [DataArea.number] using inRange
    · simp [same]
  rw [sameAreas]
  exact map_occurrence_filter areas fun number => number = dataAreaId

theorem usedAreas_knownAreas (count : Nat) (areas : List DataArea) :
    usedAreas count (knownAreas count areas) =
      count + repeats count (areas.map DataArea.occurrence) := by
  have evicted := LastSlots.length_evicted_putAll DataArea.number (knownAreas count areas)
  have known : (areas.map DataArea.occurrence).filter
    (fun occurrence => occurrence.number < count) =
      (knownAreas count areas).map DataArea.occurrence :=
    (map_occurrence_filter areas fun number => number < count).symm
  unfold usedAreas repeats
  dsimp only
  rw [known, length_map, map_map]
  have sameNumbers : Occurrence.number ∘ DataArea.occurrence = DataArea.number := rfl
  rw [sameNumbers]
  omega

/-- What `at<id>` shows: nothing, or the occurrence in the slot. -/
def ProtoReaderBase.lastSeen (reader : ProtoReaderBase) (dataAreaId : Nat) : Option Occurrence :=
  if (reader.atId dataAreaId).dataAreaValid then some (reader.atId dataAreaId).occurrence
  else none

/-- A loop over `GetRepeated` sees these occurrences, and ends. -/
def ProtoReaderBase.Repeats (reader : ProtoReaderBase) (dataAreaId : Nat)
    (seen : List Occurrence) : Prop :=
  ∀ steps : Nat, reader.size + 1 < steps →
    ((reader.getRepeated dataAreaId).enumerate reader.dataAreas steps).map
      (map DataArea.occurrence) =
      some seen

theorem Represents.seen {count : Nat} {areas : List DataArea} {reader : ProtoReaderBase}
    (represents : Represents count (knownAreas count areas) reader)
    (numbered : ∀ parsed ∈ areas, parsed.dataAreaID ≠ 0) {dataAreaId : Nat}
    (inRange : dataAreaId < count) : reader.lastSeen dataAreaId = (occurrencesOf dataAreaId
      (areas.map DataArea.occurrence)).getLast? ∧
      reader.Repeats dataAreaId (occurrencesOf dataAreaId (areas.map DataArea.occurrence)) := by
  have knownNumbered : ∀ parsed ∈ knownAreas count areas, parsed.dataAreaID ≠ 0 :=
    fun parsed member => numbered parsed (mem_filter.1 member).1
  rw [← map_occurrence_ofKey areas inRange]
  constructor
  · unfold ProtoReaderBase.lastSeen
    rw [represents.atId inRange, getLast?_map]
    cases last : (LastSlots.ofKey DataArea.number (knownAreas count areas) dataAreaId).getLast? with
    | none => rfl
    | some parsed =>
      have member := (mem_filter.1 (mem_of_getLast? last)).1
      have valid : parsed.dataAreaValid = true := by
        simp [DataArea.dataAreaValid, knownNumbered parsed member]
      simp [valid]
  · intro steps enough
    rw [represents.getRepeated knownNumbered inRange enough]
    rfl

/-! ## Whole messages -/

section Messages

variable {limit : Nat} {memsetS memcpyS : (destMax count : Nat) → Bool}

/-- The blocks that a reader allocates are all served. -/
def StorageFits (limit count used : Nat) : Prop :=
  sizeofDataArea * count ≤ limit ∧ GrowthFits limit count used

theorem toNat_dataAreasCount (maxDataAreaId : Fin (2 ^ 31 - 1)) :
    (UInt32.ofNat (maxDataAreaId + 1)).toNat = maxDataAreaId + 1 := by
  rw [UInt32.toNat_ofNat']
  omega

theorem typedProtoReader_spec (servesSet : Serves limit memsetS) (servesCopy : Serves limit memcpyS)
    (maxDataAreaId : Fin (2 ^ 31 - 1)) (buffer : Pointer) {count : Nat}
    (isCount : count = maxDataAreaId + 1) :
    (StorageFits limit count (usedAreas count (knownAreas count (parsedAreas buffer))) →
      ∃ reader, typedProtoReader memsetS memcpyS maxDataAreaId buffer = some reader ∧
        Represents count (knownAreas count (parsedAreas buffer)) reader) ∧
      (¬ StorageFits limit count (usedAreas count (knownAreas count (parsedAreas buffer))) →
        typedProtoReader memsetS memcpyS maxDataAreaId buffer = none) := by
  have sameCount : (UInt32.ofNat (maxDataAreaId + 1)).toNat = count :=
    (toNat_dataAreasCount maxDataAreaId).trans isCount.symm
  have positive : 0 < count := by omega
  have fresh := represents_fresh (UInt32.ofNat (maxDataAreaId + 1))
  rw [sameCount] at fresh
  have numbered : ∀ parsed ∈ knownAreas count (parsedAreas buffer), parsed.dataAreaID ≠ 0 :=
    fun parsed member => dataAreaID_ne_zero_of_mem_parsedAreas (mem_filter.1 member).1
  have inRange : ∀ parsed ∈ knownAreas count (parsedAreas buffer), parsed.number < count :=
    fun _ member => of_decide_eq_true (mem_filter.1 member).2
  rcases fresh.storeAll servesCopy positive _ numbered inRange with
    ⟨stored, notStored⟩
  have isSet : memsetS (sizeofDataArea * count) (sizeofDataArea * count) = true ↔
    sizeofDataArea * count ≤ limit := by
    rw [servesSet]
    unfold sizeofDataArea
    omega
  unfold typedProtoReader StorageFits
  dsimp only
  rw [parseFrom_eq_storeAll, storeAll_knownAreas]
  simp only [sameCount, isSet]
  by_cases slotsFit : sizeofDataArea * count ≤ limit
  · rw [if_pos slotsFit]
    exact ⟨fun fits => stored fits.2,
      fun tooLarge => notStored fun fits => tooLarge ⟨slotsFit, fits⟩⟩
  · rw [if_neg slotsFit]
    exact ⟨fun fits => absurd fits.1 slotsFit, fun _ => rfl⟩

/-- What the constructor of the reader finds: each number has its occurrences. -/
def FindsEveryField (memsetS memcpyS : (destMax count : Nat) → Bool)
    (maxDataAreaId : Fin (2 ^ 31 - 1)) (fields : List Field) : Prop :=
  ∃ reader, typedProtoReader memsetS memcpyS maxDataAreaId (messageBytes fields) = some reader ∧
    ∀ dataAreaId ≤ maxDataAreaId.val, reader.lastSeen dataAreaId =
      (occurrencesOf dataAreaId (fields.map Field.occurrence)).getLast? ∧
      reader.Repeats dataAreaId (occurrencesOf dataAreaId (fields.map Field.occurrence))

theorem occurrence_parsedAreas_messageBytes
    {fields : List Field} (fits : ∀ field ∈ fields, field.number ≤ 65535)
    (kept : ∀ field ∈ fields, field.Kept) :
    (parsedAreas (messageBytes fields)).map DataArea.occurrence = fields.map Field.occurrence := by
  have parsed := parsedAreas_messageBytes_append fits []
  rw [append_nil, parsedAreas_nil, append_nil] at parsed
  rw [parsed, map_occurrence_areasOf fits, filter_eq_self.2]
  intro field member
  exact decide_eq_true (kept field member)

theorem storageFits_of_findsEveryField
    (servesSet : Serves limit memsetS) (servesCopy : Serves limit memcpyS)
    {maxDataAreaId : Fin (2 ^ 31 - 1)} {fields : List Field}
    (fits : ∀ field ∈ fields, field.number ≤ 65535) (kept : ∀ field ∈ fields, field.Kept)
    (finds : FindsEveryField memsetS memcpyS maxDataAreaId fields) :
    StorageFits limit (maxDataAreaId + 1) (maxDataAreaId + 1 +
      repeats (maxDataAreaId + 1) (fields.map Field.occurrence)) := by
  rcases finds with ⟨reader, isReader, _⟩
  have notFound :=
    (typedProtoReader_spec servesSet servesCopy maxDataAreaId (messageBytes fields) rfl).2
  rw [usedAreas_knownAreas, occurrence_parsedAreas_messageBytes fits kept] at notFound
  by_contra tooLarge
  rw [notFound tooLarge] at isReader
  cases isReader

theorem findsEveryField_of_storageFits
    (servesSet : Serves limit memsetS) (servesCopy : Serves limit memcpyS)
    {maxDataAreaId : Fin (2 ^ 31 - 1)} {fields : List Field}
    (fits : ∀ field ∈ fields, field.number ≤ 65535)
    (kept : ∀ field ∈ fields, field.Kept) (storageFits :
      StorageFits limit (maxDataAreaId + 1) (maxDataAreaId + 1 +
        repeats (maxDataAreaId + 1) (fields.map Field.occurrence))) :
    FindsEveryField memsetS memcpyS maxDataAreaId fields := by
  have parsed := occurrence_parsedAreas_messageBytes fits kept
  have found :=
    (typedProtoReader_spec servesSet servesCopy maxDataAreaId (messageBytes fields) rfl).1
  rw [usedAreas_knownAreas, parsed] at found
  rcases found storageFits with ⟨reader, isReader, represents⟩
  refine ⟨reader, isReader, ?_⟩
  intro dataAreaId inRange
  rw [← parsed]
  exact represents.seen (fun _ member => dataAreaID_ne_zero_of_mem_parsedAreas member)
    (Nat.lt_succ_of_le inRange)

/-- Every field is found exactly when the storage that is needed is served. -/
theorem finds_every_field_iff (servesSet : Serves limit memsetS) (servesCopy : Serves limit memcpyS)
    (maxDataAreaId : Fin (2 ^ 31 - 1)) (fields : List Field)
    (fits : ∀ field ∈ fields, field.number ≤ 65535) (kept : ∀ field ∈ fields, field.Kept) :
    FindsEveryField memsetS memcpyS maxDataAreaId fields ↔
      StorageFits limit (maxDataAreaId + 1) (maxDataAreaId + 1 +
        repeats (maxDataAreaId + 1) (fields.map Field.occurrence)) :=
  ⟨storageFits_of_findsEveryField servesSet servesCopy fits kept,
    findsEveryField_of_storageFits servesSet servesCopy fits kept⟩

/-- The library serves no block of two gigabytes. -/
def securecServes (destMax count : Nat) : Bool :=
  decide (0 < destMax ∧ destMax ≤ 0x7fffffff ∧ count ≤ destMax)

theorem serves_securecServes : Serves 0x7fffffff securecServes := fun _ _ => decide_eq_true_iff

def zeroField : Field where
  number := 1
  value := .varInt (.ofNat 0 (by decide))
  tag := .ofNat 8 (by decide)
  positive := by decide
  bounded := by decide
  tagged := VarInt.toNat_value_ofNat 8 (by decide)

theorem zeroField_kept : zeroField.Kept := Nat.zero_le _

theorem finds_every_field_iff_twice :
    FindsEveryField securecServes securecServes ⟨1, by decide⟩ [zeroField, zeroField] := by
  refine (finds_every_field_iff serves_securecServes serves_securecServes
    ⟨1, by decide⟩ [zeroField, zeroField] ?_ ?_).2 ?_
  · intro field member
    rcases mem_pair.1 member with rfl | rfl <;> decide
  · intro field member
    rcases mem_pair.1 member with rfl | rfl <;> exact zeroField_kept
  · refine ⟨by decide, ?_⟩
    intro doublings needed
    have used : repeats 2 ([zeroField, zeroField].map Field.occurrence) = 1 := rfl
    have inBlock : 2 * 2 ^ doublings <
      2 + repeats 2 ([zeroField, zeroField].map Field.occurrence) :=
      needed
    rw [used] at inBlock
    have first : doublings = 0 := by
      by_contra later
      have twice : 2 ^ 1 ≤ 2 ^ doublings :=
        Nat.pow_le_pow_right (by decide) (Nat.one_le_iff_ne_zero.2 later)
      omega
    subst first
    decide

theorem repeats_replicate (number : Nat) :
    repeats 2 ((replicate (number + 1) zeroField).map Field.occurrence) = number := by
  have known : ((replicate (number + 1) zeroField).map Field.occurrence).filter
    (fun occurrence => occurrence.number < 2) =
      replicate (number + 1) zeroField.occurrence := by
    rw [map_replicate, filter_replicate_of_pos (by decide)]
  unfold repeats
  dsimp only
  rw [known, map_replicate, toFinset_replicate_of_ne_zero (Nat.succ_ne_zero number),
    length_replicate]
  simp

theorem served_of_finds_replicate {more doublings : Nat} (finds :
    FindsEveryField securecServes securecServes ⟨1, by decide⟩
      (replicate (more + 1) zeroField)) (needed : 2 * 2 ^ doublings < 2 + more) :
    16 * (2 * 2 ^ (doublings + 1)) ≤ 0x7fffffff := by
  have storageFits :=
    storageFits_of_findsEveryField serves_securecServes serves_securecServes (fun field member => by
      rw [eq_of_mem_replicate member]
      decide)
      (fun field member => by
        rw [eq_of_mem_replicate member]
        exact zeroField_kept)
      finds
  have used := repeats_replicate more
  have larger := storageFits.2 doublings
  rw [← used] at needed
  exact (larger needed).2

theorem not_findsEveryField_longMessage :
    ¬ FindsEveryField securecServes securecServes ⟨1, by decide⟩
      (replicate (2 ^ 26) zeroField) := by
  intro finds
  have length : 2 ^ 26 = 67108863 + 1 := by norm_num
  rw [length] at finds
  have needed : 2 * 2 ^ 25 < 2 + 67108863 := by norm_num
  have served := served_of_finds_replicate finds needed
  omega

end Messages

end SysAnalyzer.ProtoReader
