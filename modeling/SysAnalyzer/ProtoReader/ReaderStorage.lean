import SysAnalyzer.Foundation.LastSlots
import SysAnalyzer.ProtoReader.WireFormat

/-!
# The storage of the reader

The reader keeps the areas that it stores as `LastSlots` do: slots for the
numbers in range, and behind them the areas that were replaced.  This holds as
long as `memset_s` and `memcpy_s` serve every block of storage that is needed
and the doubled volume is not too large for its 32 bits; a larger block is left
as it was allocated.
-/

namespace SysAnalyzer.ProtoReader

open Foundation List

/-- What `memset_s` and `memcpy_s` accept: nothing empty, nothing too large. -/
def Serves (limit : Nat) (serve : (destMax count : Nat) → Bool) : Prop :=
  ∀ destMax count, serve destMax count = true ↔ 0 < destMax ∧ destMax ≤ limit ∧ count ≤ destMax

/-! ## The areas that are parsed -/

/-- The areas that `ParseAllDataAreas` reads from a place on. -/
def parsedAreas (cur : Pointer) : List DataArea :=
  let result := parseOneDataArea cur
  match _status : result.status with
  | .skip => parsedAreas result.next
  | .abort => []
  | .ok => result.dataArea :: parsedAreas result.next
termination_by cur.length
decreasing_by
  all_goals exact length_of_parseOneDataArea (by rw [_status]; decide)

variable {cur : Pointer}

theorem parsedAreas_of_skip (skipped : (parseOneDataArea cur).status = .skip) :
    parsedAreas cur = parsedAreas (parseOneDataArea cur).next := by
  rw [parsedAreas]
  split <;> simp_all

theorem parsedAreas_of_abort (aborted : (parseOneDataArea cur).status = .abort) :
    parsedAreas cur = [] := by
  rw [parsedAreas]
  split <;> simp_all

theorem parsedAreas_of_ok (isOk : (parseOneDataArea cur).status = .ok) :
    parsedAreas cur = (parseOneDataArea cur).dataArea ::
      parsedAreas (parseOneDataArea cur).next := by
  rw [parsedAreas]
  split <;> simp_all

theorem parsedAreas_nil : parsedAreas [] = [] := parsedAreas_of_abort rfl

theorem dataAreaID_ne_zero_of_mem_parsedAreas
    {parsed : DataArea} (member : parsed ∈ parsedAreas cur) : parsed.dataAreaID ≠ 0 := by
  fun_induction parsedAreas cur with
  | case1 cur result skipped induction => exact induction member
  | case2 cur result aborted => cases member
  | case3 cur result isOk induction =>
    rcases mem_cons.1 member with rfl | behind
    · exact dataAreaID_ne_zero_of_ok isOk
    · exact induction behind

section Storage

variable (memcpyS : (destMax count : Nat) → Bool)

/-- The reader after the areas of a list. -/
def ProtoReaderBase.storeAll (reader : ProtoReaderBase)
    (areas : List DataArea) : Option ProtoReaderBase :=
  areas.foldlM (ProtoReaderBase.store memcpyS) reader

theorem parseFrom_eq_storeAll (reader : ProtoReaderBase) (cur : Pointer) :
    reader.parseFrom memcpyS cur = reader.storeAll memcpyS (parsedAreas cur) := by
  fun_induction ProtoReaderBase.parseFrom memcpyS reader cur with
  | case1 reader cur result skipped induction => rw [induction, ← parsedAreas_of_skip skipped]
  | case2 reader cur result aborted =>
    rw [parsedAreas_of_abort aborted]
    rfl
  | case3 reader cur result isOk full =>
    rw [parsedAreas_of_ok isOk, ProtoReaderBase.storeAll, foldlM_cons, full]
    rfl
  | case4 reader cur result isOk next stored induction =>
    rw [induction, parsedAreas_of_ok isOk, ProtoReaderBase.storeAll,
      ProtoReaderBase.storeAll, foldlM_cons, stored]
    rfl

def knownAreas (count : Nat) (areas : List DataArea) : List DataArea :=
  areas.filter fun parsed => parsed.dataAreaID.toNat < count

theorem store_of_unknown {reader : ProtoReaderBase} {parsed : DataArea}
    (unknown : reader.dataAreasCount.toNat ≤ parsed.dataAreaID.toNat) :
    reader.store memcpyS parsed = some reader := by
  unfold ProtoReaderBase.store
  rw [if_pos unknown]

theorem storeAll_concat (reader : ProtoReaderBase) (areas : List DataArea) (parsed : DataArea) :
    reader.storeAll memcpyS (areas ++ [parsed]) = (reader.storeAll memcpyS areas).bind fun next =>
      next.store memcpyS parsed := by
  unfold ProtoReaderBase.storeAll
  rw [foldlM_append]
  refine congrArg (Option.bind _) ?_
  ext next
  simp

end Storage

def DataArea.number (dataArea : DataArea) : Nat := dataArea.dataAreaID.toNat

def storedAreas (count : Nat) (areas : List DataArea) : List DataArea :=
  ((range count).map fun dataAreaId =>
    ((LastSlots.putAll DataArea.number areas).slots dataAreaId).getD .empty) ++
    (LastSlots.putAll DataArea.number areas).evicted

def usedAreas (count : Nat) (areas : List DataArea) : Nat :=
  count + (LastSlots.putAll DataArea.number areas).evicted.length

theorem length_storedAreas (count : Nat) (areas : List DataArea) :
    (storedAreas count areas).length = usedAreas count areas := by
  simp [storedAreas, usedAreas]

theorem getElem?_storedAreas {count : Nat} (areas : List DataArea) {dataAreaId : Nat}
    (inRange : dataAreaId < count) : (storedAreas count areas)[dataAreaId]? = some
      (((LastSlots.putAll DataArea.number areas).slots dataAreaId).getD .empty) := by
  unfold storedAreas
  rw [getElem?_append_left (by simpa using inRange)]
  simp [inRange]

theorem storedAreas_concat {count : Nat} (areas : List DataArea) {parsed : DataArea}
    (inRange : parsed.number < count) :
    storedAreas count (areas ++ [parsed]) = (storedAreas count areas ++
      ((LastSlots.putAll DataArea.number areas).slots
        parsed.number).toList).set parsed.number parsed := by
  unfold storedAreas
  rw [LastSlots.putAll_concat, LastSlots.evicted_put, append_assoc,
    set_append_left _ _ (by simpa using inRange)]
  refine congrArg (· ++ _) ?_
  apply ext_getElem?
  intro dataAreaId
  by_cases same : parsed.number = dataAreaId
  · subst same
    simp [inRange]
  · rw [getElem?_set_ne same, getElem?_map, getElem?_map]
    cases found : (range count)[dataAreaId]? with
    | none => rfl
    | some index =>
      have isIndex : dataAreaId = index := by
        rcases List.getElem?_eq_some_iff.1 found with ⟨_, at_⟩
        rw [getElem_range] at at_
        exact at_
      subst isIndex
      simp [LastSlots.slots_put_of_ne DataArea.number _ same]

theorem dataAreaValid_slot {areas : List DataArea}
    (numbered : ∀ parsed ∈ areas, parsed.dataAreaID ≠ 0) (dataAreaId : Nat) :
    (((LastSlots.putAll DataArea.number areas).slots dataAreaId).getD .empty).dataAreaValid =
      ((LastSlots.putAll DataArea.number areas).slots dataAreaId).isSome := by
  rw [LastSlots.slots_putAll]
  cases last : (LastSlots.ofKey DataArea.number areas dataAreaId).getLast? with
  | none => rfl
  | some parsed =>
    have member := (mem_filter.1 (mem_of_getLast? last)).1
    simp [DataArea.dataAreaValid, numbered parsed member]

/-! ## Growth -/

/-- Every block that is allocated for so many areas is one that is served. -/
def GrowthFits (limit count used : Nat) : Prop :=
  ∀ doublings : Nat, count * 2 ^ doublings < used → count * 2 ^ (doublings + 1) < 2 ^ 32 ∧
    sizeofDataArea * (count * 2 ^ (doublings + 1)) ≤ limit

theorem GrowthFits.mono {limit count used fewer : Nat} (fits : GrowthFits limit count used)
    (less : fewer ≤ used) : GrowthFits limit count fewer :=
  fun doublings needed => fits doublings (lt_of_lt_of_le needed less)

/-- The reader has the areas of a list, in a block that had to be so large. -/
structure Represents (count : Nat) (areas : List DataArea)
    (reader : ProtoReaderBase) : Prop where
  contents : reader.dataAreas = storedAreas count areas
  slots : reader.dataAreasCount.toNat = count
  doubled : ∃ doublings : Nat, reader.volume.toNat = count * 2 ^ doublings ∧
    usedAreas count areas ≤ count * 2 ^ doublings ∧
    ∀ fewer < doublings, count * 2 ^ fewer < usedAreas count areas

theorem Represents.size_eq {count : Nat} {areas : List DataArea} {reader : ProtoReaderBase}
    (represents : Represents count areas reader) : reader.size = usedAreas count areas := by
  rw [ProtoReaderBase.size, represents.contents, length_storedAreas]

theorem toNat_shiftLeft_one (volume : UInt32) :
    (volume <<< 1).toNat = 2 * volume.toNat % 2 ^ 32 := by
  rw [UInt32.toNat_shiftLeft]
  show volume.toNat <<< 1 % 2 ^ 32 = _
  rw [Nat.shiftLeft_eq, mul_comm]

theorem memcpyS_larger_iff {limit : Nat} {memcpyS : (destMax count : Nat) → Bool}
    (serves : Serves limit memcpyS) {volume : UInt32} (positive : 0 < volume.toNat) :
    memcpyS (sizeofDataArea * (volume <<< 1).toNat) (sizeofDataArea * volume.toNat) = true ↔
      2 * volume.toNat < 2 ^ 32 ∧ sizeofDataArea * (2 * volume.toNat) ≤ limit := by
  have bound : volume.toNat < 2 ^ 32 := volume.toNat_lt
  rw [serves, toNat_shiftLeft_one]
  unfold sizeofDataArea
  by_cases wraps : 2 * volume.toNat < 2 ^ 32
  · rw [Nat.mod_eq_of_lt wraps]
    omega
  · -- the doubled volume is below the volume, which no longer fits
    omega

theorem mul_two_pow_lt_iff {count : Nat} (positive : 0 < count) {first second : Nat} :
    count * 2 ^ first < count * 2 ^ second ↔ first < second := by
  rw [Nat.mul_lt_mul_left positive, Nat.pow_lt_pow_iff_right (by decide)]

section

variable {limit count used doublings : Nat} (fits : GrowthFits limit count used)
include fits

theorem GrowthFits.succ_of_spare (positive : 0 < count) (spare : used < count * 2 ^ doublings)
    (needed : ∀ fewer < doublings, count * 2 ^ fewer < used) :
    GrowthFits limit count (used + 1) := by
  intro fewer isUsed
  have less : count * 2 ^ fewer < count * 2 ^ doublings :=
    Nat.lt_of_le_of_lt (Nat.le_of_lt_succ isUsed) spare
  exact fits fewer (needed fewer ((mul_two_pow_lt_iff positive).1 less))

theorem growthFits_succ_iff_of_full (positive : 0 < count) (full : used = count * 2 ^ doublings) :
    GrowthFits limit count (used + 1) ↔
      2 * used < 2 ^ 32 ∧ sizeofDataArea * (2 * used) ≤ limit := by
  have twice : count * 2 ^ (doublings + 1) = 2 * used := by
    rw [full, pow_succ, ← mul_assoc, mul_comm]
  constructor
  · intro larger
    have fitsTwice := larger doublings (by omega)
    rwa [twice] at fitsTwice
  · intro fitsTwice fewer isUsed
    rcases Nat.lt_or_eq_of_le (Nat.le_of_lt_succ isUsed) with before | same
    · exact fits fewer before
    · have isFull : fewer = doublings := by
        rw [full] at same
        have powers := Nat.eq_of_mul_eq_mul_left positive same
        exact Nat.pow_right_injective (by decide) powers
      rw [isFull, twice]
      exact fitsTwice

end

section Storing

variable {limit count : Nat} {memcpyS : (destMax count : Nat) → Bool}
  {areas : List DataArea} {reader : ProtoReaderBase} {parsed : DataArea}

theorem usedAreas_concat (count : Nat) (areas : List DataArea) (parsed : DataArea) :
    usedAreas count (areas ++ [parsed]) = usedAreas count areas +
      ((LastSlots.putAll DataArea.number areas).slots parsed.number).toList.length := by
  unfold usedAreas
  rw [LastSlots.putAll_concat, LastSlots.evicted_put, length_append, add_assoc]

theorem store_of_known {slot : DataArea} (inRange : parsed.number < reader.dataAreasCount.toNat)
    (atSlot : reader.dataAreas[parsed.number]? = some slot) :
    reader.store memcpyS parsed = if slot.dataAreaValid then
      (if reader.size ≥ reader.volume.toNat then reader.moveToLargerHeapStorage memcpyS
        else some reader).map fun larger =>
          { larger with dataAreas := (larger.dataAreas ++ [slot]).set parsed.number parsed }
      else
        some { reader with
          dataAreas := reader.dataAreas.set parsed.number parsed } := by
  unfold DataArea.number at inRange atSlot
  unfold ProtoReaderBase.store
  dsimp only
  rw [if_neg (not_le.2 inRange), atSlot]
  rfl

theorem Represents.store_first (represents : Represents count areas reader)
    (numbered : ∀ parsed ∈ areas, parsed.dataAreaID ≠ 0)
    (inRange : parsed.number < count) (isFirst :
      (LastSlots.putAll DataArea.number areas).slots parsed.number = none) :
    reader.store memcpyS parsed = some { reader with
      dataAreas := reader.dataAreas.set parsed.number parsed } ∧
      Represents count (areas ++ [parsed]) { reader with
        dataAreas := reader.dataAreas.set parsed.number parsed } := by
  have invalid := dataAreaValid_slot numbered parsed.number
  have sameUsed : usedAreas count (areas ++ [parsed]) = usedAreas count areas := by
    rw [usedAreas_concat, isFirst]
    rfl
  rw [isFirst] at invalid
  refine ⟨?_, ?_, represents.slots, ?_⟩
  · have atSlot := getElem?_storedAreas areas inRange
    rw [← represents.contents, isFirst] at atSlot
    rw [store_of_known (by rw [represents.slots]; exact inRange) atSlot, invalid]
    rfl
  · show reader.dataAreas.set _ _ = _
    rw [represents.contents, storedAreas_concat areas inRange, isFirst]
    simp
  · rw [sameUsed]
    exact represents.doubled

theorem Represents.store_later (represents : Represents count areas reader)
    (numbered : ∀ parsed ∈ areas, parsed.dataAreaID ≠ 0)
    (inRange : parsed.number < count) {old : DataArea} (isLater :
      (LastSlots.putAll DataArea.number areas).slots parsed.number = some old) :
    reader.store memcpyS parsed = (if reader.size ≥ reader.volume.toNat then
      reader.moveToLargerHeapStorage memcpyS else some reader).map fun larger =>
      { larger with dataAreas :=
          (larger.dataAreas ++ [old]).set parsed.number parsed } := by
  have valid := dataAreaValid_slot numbered parsed.number
  have atSlot := getElem?_storedAreas areas inRange
  rw [← represents.contents, isLater] at atSlot
  rw [isLater] at valid
  rw [store_of_known (by rw [represents.slots]; exact inRange) atSlot, valid]
  rfl

theorem moveToLargerHeapStorage_of_full
    (serves : Serves limit memcpyS) (positive : 0 < reader.volume.toNat)
    (full : reader.size = reader.volume.toNat) :
    reader.moveToLargerHeapStorage memcpyS = if 2 * reader.volume.toNat < 2 ^ 32 ∧
          sizeofDataArea * (2 * reader.volume.toNat) ≤ limit then
        some { reader with volume := reader.volume <<< 1 }
      else none := by
  unfold ProtoReaderBase.moveToLargerHeapStorage
  dsimp only
  rw [full]
  simp only [memcpyS_larger_iff serves positive]

theorem Represents.push (represents : Represents count areas reader) {old : DataArea}
    (inRange : parsed.number < count) (isLater :
      (LastSlots.putAll DataArea.number areas).slots parsed.number = some old)
    {volume : UInt32} {doublings : Nat} (isVolume : volume.toNat = count * 2 ^ doublings)
    (room : usedAreas count areas < count * 2 ^ doublings) (needed :
      ∀ fewer < doublings, count * 2 ^ fewer ≤ usedAreas count areas) :
    Represents count (areas ++ [parsed])
      { dataAreas := (reader.dataAreas ++ [old]).set parsed.number parsed
        dataAreasCount := reader.dataAreasCount
        volume } := by
  have used : usedAreas count (areas ++ [parsed]) = usedAreas count areas + 1 := by
    rw [usedAreas_concat, isLater]
    rfl
  refine ⟨?_, represents.slots, doublings, isVolume, ?_, ?_⟩
  · rw [storedAreas_concat areas inRange, isLater, represents.contents]
    rfl
  · rw [used]
    exact room
  · intro fewer less
    rw [used]
    exact Nat.lt_succ_of_le (needed fewer less)

theorem Represents.store (represents : Represents count areas reader)
    (serves : Serves limit memcpyS) (positive : 0 < count)
    (numbered : ∀ parsed ∈ areas, parsed.dataAreaID ≠ 0) (inRange : parsed.number < count)
    (fits : GrowthFits limit count (usedAreas count areas)) :
    (GrowthFits limit count (usedAreas count (areas ++ [parsed])) → ∃ next,
      reader.store memcpyS parsed = some next ∧ Represents count (areas ++ [parsed]) next) ∧
      (¬ GrowthFits limit count (usedAreas count (areas ++ [parsed])) →
        reader.store memcpyS parsed = none) := by
  cases inSlot : (LastSlots.putAll DataArea.number areas).slots parsed.number with
  | none =>
    have used : usedAreas count (areas ++ [parsed]) = usedAreas count areas := by
      rw [usedAreas_concat, inSlot]
      rfl
    refine ⟨fun _ => ⟨_, represents.store_first numbered inRange inSlot⟩, ?_⟩
    intro tooLarge
    rw [used] at tooLarge
    exact absurd fits tooLarge
  | some old =>
    have used : usedAreas count (areas ++ [parsed]) = usedAreas count areas + 1 := by
      rw [usedAreas_concat, inSlot]
      rfl
    have stored : reader.store memcpyS parsed = _ :=
      represents.store_later numbered inRange inSlot
    rcases represents.doubled with ⟨doublings, isVolume, inBlock, needed⟩
    rw [used, stored, represents.size_eq, isVolume]
    rcases Nat.lt_or_eq_of_le inBlock with spare | full
    · rw [if_neg (not_le.2 spare)]
      have stillFits := fits.succ_of_spare positive spare needed
      refine ⟨fun _ => ⟨_, rfl, ?_⟩, fun tooLarge => absurd stillFits tooLarge⟩
      exact represents.push inRange inSlot isVolume spare
        fun fewer less => le_of_lt (needed fewer less)
    · have isFull : reader.size = reader.volume.toNat := by
        rw [represents.size_eq, isVolume, full]
      have volumePositive : 0 < reader.volume.toNat := by
        rw [isVolume]
        exact Nat.mul_pos positive (Nat.two_pow_pos doublings)
      rw [if_pos (le_of_eq full.symm),
        moveToLargerHeapStorage_of_full serves volumePositive isFull,
        growthFits_succ_iff_of_full fits positive full, isVolume, ← full]
      constructor
      · intro served
        rw [if_pos served]
        have largerVolume : (reader.volume <<< 1).toNat = count * 2 ^ (doublings + 1) := by
          rw [toNat_shiftLeft_one, isVolume, ← full, Nat.mod_eq_of_lt served.1, full]
          ring
        refine ⟨_, rfl, represents.push inRange inSlot largerVolume ?_ ?_⟩
        · rw [full]
          exact (mul_two_pow_lt_iff positive).2 (Nat.lt_succ_self _)
        · intro fewer less
          rw [full]
          exact Nat.mul_le_mul_left count
            (Nat.pow_le_pow_right (by decide) (Nat.le_of_lt_succ less))
      · intro refused
        rw [if_neg refused]
        rfl

theorem represents_fresh (dataAreasCount : UInt32) :
    Represents dataAreasCount.toNat [] ⟨replicate dataAreasCount.toNat .empty, dataAreasCount,
      dataAreasCount⟩ := by
  refine ⟨?_, rfl, 0, by simp, by simp [usedAreas, LastSlots.putAll,
    LastSlots.empty], fun fewer less => absurd less (Nat.not_lt_zero fewer)⟩
  simp [storedAreas, LastSlots.putAll, LastSlots.empty]

theorem growthFits_fresh (limit count : Nat) : GrowthFits limit count (usedAreas count []) := by
  intro doublings needed
  have atLeast : count * 1 ≤ count * 2 ^ doublings := Nat.mul_le_mul_left count (Nat.one_le_two_pow)
  simp only [usedAreas, LastSlots.putAll, LastSlots.empty, foldl_nil, length_nil] at needed
  omega

theorem usedAreas_le_concat (count : Nat) (areas : List DataArea) (parsed : DataArea) :
    usedAreas count areas ≤ usedAreas count (areas ++ [parsed]) := by
  rw [usedAreas_concat]
  exact Nat.le_add_right _ _

theorem Represents.storeAll {fresh : ProtoReaderBase} (represents : Represents count [] fresh)
    (serves : Serves limit memcpyS) (positive : 0 < count)
    (areas : List DataArea) (numbered : ∀ parsed ∈ areas, parsed.dataAreaID ≠ 0)
    (inRange : ∀ parsed ∈ areas, parsed.number < count) :
    (GrowthFits limit count (usedAreas count areas) → ∃ reader,
      fresh.storeAll memcpyS areas = some reader ∧ Represents count areas reader) ∧
      (¬ GrowthFits limit count (usedAreas count areas) → fresh.storeAll memcpyS areas = none) := by
  induction areas using reverseRecOn with
  | nil =>
    exact ⟨fun _ => ⟨fresh, rfl, represents⟩,
      fun tooLarge => absurd (growthFits_fresh limit count) tooLarge⟩
  | append_singleton areas parsed induction =>
    rcases induction (fun earlier member =>
      numbered earlier (mem_append_left _ member))
      (fun earlier member =>
        inRange earlier (mem_append_left _ member)) with
      ⟨stored, notStored⟩
    have numberedBefore : ∀ earlier ∈ areas, earlier.dataAreaID ≠ 0 :=
      fun earlier member => numbered earlier (mem_append_left _ member)
    have parsedInRange : parsed.number < count := inRange parsed (by simp)
    rw [storeAll_concat]
    by_cases fits : GrowthFits limit count (usedAreas count areas)
    · rcases stored fits with ⟨reader, isStored, nowRepresents⟩
      rw [isStored]
      exact nowRepresents.store serves positive numberedBefore parsedInRange fits
    · rw [notStored fits]
      refine ⟨fun larger => ?_, fun _ => rfl⟩
      exact absurd (larger.mono (usedAreas_le_concat count areas parsed)) fits

end Storing

section Unknown

variable (memcpyS : (destMax count : Nat) → Bool)

theorem dataAreasCount_store {reader next : ProtoReaderBase} {parsed : DataArea}
    (stored : reader.store memcpyS parsed = some next) :
    next.dataAreasCount = reader.dataAreasCount := by
  unfold ProtoReaderBase.store at stored
  dsimp only at stored
  split at stored
  · cases stored
    rfl
  · split at stored
    · cases stored
    · split at stored
      · rcases Option.map_eq_some_iff.1 stored with ⟨larger, isLarger, rfl⟩
        split at isLarger
        · unfold ProtoReaderBase.moveToLargerHeapStorage at isLarger
          dsimp only at isLarger
          split at isLarger
          · cases isLarger
            rfl
          · cases isLarger
        · cases isLarger
          rfl
      · cases stored
        rfl

theorem storeAll_knownAreas (reader : ProtoReaderBase) (areas : List DataArea) :
    reader.storeAll memcpyS areas = reader.storeAll memcpyS
      (knownAreas reader.dataAreasCount.toNat areas) := by
  induction areas generalizing reader with
  | nil => rfl
  | cons parsed rest induction =>
    by_cases known : parsed.dataAreaID.toNat < reader.dataAreasCount.toNat
    · have isKnown : knownAreas reader.dataAreasCount.toNat (parsed :: rest) =
        parsed :: knownAreas reader.dataAreasCount.toNat rest := by
        simp [knownAreas, known]
      rw [isKnown]
      unfold ProtoReaderBase.storeAll
      rw [foldlM_cons, foldlM_cons]
      cases stored : reader.store memcpyS parsed with
      | none => rfl
      | some next =>
        have same := dataAreasCount_store memcpyS stored
        rw [← same]
        exact induction next
    · have isUnknown : knownAreas reader.dataAreasCount.toNat (parsed :: rest) =
        knownAreas reader.dataAreasCount.toNat rest := by
        simp [knownAreas, known]
      rw [isUnknown, ← induction reader]
      unfold ProtoReaderBase.storeAll
      rw [foldlM_cons, store_of_unknown memcpyS (not_lt.1 known)]
      rfl

end Unknown

end SysAnalyzer.ProtoReader
