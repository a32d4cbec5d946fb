import SysAnalyzer.ProtoReader.ReaderStorage

/-!
# The search for a data area

`FindDataArea` reads areas from the start until it meets the one it looks for or
an area without a number.  Reading stops at the first field that cannot be
parsed, and the cursor stays there.  When the number of that field was read
before the parsing failed, the search is handed the same area again and again.
-/

namespace SysAnalyzer.ProtoReader

open List Option

/-- The place of the first field that cannot be parsed. -/
def stopsAt (cur : Pointer) : Pointer :=
  let result := parseOneDataArea cur
  match _status : result.status with
  | .abort => cur
  | .skip => stopsAt result.next
  | .ok => stopsAt result.next
termination_by cur.length
decreasing_by
  all_goals exact length_of_parseOneDataArea (by rw [_status]; decide)

/-- The area of the first field that cannot be parsed. -/
def abortedArea (cur : Pointer) : DataArea := (parseOneDataArea (stopsAt cur)).dataArea

theorem stopsAt_of_abort {cur : Pointer} (aborted : (parseOneDataArea cur).status = .abort) :
    stopsAt cur = cur := by
  rw [stopsAt]
  split <;> simp_all

theorem stopsAt_of_goesOn {cur : Pointer} (goesOn : (parseOneDataArea cur).status ≠ .abort) :
    stopsAt cur = stopsAt (parseOneDataArea cur).next := by
  rw [stopsAt]
  split <;> simp_all

theorem status_stopsAt (cur : Pointer) : (parseOneDataArea (stopsAt cur)).status = .abort := by
  fun_induction stopsAt cur with
  | case1 cur result aborted => exact aborted
  | case2 cur result skipped induction => exact induction
  | case3 cur result isOk induction => exact induction

/-- A failure leaves the place where it started. -/
def ParseDataAreaResult.Stays (result : ParseDataAreaResult) (startAddr : Pointer) : Prop :=
  result.status = .abort → result.next = startAddr

theorem stays_parseFixedValue (bytes : Nat) (result : ParseDataAreaResult) (cursor : Pointer) :
    (parseFixedValue bytes result cursor).Stays result.next := by
  unfold parseFixedValue ParseDataAreaResult.Stays
  split
  · exact fun _ => rfl
  · exact fun aborted => nomatch aborted

theorem stays_parseValue (wireType : ProtoWireType) (result : ParseDataAreaResult)
    (cursor : Pointer) : (wireType.parseValue result cursor).Stays result.next := by
  cases wireType with
  | kVarInt =>
    show (parseVarIntValue result cursor).Stays result.next
    unfold parseVarIntValue ParseDataAreaResult.Stays
    split
    · exact fun _ => rfl
    · exact fun aborted => nomatch aborted
  | kFixed64 => exact stays_parseFixedValue 8 result cursor
  | kLengthDelimited =>
    show (parseLengthDelimitedValue result cursor).Stays result.next
    unfold parseLengthDelimitedValue ParseDataAreaResult.Stays
    split
    · exact fun _ => rfl
    · split
      · exact fun _ => rfl
      · intro aborted
        dsimp only at aborted
        split at aborted <;> cases aborted
  | kFixed32 => exact stays_parseFixedValue 4 result cursor

theorem next_of_abort {startAddr : Pointer}
    (aborted : (parseOneDataArea startAddr).status = .abort) :
    (parseOneDataArea startAddr).next = startAddr := by
  revert aborted
  unfold parseOneDataArea
  cases found : getNextProtoTag startAddr with
  | none => exact fun _ => rfl
  | some tagged =>
    dsimp only
    split
    · exact fun _ => rfl
    · split
      · exact fun aborted => nomatch aborted
      · split
        · exact fun _ => rfl
        · exact stays_parseValue _ _ _

/-- `startAddr_` and `currentReadAddr_` of a reader. -/
structure ReadAddresses where
  startAddr : Pointer
  currentReadAddr : Pointer

/-- The loop of `ReadNextDataArea`, from a place on. -/
def readNextFrom (cur : Pointer) : DataArea × Pointer :=
  let result := parseOneDataArea cur
  match _status : result.status with
  | .skip => readNextFrom result.next
  | .abort => (result.dataArea, result.next)
  | .ok => (result.dataArea, result.next)
termination_by cur.length
decreasing_by
  exact length_of_parseOneDataArea (by rw [_status]; decide)

def ReadAddresses.readNextDataArea (reader : ReadAddresses) : DataArea × ReadAddresses :=
  let (dataArea, next) := readNextFrom reader.currentReadAddr
  (dataArea, { reader with currentReadAddr := next })

/-- The loop of `FindDataArea` in at most so many calls. -/
def ReadAddresses.findLoop (dataAreaId : UInt32) :
    Nat → ReadAddresses → Option (DataArea × ReadAddresses)
  | 0, _ => none
  | calls + 1, reader =>
    let (nextDataArea, reader) := reader.readNextDataArea
    if nextDataArea.dataAreaValid then
      if nextDataArea.dataAreaID.toUInt32 = dataAreaId then some (nextDataArea, reader)
      else findLoop dataAreaId calls reader
    else some (.empty, reader)

/-- `FindDataArea`; `none` when so many `ReadNextDataArea` are too few. -/
def ReadAddresses.findDataArea (reader : ReadAddresses) (dataAreaId : UInt32)
    (calls : Nat) : Option (DataArea × ReadAddresses) :=
  let temp := reader.currentReadAddr
  (findLoop dataAreaId calls { reader with currentReadAddr := reader.startAddr }).map
    fun (dataArea, reader) => (dataArea, { reader with currentReadAddr := temp })

theorem readNextFrom_of_nil {cur : Pointer} (nothing : parsedAreas cur = []) :
    readNextFrom cur = (abortedArea cur, stopsAt cur) := by
  fun_induction readNextFrom cur with
  | case1 cur result skipped induction =>
    have goesOn : (parseOneDataArea cur).status ≠ .abort := by
      rw [show (parseOneDataArea cur).status = .skip from skipped]
      decide
    rw [parsedAreas_of_skip skipped] at nothing
    rw [induction nothing, abortedArea, abortedArea, stopsAt_of_goesOn goesOn]
  | case2 cur result aborted =>
    rw [abortedArea, stopsAt_of_abort aborted]
    exact congrArg (Prod.mk _) (next_of_abort aborted)
  | case3 cur result isOk =>
    rw [parsedAreas_of_ok isOk] at nothing
    cases nothing

theorem readNextFrom_of_cons {cur : Pointer} {first : DataArea} {rest : List DataArea}
    (parsed : parsedAreas cur = first :: rest) :
    (readNextFrom cur).1 = first ∧ parsedAreas (readNextFrom cur).2 = rest ∧
      stopsAt (readNextFrom cur).2 = stopsAt cur := by
  fun_induction readNextFrom cur with
  | case1 cur result skipped induction =>
    have goesOn : (parseOneDataArea cur).status ≠ .abort := by
      rw [show (parseOneDataArea cur).status = .skip from skipped]
      decide
    rw [parsedAreas_of_skip skipped] at parsed
    rw [stopsAt_of_goesOn goesOn]
    exact induction parsed
  | case2 cur result aborted =>
    rw [parsedAreas_of_abort aborted] at parsed
    cases parsed
  | case3 cur result isOk =>
    have goesOn : (parseOneDataArea cur).status ≠ .abort := by
      rw [show (parseOneDataArea cur).status = .ok from isOk]
      decide
    rw [parsedAreas_of_ok isOk] at parsed
    rcases List.cons.inj parsed with ⟨isFirst, isRest⟩
    exact ⟨isFirst, isRest, (stopsAt_of_goesOn goesOn).symm⟩

theorem parsedAreas_stopsAt (cur : Pointer) : parsedAreas (stopsAt cur) = [] :=
  parsedAreas_of_abort (status_stopsAt cur)

theorem stopsAt_stopsAt (cur : Pointer) : stopsAt (stopsAt cur) = stopsAt cur :=
  stopsAt_of_abort (status_stopsAt cur)

section Search

variable {dataAreaId : UInt32} {startAddr cur : Pointer}

/-- The area of a failure has a number, and not the one that is looked for. -/
def MisledAt (dataAreaId : UInt32) (cur : Pointer) : Prop :=
  (abortedArea cur).dataAreaValid = true ∧ (abortedArea cur).dataAreaID.toUInt32 ≠ dataAreaId

theorem findLoop_succ_of_read {calls : Nat} {nextDataArea : DataArea} {next : Pointer}
    (read : readNextFrom cur = (nextDataArea, next)) :
    ReadAddresses.findLoop dataAreaId (calls + 1) ⟨startAddr, cur⟩ =
      if nextDataArea.dataAreaValid then
        if nextDataArea.dataAreaID.toUInt32 = dataAreaId then some (nextDataArea, ⟨startAddr, next⟩)
        else ReadAddresses.findLoop dataAreaId calls ⟨startAddr, next⟩
      else some (.empty, ⟨startAddr, next⟩) := by
  rw [ReadAddresses.findLoop, ReadAddresses.readNextDataArea]
  dsimp only
  rw [read]

theorem findLoop_of_misled (misled : MisledAt dataAreaId cur) (nothing : parsedAreas cur = [])
    (calls : Nat) : ReadAddresses.findLoop dataAreaId calls ⟨startAddr, cur⟩ = none := by
  induction calls generalizing cur with
  | zero => rfl
  | succ calls induction =>
    rw [findLoop_succ_of_read (readNextFrom_of_nil nothing), if_pos misled.1, if_neg misled.2]
    apply induction _ (parsedAreas_stopsAt cur)
    unfold MisledAt abortedArea at misled ⊢
    rwa [stopsAt_stopsAt]

theorem findLoop_isSome_iff (dataAreaId : UInt32) (startAddr cur : Pointer) :
    (∃ calls, (ReadAddresses.findLoop dataAreaId calls ⟨startAddr, cur⟩).isSome) ↔
      (∃ parsed ∈ parsedAreas cur, parsed.dataAreaID.toUInt32 = dataAreaId) ∨
        ¬ MisledAt dataAreaId cur := by
  generalize isAreas : parsedAreas cur = areas
  induction areas generalizing cur with
  | nil =>
    have none_ : ¬ ∃ parsed ∈ ([] : List DataArea),
      parsed.dataAreaID.toUInt32 = dataAreaId := by simp
    rw [or_iff_right none_]
    constructor
    · rintro ⟨calls, ends⟩ misled
      rw [findLoop_of_misled misled isAreas] at ends
      cases ends
    · intro notMisled
      refine ⟨1, ?_⟩
      rw [findLoop_succ_of_read (readNextFrom_of_nil isAreas)]
      by_cases valid : (abortedArea cur).dataAreaValid = true
      · have found : (abortedArea cur).dataAreaID.toUInt32 = dataAreaId := by
          by_contra differs
          exact notMisled ⟨valid, differs⟩
        rw [if_pos valid, if_pos found]
        rfl
      · rw [if_neg valid]
        rfl
  | cons first rest induction =>
    rcases readNextFrom_of_cons isAreas with ⟨isFirst, isRest, sameStop⟩
    have valid : first.dataAreaValid = true := by
      have numbered := dataAreaID_ne_zero_of_mem_parsedAreas
        (isAreas ▸ mem_cons_self : first ∈ parsedAreas cur)
      simpa [DataArea.dataAreaValid] using numbered
    have read : readNextFrom cur = (first, (readNextFrom cur).2) := by rw [← isFirst]
    have sameMisled : MisledAt dataAreaId (readNextFrom cur).2 ↔ MisledAt dataAreaId cur := by
      unfold MisledAt abortedArea
      rw [sameStop]
    have later := induction (readNextFrom cur).2 isRest
    rw [sameMisled] at later
    by_cases found : first.dataAreaID.toUInt32 = dataAreaId
    · refine iff_of_true ⟨1, ?_⟩ (.inl ⟨first, mem_cons_self, found⟩)
      rw [findLoop_succ_of_read read, if_pos valid, if_pos found]
      rfl
    · have amongRest : (∃ parsed ∈ first :: rest, parsed.dataAreaID.toUInt32 = dataAreaId) ↔
        ∃ parsed ∈ rest, parsed.dataAreaID.toUInt32 = dataAreaId := by
        simp [found]
      rw [amongRest, ← later]
      constructor
      · rintro ⟨calls, ends⟩
        cases calls with
        | zero => cases ends
        | succ calls =>
          rw [findLoop_succ_of_read read, if_pos valid, if_neg found] at ends
          exact ⟨calls, ends⟩
      · rintro ⟨calls, ends⟩
        refine ⟨calls + 1, ?_⟩
        rw [findLoop_succ_of_read read, if_pos valid, if_neg found]
        exact ends

end Search

theorem startAddr_of_findLoop {dataAreaId : UInt32} {calls : Nat} {reader next : ReadAddresses}
    {dataArea : DataArea} (ends :
      ReadAddresses.findLoop dataAreaId calls reader = some (dataArea, next)) :
    next.startAddr = reader.startAddr := by
  induction calls generalizing reader with
  | zero => cases ends
  | succ calls induction =>
    rw [ReadAddresses.findLoop] at ends
    dsimp only [ReadAddresses.readNextDataArea] at ends
    split at ends
    · split at ends
      · cases ends
        rfl
      · exact (induction ends).trans rfl
    · cases ends
      rfl

theorem findDataArea_restores {reader next : ReadAddresses} {dataAreaId : UInt32} {calls : Nat}
    {dataArea : DataArea} (ends : reader.findDataArea dataAreaId calls = some (dataArea, next)) :
    next = reader := by
  rcases map_eq_some_iff.1 ends with ⟨⟨found, last⟩, searched, isNext⟩
  have sameStart := startAddr_of_findLoop searched
  cases isNext
  cases reader
  cases last
  exact congrArg (ReadAddresses.mk · _) sameStart

/-- The number in the tag at a place, zero without a tag. -/
def announcedNumber (startAddr : Pointer) : UInt32 :=
  match getNextProtoTag startAddr with
  | none => 0
  | some (dataAreaTag, _) => (dataAreaTag >>> 3).toUInt32

theorem dataAreaID_of_abort {startAddr : Pointer}
    (aborted : (parseOneDataArea startAddr).status = .abort) :
    (parseOneDataArea startAddr).dataArea.dataAreaID.toUInt32 = announcedNumber startAddr := by
  unfold parseOneDataArea at aborted ⊢
  unfold announcedNumber
  cases found : getNextProtoTag startAddr with
  | none => rfl
  | some tagged =>
    rw [found] at aborted
    dsimp only at aborted ⊢
    by_cases zero : (tagged.1 >>> 3).toUInt32 = 0
    · rw [if_pos zero, zero]
      rfl
    · rw [if_neg zero] at aborted ⊢
      by_cases tooBig : (tagged.1 >>> 3).toUInt32 > 65535
      · rw [if_pos tooBig] at aborted
        cases aborted
      · have small : (tagged.1 >>> 3).toUInt32.toNat < 2 ^ 16 := by
          rw [gt_iff_lt, UInt32.lt_iff_toNat_lt] at tooBig
          exact Nat.lt_succ_of_le (not_lt.1 tooBig)
        have sameNumber : (tagged.1 >>> 3).toUInt32.toUInt16.toUInt32 =
          (tagged.1 >>> 3).toUInt32 := by
          rw [← UInt32.toNat_inj, UInt16.toNat_toUInt32,
            UInt32.toNat_toUInt16, Nat.mod_eq_of_lt small]
        rw [if_neg tooBig]
        cases known : ProtoWireType.ofUInt8 (tagged.1.toUInt8 &&& 7) with
        | none => exact sameNumber
        | some wireType =>
          dsimp only
          rw [dataAreaID_parseValue]
          exact sameNumber

theorem dataAreaValid_iff (dataArea : DataArea) :
    dataArea.dataAreaValid = true ↔ dataArea.dataAreaID.toUInt32 ≠ 0 := by
  rw [DataArea.dataAreaValid, decide_eq_true_eq, ne_eq, ne_eq, not_iff_not,
    ← UInt16.toNat_inj, ← UInt32.toNat_inj, UInt16.toNat_toUInt32]
  rfl

theorem misledAt_iff (dataAreaId : UInt32) (cur : Pointer) :
    MisledAt dataAreaId cur ↔ announcedNumber (stopsAt cur) ≠ 0 ∧
      announcedNumber (stopsAt cur) ≠ dataAreaId := by
  rw [MisledAt, dataAreaValid_iff, abortedArea, dataAreaID_of_abort (status_stopsAt cur)]

/--
A search ends, and leaves the reader as it was, exactly when a field before the
first one that cannot be parsed has the number, or when the tag of that one has
this number too or none at all.
-/
theorem findDataArea_ends_iff (reader : ReadAddresses) (dataAreaId : UInt32) :
    (∃ calls dataArea, reader.findDataArea dataAreaId calls = some (dataArea, reader)) ↔
      (∃ parsed ∈ parsedAreas reader.startAddr, parsed.dataAreaID.toUInt32 = dataAreaId) ∨
        announcedNumber (stopsAt reader.startAddr) = 0 ∨
        announcedNumber (stopsAt reader.startAddr) = dataAreaId := by
  have ends := findLoop_isSome_iff dataAreaId reader.startAddr reader.startAddr
  rw [misledAt_iff, not_and_or, not_not, not_not] at ends
  rw [← ends]
  constructor
  · rintro ⟨calls, dataArea, found⟩
    rcases map_eq_some_iff.1 found with ⟨last, searched, _⟩
    exact ⟨calls, isSome_of_eq_some searched⟩
  · rintro ⟨calls, searched⟩
    rcases isSome_iff_exists.1 searched with ⟨⟨dataArea, last⟩, found⟩
    have isFound : reader.findDataArea dataAreaId calls =
      some (dataArea, { last with
        currentReadAddr := reader.currentReadAddr }) :=
      map_eq_some_iff.2 ⟨_, found, rfl⟩
    refine ⟨calls, dataArea, ?_⟩
    rw [isFound, findDataArea_restores isFound]

/-- A message with a truncated field number 2, searched for field number 1. -/
theorem not_findDataArea_ends_truncated :
    ¬ ∃ calls dataArea, (ReadAddresses.mk [0x12, 5] [0x12, 5]).findDataArea 1 calls =
      some (dataArea, ⟨[0x12, 5], [0x12, 5]⟩) := by
  have nothing : parsedAreas [0x12, 5] = [] := parsedAreas_of_abort rfl
  have misled : MisledAt 1 [0x12, 5] := by
    rw [MisledAt, abortedArea, stopsAt_of_abort rfl]
    decide
  rintro ⟨calls, dataArea, ends⟩
  rw [ReadAddresses.findDataArea, findLoop_of_misled misled nothing] at ends
  cases ends

end SysAnalyzer.ProtoReader
