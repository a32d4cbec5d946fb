import SysAnalyzer.Filter.MeasureFilter
import Mathlib.Data.Fintype.Card
import Mathlib.Data.List.Chain

/-!
# The durations of measures

The rows of one filter number tile the time: each row lasts until the next one,
and the last one is open.  A key keeps its number, and no other key has it, as
long as the numbers of filters and rows fit into 32 bits.
-/

namespace SysAnalyzer.Filter

open Foundation List
open Base

def measureRowsOf (filterId : UInt32) (rows : List MeasureRow) : List (MeasureRow × Nat) :=
  keptRows (fun row => decide (row.filterId = filterId)) rows

def LastsUntil (row next : MeasureRow × Nat) : Prop :=
  row.1.dur = next.1.timeStamp - row.1.timeStamp

/-- Rows that last until the next one, the last of them open. -/
structure TilesMeasure (entries : List (MeasureRow × Nat)) : Prop where
  meets : entries.IsChain LastsUntil
  lastOpen : ∀ entry, entries.getLast? = some entry → entry.1.dur = invalidUint64

/-- The rows of a number are tiled, and the last one is known by its number. -/
structure TracksRows (rows : List MeasureRow) (filterId : UInt32)
    (last : Option UInt32) : Prop where
  tiles : TilesMeasure (measureRowsOf filterId rows)
  lastRow : last = (measureRowsOf filterId rows).getLast?.map fun entry => UInt32.ofNat entry.2

/-- What a new row does to the table. -/
def addMeasure (filterId : UInt32) (timeStamp : UInt64) (value : Int64)
    (last : Option UInt32) (rows : List MeasureRow) : List MeasureRow :=
  match last with
  | some last => setDur last timeStamp (appendMeasureData 0 timeStamp value filterId rows)
  | none => appendMeasureData 0 timeStamp value filterId rows

section Rows

variable {rows : List MeasureRow} {filterId : UInt32} {last : Option UInt32}

theorem tilesMeasure_nil : TilesMeasure [] := ⟨isChain_nil, by rintro _ ⟨⟩⟩

theorem TilesMeasure.close_concat
    {earlier : List (MeasureRow × Nat)} {row : MeasureRow} {number : Nat}
    (tiles : TilesMeasure (earlier ++ [(row, number)]))
    (next : MeasureRow × Nat) (isOpen : next.1.dur = invalidUint64) :
    TilesMeasure (earlier ++ [(row.until next.1.timeStamp, number)] ++ [next]) := by
  constructor
  · have chain := tiles.meets
    rw [isChain_append] at chain
    rcases chain with ⟨earlierChain, -, meets⟩
    rw [append_assoc, isChain_append]
    refine ⟨earlierChain, ?_, ?_⟩
    · simp [LastsUntil, MeasureRow.until]
    · intro before isBefore first isFirst
      have ends := meets before isBefore (row, number) (by simp)
      simp only [cons_append, nil_append, head?_cons,
        Option.mem_def, Option.some.injEq] at isFirst
      subst isFirst
      exact ends
  · intro entry isLast
    rw [getLast?_concat, Option.some.injEq] at isLast
    rw [← isLast, isOpen]

section

variable (tracks : TracksRows rows filterId last)
include tracks

theorem TracksRows.getLast_eq (few : rows.length ≤ 2 ^ 32)
    {number : UInt32} (kept : last = some number) :
    ∃ earlier row, measureRowsOf filterId rows = earlier ++ [(row, number.toNat)] := by
  have isLast := tracks.lastRow.symm.trans kept
  rw [Option.map_eq_some_iff] at isLast
  rcases isLast with ⟨⟨row, place⟩, atEnd, isNumber⟩
  rcases getLast?_eq_some_iff.1 atEnd with ⟨earlier, split⟩
  have inside : place < rows.length :=
    (List.getElem?_eq_some_iff.1 (getElem?_of_keptRows_last split).1).1
  refine ⟨earlier, row, ?_⟩
  rw [split, ← isNumber, UInt32.toNat_ofNat', Nat.mod_eq_of_lt (by omega)]

theorem TracksRows.add_same (few : rows.length < 2 ^ 32) (timeStamp : UInt64) (value : Int64) :
    TracksRows (addMeasure filterId timeStamp value last rows) filterId
      (some (UInt32.ofNat rows.length)) := by
  have opened (others : List MeasureRow) : measureRowsOf filterId
    (appendMeasureData 0 timeStamp value filterId others) = measureRowsOf filterId others ++
      [(⟨0, timeStamp, value, filterId, invalidUint64⟩, others.length)] := by
    rw [measureRowsOf, appendMeasureData, keptRows_concat, if_pos (decide_eq_true rfl)]
    rfl
  cases known : last with
  | none =>
    have noRows : measureRowsOf filterId rows = [] := by
      have isNone := tracks.lastRow.symm.trans known
      simpa using isNone
    refine ⟨?_, ?_⟩
    · rw [addMeasure, opened, noRows]
      exact ⟨isChain_singleton _, by rintro _ ⟨⟩; rfl⟩
    · simp [addMeasure, opened]
  | some number =>
    rcases tracks.getLast_eq (le_of_lt few) known with
      ⟨earlier, row, split⟩
    have found := (getElem?_of_keptRows_last split).1
    have inside := (List.getElem?_eq_some_iff.1 found).1
    have closed : measureRowsOf filterId (addMeasure filterId timeStamp value (some number) rows) =
      earlier ++ [(row.until timeStamp, number.toNat)] ++
        [(⟨0, timeStamp, value, filterId, invalidUint64⟩, rows.length)] := by
      have changed : measureRowsOf filterId
        (rows.modify number.toNat (MeasureRow.until timeStamp)) =
          earlier ++ [(row.until timeStamp, number.toNat)] :=
        keptRows_modify_last (fun _ => rfl) split
      have moved : addMeasure filterId timeStamp value (some number) rows =
        appendMeasureData 0 timeStamp value filterId
          (rows.modify number.toNat (MeasureRow.until timeStamp)) :=
        modify_concat_of_lt _ inside
      rw [moved, opened, changed, length_modify]
    have before := tracks.tiles
    rw [split] at before
    refine ⟨?_, ?_⟩
    · rw [closed]
      exact before.close_concat (⟨0, timeStamp, value, filterId, invalidUint64⟩, rows.length) rfl
    · rw [closed, getLast?_concat]
      rfl

theorem TracksRows.add_other (few : rows.length < 2 ^ 32)
    {other : UInt32} {otherLast : Option UInt32} (otherTracks : TracksRows rows other otherLast)
    (different : filterId ≠ other) (timeStamp : UInt64) (value : Int64) :
    TracksRows (addMeasure other timeStamp value otherLast rows) filterId last := by
  have opened (others : List MeasureRow) : measureRowsOf filterId
    (appendMeasureData 0 timeStamp value other others) = measureRowsOf filterId others := by
    rw [measureRowsOf, appendMeasureData, keptRows_concat, if_neg (by simpa using different.symm)]
    rfl
  have same : measureRowsOf filterId (addMeasure other timeStamp value otherLast rows) =
    measureRowsOf filterId rows := by
    cases known : otherLast with
    | none => exact opened rows
    | some number =>
      rcases otherTracks.getLast_eq (le_of_lt few) known with
        ⟨earlier, row, split⟩
      have found := getElem?_of_keptRows_last split
      have inside := (List.getElem?_eq_some_iff.1 found.1).1
      have moved : addMeasure other timeStamp value (some number) rows =
        appendMeasureData 0 timeStamp value other
          (rows.modify number.toNat (MeasureRow.until timeStamp)) :=
        modify_concat_of_lt _ inside
      rw [moved, opened]
      have sameOwner (row : MeasureRow) : decide ((row.until timeStamp).filterId = filterId) =
        decide (row.filterId = filterId) :=
        rfl
      refine keptRows_modify_of_not_kept sameOwner ?_
      intro closed isClosed
      rw [found.1, Option.some.injEq] at isClosed
      subst isClosed
      have ofOther : row.filterId = other := by simpa using found.2
      simpa [ofOther] using different.symm
  exact ⟨same ▸ tracks.tiles, same ▸ tracks.lastRow⟩

end

theorem length_addMeasure (filterId : UInt32) (timeStamp : UInt64) (value : Int64)
    (last : Option UInt32) (rows : List MeasureRow) :
    (addMeasure filterId timeStamp value last rows).length = rows.length + 1 := by
  cases last <;> simp [addMeasure, setDur, appendMeasureData]

end Rows

/-! ## The numbers of the keys -/

/--
The filters after some calls: `keys` are the keys in the order in which they
got their numbers.
-/
structure TracksKeys (keys : List MeasureKey) (measures : MeasureFilters) :
    Prop where
  types : ∀ filterType, (measures.filters filterType).filterType = filterType
  distinct : keys.Nodup
  counted : measures.cache.filterData.length = keys.length
  numbered : ∀ number key, keys[number]? = some key →
    measures.numberOf key = (UInt32.ofNat number).toUInt64
  missing : ∀ key, key ∉ keys → measures.numberOf key = invalidUint64
  used : ∀ entry ∈ measures.used, ∃ number,
    keys[number]? = some entry.1 ∧ entry.2 = UInt32.ofNat number
  rows : ∀ row ∈ measures.cache.measureData, ∃ number key,
    keys[number]? = some key ∧ key.filterType ≠ .processMeasureFilter ∧
      row.filterId = UInt32.ofNat number
  tracked : ∀ number key, keys[number]? = some key → key.filterType ≠ .processMeasureFilter →
    TracksRows measures.cache.measureData (UInt32.ofNat number)
      ((measures.filters key.filterType).filterIdToRow (UInt32.ofNat number))
  untouched : ∀ filterType number, keys.length ≤ number → number < 2 ^ 32 →
    (measures.filters filterType).filterIdToRow (UInt32.ofNat number) = none

theorem tracksKeys_initial : TracksKeys [] .initial where
  types := fun _ => rfl
  distinct := .nil
  counted := rfl
  numbered := by simp
  missing := fun _ _ => rfl
  used := by simp [MeasureFilters.initial]
  rows := by simp [MeasureFilters.initial]
  tracked := by simp
  untouched := fun _ _ _ _ => rfl

theorem ofNat_inj_of_lt {first second : Nat}
    (firstSmall : first < 2 ^ 32) (secondSmall : second < 2 ^ 32)
    (same : UInt32.ofNat first = UInt32.ofNat second) : first = second := by
  have values := congrArg UInt32.toNat same
  rw [UInt32.toNat_ofNat', UInt32.toNat_ofNat'] at values
  omega

theorem toUInt64_ne_invalid (number : UInt32) : number.toUInt64 ≠ invalidUint64 := by
  intro same
  have values := congrArg UInt64.toNat same
  have small := number.toNat_lt
  rw [UInt32.toNat_toUInt64] at values
  have invalid : invalidUint64.toNat = 2 ^ 64 - 1 := by decide
  omega

namespace MeasureFilters

variable {names : UInt64 → String} {measures : MeasureFilters}

variable (names) in
/-- The filters behind `GetOrCreateFilterId`. -/
def identify (measures : MeasureFilters) (key : MeasureKey) : MeasureFilters × UInt32 :=
  let identified :=
    (measures.filters key.filterType).getOrCreateFilterId names
      key.internalTid key.nameIndex measures.cache
  ({ measures with
    filters := Function.update measures.filters key.filterType identified.1
    cache := identified.2.1 },
    identified.2.2)

def record (measures : MeasureFilters) (key : MeasureKey) (filterId : UInt32)
    (timeStamp : UInt64) (value : Int64) : MeasureFilters :=
  let appended :=
    (measures.filters key.filterType).appendRow filterId timeStamp value measures.cache
  { filters := Function.update measures.filters key.filterType appended.1
    cache := appended.2
    used := measures.used ++ [(key, filterId)] }

theorem step_eq (measures : MeasureFilters) (call : MeasureCall) :
    step names measures call = (identify names measures call.key).1.record call.key
      (identify names measures call.key).2 call.timeStamp call.value := by
  simp [step, identify, record, MeasureFilter.appendNewMeasureData]

section Identify

variable (names)

theorem identify_of_known {key : MeasureKey} {number : UInt32}
    (known : measures.numberOf key = number.toUInt64) :
    identify names measures key = (measures, number) := by
  have found : (measures.filters key.filterType).getOrCreateFilterId names
    key.internalTid key.nameIndex measures.cache =
      (measures.filters key.filterType, measures.cache, number) := by
    unfold MeasureFilter.getOrCreateFilterId
    rw [numberOf] at known
    simp [known, toUInt64_ne_invalid]
  simp [identify, found]

theorem identify_of_missing {key : MeasureKey} (missing : measures.numberOf key = invalidUint64) :
    identify names measures key = ({ measures with
          filters :=
            Function.update measures.filters key.filterType
              ((measures.filters key.filterType).addCertainFilterId
                key.internalTid key.nameIndex
                (UInt32.ofNat measures.cache.filterData.length).toUInt64)
          cache :=
            { measures.cache with
              filterData :=
                measures.cache.filterData ++
                  [⟨filterTypeValue
                      (measures.filters key.filterType).filterType,
                    names key.nameIndex, key.internalTid⟩] } },
        UInt32.ofNat measures.cache.filterData.length) := by
  rw [numberOf] at missing
  simp [identify, MeasureFilter.getOrCreateFilterId, missing, addFilter]

theorem numberOf_identify_of_missing
    {key : MeasureKey} (missing : measures.numberOf key = invalidUint64) (other : MeasureKey) :
    (identify names measures key).1.numberOf other = if other = key then
        (UInt32.ofNat measures.cache.filterData.length).toUInt64
      else measures.numberOf other := by
  rw [identify_of_missing names missing]
  rcases key with ⟨filterType, tid, name⟩
  rcases other with ⟨otherType, otherTid, otherName⟩
  by_cases sameType : otherType = filterType
  · subst sameType
    simp [numberOf, MeasureFilter.addCertainFilterId, DoubleMap.find_insert]
  · simp [numberOf, sameType]

/-- A key keeps the number it has, or gets the next one. -/
theorem identify_tracks {keys : List MeasureKey} (tracks : TracksKeys keys measures)
    (few : keys.length < 2 ^ 32) (key : MeasureKey) :
    ∃ number grown, keys <+: grown ∧ grown.length ≤ keys.length + 1 ∧ grown[number]? = some key ∧
        (identify names measures key).2 = UInt32.ofNat number ∧
        (identify names measures key).1.cache.measureData = measures.cache.measureData ∧
        TracksKeys grown (identify names measures key).1 := by
  by_cases known : key ∈ keys
  · rcases getElem?_of_mem known with ⟨number, atNumber⟩
    have same := identify_of_known names (tracks.numbered number key atNumber)
    rw [same]
    exact ⟨number, keys, prefix_rfl, Nat.le_succ _, atNumber, rfl, rfl, tracks⟩
  · have missing := tracks.missing key known
    have numbers := numberOf_identify_of_missing names missing
    have next := identify_of_missing names missing
    have last : (keys ++ [key])[keys.length]? = some key := by simp
    refine ⟨keys.length, keys ++ [key], prefix_append _ _, by simp, last,
      by rw [next, tracks.counted], by rw [next], ?_⟩
    have sameType (filterType : FilterType) :
        ((identify names measures key).1.filters filterType).filterType =
          (measures.filters filterType).filterType := by
      rw [next]
      by_cases same : filterType = key.filterType
      · subst same
        simp [MeasureFilter.addCertainFilterId]
      · simp [same]
    have sameRows (filterType : FilterType) :
        ((identify names measures key).1.filters filterType).filterIdToRow =
          (measures.filters filterType).filterIdToRow := by
      rw [next]
      by_cases same : filterType = key.filterType
      · subst same
        simp [MeasureFilter.addCertainFilterId]
      · simp [same]
    have earlier {number : Nat} {other : MeasureKey}
      (atNumber : (keys ++ [key])[number]? = some other) :
      keys[number]? = some other ∨ (number = keys.length ∧ other = key) := by
      rw [getElem?_append] at atNumber
      split_ifs at atNumber with inside
      · exact Or.inl atNumber
      · rw [getElem?_singleton] at atNumber
        split_ifs at atNumber with first
        · exact Or.inr ⟨by omega, (Option.some.inj atNumber).symm⟩
    have notNew {number : Nat} {other : MeasureKey}
      (atNumber : keys[number]? = some other) : other ≠ key := by
      rintro rfl
      exact known (mem_of_getElem? atNumber)
    have grows {number : Nat} {other : MeasureKey} (atNumber : keys[number]? = some other) :
        (keys ++ [key])[number]? = some other := by
      rw [List.getElem?_append_left (List.getElem?_eq_some_iff.1 atNumber).1]
      exact atNumber
    constructor
    · intro filterType
      rw [sameType, tracks.types]
    · rw [nodup_append]
      refine ⟨tracks.distinct, pairwise_singleton _ key, ?_⟩
      intro other listed last isLast
      rw [mem_singleton.1 isLast]
      rintro rfl
      exact known listed
    · rw [next]
      simp [tracks.counted]
    · intro number other atNumber
      rw [numbers]
      rcases earlier atNumber with old | ⟨rfl, rfl⟩
      · rw [if_neg (notNew old), tracks.numbered number other old]
      · rw [if_pos rfl, tracks.counted]
    · intro other absent
      rw [mem_append, mem_singleton, not_or] at absent
      rw [numbers, if_neg absent.2, tracks.missing other absent.1]
    · intro entry member
      rw [next] at member
      rcases tracks.used entry member with ⟨number, atNumber, isNumber⟩
      exact ⟨number, grows atNumber, isNumber⟩
    · intro row member
      rw [next] at member
      rcases tracks.rows row member with ⟨number, other, atNumber, ofOther⟩
      exact ⟨number, other, grows atNumber, ofOther⟩
    · intro number other atNumber measured
      rw [sameRows, next]
      rcases earlier atNumber with old | ⟨rfl, rfl⟩
      · exact tracks.tracked number other old measured
      · -- The number is new, so no row has it.
        have noRows : measureRowsOf (UInt32.ofNat keys.length) measures.cache.measureData = [] := by
          rw [measureRowsOf, eq_nil_iff_forall_not_mem]
          rintro entry member
          rcases mem_keptRows.1 member with ⟨found, kept⟩
          rcases tracks.rows entry.1 (mem_of_getElem? found) with
            ⟨number, _, atNumber, -, ofNumber⟩
          have inside := (List.getElem?_eq_some_iff.1 atNumber).1
          rw [decide_eq_true_eq, ofNumber] at kept
          have same := ofNat_inj_of_lt (by omega) few kept
          omega
        refine ⟨?_, ?_⟩
        · rw [noRows]
          exact tilesMeasure_nil
        · rw [tracks.untouched _ _ (le_refl _) few, noRows]
          rfl
    · intro filterType number behind small
      rw [length_append, length_singleton] at behind
      rw [sameRows]
      exact tracks.untouched filterType number (by omega) small

end Identify

theorem record_map (measures : MeasureFilters) (key : MeasureKey) (filterId : UInt32)
    (timeStamp : UInt64) (value : Int64) (filterType : FilterType) :
    ((measures.record key filterId timeStamp value).filters filterType).tidStreamIdFilterIdMap =
      (measures.filters filterType).tidStreamIdFilterIdMap ∧
      ((measures.record key filterId timeStamp value).filters
        filterType).filterType = (measures.filters filterType).filterType := by
  unfold record MeasureFilter.appendRow
  dsimp only
  by_cases same : filterType = key.filterType
  · subst same
    split_ifs <;> simp
  · split_ifs <;> simp [same]

theorem record_filterData (measures : MeasureFilters) (key : MeasureKey) (filterId : UInt32)
    (timeStamp : UInt64) (value : Int64) :
    (measures.record key filterId timeStamp value).cache.filterData =
      measures.cache.filterData := by
  unfold record MeasureFilter.appendRow
  dsimp only
  split_ifs <;> rfl

theorem record_of_process
    {key : MeasureKey} (filterId : UInt32) (timeStamp : UInt64) (value : Int64)
    (process : (measures.filters key.filterType).filterType = .processMeasureFilter) :
    (measures.record key filterId timeStamp value).filters = measures.filters ∧
      (measures.record key filterId timeStamp value).cache.measureData =
        measures.cache.measureData := by
  simp [record, MeasureFilter.appendRow, process]

theorem record_of_measure
    {key : MeasureKey} (filterId : UInt32) (timeStamp : UInt64) (value : Int64)
    (measured : (measures.filters key.filterType).filterType ≠ .processMeasureFilter) :
    (∀ filterType, ((measures.record key filterId timeStamp value).filters
      filterType).filterIdToRow = if filterType = key.filterType then
        Function.update (measures.filters filterType).filterIdToRow filterId
          (some (UInt32.ofNat measures.cache.measureData.length))
        else (measures.filters filterType).filterIdToRow) ∧
      (measures.record key filterId timeStamp value).cache.measureData =
        addMeasure filterId timeStamp value
          ((measures.filters key.filterType).filterIdToRow filterId)
          measures.cache.measureData := by
  constructor
  · intro filterType
    by_cases same : filterType = key.filterType
    · subst same
      simp [record, MeasureFilter.appendRow, measured]
    · simp [record, MeasureFilter.appendRow, measured, same]
  · cases last : (measures.filters key.filterType).filterIdToRow filterId with
    | none => simp [record, MeasureFilter.appendRow, addMeasure, measured, last]
    | some number => simp [record, MeasureFilter.appendRow, addMeasure, measured, last]

theorem filterId_of_mem_addMeasure {filterId : UInt32} {timeStamp : UInt64} {value : Int64}
    {last : Option UInt32} {rows : List MeasureRow} {row : MeasureRow}
    (member : row ∈ addMeasure filterId timeStamp value last rows) :
    row.filterId = filterId ∨ ∃ old ∈ rows, row.filterId = old.filterId := by
  have appended : ∀ row ∈ appendMeasureData 0 timeStamp value filterId rows,
    row.filterId = filterId ∨ ∃ old ∈ rows, row.filterId = old.filterId := by
    intro row inRows
    rw [appendMeasureData, mem_append, mem_singleton] at inRows
    rcases inRows with old | rfl
    · exact Or.inr ⟨row, old, rfl⟩
    · exact Or.inl rfl
  cases last with
  | none => exact appended row member
  | some number =>
    rw [addMeasure, setDur, mem_iff_getElem?] at member
    rcases member with ⟨place, atPlace⟩
    rw [getElem?_modify, Option.map_eq_map, Option.map_eq_some_iff]
      at atPlace
    rcases atPlace with ⟨before, atBefore, changed⟩
    have sameId : row.filterId = before.filterId := by
      rw [← changed]
      by_cases here : number.toNat = place
      · simp [here, MeasureRow.until]
      · simp [here]
    rw [sameId]
    exact appended before (mem_of_getElem? atBefore)

/-- A value closes the row that its key has open, and opens another. -/
theorem record_tracks {keys : List MeasureKey} (tracks : TracksKeys keys measures)
    (fewKeys : keys.length ≤ 2 ^ 32) (fewRows : measures.cache.measureData.length < 2 ^ 32)
    {number : Nat} {key : MeasureKey} (atNumber : keys[number]? = some key)
    (timeStamp : UInt64) (value : Int64) :
    TracksKeys keys (measures.record key (UInt32.ofNat number) timeStamp value) := by
  have sameMap := record_map measures key (UInt32.ofNat number) timeStamp value
  have sameNumber (other : MeasureKey) :
    (measures.record key (UInt32.ofNat number) timeStamp value).numberOf
      other = measures.numberOf other := by
    rw [numberOf, (sameMap other.filterType).1]
    rfl
  have inside := (List.getElem?_eq_some_iff.1 atNumber).1
  have usedNext : ∀ entry ∈ (measures.record key (UInt32.ofNat number) timeStamp value).used,
    ∃ place, keys[place]? = some entry.1 ∧ entry.2 = UInt32.ofNat place := by
    intro entry member
    rcases mem_append.1 member with earlier | new
    · exact tracks.used entry earlier
    · rw [mem_singleton.1 new]
      exact ⟨number, atNumber, rfl⟩
  have typesNext (filterType : FilterType) :
    ((measures.record key (UInt32.ofNat number) timeStamp value).filters
      filterType).filterType = filterType := by
    rw [(sameMap filterType).2, tracks.types]
  have countedNext : (measures.record key (UInt32.ofNat number) timeStamp
    value).cache.filterData.length = keys.length := by
    rw [record_filterData, tracks.counted]
  by_cases process : key.filterType = .processMeasureFilter
  · rcases record_of_process (UInt32.ofNat number) timeStamp value
      ((tracks.types key.filterType).trans process) with
      ⟨sameFilters, sameRows⟩
    refine ⟨typesNext, tracks.distinct, countedNext, ?_, ?_, usedNext, ?_, ?_, ?_⟩
    · intro place other atPlace
      rw [sameNumber]
      exact tracks.numbered place other atPlace
    · intro other absent
      rw [sameNumber]
      exact tracks.missing other absent
    · rw [sameRows]
      exact tracks.rows
    · rw [sameRows, sameFilters]
      exact tracks.tracked
    · rw [sameFilters]
      exact tracks.untouched
  · have measured : (measures.filters key.filterType).filterType ≠ .processMeasureFilter := by
      rwa [tracks.types]
    rcases record_of_measure (UInt32.ofNat number) timeStamp value measured with
      ⟨rowsNext, measureNext⟩
    refine ⟨typesNext, tracks.distinct, countedNext, ?_, ?_, usedNext, ?_, ?_, ?_⟩
    · intro place other atPlace
      rw [sameNumber]
      exact tracks.numbered place other atPlace
    · intro other absent
      rw [sameNumber]
      exact tracks.missing other absent
    · intro row member
      rw [measureNext] at member
      rcases filterId_of_mem_addMeasure member with new | ⟨old, inRows, sameId⟩
      · exact ⟨number, key, atNumber, process, new⟩
      · rw [sameId]
        exact tracks.rows old inRows
    · intro place other atPlace otherMeasured
      have ofKey := tracks.tracked number key atNumber process
      have ofOther := tracks.tracked place other atPlace otherMeasured
      rw [measureNext, rowsNext]
      by_cases samePlace : place = number
      · subst samePlace
        cases Option.some.inj (atPlace.symm.trans atNumber)
        rw [if_pos rfl, Function.update_self]
        exact ofKey.add_same fewRows timeStamp value
      · have placeInside := (List.getElem?_eq_some_iff.1 atPlace).1
        have different : UInt32.ofNat place ≠ UInt32.ofNat number := fun same =>
          samePlace (ofNat_inj_of_lt (by omega) (by omega) same)
        have sameLast : (if other.filterType = key.filterType then
          Function.update (measures.filters other.filterType).filterIdToRow
            (UInt32.ofNat number)
            (some (UInt32.ofNat measures.cache.measureData.length))
          else (measures.filters other.filterType).filterIdToRow)
          (UInt32.ofNat place) =
          (measures.filters other.filterType).filterIdToRow (UInt32.ofNat place) := by
          split_ifs
          · exact Function.update_of_ne different _ _
          · rfl
        rw [sameLast]
        exact ofOther.add_other fewRows ofKey different timeStamp value
    · intro filterType place behind small
      have different : UInt32.ofNat place ≠ UInt32.ofNat number := by
        intro same
        have samePlace := ofNat_inj_of_lt small (by omega) same
        omega
      have untouched := tracks.untouched filterType place behind small
      rw [rowsNext]
      split_ifs
      · rw [Function.update_of_ne different, untouched]
      · exact untouched

theorem length_measureData_record (measures : MeasureFilters) (key : MeasureKey) (filterId : UInt32)
    (timeStamp : UInt64) (value : Int64) :
    (measures.record key filterId timeStamp value).cache.measureData.length ≤
      measures.cache.measureData.length + 1 := by
  by_cases process : (measures.filters key.filterType).filterType = .processMeasureFilter
  · rw [(record_of_process filterId timeStamp value process).2]
    exact Nat.le_succ _
  · rw [(record_of_measure filterId timeStamp value process).2, length_addMeasure]

theorem step_tracks {keys : List MeasureKey} (tracks : TracksKeys keys measures)
    (fewKeys : keys.length < 2 ^ 32) (fewRows : measures.cache.measureData.length < 2 ^ 32)
    (names : UInt64 → String) (call : MeasureCall) :
    ∃ grown, grown.length ≤ keys.length + 1 ∧ TracksKeys grown (step names measures call) ∧
      (step names measures call).cache.measureData.length ≤
        measures.cache.measureData.length + 1 := by
  rcases identify_tracks names tracks fewKeys call.key with
    ⟨number, grown, -, size, atNumber, isNumber, sameRows, identified⟩
  rw [step_eq, isNumber]
  refine ⟨grown, size, ?_, ?_⟩
  · apply record_tracks identified (by omega) _ atNumber
    rwa [sameRows]
  · rw [← sameRows]
    exact length_measureData_record _ _ _ _ _

theorem tracks_after (names : UInt64 → String) {calls : List MeasureCall}
    (few : calls.length ≤ 2 ^ 32) :
    ∃ keys, keys.length ≤ calls.length ∧ TracksKeys keys (after names calls) ∧
      (after names calls).cache.measureData.length ≤ calls.length := by
  induction calls using reverseRecOn with
  | nil => exact ⟨[], le_refl _, tracksKeys_initial, le_refl _⟩
  | append_singleton earlier last induction =>
    rw [length_append, length_singleton] at few ⊢
    rcases induction (by omega) with ⟨keys, keyCount, tracks, rowCount⟩
    rcases step_tracks tracks (by omega) (by omega) names last with
      ⟨grown, grownCount, next, nextCount⟩
    rw [after, run_append]
    refine ⟨grown, by omega, next, ?_⟩
    exact nextCount.trans (Nat.add_le_add_right rowCount 1)

/-- A call of a key uses one number, which no call of another key uses. -/
def OneNumberEach (measures : MeasureFilters) : Prop :=
  ∀ first ∈ measures.used, ∀ second ∈ measures.used, first.1 = second.1 ↔ first.2 = second.2

/--
Every key has one filter number of its own, and the rows of each number tile
the time.
-/
structure MeasuresTile (measures : MeasureFilters) : Prop where
  numbers : measures.OneNumberEach
  tiles : ∀ filterId, TilesMeasure (measureRowsOf filterId measures.cache.measureData)

/--
Whatever calls are made, each key has a filter number of its own, and the rows
of each number tile the time.
-/
theorem measuresTile_after (names : UInt64 → String) {calls : List MeasureCall}
    (few : calls.length ≤ 2 ^ 32) : (after names calls).MeasuresTile := by
  rcases tracks_after names few with ⟨keys, count, tracks, -⟩
  constructor
  · intro first firstUsed second secondUsed
    rcases tracks.used first firstUsed with ⟨place, atPlace, isPlace⟩
    rcases tracks.used second secondUsed with ⟨other, atOther, isOther⟩
    have placeInside := (List.getElem?_eq_some_iff.1 atPlace).1
    have otherInside := (List.getElem?_eq_some_iff.1 atOther).1
    rw [isPlace, isOther]
    constructor
    · intro sameKey
      have samePlace : place = other := by
        apply (getElem?_inj placeInside tracks.distinct).1
        rw [atPlace, atOther, sameKey]
      rw [samePlace]
    · intro sameNumber
      have samePlace := ofNat_inj_of_lt (by omega) (by omega) sameNumber
      subst samePlace
      exact Option.some.inj (atPlace.symm.trans atOther)
  · intro filterId
    cases rows : measureRowsOf filterId (after names calls).cache.measureData with
    | nil => exact tilesMeasure_nil
    | cons entry others =>
      have member : entry ∈ measureRowsOf filterId (after names calls).cache.measureData := by
        rw [rows]
        exact mem_cons_self
      rcases mem_keptRows.1 member with ⟨found, kept⟩
      rcases tracks.rows entry.1 (mem_of_getElem? found) with
        ⟨number, key, atNumber, measured, ofNumber⟩
      have isNumber : filterId = UInt32.ofNat number := by
        rw [← ofNumber]
        exact (of_decide_eq_true kept).symm
      rw [← rows, isNumber]
      exact (tracks.tracked number key atNumber measured).tiles

theorem measuresTile_two :
    (after (fun _ => "heap") [⟨⟨.cpuMeasureFilter, 1, 5⟩, 10, 3⟩, ⟨⟨.clockRateFilter, 1, 5⟩, 20, 4⟩,
      ⟨⟨.cpuMeasureFilter, 1, 5⟩, 50, 7⟩]).MeasuresTile :=
  measuresTile_after _ (by decide)

/-- Every key has a number of its own, and of its rows just the last is open. -/
def MeasuresTileStrictly (measures : MeasureFilters) : Prop :=
  measures.MeasuresTile ∧ ∀ filterId place entry,
    (measureRowsOf filterId measures.cache.measureData)[place]? = some entry →
      (entry.1.dur = invalidUint64 ↔ place + 1 =
        (measureRowsOf filterId measures.cache.measureData).length)

theorem used_after (names : UInt64 → String) (calls : List MeasureCall) :
    (after names calls).used.map Prod.fst = calls.map MeasureCall.key := by
  induction calls using reverseRecOn with
  | nil => rfl
  | append_singleton earlier last induction =>
    rw [after] at induction
    rw [after, run_append, run_cons, run_nil, map_append, ← induction]
    simp [step]

theorem not_oneNumberEach_of_many (names : UInt64 → String) {calls : List MeasureCall}
    (distinct : (calls.map MeasureCall.key).Nodup)
    (many : 2 ^ 32 < calls.length) : ¬ (after names calls).OneNumberEach := by
  intro oneEach
  have keys := used_after names calls
  have entries : (after names calls).used.Nodup := List.Nodup.of_map Prod.fst (keys ▸ distinct)
  have numbers : ((after names calls).used.map fun entry => entry.2.toFin).Nodup := by
    apply List.Nodup.map_on _ entries
    intro first firstUsed second secondUsed same
    have sameNumber : first.2 = second.2 := UInt32.toFin_inj.1 same
    exact Prod.ext ((oneEach first firstUsed second secondUsed).2 sameNumber) sameNumber
  have bounded := numbers.length_le_card
  have size := congrArg List.length keys
  rw [length_map, length_map] at size
  rw [length_map, size, Fintype.card_fin] at bounded
  exact absurd bounded (not_le.2 many)

def manyThreads : List MeasureCall :=
  (range (2 ^ 32 + 1)).map fun thread => ⟨⟨.threadMeasureFilter, UInt64.ofNat thread, 0⟩, 0, 0⟩

def backInTime : List MeasureCall :=
  [⟨⟨.threadMeasureFilter, 0, 0⟩, 1, 0⟩, ⟨⟨.threadMeasureFilter, 0, 0⟩, 0, 0⟩]

/--
A duration of -1 looks like an open row, and more keys than numbers share
numbers.
-/
theorem not_measuresTileStrictly : ¬ (after (fun _ => "") backInTime).MeasuresTileStrictly ∧
    ¬ (after (fun _ => "") manyThreads).MeasuresTile := by
  constructor
  · rintro ⟨-, onlyLast⟩
    have rows : (measureRowsOf 0 (after (fun _ => "") backInTime).cache.measureData)[0]? =
      some (⟨0, 1, 0, 0, invalidUint64⟩, 0) := by
      decide
    have first := (onlyLast 0 0 _ rows).1 rfl
    exact absurd first (by decide)
  · rintro ⟨oneEach, -⟩
    refine not_oneNumberEach_of_many _ ?_ ?_ oneEach
    · rw [manyThreads, map_map]
      apply List.Nodup.map_on _ nodup_range
      intro first firstSmall second secondSmall same
      rw [mem_range] at firstSmall secondSmall
      have threads := congrArg (fun key => key.internalTid.toNat) same
      simp only [Function.comp_apply, UInt64.toNat_ofNat'] at threads
      omega
    · rw [manyThreads, length_map, length_range]
      exact Nat.lt_succ_self _

end MeasureFilters

end SysAnalyzer.Filter
