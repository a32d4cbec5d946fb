import SysAnalyzer.Filter.NativeHookFilter

/-!
# What a native hook event leaves in the ledger

A row is settled in everything but its subtype and the duration of its running
total, which later events fill in.  The settled rows, the two running totals
and the two address maps are the ledger.  This module says once what each event
does to it: an opening event appends a row and enters it under its address if
the address is free, a closing event closes the row of its address and appends
its own, and nothing else is touched.
-/

namespace SysAnalyzer.Filter

open Foundation Option Function List
open Base

namespace NativeHookRow

/-- A row without the columns that later events change. -/
def settled (row : NativeHookRow) : NativeHookRow :=
  { row with subType := none, currentSizeDur := 0 }

theorem account_settled (row : NativeHookRow) : row.settled.account = row.account := rfl

end NativeHookRow

namespace NativeHookFilter

structure SameLedger (filter other : NativeHookFilter) : Prop where
  rows : filter.nativeHook.rows.map NativeHookRow.settled =
    other.nativeHook.rows.map NativeHookRow.settled
  countHeapSizes : filter.nativeHook.countHeapSizes = other.nativeHook.countHeapSizes
  countMmapSizes : filter.nativeHook.countMmapSizes = other.nativeHook.countMmapSizes
  allocRows : filter.addrToAllocEventRow = other.addrToAllocEventRow
  mmapRows : filter.addrToMmapEventRow = other.addrToMmapEventRow

namespace SameLedger

theorem refl (filter : NativeHookFilter) : SameLedger filter filter := ⟨rfl, rfl, rfl, rfl, rfl⟩

theorem trans {first second third : NativeHookFilter}
    (left : SameLedger first second) (right : SameLedger second third) :
    SameLedger first third where
  rows := left.rows.trans right.rows
  countHeapSizes := left.countHeapSizes.trans right.countHeapSizes
  countMmapSizes := left.countMmapSizes.trans right.countMmapSizes
  allocRows := left.allocRows.trans right.allocRows
  mmapRows := left.mmapRows.trans right.mmapRows

variable {filter other : NativeHookFilter}

theorem length (same : SameLedger filter other) :
    filter.nativeHook.rows.length = other.nativeHook.rows.length := by
  simpa using congrArg List.length same.rows

theorem account (same : SameLedger filter other) :
    filter.nativeHook.rows.map NativeHookRow.account =
      other.nativeHook.rows.map NativeHookRow.account := by
  have accounts := congrArg (fun rows => rows.map NativeHookRow.account) same.rows
  simpa only [List.map_map, Function.comp_def, NativeHookRow.account_settled] using accounts

theorem exists_row (same : SameLedger filter other) {number : Nat} {row : NativeHookRow}
    (atNumber : other.nativeHook.rows[number]? = some row) :
    ∃ entry, filter.nativeHook.rows[number]? = some entry ∧ entry.settled = row.settled := by
  have samePlace := congrArg (fun rows => rows[number]?) same.rows
  simpa [getElem?_map, atNumber] using samePlace

end SameLedger

theorem settled_modify {change : NativeHookRow → NativeHookRow}
    (keeps : ∀ row, (change row).settled = row.settled) (rows : List NativeHookRow) (number : Nat) :
    (rows.modify number change).map NativeHookRow.settled = rows.map NativeHookRow.settled := by
  have sameSettled : NativeHookRow.settled ∘ change = NativeHookRow.settled := funext keeps
  ext1 position
  by_cases here : number = position
  · subst here
    simp [sameSettled]
  · simp [here]

theorem sameLedger_maybeUpdateCurrentSizeDur
    (filter : NativeHookFilter) (row : Nat) (timeStamp : UInt64) (isMalloc : Bool) :
    SameLedger (filter.maybeUpdateCurrentSizeDur row timeStamp isMalloc) filter := by
  have updated : ∀ last, (filter.nativeHook.updateCurrentSizeDur last timeStamp).rows.map
    NativeHookRow.settled = filter.nativeHook.rows.map NativeHookRow.settled := by
    intro last
    unfold NativeHook.updateCurrentSizeDur
    exact settled_modify (fun _ => by rfl) filter.nativeHook.rows last
  unfold maybeUpdateCurrentSizeDur
  cases isMalloc with
  | true =>
    cases last : filter.lastMallocEventRaw with
    | none => exact ⟨rfl, rfl, rfl, rfl, rfl⟩
    | some lastRow => exact ⟨updated lastRow, rfl, rfl, rfl, rfl⟩
  | false =>
    cases last : filter.lastMmapEventRaw with
    | none => exact ⟨rfl, rfl, rfl, rfl, rfl⟩
    | some lastRow => exact ⟨updated lastRow, rfl, rfl, rfl, rfl⟩

theorem settled_updateMemMapSubTypes (table : NativeHook) (rows : List Nat) (tag : UInt64) :
    let changed := rows.foldl (fun table row => table.updateMemMapSubType row tag) table
    changed.rows.map NativeHookRow.settled = table.rows.map NativeHookRow.settled ∧
      changed.countHeapSizes = table.countHeapSizes ∧
      changed.countMmapSizes = table.countMmapSizes := by
  induction rows generalizing table with
  | nil => exact ⟨rfl, rfl, rfl⟩
  | cons row rest induction =>
    have oneRow : (table.updateMemMapSubType row tag).rows.map NativeHookRow.settled =
      table.rows.map NativeHookRow.settled := by
      unfold NativeHook.updateMemMapSubType
      exact settled_modify (fun _ => by rfl) table.rows row
    rcases induction (table.updateMemMapSubType row tag) with
      ⟨sameRows, sameCounts⟩
    exact ⟨sameRows.trans oneRow, sameCounts⟩

theorem sameLedger_parseTagEvent (filter : NativeHookFilter) (addr : UInt64) (size : UInt32)
    (tag : UInt64) : SameLedger (filter.parseTagEvent addr size tag) filter := by
  unfold parseTagEvent
  cases filter.anonMmapData (addr, size) with
  | none => exact .refl filter
  | some rows =>
    rcases settled_updateMemMapSubTypes filter.nativeHook rows tag with
      ⟨sameRows, sameHeap, sameMmap⟩
    exact ⟨sameRows, sameHeap, sameMmap, rfl, rfl⟩

/-- The row an allocation or a mapping appends. -/
def opened (filter : NativeHookFilter) (opening : NativeHookEventType)
    (timeStamp addr : UInt64) (size : UInt32) : NativeHook :=
  filter.nativeHook.appendNewNativeHookData opening none timeStamp 0 0 addr size.toNat

theorem sameLedger_parseAllocEvent
    (filter : NativeHookFilter) (timeStamp addr : UInt64) (size : UInt32) :
    SameLedger (filter.parseAllocEvent timeStamp addr size) { filter with
      nativeHook := filter.opened .allocEvent timeStamp addr size
      addrToAllocEventRow :=
        insertRow filter.addrToAllocEventRow addr
          filter.nativeHook.rows.length } := by
  unfold parseAllocEvent
  split
  · exact sameLedger_maybeUpdateCurrentSizeDur _ _ timeStamp true
  · exact .refl _

theorem sameLedger_parseMmapEvent
    (filter : NativeHookFilter) (timeStamp addr : UInt64) (size : UInt32) (type : Option UInt64) :
    SameLedger (filter.parseMmapEvent timeStamp addr size type) { filter with
      nativeHook := filter.opened .mmapEvent timeStamp addr size
      addrToMmapEventRow :=
        insertRow filter.addrToMmapEventRow addr
          filter.nativeHook.rows.length } := by
  have settledRows : ∀ (subType : Option UInt64),
    (filter.nativeHook.appendNewNativeHookData .mmapEvent subType timeStamp
      0 0 addr size.toNat).rows.map NativeHookRow.settled =
      (filter.opened .mmapEvent timeStamp addr size).rows.map NativeHookRow.settled := by
    intro subType
    simp [opened, NativeHook.appendNewNativeHookData, NativeHookRow.settled]
  unfold parseMmapEvent
  dsimp only
  cases type with
  | none =>
    split
    · exact (sameLedger_maybeUpdateCurrentSizeDur _ _ timeStamp false).trans
        ⟨rfl, rfl, rfl, rfl, rfl⟩
    · exact ⟨rfl, rfl, rfl, rfl, rfl⟩
  | some subType =>
    split
    · exact (sameLedger_maybeUpdateCurrentSizeDur _ _ timeStamp false).trans
        ⟨settledRows (some subType), rfl, rfl, rfl, rfl⟩
    · exact ⟨settledRows (some subType), rfl, rfl, rfl, rfl⟩

def closedBy (filter : NativeHookFilter) (rowOf : StdMap UInt64 Nat)
    (timeStamp addr : UInt64) : Option (Nat × NativeHookRow) :=
  (rowOf addr).bind fun number =>
    (filter.nativeHook.rows[number]?).bind fun row =>
      if timeStamp > row.timeStamp then some (number, row) else none

variable {filter : NativeHookFilter} {row : NativeHookRow}

variable {number : Nat}

theorem closedBy_eq_some {rowOf : StdMap UInt64 Nat} {timeStamp addr : UInt64} :
    filter.closedBy rowOf timeStamp addr = some (number, row) ↔
      rowOf addr = some number ∧ filter.nativeHook.rows[number]? = some row ∧
        timeStamp > row.timeStamp := by
  unfold closedBy
  simp only [bind_eq_some_iff, ite_none_right_eq_some, some.injEq, Prod.mk.injEq]
  constructor
  · rintro ⟨mapped, isMapped, entry, atMapped, later, rfl, rfl⟩
    exact ⟨isMapped, atMapped, later⟩
  · rintro ⟨isMapped, atNumber, later⟩
    exact ⟨number, isMapped, row, atNumber, later, rfl, rfl⟩

def closed (filter : NativeHookFilter) (closing : NativeHookEventType)
    (number : Nat) (timeStamp addr : UInt64) (size : Int) : NativeHook :=
  (filter.nativeHook.updateEndTimeStampAndDuration number
    timeStamp).appendNewNativeHookData closing none timeStamp 0 0 addr size

theorem getElem?_closed (filter : NativeHookFilter) (closing : NativeHookEventType)
    (number : Nat) (timeStamp addr : UInt64) (size : Int) {position : Nat}
    (atPosition : filter.nativeHook.rows[position]? = some row) :
    (filter.closed closing number timeStamp addr size).rows[position]? = some
        (if number = position then
          { row with
            endTimeStamp := timeStamp
            duration := timeStamp - row.timeStamp }
        else row) := by
  have inRange : position < filter.nativeHook.rows.length :=
    (List.getElem?_eq_some_iff.1 atPosition).1
  have inTable : (filter.nativeHook.updateEndTimeStampAndDuration number
    timeStamp).rows[position]? = some (if number = position then
      { row with
        endTimeStamp := timeStamp
        duration := timeStamp - row.timeStamp }
      else row) := by
    unfold NativeHook.updateEndTimeStampAndDuration
    rw [getElem?_modify, atPosition]
    rfl
  have inTableRange : position < (filter.nativeHook.updateEndTimeStampAndDuration number
    timeStamp).rows.length := by
    simpa [NativeHook.updateEndTimeStampAndDuration] using inRange
  rw [← inTable]
  cases closing <;> exact getElem?_append_left inTableRange

theorem length_closed (filter : NativeHookFilter) (closing : NativeHookEventType)
    (number : Nat) (timeStamp addr : UInt64) (size : Int) :
    (filter.closed closing number timeStamp addr size).rows.length =
      filter.nativeHook.rows.length + 1 := by
  cases closing <;> simp [NativeHookFilter.closed, NativeHook.appendNewNativeHookData,
    NativeHook.updateEndTimeStampAndDuration]

theorem parseFreeEvent_of_closedBy_none {timeStamp addr : UInt64}
    (nothing : filter.closedBy filter.addrToAllocEventRow timeStamp addr = none) :
    filter.parseFreeEvent timeStamp addr = filter := by
  unfold closedBy at nothing
  unfold parseFreeEvent
  cases mapped : filter.addrToAllocEventRow addr with
  | none => rfl
  | some number =>
    cases atNumber : filter.nativeHook.rows[number]? with
    | none => simp only [atNumber]
    | some row =>
      simp only [mapped, atNumber, bind_some, ite_eq_right_iff, reduceCtorEq, imp_false] at nothing
      simp only [atNumber, if_neg nothing]

theorem sameLedger_parseFreeEvent {timeStamp addr : UInt64}
    (closes : filter.closedBy filter.addrToAllocEventRow timeStamp addr = some (number, row)) :
    SameLedger (filter.parseFreeEvent timeStamp addr)
      { filter with
        nativeHook :=
          filter.closed .freeEvent number timeStamp addr row.memSize
        addrToAllocEventRow :=
          Function.update filter.addrToAllocEventRow addr none } := by
  rcases closedBy_eq_some.1 closes with ⟨mapped, atNumber, later⟩
  unfold parseFreeEvent
  simp only [mapped, atNumber, if_pos later]
  split
  · exact sameLedger_maybeUpdateCurrentSizeDur _ _ timeStamp true
  · exact .refl _

theorem parseMunmapEvent_of_closedBy_none {timeStamp addr : UInt64} (size : UInt32)
    (nothing : filter.closedBy filter.addrToMmapEventRow timeStamp addr = none) :
    filter.parseMunmapEvent timeStamp addr size = filter := by
  unfold closedBy at nothing
  unfold parseMunmapEvent
  cases mapped : filter.addrToMmapEventRow addr with
  | none => rfl
  | some number =>
    cases atNumber : filter.nativeHook.rows[number]? with
    | none => simp only [atNumber]
    | some row =>
      simp only [mapped, atNumber, bind_some, ite_eq_right_iff, reduceCtorEq, imp_false] at nothing
      simp only [atNumber, if_neg nothing]

theorem sameLedger_parseMunmapEvent {timeStamp addr : UInt64} (size : UInt32)
    (closes : filter.closedBy filter.addrToMmapEventRow timeStamp addr = some (number, row)) :
    SameLedger (filter.parseMunmapEvent timeStamp addr size)
      { filter with
        nativeHook :=
          filter.closed .munmapEvent number timeStamp addr size.toNat
        addrToMmapEventRow :=
          Function.update filter.addrToMmapEventRow addr none } := by
  rcases closedBy_eq_some.1 closes with ⟨mapped, atNumber, later⟩
  have settledRows : ∀ (subType : Option UInt64),
    ((filter.nativeHook.updateEndTimeStampAndDuration number
      timeStamp).appendNewNativeHookData .munmapEvent subType timeStamp
        0 0 addr size.toNat).rows.map NativeHookRow.settled =
      (filter.closed .munmapEvent number timeStamp addr
        size.toNat).rows.map NativeHookRow.settled := by
    intro subType
    simp [NativeHookFilter.closed, NativeHook.appendNewNativeHookData, NativeHookRow.settled]
  unfold parseMunmapEvent
  simp only [mapped, atNumber, if_pos later]
  split
  · exact (sameLedger_maybeUpdateCurrentSizeDur _ _ timeStamp false).trans
      ⟨settledRows _, rfl, rfl, rfl, rfl⟩
  · exact ⟨settledRows _, rfl, rfl, rfl, rfl⟩

end NativeHookFilter

end SysAnalyzer.Filter
