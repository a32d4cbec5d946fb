import SysAnalyzer.Base.TripleMap
import SysAnalyzer.Foundation.Run
import Mathlib

/-!
# Native heap accounting

The native hook table keeps a running total of the heap beside every row.  An
allocation appends a row and adds its size; a release is matched with the row
its address maps to, closes that row and takes its size off again.  A release
that finds no row, or one that is not older, appends nothing.

Which rows are still open is read off the table alone: the allocations without
an end.  `Accounts` says that the counter is their size and that the address
map only points at them; every event keeps it, whatever happened before.
-/

namespace SysAnalyzer.Filter

open Foundation List
open Base

/-- The event types of the table, `ALLOC_EVET` to `MUNMAP_EVENT`. -/
inductive NativeHookEventType where
  | allocEvent
  | freeEvent
  | mmapEvent
  | munmapEvent
  deriving DecidableEq

/-- A row of the native hook table; `subType` is `none` for `INVALID_UINT64`. -/
structure NativeHookRow where
  eventType : NativeHookEventType
  subType : Option UInt64
  timeStamp : UInt64
  endTimeStamp : UInt64
  duration : UInt64
  addr : UInt64
  memSize : Int
  allMemSize : Int
  currentSizeDur : UInt64

/--
The totals are `int64_t` in the source.  A size is below 2^32, so that a total
overflows, which is undefined, behind 2^31 rows at the earliest.
-/
structure NativeHook where
  rows : List NativeHookRow
  countHeapSizes : Int
  countMmapSizes : Int

namespace NativeHook

/-- `AppendNewNativeHookData`; the row it answers is the last one. -/
def appendNewNativeHookData (table : NativeHook)
    (eventType : NativeHookEventType) (subType : Option UInt64)
    (timeStamp endTimeStamp duration addr : UInt64) (memSize : Int) : NativeHook :=
  let appendRow (allMemSize : Int) : List NativeHookRow :=
    table.rows ++ [⟨eventType, subType, timeStamp, endTimeStamp, duration, addr, memSize,
      allMemSize, 0⟩]
  match eventType with
  | .allocEvent =>
    let countHeapSizes := table.countHeapSizes + memSize
    { table with countHeapSizes, rows := appendRow countHeapSizes }
  | .freeEvent =>
    let countHeapSizes := table.countHeapSizes - memSize
    { table with countHeapSizes, rows := appendRow countHeapSizes }
  | .mmapEvent =>
    let countMmapSizes := table.countMmapSizes + memSize
    { table with countMmapSizes, rows := appendRow countMmapSizes }
  | .munmapEvent =>
    let countMmapSizes := table.countMmapSizes - memSize
    { table with countMmapSizes, rows := appendRow countMmapSizes }

def updateEndTimeStampAndDuration (table : NativeHook) (row : Nat)
    (endTimeStamp : UInt64) : NativeHook :=
  { table with
    rows :=
      table.rows.modify row fun entry =>
        { entry with
          endTimeStamp
          duration := endTimeStamp - entry.timeStamp } }

def updateCurrentSizeDur (table : NativeHook) (row : Nat) (timeStamp : UInt64) : NativeHook :=
  { table with
    rows :=
      table.rows.modify row fun entry =>
        { entry with currentSizeDur := timeStamp - entry.timeStamp } }

def updateMemMapSubType (table : NativeHook) (row : Nat) (tagId : UInt64) : NativeHook :=
  { table with
    rows := table.rows.modify row fun entry => { entry with subType := some tagId } }

end NativeHook

inductive NativeHookMainEvent where
  | allocEvent (addr : UInt64) (size : UInt32)
  | freeEvent (addr : UInt64)
  /-- `type` is the data dictionary's index of the label, where there is one. -/
  | mmapEvent (addr : UInt64) (size : UInt32) (type : Option UInt64)
  | munmapEvent (addr : UInt64) (size : UInt32)
  | tagEvent (addr : UInt64) (size : UInt32) (tag : UInt64)

/-- The part of the filter that the table depends on. -/
structure NativeHookFilter where
  nativeHook : NativeHook
  addrToAllocEventRow : StdMap UInt64 Nat
  addrToMmapEventRow : StdMap UInt64 Nat
  addrToMmapTag : StdMap UInt64 UInt64
  /-- Rows of anonymous mappings, by address and size. -/
  anonMmapData : StdMap (UInt64 × UInt32) (List Nat)
  lastMallocEventRaw : Option Nat
  lastMmapEventRaw : Option Nat
  /-- `tsToMainEventsMap_`, in the order of its iterator. -/
  tsToMainEvents : List (UInt64 × NativeHookMainEvent)

namespace NativeHookFilter

def initial : NativeHookFilter :=
  ⟨⟨[], 0, 0⟩, fun _ => none, fun _ => none, fun _ => none, fun _ => none, none, none, []⟩

/-- `std::unordered_map::insert`: an entry that is already there stays. -/
def insertRow (map : StdMap UInt64 Nat) (addr : UInt64) (row : Nat) : StdMap UInt64 Nat :=
  match map addr with
  | some _ => map
  | none => Function.update map addr (some row)

def maybeUpdateCurrentSizeDur (filter : NativeHookFilter) (row : Nat)
    (timeStamp : UInt64) (isMalloc : Bool) : NativeHookFilter :=
  let lastAnyEventRaw := if isMalloc then filter.lastMallocEventRaw else filter.lastMmapEventRaw
  let nativeHook :=
    match lastAnyEventRaw with
    | some last => filter.nativeHook.updateCurrentSizeDur last timeStamp
    | none => filter.nativeHook
  if isMalloc then { filter with nativeHook, lastMallocEventRaw := some row }
  else { filter with nativeHook, lastMmapEventRaw := some row }

def parseAllocEvent (filter : NativeHookFilter) (timeStamp addr : UInt64)
    (size : UInt32) : NativeHookFilter :=
  let row := filter.nativeHook.rows.length
  let appended : NativeHookFilter :=
    { filter with
      nativeHook :=
        filter.nativeHook.appendNewNativeHookData .allocEvent none timeStamp 0 0
          addr size.toNat
      addrToAllocEventRow := insertRow filter.addrToAllocEventRow addr row }
  if size ≠ 0 then appended.maybeUpdateCurrentSizeDur row timeStamp true
  else appended

def parseFreeEvent (filter : NativeHookFilter) (timeStamp addr : UInt64) : NativeHookFilter :=
  match filter.addrToAllocEventRow addr with
  | none => filter
  | some allocRow =>
    match filter.nativeHook.rows[allocRow]? with
    -- the rows in the map are rows of the table
    | none => filter
    | some allocEvent =>
      if timeStamp > allocEvent.timeStamp then
        let freeHeapSize := allocEvent.memSize
        let row := filter.nativeHook.rows.length
        let appended : NativeHookFilter :=
          { filter with
            addrToAllocEventRow := Function.update filter.addrToAllocEventRow addr none
            nativeHook :=
              (filter.nativeHook.updateEndTimeStampAndDuration allocRow
                timeStamp).appendNewNativeHookData
                .freeEvent none timeStamp 0 0 addr freeHeapSize }
        if freeHeapSize ≠ 0 then appended.maybeUpdateCurrentSizeDur row timeStamp true
        else appended
      else filter

/-- `UpdateAnonMmapDataDbIndex`; the rows of one range are a set. -/
def updateAnonMmapDataDbIndex (filter : NativeHookFilter) (addr : UInt64)
    (size : UInt32) (row : Nat) : NativeHookFilter :=
  { filter with
    anonMmapData :=
      Function.update filter.anonMmapData (addr, size)
        (some (((filter.anonMmapData (addr, size)).getD []).insert row)) }

def parseMmapEvent (filter : NativeHookFilter) (timeStamp addr : UInt64)
    (size : UInt32) (type : Option UInt64) : NativeHookFilter :=
  let row := filter.nativeHook.rows.length
  let appended : NativeHookFilter :=
    { filter with
      nativeHook :=
        filter.nativeHook.appendNewNativeHookData .mmapEvent type timeStamp 0 0
          addr size.toNat }
  let labelled : NativeHookFilter :=
    match type with
    | some subType =>
      { appended with
        addrToMmapTag := Function.update appended.addrToMmapTag addr (some subType) }
    | none => appended.updateAnonMmapDataDbIndex addr size row
  let mapped : NativeHookFilter :=
    { labelled with
      addrToMmapEventRow := insertRow labelled.addrToMmapEventRow addr row }
  if size ≠ 0 then mapped.maybeUpdateCurrentSizeDur row timeStamp false
  else mapped

def parseMunmapEvent (filter : NativeHookFilter) (timeStamp addr : UInt64)
    (size : UInt32) : NativeHookFilter :=
  match filter.addrToMmapEventRow addr with
  | none => filter
  | some mmapRow =>
    match filter.nativeHook.rows[mmapRow]? with
    | none => filter
    | some mmapEvent =>
      if timeStamp > mmapEvent.timeStamp then
        let subType := filter.addrToMmapTag addr
        let row := filter.nativeHook.rows.length
        let appended : NativeHookFilter :=
          { filter with
            addrToMmapEventRow := Function.update filter.addrToMmapEventRow addr none
            nativeHook :=
              (filter.nativeHook.updateEndTimeStampAndDuration mmapRow
                timeStamp).appendNewNativeHookData
                .munmapEvent subType timeStamp 0 0 addr size.toNat
            addrToMmapTag := Function.update filter.addrToMmapTag addr none }
        if size ≠ 0 then appended.maybeUpdateCurrentSizeDur row timeStamp false
        else appended
      else filter

/-- `ParseTagEvent`, when the file is not being split. -/
def parseTagEvent (filter : NativeHookFilter) (addr : UInt64) (size : UInt32)
    (tag : UInt64) : NativeHookFilter :=
  match filter.anonMmapData (addr, size) with
  | none => filter
  | some rows =>
    { filter with
      nativeHook :=
        rows.foldl (fun table row => table.updateMemMapSubType row tag)
          filter.nativeHook
      anonMmapData := Function.update filter.anonMmapData (addr, size) (some [])
      addrToMmapTag := Function.update filter.addrToMmapTag addr (some tag) }

/-- The body of the loop of `FilterNativeHookMainEvent`. -/
def parseMainEvent (filter : NativeHookFilter)
    (mainEvent : UInt64 × NativeHookMainEvent) : NativeHookFilter :=
  match mainEvent.2 with
  | .allocEvent addr size => filter.parseAllocEvent mainEvent.1 addr size
  | .freeEvent addr => filter.parseFreeEvent mainEvent.1 addr
  | .mmapEvent addr size type => filter.parseMmapEvent mainEvent.1 addr size type
  | .munmapEvent addr size => filter.parseMunmapEvent mainEvent.1 addr size
  | .tagEvent addr size tag => filter.parseTagEvent addr size tag

/-- `FilterNativeHookMainEvent`: the first `num` pending events are processed. -/
def filterNativeHookMainEvent (filter : NativeHookFilter) (num : Nat) : NativeHookFilter :=
  { run parseMainEvent filter (filter.tsToMainEvents.take num) with
    tsToMainEvents := filter.tsToMainEvents.drop num }

/-- `std::multimap::insert`: behind the entries that are not later. -/
def insertMainEvent (filter : NativeHookFilter)
    (mainEvent : UInt64 × NativeHookMainEvent) : NativeHookFilter :=
  let notLater := fun entry : UInt64 × NativeHookMainEvent => decide (entry.1 ≤ mainEvent.1)
  { filter with
    tsToMainEvents :=
      filter.tsToMainEvents.takeWhile notLater ++
        mainEvent :: filter.tsToMainEvents.dropWhile notLater }

def maxCacheSize : Nat := 200000

/-- `MaybeParseNativeHookMainEvent`, without offline symbolization. -/
def maybeParseNativeHookMainEvent (filter : NativeHookFilter)
    (mainEvent : UInt64 × NativeHookMainEvent) : NativeHookFilter :=
  let inserted := filter.insertMainEvent mainEvent
  if inserted.tsToMainEvents.length > maxCacheSize then
    inserted.filterNativeHookMainEvent (inserted.tsToMainEvents.length - maxCacheSize)
  else inserted

end NativeHookFilter

/-! ## The open allocations of a table -/

namespace NativeHookRow

def isHeapRow (row : NativeHookRow) : Bool :=
  row.eventType == .allocEvent || row.eventType == .freeEvent

def account (row : NativeHookRow) : NativeHookEventType × UInt64 × UInt64 × Int × Int :=
  (row.eventType, row.endTimeStamp, row.addr, row.memSize, row.allMemSize)

/-- An allocation or a mapping that has not been closed. -/
def isUnclosed (opening : NativeHookEventType) (row : NativeHookRow) : Bool :=
  row.eventType == opening && row.endTimeStamp == 0

def unclosedSizeOf (opening : NativeHookEventType) (row : NativeHookRow) : Int :=
  if row.isUnclosed opening then row.memSize else 0

end NativeHookRow

/-- The sizes of the allocations or mappings that have not been closed. -/
def unclosedSize (opening : NativeHookEventType) (rows : List NativeHookRow) : Int :=
  ((rows.filter (NativeHookRow.isUnclosed opening)).map NativeHookRow.memSize).sum

variable (opening : NativeHookEventType)

theorem unclosedSize_eq_sum (rows : List NativeHookRow) :
    unclosedSize opening rows = (rows.map (NativeHookRow.unclosedSizeOf opening)).sum := by
  unfold unclosedSize
  induction rows with
  | nil => rfl
  | cons row rest induction =>
    cases unclosed : row.isUnclosed opening <;>
      simp [NativeHookRow.unclosedSizeOf, unclosed, induction]

theorem unclosedSize_concat (rows : List NativeHookRow) (row : NativeHookRow) :
    unclosedSize opening (rows ++ [row]) =
      unclosedSize opening rows + row.unclosedSizeOf opening := by
  simp [unclosedSize_eq_sum]

variable {change : NativeHookRow → NativeHookRow}

theorem unclosedSize_modify {rows : List NativeHookRow} {number : Nat} {row : NativeHookRow}
    (atNumber : rows[number]? = some row) : unclosedSize opening (rows.modify number change) =
      unclosedSize opening rows - row.unclosedSizeOf opening +
        (change row).unclosedSizeOf opening := by
  simp only [unclosedSize_eq_sum]
  induction rows generalizing number with
  | nil => simp at atNumber
  | cons head rest induction =>
    cases number with
    | zero =>
      cases atNumber
      simp only [modify_zero_cons, map_cons, sum_cons]
      omega
    | succ number =>
      have inRest := induction (by simpa using atNumber)
      simp only [modify_succ_cons, map_cons, sum_cons, inRest]
      omega

theorem unclosedSize_nonneg {rows : List NativeHookRow}
    (sizes : ∀ row ∈ rows, row.eventType = .allocEvent → 0 ≤ row.memSize) :
    0 ≤ unclosedSize .allocEvent rows := by
  refine sum_nonneg ?_
  intro size member
  rcases mem_map.1 member with ⟨row, ofRows, rfl⟩
  rcases mem_filter.1 ofRows with ⟨ofTable, unclosed⟩
  simp only [NativeHookRow.isUnclosed, Bool.and_eq_true, beq_iff_eq] at unclosed
  exact sizes row ofTable unclosed.1

/-! ## The invariant -/

namespace NativeHookFilter

/--
The heap counter is the size of the open allocations, and the maps point at
rows of their kind.
-/
structure Balanced (filter : NativeHookFilter) : Prop where
  total : filter.nativeHook.countHeapSizes = unclosedSize .allocEvent filter.nativeHook.rows
  sizes : ∀ row ∈ filter.nativeHook.rows, row.eventType = .allocEvent → 0 ≤ row.memSize
  allocRows : ∀ addr number, filter.addrToAllocEventRow addr = some number →
    ∃ row, filter.nativeHook.rows[number]? = some row ∧
      row.isUnclosed .allocEvent = true ∧ row.addr = addr
  mmapRows : ∀ addr number, filter.addrToMmapEventRow addr = some number →
    ∃ row, filter.nativeHook.rows[number]? = some row ∧ row.eventType = .mmapEvent

/-- A balanced filter whose last row carries the heap counter. -/
structure Accounts (filter : NativeHookFilter) : Prop
    extends filter.Balanced where
  recorded : ∀ row, filter.nativeHook.rows.getLast? = some row →
    row.isHeapRow = true → row.allMemSize = filter.nativeHook.countHeapSizes

theorem accounts_initial : initial.Accounts where
  total := rfl
  sizes := by simp [initial]
  recorded := by simp [initial]
  allocRows := by simp [initial]
  mmapRows := by simp [initial]

/-! ### Changes the accounting does not see -/

theorem account_modify {change : NativeHookRow → NativeHookRow}
    (keeps : ∀ row, (change row).account = row.account) (rows : List NativeHookRow) (number : Nat) :
    (rows.modify number change).map NativeHookRow.account = rows.map NativeHookRow.account := by
  have sameAccount : NativeHookRow.account ∘ change = NativeHookRow.account := funext keeps
  ext1 position
  by_cases here : number = position
  · subst here
    simp [sameAccount]
  · simp [here]

theorem unclosedSize_congr (opening : NativeHookEventType)
    {rows changed : List NativeHookRow} (sameRows :
      changed.map NativeHookRow.account = rows.map NativeHookRow.account) :
    unclosedSize opening changed = unclosedSize opening rows := by
  let read (account : NativeHookEventType × UInt64 × UInt64 × Int × Int) : Int :=
    if account.1 == opening && account.2.1 == 0 then account.2.2.2.1 else 0
  have asRead : ∀ rows : List NativeHookRow, unclosedSize opening rows =
    ((rows.map NativeHookRow.account).map read).sum := by
    intro rows
    rw [unclosedSize_eq_sum, map_map]
    rfl
  rw [asRead, asRead, sameRows]

variable {number : Nat}

theorem exists_row_of_account_eq {rows changed : List NativeHookRow} (sameRows :
    changed.map NativeHookRow.account = rows.map NativeHookRow.account)
    {row : NativeHookRow} (atNumber : rows[number]? = some row) :
    ∃ other, changed[number]? = some other ∧ other.account = row.account := by
  have samePlace := congrArg (fun accounts => accounts[number]?) sameRows
  simpa [getElem?_map, atNumber] using samePlace

variable {changed filter : NativeHookFilter}

theorem Accounts.of_account_eq (accounts : filter.Accounts) (sameRows :
    changed.nativeHook.rows.map NativeHookRow.account =
      filter.nativeHook.rows.map NativeHookRow.account) (sameCount :
    changed.nativeHook.countHeapSizes = filter.nativeHook.countHeapSizes)
    (sameAllocRows : changed.addrToAllocEventRow = filter.addrToAllocEventRow)
    (sameMmapRows : changed.addrToMmapEventRow = filter.addrToMmapEventRow) : changed.Accounts where
  total := by
    rw [sameCount, accounts.total, unclosedSize_congr .allocEvent sameRows]
  sizes := by
    intro row member isAlloc
    have sameAccount : row.account ∈ filter.nativeHook.rows.map NativeHookRow.account := by
      rw [← sameRows]
      exact mem_map_of_mem member
    rcases mem_map.1 sameAccount with ⟨other, ofFilter, same⟩
    simp only [NativeHookRow.account, Prod.mk.injEq] at same
    rw [← same.2.2.2.1]
    exact accounts.sizes other ofFilter (same.1.trans isAlloc)
  recorded := by
    intro row isLast isHeap
    have sameLast := congrArg getLast? sameRows
    rw [getLast?_map, getLast?_map, isLast] at sameLast
    cases last : filter.nativeHook.rows.getLast? with
    | none => simp [last] at sameLast
    | some other =>
      simp only [last, Option.map_some, Option.some.injEq,
        NativeHookRow.account, Prod.mk.injEq] at sameLast
      rw [sameLast.2.2.2.2, sameCount]
      refine accounts.recorded other last ?_
      simpa [NativeHookRow.isHeapRow, sameLast.1] using isHeap
  allocRows := by
    intro addr number mapped
    rw [sameAllocRows] at mapped
    rcases accounts.allocRows addr number mapped with
      ⟨row, atNumber, unclosed, sameAddr⟩
    rcases exists_row_of_account_eq sameRows atNumber with
      ⟨other, otherAt, same⟩
    simp only [NativeHookRow.account, Prod.mk.injEq] at same
    refine ⟨other, otherAt, ?_, same.2.2.1.trans sameAddr⟩
    simpa [NativeHookRow.isUnclosed, same.1, same.2.1] using unclosed
  mmapRows := by
    intro addr number mapped
    rw [sameMmapRows] at mapped
    rcases accounts.mmapRows addr number mapped with ⟨row, atNumber, isMmap⟩
    rcases exists_row_of_account_eq sameRows atNumber with
      ⟨other, otherAt, same⟩
    simp only [NativeHookRow.account, Prod.mk.injEq] at same
    exact ⟨other, otherAt, same.1.trans isMmap⟩

theorem account_updateCurrentSizeDur (table : NativeHook) (row : Nat) (timeStamp : UInt64) :
    (table.updateCurrentSizeDur row timeStamp).rows.map NativeHookRow.account =
      table.rows.map NativeHookRow.account := by
  unfold NativeHook.updateCurrentSizeDur
  exact account_modify (fun _ => by rfl) table.rows row

theorem account_updateMemMapSubTypes (table : NativeHook) (rows : List Nat) (tag : UInt64) :
    (rows.foldl (fun table row => table.updateMemMapSubType row tag)
      table).rows.map NativeHookRow.account = table.rows.map NativeHookRow.account ∧
      (rows.foldl (fun table row => table.updateMemMapSubType row tag)
        table).countHeapSizes = table.countHeapSizes := by
  induction rows generalizing table with
  | nil => exact ⟨rfl, rfl⟩
  | cons row rest induction =>
    have oneRow : (table.updateMemMapSubType row tag).rows.map NativeHookRow.account =
      table.rows.map NativeHookRow.account := by
      unfold NativeHook.updateMemMapSubType
      exact account_modify (fun _ => by rfl) table.rows row
    rcases induction (table.updateMemMapSubType row tag) with
      ⟨sameRows, sameCount⟩
    exact ⟨sameRows.trans oneRow, sameCount⟩

theorem Accounts.maybeUpdateCurrentSizeDur (accounts : filter.Accounts)
    (row : Nat) (timeStamp : UInt64) (isMalloc : Bool) :
    (filter.maybeUpdateCurrentSizeDur row timeStamp isMalloc).Accounts := by
  unfold NativeHookFilter.maybeUpdateCurrentSizeDur
  cases isMalloc with
  | true =>
    cases last : filter.lastMallocEventRaw with
    | none => exact accounts.of_account_eq rfl rfl rfl rfl
    | some lastRow =>
      exact accounts.of_account_eq (account_updateCurrentSizeDur _ lastRow timeStamp) rfl rfl rfl
  | false =>
    cases last : filter.lastMmapEventRaw with
    | none => exact accounts.of_account_eq rfl rfl rfl rfl
    | some lastRow =>
      exact accounts.of_account_eq (account_updateCurrentSizeDur _ lastRow timeStamp) rfl rfl rfl

theorem Accounts.parseTagEvent (accounts : filter.Accounts)
    (addr : UInt64) (size : UInt32) (tag : UInt64) :
    (filter.parseTagEvent addr size tag).Accounts := by
  unfold NativeHookFilter.parseTagEvent
  cases filter.anonMmapData (addr, size) with
  | none => exact accounts
  | some rows =>
    rcases account_updateMemMapSubTypes filter.nativeHook rows tag with
      ⟨sameRows, sameCount⟩
    exact accounts.of_account_eq sameRows sameCount rfl rfl

/-! ### Rows appended and rows closed -/

theorem Balanced.append (balanced : filter.Balanced) (row : NativeHookRow)
    (appended : changed.nativeHook.rows = filter.nativeHook.rows ++ [row])
    (counted : changed.nativeHook.countHeapSizes =
      filter.nativeHook.countHeapSizes + row.unclosedSizeOf .allocEvent)
    (size : row.eventType = .allocEvent → 0 ≤ row.memSize) (recorded : row.isHeapRow = true →
      row.allMemSize = changed.nativeHook.countHeapSizes) (allocRows :
      ∀ addr number, changed.addrToAllocEventRow addr = some number →
        filter.addrToAllocEventRow addr = some number ∨ number = filter.nativeHook.rows.length ∧
          row.isUnclosed .allocEvent = true ∧ row.addr = addr) (mmapRows :
      ∀ addr number, changed.addrToMmapEventRow addr = some number →
        filter.addrToMmapEventRow addr = some number ∨
          number = filter.nativeHook.rows.length ∧ row.eventType = .mmapEvent) :
    changed.Accounts where
  total := by rw [counted, appended, unclosedSize_concat, balanced.total]
  sizes := by
    intro other member isAlloc
    rw [appended, mem_append, mem_singleton] at member
    rcases member with before | rfl
    · exact balanced.sizes other before isAlloc
    · exact size isAlloc
  recorded := by
    intro other isLast isHeap
    rw [appended, getLast?_concat, Option.some.injEq] at isLast
    subst isLast
    exact recorded isHeap
  allocRows := by
    intro addr number mapped
    rw [appended]
    rcases allocRows addr number mapped with before | ⟨rfl, ofRow⟩
    · rcases balanced.allocRows addr number before with
        ⟨other, atNumber, ofOther⟩
      refine ⟨other, ?_, ofOther⟩
      rw [List.getElem?_append_left (List.getElem?_eq_some_iff.1 atNumber).1]
      exact atNumber
    · exact ⟨row, by simp, ofRow⟩
  mmapRows := by
    intro addr number mapped
    rw [appended]
    rcases mmapRows addr number mapped with before | ⟨rfl, ofRow⟩
    · rcases balanced.mmapRows addr number before with
        ⟨other, atNumber, ofOther⟩
      refine ⟨other, ?_, ofOther⟩
      rw [List.getElem?_append_left (List.getElem?_eq_some_iff.1 atNumber).1]
      exact atNumber
    · exact ⟨row, by simp, ofRow⟩

variable {map : StdMap UInt64 Nat}

theorem insertRow_eq_some {addr other : UInt64} {row : Nat}
    (mapped : insertRow map addr row other = some number) :
    map other = some number ∨ number = row ∧ other = addr := by
  unfold insertRow at mapped
  cases present : map addr with
  | some _ =>
    simp only [present] at mapped
    exact .inl mapped
  | none =>
    simp only [present] at mapped
    by_cases same : other = addr
    · rw [same, Function.update_self, Option.some.injEq] at mapped
      exact .inr ⟨mapped.symm, same⟩
    · rw [Function.update_of_ne same] at mapped
      exact .inl mapped

theorem Accounts.parseAllocEvent (accounts : filter.Accounts)
    (timeStamp addr : UInt64) (size : UInt32) :
    (filter.parseAllocEvent timeStamp addr size).Accounts := by
  let row := filter.nativeHook.rows.length
  let appended : NativeHookFilter :=
    { filter with
      nativeHook :=
        filter.nativeHook.appendNewNativeHookData .allocEvent none timeStamp 0 0
          addr size.toNat
      addrToAllocEventRow := insertRow filter.addrToAllocEventRow addr row }
  have afterAppend : appended.Accounts := by
    refine accounts.toBalanced.append ⟨.allocEvent, none, timeStamp, 0, 0, addr, size.toNat,
      filter.nativeHook.countHeapSizes + size.toNat, 0⟩
      rfl rfl (fun _ => Int.natCast_nonneg _) (fun _ => rfl) ?_
      (fun _ _ mapped => .inl mapped)
    intro other number mapped
    rcases insertRow_eq_some mapped with before | ⟨isNew, sameAddr⟩
    · exact .inl before
    · exact .inr ⟨isNew, rfl, sameAddr.symm⟩
  unfold NativeHookFilter.parseAllocEvent
  split
  · exact afterAppend.maybeUpdateCurrentSizeDur row timeStamp true
  · exact afterAppend

/--
Closing a row, with what it added to the open allocations taken off the
counter.  No address may stay mapped to it as an allocation.
-/
theorem Balanced.closeRow (balanced : filter.Balanced) {timeStamp : UInt64} {row : NativeHookRow}
    (atNumber : filter.nativeHook.rows[number]? = some row)
    (later : timeStamp > row.timeStamp) (closed : changed.nativeHook.rows =
      (filter.nativeHook.updateEndTimeStampAndDuration number timeStamp).rows) (counted :
      changed.nativeHook.countHeapSizes =
        filter.nativeHook.countHeapSizes - row.unclosedSizeOf .allocEvent) (allocRows :
      ∀ addr other, changed.addrToAllocEventRow addr = some other →
        filter.addrToAllocEventRow addr = some other ∧ other ≠ number)
    (mmapRows : ∀ addr other, changed.addrToMmapEventRow addr = some other →
      filter.addrToMmapEventRow addr = some other) : changed.Balanced := by
  have hasEnd : timeStamp ≠ 0 := by
    intro isZero
    rw [isZero] at later
    exact UInt64.not_lt_zero later
  unfold NativeHook.updateEndTimeStampAndDuration at closed
  refine ⟨?_, ?_, ?_, ?_⟩
  · rw [counted, closed, unclosedSize_modify .allocEvent atNumber, balanced.total]
    simp [NativeHookRow.unclosedSizeOf, NativeHookRow.isUnclosed, hasEnd]
  · intro other member isAlloc
    rw [closed] at member
    rcases mem_iff_getElem?.1 member with ⟨position, atPosition⟩
    rw [getElem?_modify] at atPosition
    rcases Option.map_eq_some_iff.1 atPosition with
      ⟨before, atBefore, changes⟩
    have ofTable := balanced.sizes before (mem_of_getElem? atBefore)
    subst changes
    by_cases here : number = position
    · simp only [here, if_true] at isAlloc ⊢
      exact ofTable isAlloc
    · simp only [here, if_false] at isAlloc ⊢
      exact ofTable isAlloc
  · intro addr other mapped
    rcases allocRows addr other mapped with ⟨before, elsewhere⟩
    rcases balanced.allocRows addr other before with
      ⟨entry, atOther, ofEntry⟩
    refine ⟨entry, ?_, ofEntry⟩
    simpa [closed, Ne.symm elsewhere] using atOther
  · intro addr other mapped
    rcases balanced.mmapRows addr other (mmapRows addr other mapped) with
      ⟨entry, atOther, isMmap⟩
    rw [closed, getElem?_modify, atOther]
    by_cases here : number = other
    · simpa [here] using isMmap
    · simpa [here] using isMmap

theorem update_none_eq_some {addr other : UInt64}
    (mapped : Function.update map addr none other = some number) :
    other ≠ addr ∧ map other = some number := by
  by_cases same : other = addr
  · simp [same] at mapped
  · rw [Function.update_of_ne same] at mapped
    exact ⟨same, mapped⟩

theorem Accounts.parseFreeEvent (accounts : filter.Accounts) (timeStamp addr : UInt64) :
    (filter.parseFreeEvent timeStamp addr).Accounts := by
  unfold NativeHookFilter.parseFreeEvent
  cases mapped : filter.addrToAllocEventRow addr with
  | none => exact accounts
  | some number =>
    rcases accounts.allocRows addr number mapped with
      ⟨row, atNumber, unclosed, sameAddr⟩
    simp only [atNumber]
    split
    case isFalse => exact accounts
    case isTrue later =>
      have ofRow : row.unclosedSizeOf .allocEvent = row.memSize := by
        simp [NativeHookRow.unclosedSizeOf, unclosed]
      let table := filter.nativeHook.updateEndTimeStampAndDuration number timeStamp
      let closed : NativeHookFilter :=
        { filter with
          nativeHook :=
            { table with
              countHeapSizes := table.countHeapSizes - row.memSize }
          addrToAllocEventRow := Function.update filter.addrToAllocEventRow addr none }
      have afterClosing : closed.Balanced := by
        refine accounts.toBalanced.closeRow atNumber later rfl
          (by rw [ofRow]; rfl) ?_ (fun _ _ same => same)
        intro otherAddr other stillMapped
        rcases update_none_eq_some stillMapped with ⟨otherwise, before⟩
        refine ⟨before, ?_⟩
        rintro rfl
        rcases accounts.allocRows otherAddr other before with
          ⟨entry, atOther, _, entryAddr⟩
        rw [atNumber, Option.some.injEq] at atOther
        subst atOther
        exact otherwise (entryAddr.symm.trans sameAddr)
      have afterAppend : ({ closed with
        nativeHook :=
          table.appendNewNativeHookData .freeEvent none timeStamp 0 0
            addr row.memSize } : NativeHookFilter).Accounts := by
        refine afterClosing.append ⟨.freeEvent, none, timeStamp, 0, 0, addr, row.memSize,
          table.countHeapSizes - row.memSize, 0⟩
          rfl ?_ nofun (fun _ => rfl) (fun _ _ same => .inl same)
          (fun _ _ same => .inl same)
        exact (add_zero _).symm
      split
      · exact afterAppend.maybeUpdateCurrentSizeDur _ timeStamp true
      · exact afterAppend

theorem Accounts.parseMmapEvent (accounts : filter.Accounts)
    (timeStamp addr : UInt64) (size : UInt32) (type : Option UInt64) :
    (filter.parseMmapEvent timeStamp addr size type).Accounts := by
  let row := filter.nativeHook.rows.length
  let appended : NativeHookFilter :=
    { filter with
      nativeHook :=
        filter.nativeHook.appendNewNativeHookData .mmapEvent type timeStamp 0 0
          addr size.toNat
      addrToMmapEventRow := insertRow filter.addrToMmapEventRow addr row }
  have afterAppend : appended.Accounts := by
    refine accounts.toBalanced.append ⟨.mmapEvent, type, timeStamp, 0, 0, addr, size.toNat,
      filter.nativeHook.countMmapSizes + size.toNat, 0⟩
      rfl (add_zero _).symm nofun nofun (fun _ _ same => .inl same) ?_
    intro other number mapped
    rcases insertRow_eq_some mapped with before | ⟨isNew, _⟩
    · exact .inl before
    · exact .inr ⟨isNew, rfl⟩
  unfold NativeHookFilter.parseMmapEvent
  dsimp only
  cases type with
  | none =>
    split
    · refine Accounts.maybeUpdateCurrentSizeDur ?_ row timeStamp false
      exact afterAppend.of_account_eq rfl rfl rfl rfl
    · exact afterAppend.of_account_eq rfl rfl rfl rfl
  | some subType =>
    split
    · refine Accounts.maybeUpdateCurrentSizeDur ?_ row timeStamp false
      exact afterAppend.of_account_eq rfl rfl rfl rfl
    · exact afterAppend.of_account_eq rfl rfl rfl rfl

theorem Accounts.parseMunmapEvent (accounts : filter.Accounts)
    (timeStamp addr : UInt64) (size : UInt32) :
    (filter.parseMunmapEvent timeStamp addr size).Accounts := by
  unfold NativeHookFilter.parseMunmapEvent
  cases mapped : filter.addrToMmapEventRow addr with
  | none => exact accounts
  | some number =>
    rcases accounts.mmapRows addr number mapped with ⟨row, atNumber, isMmap⟩
    simp only [atNumber]
    split
    case isFalse => exact accounts
    case isTrue later =>
      have ofRow : row.unclosedSizeOf .allocEvent = 0 := by
        simp [NativeHookRow.unclosedSizeOf, NativeHookRow.isUnclosed, isMmap]
      let table := filter.nativeHook.updateEndTimeStampAndDuration number timeStamp
      let subType := filter.addrToMmapTag addr
      let closed : NativeHookFilter :=
        { filter with
          nativeHook := table
          addrToMmapEventRow := Function.update filter.addrToMmapEventRow addr none
          addrToMmapTag := Function.update filter.addrToMmapTag addr none }
      have afterClosing : closed.Balanced := by
        refine accounts.toBalanced.closeRow atNumber later rfl (by rw [ofRow, sub_zero]; rfl) ?_
          (fun _ _ stillMapped => (update_none_eq_some stillMapped).2)
        intro otherAddr other before
        refine ⟨before, ?_⟩
        rintro rfl
        rcases accounts.allocRows otherAddr other before with
          ⟨entry, atOther, unclosed, _⟩
        rw [atNumber, Option.some.injEq] at atOther
        subst atOther
        simp [NativeHookRow.isUnclosed, isMmap] at unclosed
      have afterAppend : ({ closed with
        nativeHook :=
          table.appendNewNativeHookData .munmapEvent subType timeStamp 0
            0 addr size.toNat } : NativeHookFilter).Accounts :=
        afterClosing.append ⟨.munmapEvent, subType, timeStamp, 0, 0, addr, size.toNat,
          table.countMmapSizes - size.toNat, 0⟩
          rfl (add_zero _).symm nofun nofun (fun _ _ same => .inl same)
          (fun _ _ same => .inl same)
      split
      · exact afterAppend.maybeUpdateCurrentSizeDur _ timeStamp false
      · exact afterAppend

theorem accounts_parseMainEvent
    (filter : NativeHookFilter) (mainEvent : UInt64 × NativeHookMainEvent)
    (accounts : filter.Accounts) : (filter.parseMainEvent mainEvent).Accounts := by
  rcases mainEvent with ⟨timeStamp, mainEvent⟩
  cases mainEvent with
  | allocEvent addr size => exact accounts.parseAllocEvent timeStamp addr size
  | freeEvent addr => exact accounts.parseFreeEvent timeStamp addr
  | mmapEvent addr size type => exact accounts.parseMmapEvent timeStamp addr size type
  | munmapEvent addr size => exact accounts.parseMunmapEvent timeStamp addr size
  | tagEvent addr size tag => exact accounts.parseTagEvent addr size tag

/-- What feeds the filter: an event arrives, or pending events are processed. -/
inductive NativeHookCall where
  | insert (timeStamp : UInt64) (mainEvent : NativeHookMainEvent)
  | filter (num : Nat)

def call (filter : NativeHookFilter) : NativeHookCall → NativeHookFilter
  | .insert timeStamp mainEvent => filter.insertMainEvent (timeStamp, mainEvent)
  | .filter num => filter.filterNativeHookMainEvent num

theorem accounts_call (filter : NativeHookFilter) (next : NativeHookCall)
    (accounts : filter.Accounts) : (filter.call next).Accounts := by
  cases next with
  | insert timeStamp mainEvent => exact accounts.of_account_eq rfl rfl rfl rfl
  | filter num =>
    have processed : (run NativeHookFilter.parseMainEvent filter
      (filter.tsToMainEvents.take num)).Accounts :=
      run_invariant_of_preserves accounts_parseMainEvent (filter.tsToMainEvents.take num) accounts
    exact processed.of_account_eq rfl rfl rfl rfl

/--
After every call the last row, when it is one of the heap, carries the size of
the allocations that are still open, which is not negative, and every address in
the map leads to an open allocation of that address.
-/
theorem heapAccounting (calls : List NativeHookCall) :
    let filter := run call initial calls
    let rows := filter.nativeHook.rows
    (∀ row, rows.getLast? = some row → row.isHeapRow = true →
      row.allMemSize = unclosedSize .allocEvent rows ∧ 0 ≤ row.allMemSize) ∧
      ∀ addr number, filter.addrToAllocEventRow addr = some number →
        ∃ row, rows[number]? = some row ∧ row.isUnclosed .allocEvent = true ∧ row.addr = addr := by
  intro filter rows
  have accounts : (run call initial calls).Accounts :=
    run_invariant_of_preserves accounts_call calls accounts_initial
  refine ⟨?_, accounts.allocRows⟩
  intro row isLast isHeap
  have carries : row.allMemSize = unclosedSize .allocEvent rows :=
    (accounts.recorded row isLast isHeap).trans accounts.total
  exact ⟨carries, carries ▸ unclosedSize_nonneg accounts.sizes⟩

end NativeHookFilter

end SysAnalyzer.Filter
