import SysAnalyzer.Filter.NativeHookLedger
import SysAnalyzer.Foundation.KeyedRows

/-!
# Which allocation a release closes

Several allocations of one address may be open at once, when a release between
them was lost.  The address map is filled with `insert`, so it keeps leading to
the first of them, and a release closes that one, provided it is strictly older.
As long as releases have closed the latest open allocation of their address,
the map leads to the first open one (`FirstOpen`); so a release closes the
latest open allocation exactly when that is the only one and strictly older.
-/

namespace SysAnalyzer.Filter

open Foundation Function List
open Base

def NativeHookRow.isOpenAt (addr : UInt64) (row : NativeHookRow) : Bool :=
  row.isUnclosed .allocEvent && row.addr == addr

def openAllocations (rows : List NativeHookRow) (addr : UInt64) : List Nat :=
  keptNumbers (NativeHookRow.isOpenAt addr) rows

variable {row : NativeHookRow}

theorem isOpenAt_eq_true {addr : UInt64} : row.isOpenAt addr = true ↔
    row.eventType = .allocEvent ∧ row.endTimeStamp = 0 ∧ row.addr = addr := by
  simp [NativeHookRow.isOpenAt, NativeHookRow.isUnclosed, and_assoc]

theorem isOpenAt_settled (addr : UInt64) (row : NativeHookRow) :
    row.settled.isOpenAt addr = row.isOpenAt addr :=
  rfl

theorem openAllocations_concat (rows : List NativeHookRow) (row : NativeHookRow) (addr : UInt64) :
    openAllocations (rows ++ [row]) addr =
      if row.isOpenAt addr then openAllocations rows addr ++ [rows.length]
      else openAllocations rows addr :=
  keptNumbers_concat row

theorem openAllocations_concat_of_other (rows : List NativeHookRow) (addr : UInt64)
    (other : row.eventType ≠ .allocEvent) :
    openAllocations (rows ++ [row]) addr = openAllocations rows addr := by
  rw [openAllocations_concat, if_neg]
  intro isOpen
  exact other (isOpenAt_eq_true.1 isOpen).1

theorem openAllocations_close
    (table : NativeHook) (number : Nat) {timeStamp : UInt64} (addr : UInt64)
    (hasEnd : timeStamp ≠ 0) : openAllocations
      (table.updateEndTimeStampAndDuration number timeStamp).rows addr =
      (openAllocations table.rows addr).filter fun other =>
        decide (other ≠ number) := by
  refine keptNumbers_modify_drop ?_
  intro row _
  simp [NativeHookRow.isOpenAt, NativeHookRow.isUnclosed, hasEnd]

theorem openAllocations_close_of_other {table : NativeHook} {number : Nat} {timeStamp addr : UInt64}
    (hasEnd : timeStamp ≠ 0) (atNumber : table.rows[number]? = some row)
    (other : row.isOpenAt addr = false) : openAllocations
      (table.updateEndTimeStampAndDuration number timeStamp).rows addr =
      openAllocations table.rows addr := by
  refine keptNumbers_modify_of_not_kept ?_ ?_
  · intro entry atEntry
    rw [atNumber, Option.some.injEq] at atEntry
    rwa [← atEntry]
  · intro entry _
    simp [NativeHookRow.isOpenAt, NativeHookRow.isUnclosed, hasEnd]

namespace NativeHookFilter

theorem openAllocations_closed (filter : NativeHookFilter) {closing : NativeHookEventType}
    (number : Nat) (timeStamp addr : UInt64) (size : Int) (other : UInt64)
    (noAlloc : closing ≠ .allocEvent) :
    openAllocations (filter.closed closing number timeStamp addr size).rows other = openAllocations
      (filter.nativeHook.updateEndTimeStampAndDuration number timeStamp).rows other := by
  cases closing with
  | allocEvent => exact absurd rfl noAlloc
  | freeEvent => exact openAllocations_concat_of_other _ other (by simp)
  | mmapEvent => exact openAllocations_concat_of_other _ other (by simp)
  | munmapEvent => exact openAllocations_concat_of_other _ other (by simp)

variable {filter : NativeHookFilter}

variable {other : NativeHookFilter}

theorem SameLedger.openAllocations (same : SameLedger filter other) (addr : UInt64) :
    openAllocations filter.nativeHook.rows addr = openAllocations other.nativeHook.rows addr := by
  refine keptNumbers_congr ?_
  have sameOpen := congrArg (fun rows => rows.map (NativeHookRow.isOpenAt addr)) same.rows
  simpa only [map_map, comp_def, isOpenAt_settled] using sameOpen

def FirstOpen (filter : NativeHookFilter) : Prop :=
  ∀ addr, filter.addrToAllocEventRow addr =
    (Filter.openAllocations filter.nativeHook.rows addr).head?

theorem firstOpen_initial : initial.FirstOpen := fun _ => rfl

theorem FirstOpen.of_sameLedger (firstOpen : other.FirstOpen) (same : SameLedger filter other) :
    filter.FirstOpen := by
  intro addr
  rw [same.allocRows, same.openAllocations, firstOpen addr]

/--
A release of an address with an open allocation closes the latest one, takes
its size off the heap and leaves a row of its own; the other open allocations
stay open.
-/
def ClosesLatest (filter : NativeHookFilter) (mainEvent : UInt64 × NativeHookMainEvent) : Prop :=
  match mainEvent with
  | (timeStamp, .freeEvent addr) =>
    let table := filter.nativeHook
    let next := (filter.parseFreeEvent timeStamp addr).nativeHook
    ∀ number row, (openAllocations table.rows addr).getLast? = some number →
      table.rows[number]? = some row → (∃ closedRow, next.rows[number]? = some closedRow ∧
        closedRow.endTimeStamp = timeStamp ∧
        closedRow.duration = timeStamp - row.timeStamp) ∧
        next.countHeapSizes = table.countHeapSizes - row.memSize ∧
        openAllocations next.rows addr =
          (openAllocations table.rows addr).dropLast ∧
        next.rows.length = table.rows.length + 1 ∧
        ∃ freeRow, next.rows[table.rows.length]? = some freeRow ∧
          freeRow.eventType = .freeEvent ∧
          freeRow.timeStamp = timeStamp ∧
          freeRow.addr = addr ∧
          freeRow.memSize = row.memSize
  | _ => True

/--
At a release of an address with open allocations there is one of them only, and
it is strictly older than the release.
-/
def ReleasesOnly (filter : NativeHookFilter) (mainEvent : UInt64 × NativeHookMainEvent) : Prop :=
  match mainEvent with
  | (timeStamp, .freeEvent addr) =>
    openAllocations filter.nativeHook.rows addr = [] ∨
      ∃ number row, openAllocations filter.nativeHook.rows addr = [number] ∧
        filter.nativeHook.rows[number]? = some row ∧ row.timeStamp < timeStamp
  | _ => True

variable {timeStamp : UInt64}

theorem hasEnd_of_later {earlier : UInt64} (later : timeStamp > earlier) : timeStamp ≠ 0 := by
  rintro rfl
  exact UInt64.not_lt_zero later

theorem closesLatest_of_only {addr : UInt64} {number : Nat} {row : NativeHookRow} (closes :
    filter.closedBy filter.addrToAllocEventRow timeStamp addr = some (number, row))
    (only : openAllocations filter.nativeHook.rows addr = [number]) :
    filter.ClosesLatest (timeStamp, .freeEvent addr) := by
  rcases closedBy_eq_some.1 closes with ⟨_, atNumber, later⟩
  have same := sameLedger_parseFreeEvent closes
  have hasEnd := hasEnd_of_later later
  intro last entry isLast atLast
  rw [only, getLast?_singleton, Option.some.injEq] at isLast
  subst isLast
  rw [atNumber, Option.some.injEq] at atLast
  subst atLast
  refine ⟨?_, ?_, ?_, ?_, ?_⟩
  · have atClosed :=
      getElem?_closed filter .freeEvent number timeStamp addr row.memSize atNumber
    rw [if_pos rfl] at atClosed
    rcases same.exists_row atClosed with ⟨found, atFound, settled⟩
    exact ⟨found, atFound, congrArg NativeHookRow.endTimeStamp settled,
      congrArg NativeHookRow.duration settled⟩
  · rw [same.countHeapSizes]
    rfl
  · rw [same.openAllocations, only]
    dsimp only
    rw [openAllocations_closed filter number timeStamp addr row.memSize addr (by decide),
      openAllocations_close filter.nativeHook number addr hasEnd, only]
    simp
  · rw [same.length]
    exact length_closed filter .freeEvent number timeStamp addr row.memSize
  · let freeRow : NativeHookRow :=
      ⟨.freeEvent, none, timeStamp, 0, 0, addr, row.memSize,
        filter.nativeHook.countHeapSizes - row.memSize, 0⟩
    have atEnd : (filter.closed .freeEvent number timeStamp addr
      row.memSize).rows[filter.nativeHook.rows.length]? = some freeRow := by
      simp [NativeHookFilter.closed, NativeHook.appendNewNativeHookData,
        NativeHook.updateEndTimeStampAndDuration, freeRow]
    rcases same.exists_row atEnd with ⟨found, atFound, settled⟩
    have sameType := congrArg NativeHookRow.eventType settled
    have sameTime := congrArg NativeHookRow.timeStamp settled
    have sameAddr := congrArg NativeHookRow.addr settled
    have sameSize := congrArg NativeHookRow.memSize settled
    exact ⟨found, atFound, sameType, sameTime, sameAddr, sameSize⟩

section

variable (firstOpen : filter.FirstOpen)
include firstOpen

theorem only_of_closesLatest {addr : UInt64} {number : Nat} {row : NativeHookRow}
    (closesLatest : filter.ClosesLatest (timeStamp, .freeEvent addr)) (isLast :
      (openAllocations filter.nativeHook.rows addr).getLast? = some number)
    (atNumber : filter.nativeHook.rows[number]? = some row) :
    openAllocations filter.nativeHook.rows addr = [number] ∧ row.timeStamp < timeStamp := by
  rcases closesLatest number row isLast atNumber with
    ⟨⟨closedRow, atClosed, ends, _⟩, _, _, appended, _⟩
  cases closes : filter.closedBy filter.addrToAllocEventRow timeStamp addr with
  | none =>
    rw [parseFreeEvent_of_closedBy_none closes] at appended
    omega
  | some closed =>
    rcases closed with ⟨first, firstRow⟩
    rcases closedBy_eq_some.1 closes with ⟨mapped, atFirst, later⟩
    have same := sameLedger_parseFreeEvent closes
    have isOpen : row.isOpenAt addr = true := by
      rcases mem_keptNumbers.1 (mem_of_getLast? isLast) with
        ⟨entry, atEntry, kept⟩
      rw [atNumber, Option.some.injEq] at atEntry
      rwa [atEntry]
    -- a row that is not the mapped one is still open afterwards
    have isFirst : number = first := by
      by_contra other
      have stays := getElem?_closed filter .freeEvent first timeStamp addr firstRow.memSize atNumber
      rw [if_neg (Ne.symm other)] at stays
      rcases same.exists_row stays with ⟨found, atFound, settled⟩
      rw [atClosed, Option.some.injEq] at atFound
      subst atFound
      have sameEnd := congrArg NativeHookRow.endTimeStamp settled
      simp only [NativeHookRow.settled, ends, (isOpenAt_eq_true.1 isOpen).2.1] at sameEnd
      exact hasEnd_of_later later sameEnd
    subst isFirst
    rw [atNumber, Option.some.injEq] at atFirst
    subst atFirst
    refine ⟨?_, later⟩
    have increasing := keptNumbers_pairwise (NativeHookRow.isOpenAt addr) filter.nativeHook.rows
    change (openAllocations filter.nativeHook.rows addr).Pairwise _
      at increasing
    rw [firstOpen addr] at mapped
    cases numbers : openAllocations filter.nativeHook.rows addr with
    | nil => simp [numbers] at mapped
    | cons head rest =>
      rw [numbers, head?_cons, Option.some.injEq] at mapped
      subst mapped
      cases rest with
      | nil => rfl
      | cons second rest =>
        rw [numbers, getLast?_cons_cons] at isLast
        rw [numbers, pairwise_cons] at increasing
        have after := increasing.1 head (mem_of_getLast? isLast)
        omega

theorem FirstOpen.parseAllocEvent (timeStamp addr : UInt64) (size : UInt32) :
    (filter.parseAllocEvent timeStamp addr size).FirstOpen := by
  refine FirstOpen.of_sameLedger ?_ (sameLedger_parseAllocEvent filter timeStamp addr size)
  intro other
  have before := firstOpen other
  have rows : openAllocations (filter.opened .allocEvent timeStamp addr size).rows other =
    if addr = other then
      openAllocations filter.nativeHook.rows other ++
        [filter.nativeHook.rows.length]
    else openAllocations filter.nativeHook.rows other := by
    refine (openAllocations_concat _ _ other).trans ?_
    simp [NativeHookRow.isOpenAt, NativeHookRow.isUnclosed]
  dsimp only
  rw [rows]
  unfold insertRow
  by_cases same : addr = other
  · subst same
    rw [if_pos rfl]
    cases numbers : openAllocations filter.nativeHook.rows addr with
    | nil =>
      rw [numbers, head?_nil] at before
      simp [before]
    | cons head rest =>
      rw [numbers, head?_cons] at before
      simp [before]
  · rw [if_neg same, ← before]
    cases filter.addrToAllocEventRow addr with
    | some _ => rfl
    | none => simp [update_of_ne (Ne.symm same)]

theorem FirstOpen.parseFreeEvent {addr : UInt64}
    (only : filter.ReleasesOnly (timeStamp, .freeEvent addr)) :
    (filter.parseFreeEvent timeStamp addr).FirstOpen := by
  cases closes : filter.closedBy filter.addrToAllocEventRow timeStamp addr with
  | none => rwa [parseFreeEvent_of_closedBy_none closes]
  | some closed =>
    rcases closed with ⟨number, row⟩
    rcases closedBy_eq_some.1 closes with ⟨mapped, atNumber, later⟩
    have hasEnd := hasEnd_of_later later
    refine FirstOpen.of_sameLedger ?_ (sameLedger_parseFreeEvent closes)
    intro other
    dsimp only
    rw [openAllocations_closed filter number timeStamp addr row.memSize other (by decide)]
    have ofAddr := firstOpen addr
    rw [mapped] at ofAddr
    by_cases same : other = addr
    · subst same
      rw [openAllocations_close filter.nativeHook number other hasEnd, update_self]
      rcases only with nothing | ⟨first, entry, single, _, _⟩
      · rw [nothing] at ofAddr
        exact absurd ofAddr nofun
      · rw [single, head?_cons, Option.some.injEq] at ofAddr
        subst ofAddr
        simp [single]
    · rw [update_of_ne same, firstOpen other, openAllocations_close_of_other hasEnd atNumber]
      have isOpen : row.isOpenAt addr = true := by
        rcases mem_keptNumbers.1 (mem_of_head? ofAddr.symm) with
          ⟨entry, atEntry, kept⟩
        rw [atNumber, Option.some.injEq] at atEntry
        rwa [atEntry]
      rw [Bool.eq_false_iff]
      intro ofOther
      exact same ((isOpenAt_eq_true.1 ofOther).2.2.symm.trans (isOpenAt_eq_true.1 isOpen).2.2)

theorem FirstOpen.parseMmapEvent (timeStamp addr : UInt64) (size : UInt32) (type : Option UInt64) :
    (filter.parseMmapEvent timeStamp addr size type).FirstOpen := by
  refine FirstOpen.of_sameLedger ?_ (sameLedger_parseMmapEvent filter timeStamp addr size type)
  intro other
  have rows : openAllocations (filter.opened .mmapEvent timeStamp addr size).rows other =
    openAllocations filter.nativeHook.rows other :=
    openAllocations_concat_of_other _ other (by simp)
  dsimp only
  rw [rows]
  exact firstOpen other

theorem FirstOpen.parseMunmapEvent (balanced : filter.Balanced)
    (timeStamp addr : UInt64) (size : UInt32) :
    (filter.parseMunmapEvent timeStamp addr size).FirstOpen := by
  cases closes : filter.closedBy filter.addrToMmapEventRow timeStamp addr with
  | none => rwa [parseMunmapEvent_of_closedBy_none size closes]
  | some closed =>
    rcases closed with ⟨number, row⟩
    rcases closedBy_eq_some.1 closes with ⟨mapped, atNumber, later⟩
    have isMmap : row.eventType = .mmapEvent := by
      rcases balanced.mmapRows addr number mapped with
        ⟨entry, atEntry, ofEntry⟩
      rw [atNumber, Option.some.injEq] at atEntry
      rwa [atEntry]
    refine FirstOpen.of_sameLedger ?_ (sameLedger_parseMunmapEvent size closes)
    intro other
    have rows : openAllocations (filter.closed .munmapEvent number timeStamp addr
      size.toNat).rows other =
      openAllocations filter.nativeHook.rows other := by
      rw [openAllocations_closed filter number timeStamp addr _ other (by decide)]
      refine openAllocations_close_of_other (hasEnd_of_later later) atNumber ?_
      simp [NativeHookRow.isOpenAt, NativeHookRow.isUnclosed, isMmap]
    dsimp only
    rw [rows]
    exact firstOpen other

theorem FirstOpen.parseMainEvent (balanced : filter.Balanced)
    (mainEvent : UInt64 × NativeHookMainEvent) (only : filter.ReleasesOnly mainEvent) :
    (filter.parseMainEvent mainEvent).FirstOpen := by
  rcases mainEvent with ⟨timeStamp, mainEvent⟩
  cases mainEvent with
  | allocEvent addr size => exact firstOpen.parseAllocEvent timeStamp addr size
  | freeEvent addr => exact firstOpen.parseFreeEvent only
  | mmapEvent addr size type => exact firstOpen.parseMmapEvent timeStamp addr size type
  | munmapEvent addr size => exact firstOpen.parseMunmapEvent balanced timeStamp addr size
  | tagEvent addr size tag =>
    exact firstOpen.of_sameLedger (sameLedger_parseTagEvent filter addr size tag)

theorem closesLatest_iff_releasesOnly (mainEvent : UInt64 × NativeHookMainEvent) :
    filter.ClosesLatest mainEvent ↔ filter.ReleasesOnly mainEvent := by
  rcases mainEvent with ⟨timeStamp, mainEvent⟩
  cases mainEvent with
  | freeEvent addr =>
    constructor
    · intro closesLatest
      cases isLast : (openAllocations filter.nativeHook.rows addr).getLast? with
      | none => exact .inl (getLast?_eq_none_iff.1 isLast)
      | some number =>
        rcases mem_keptNumbers.1 (mem_of_getLast? isLast) with
          ⟨row, atNumber, _⟩
        rcases only_of_closesLatest firstOpen closesLatest isLast atNumber with ⟨only, later⟩
        exact .inr ⟨number, row, only, atNumber, later⟩
    · rintro (nothing | ⟨number, row, only, atNumber, later⟩)
      · intro number row isLast
        rw [nothing] at isLast
        exact absurd isLast nofun
      · have mapped : filter.addrToAllocEventRow addr = some number := by
          rw [firstOpen addr, only, head?_cons]
        exact closesLatest_of_only (closedBy_eq_some.2 ⟨mapped, atNumber, later⟩) only
  | allocEvent addr size => exact Iff.rfl
  | mmapEvent addr size type => exact Iff.rfl
  | munmapEvent addr size => exact Iff.rfl
  | tagEvent addr size tag => exact Iff.rfl

end

/--
Every release of a run closes the latest open allocation of its address,
exactly when every release of an address with open allocations finds one only,
which is strictly older.
-/
theorem eachStep_closesLatest_iff (mainEvents : List (UInt64 × NativeHookMainEvent)) :
    EachStep parseMainEvent ClosesLatest initial mainEvents ↔
      EachStep parseMainEvent ReleasesOnly initial mainEvents := by
  refine eachStep_congr (fun filter => filter.Accounts ∧ filter.FirstOpen) ?_ ?_
    ⟨accounts_initial, firstOpen_initial⟩
  · rintro filter mainEvent ⟨_, firstOpen⟩
    exact closesLatest_iff_releasesOnly firstOpen mainEvent
  · rintro filter mainEvent ⟨accounts, firstOpen⟩ only
    exact ⟨accounts_parseMainEvent filter mainEvent accounts,
      firstOpen.parseMainEvent accounts.toBalanced mainEvent only⟩

/-- The release of an address allocated twice closes the first allocation. -/
theorem not_closesLatest_reused : ¬ EachStep parseMainEvent ClosesLatest initial
    [(1, .allocEvent 16 8), (2, .allocEvent 16 4), (3, .freeEvent 16)] := by
  rintro ⟨_, _, closesLatest, _⟩
  rcases closesLatest 1 _ (by decide) rfl with
    ⟨⟨closedRow, atClosed, ends, _⟩, _⟩
  cases atClosed
  exact absurd ends (by decide)

end NativeHookFilter

end SysAnalyzer.Filter
