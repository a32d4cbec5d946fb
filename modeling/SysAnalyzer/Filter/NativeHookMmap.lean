import SysAnalyzer.Filter.NativeHookLedger

/-!
# Native mapping accounting

A mapping adds its size to the running total of the mappings.  An unmapping
closes the mapping its address leads to, whatever its size, but takes off the
total the size it carries itself.  The two sizes may differ, and the total then
drifts away from the open mappings by the difference; `mmapDrift` is the drift
of one event, and nothing else moves the total.
-/

namespace SysAnalyzer.Filter

open Foundation Option
open Base

namespace NativeHookFilter

/--
The mapping an event closes, with the size that is taken off the total in its
place.
-/
def closedMapping (filter : NativeHookFilter) (mainEvent : UInt64 × NativeHookMainEvent) :
    Option (NativeHookRow × UInt32) :=
  match mainEvent.2 with
  | .munmapEvent addr size =>
    (filter.closedBy filter.addrToMmapEventRow mainEvent.1 addr).map fun closed => (closed.2, size)
  | _ => none

/-- An unmapping that closes a mapping carries that mapping's size. -/
def UnmapsWhole (filter : NativeHookFilter) (mainEvent : UInt64 × NativeHookMainEvent) : Prop :=
  ∀ row size, filter.closedMapping mainEvent = some (row, size) → row.memSize = size.toNat

/-- What an event moves the total away from the open mappings. -/
def mmapDrift (filter : NativeHookFilter) (mainEvent : UInt64 × NativeHookMainEvent) : Int :=
  match filter.closedMapping mainEvent with
  | some (row, size) => row.memSize - size.toNat
  | none => 0

variable {filter : NativeHookFilter}

theorem mmapDrift_eq_zero {mainEvent : UInt64 × NativeHookMainEvent} :
    filter.mmapDrift mainEvent = 0 ↔ filter.UnmapsWhole mainEvent := by
  unfold mmapDrift UnmapsWhole
  cases filter.closedMapping mainEvent with
  | none => simp
  | some closed =>
    rcases closed with ⟨row, size⟩
    simp [sub_eq_zero]

/--
The total is `drift` above the size of the open mappings, and every address in
the map leads to an open mapping of that address.
-/
structure MmapTracked (filter : NativeHookFilter) (drift : Int) : Prop where
  total : filter.nativeHook.countMmapSizes = unclosedSize .mmapEvent filter.nativeHook.rows + drift
  mmapRows : ∀ addr number, filter.addrToMmapEventRow addr = some number →
    ∃ row, filter.nativeHook.rows[number]? = some row ∧
      row.isUnclosed .mmapEvent = true ∧ row.addr = addr

theorem mmapTracked_initial : initial.MmapTracked 0 where
  total := rfl
  mmapRows := by simp [initial]

variable {drift : Int}

theorem MmapTracked.of_sameLedger {other : NativeHookFilter}
    (tracked : other.MmapTracked drift) (same : SameLedger filter other) :
    filter.MmapTracked drift where
  total := by rw [same.countMmapSizes, tracked.total, unclosedSize_congr .mmapEvent same.account]
  mmapRows := by
    intro addr number mapped
    rw [same.mmapRows] at mapped
    rcases tracked.mmapRows addr number mapped with
      ⟨row, atNumber, unclosed, sameAddr⟩
    rcases same.exists_row atNumber with ⟨entry, atEntry, settled⟩
    refine ⟨entry, atEntry, ?_, ?_⟩
    · have sameType := congrArg NativeHookRow.eventType settled
      have sameEnd := congrArg NativeHookRow.endTimeStamp settled
      simp only [NativeHookRow.settled] at sameType sameEnd
      simpa [NativeHookRow.isUnclosed, sameType, sameEnd] using unclosed
    · exact (congrArg NativeHookRow.addr settled).trans sameAddr

section

variable (tracked : filter.MmapTracked drift)
include tracked

variable {changed : NativeHookFilter}

theorem MmapTracked.append {added : Int} (row : NativeHookRow)
    (appended : changed.nativeHook.rows = filter.nativeHook.rows ++ [row])
    (counted : changed.nativeHook.countMmapSizes =
      filter.nativeHook.countMmapSizes + row.unclosedSizeOf .mmapEvent + added) (mmapRows :
      ∀ addr number, changed.addrToMmapEventRow addr = some number →
        filter.addrToMmapEventRow addr = some number ∨ number = filter.nativeHook.rows.length ∧
          row.isUnclosed .mmapEvent = true ∧ row.addr = addr) :
    changed.MmapTracked (drift + added) where
  total := by
    rw [counted, appended, unclosedSize_concat, tracked.total]
    omega
  mmapRows := by
    intro addr number mapped
    rw [appended]
    rcases mmapRows addr number mapped with before | ⟨rfl, ofRow⟩
    · rcases tracked.mmapRows addr number before with
        ⟨other, atNumber, ofOther⟩
      refine ⟨other, ?_, ofOther⟩
      rw [List.getElem?_append_left (List.getElem?_eq_some_iff.1 atNumber).1]
      exact atNumber
    · exact ⟨row, by simp, ofRow⟩

theorem MmapTracked.closeRow {added : Int} {timeStamp : UInt64} {number : Nat} {row : NativeHookRow}
    (atNumber : filter.nativeHook.rows[number]? = some row)
    (later : timeStamp > row.timeStamp) (closed : changed.nativeHook.rows =
      (filter.nativeHook.updateEndTimeStampAndDuration number timeStamp).rows) (counted :
      changed.nativeHook.countMmapSizes =
        filter.nativeHook.countMmapSizes - row.unclosedSizeOf .mmapEvent + added) (mmapRows :
      ∀ addr other, changed.addrToMmapEventRow addr = some other →
        filter.addrToMmapEventRow addr = some other ∧ other ≠ number) :
    changed.MmapTracked (drift + added) where
  total := by
    have hasEnd : timeStamp ≠ 0 := by
      rintro rfl
      exact UInt64.not_lt_zero later
    unfold NativeHook.updateEndTimeStampAndDuration at closed
    rw [counted, closed, unclosedSize_modify .mmapEvent atNumber, tracked.total]
    have nothingLeft : ({ row with
      endTimeStamp := timeStamp
      duration := timeStamp - row.timeStamp } :
      NativeHookRow).unclosedSizeOf .mmapEvent = 0 := by
      simp [NativeHookRow.unclosedSizeOf, NativeHookRow.isUnclosed, hasEnd]
    rw [nothingLeft]
    omega
  mmapRows := by
    intro addr other mapped
    rcases mmapRows addr other mapped with ⟨before, elsewhere⟩
    rcases tracked.mmapRows addr other before with ⟨entry, atOther, ofEntry⟩
    refine ⟨entry, ?_, ofEntry⟩
    simpa [closed, NativeHook.updateEndTimeStampAndDuration, Ne.symm elsewhere] using atOther

theorem MmapTracked.parseAllocEvent (timeStamp addr : UInt64) (size : UInt32) :
    (filter.parseAllocEvent timeStamp addr size).MmapTracked drift := by
  refine MmapTracked.of_sameLedger ?_ (sameLedger_parseAllocEvent filter timeStamp addr size)
  rw [← add_zero drift]
  exact tracked.append ⟨.allocEvent, none, timeStamp, 0, 0, addr, size.toNat,
    filter.nativeHook.countHeapSizes + size.toNat, 0⟩
      rfl (by simp [opened, NativeHook.appendNewNativeHookData,
        NativeHookRow.unclosedSizeOf, NativeHookRow.isUnclosed])
      (fun _ _ mapped => .inl mapped)

theorem MmapTracked.parseMmapEvent
    (timeStamp addr : UInt64) (size : UInt32) (type : Option UInt64) :
    (filter.parseMmapEvent timeStamp addr size type).MmapTracked drift := by
  refine MmapTracked.of_sameLedger ?_ (sameLedger_parseMmapEvent filter timeStamp addr size type)
  rw [← add_zero drift]
  refine tracked.append ⟨.mmapEvent, none, timeStamp, 0, 0, addr, size.toNat,
    filter.nativeHook.countMmapSizes + size.toNat, 0⟩
      rfl (by simp [opened, NativeHook.appendNewNativeHookData,
        NativeHookRow.unclosedSizeOf, NativeHookRow.isUnclosed]) ?_
  intro other number mapped
  rcases insertRow_eq_some mapped with before | ⟨isNew, sameAddr⟩
  · exact .inl before
  · exact .inr ⟨isNew, rfl, sameAddr.symm⟩

theorem MmapTracked.parseFreeEvent (balanced : filter.Balanced) (timeStamp addr : UInt64) :
    (filter.parseFreeEvent timeStamp addr).MmapTracked drift := by
  cases closes : filter.closedBy filter.addrToAllocEventRow timeStamp addr with
  | none => rwa [parseFreeEvent_of_closedBy_none closes]
  | some closed =>
    rcases closed with ⟨number, row⟩
    rcases closedBy_eq_some.1 closes with ⟨mapped, atNumber, later⟩
    have isAlloc : row.eventType = .allocEvent := by
      rcases balanced.allocRows addr number mapped with
        ⟨entry, atEntry, unclosed, _⟩
      rw [atNumber, some.injEq] at atEntry
      subst atEntry
      simp only [NativeHookRow.isUnclosed, Bool.and_eq_true, beq_iff_eq] at unclosed
      exact unclosed.1
    refine MmapTracked.of_sameLedger ?_ (sameLedger_parseFreeEvent closes)
    have afterClosing : ({ filter with
      nativeHook :=
        filter.nativeHook.updateEndTimeStampAndDuration number
          timeStamp } : NativeHookFilter).MmapTracked (drift + 0) := by
      refine tracked.closeRow atNumber later rfl
        (by simp [NativeHook.updateEndTimeStampAndDuration,
          NativeHookRow.unclosedSizeOf, NativeHookRow.isUnclosed,
          isAlloc]) ?_
      intro other otherNumber before
      refine ⟨before, ?_⟩
      rintro rfl
      rcases tracked.mmapRows other otherNumber before with
        ⟨entry, atEntry, unclosed, _⟩
      rw [atNumber, some.injEq] at atEntry
      subst atEntry
      simp [NativeHookRow.isUnclosed, isAlloc] at unclosed
    rw [add_zero] at afterClosing
    rw [← add_zero drift]
    exact afterClosing.append ⟨.freeEvent, none, timeStamp, 0, 0, addr, row.memSize,
      filter.nativeHook.countHeapSizes - row.memSize, 0⟩
      rfl (by simp [NativeHookFilter.closed,
        NativeHook.updateEndTimeStampAndDuration,
        NativeHook.appendNewNativeHookData,
        NativeHookRow.unclosedSizeOf, NativeHookRow.isUnclosed])
      (fun _ _ mapped => .inl mapped)

theorem MmapTracked.parseMunmapEvent {timeStamp addr : UInt64} (size : UInt32)
    {number : Nat} {row : NativeHookRow} (closes :
      filter.closedBy filter.addrToMmapEventRow timeStamp addr = some (number, row)) :
    (filter.parseMunmapEvent timeStamp addr size).MmapTracked
      (drift + (row.memSize - size.toNat)) := by
  rcases closedBy_eq_some.1 closes with ⟨mapped, atNumber, later⟩
  rcases tracked.mmapRows addr number mapped with
    ⟨entry, atEntry, unclosed, sameAddr⟩
  rw [atNumber, some.injEq] at atEntry
  subst atEntry
  have ofRow : row.unclosedSizeOf .mmapEvent = row.memSize := by
    simp [NativeHookRow.unclosedSizeOf, unclosed]
  refine MmapTracked.of_sameLedger ?_ (sameLedger_parseMunmapEvent size closes)
  have afterClosing : ({ filter with
    nativeHook := filter.nativeHook.updateEndTimeStampAndDuration number timeStamp
    addrToMmapEventRow := Function.update filter.addrToMmapEventRow addr none } :
    NativeHookFilter).MmapTracked (drift + row.memSize) := by
    refine tracked.closeRow atNumber later rfl
      (by simp [NativeHook.updateEndTimeStampAndDuration, ofRow]) ?_
    intro other otherNumber stillMapped
    rcases update_none_eq_some stillMapped with ⟨otherwise, before⟩
    refine ⟨before, ?_⟩
    rintro rfl
    rcases tracked.mmapRows other otherNumber before with
      ⟨entry, atEntry, _, entryAddr⟩
    rw [atNumber, some.injEq] at atEntry
    subst atEntry
    exact otherwise (entryAddr.symm.trans sameAddr)
  rw [sub_eq_add_neg, ← add_assoc]
  exact afterClosing.append ⟨.munmapEvent, none, timeStamp, 0, 0, addr, size.toNat,
    filter.nativeHook.countMmapSizes - size.toNat, 0⟩
    rfl (by simp [NativeHookFilter.closed,
      NativeHook.updateEndTimeStampAndDuration,
      NativeHook.appendNewNativeHookData, NativeHookRow.unclosedSizeOf,
      NativeHookRow.isUnclosed, sub_eq_add_neg])
    (fun _ _ same => .inl same)

theorem MmapTracked.parseMainEvent (balanced : filter.Balanced)
    (mainEvent : UInt64 × NativeHookMainEvent) :
    (filter.parseMainEvent mainEvent).MmapTracked (drift + filter.mmapDrift mainEvent) := by
  rcases mainEvent with ⟨timeStamp, mainEvent⟩
  cases mainEvent with
  | allocEvent addr size =>
    simpa [NativeHookFilter.parseMainEvent, mmapDrift, closedMapping] using
      tracked.parseAllocEvent timeStamp addr size
  | freeEvent addr =>
    simpa [NativeHookFilter.parseMainEvent, mmapDrift, closedMapping] using
      tracked.parseFreeEvent balanced timeStamp addr
  | mmapEvent addr size type =>
    simpa [NativeHookFilter.parseMainEvent, mmapDrift, closedMapping] using
      tracked.parseMmapEvent timeStamp addr size type
  | munmapEvent addr size =>
    cases closes : filter.closedBy filter.addrToMmapEventRow timeStamp addr with
    | none =>
      have dropped := parseMunmapEvent_of_closedBy_none size closes
      simpa [mmapDrift, closedMapping, closes,
        NativeHookFilter.parseMainEvent, dropped] using tracked
    | some closed =>
      simpa [NativeHookFilter.parseMainEvent, mmapDrift, closedMapping,
        closes] using tracked.parseMunmapEvent size closes
  | tagEvent addr size tag =>
    simpa [NativeHookFilter.parseMainEvent, mmapDrift, closedMapping] using
      tracked.of_sameLedger (sameLedger_parseTagEvent filter addr size tag)

end

/-- The total is the size of the mappings no unmapping has closed. -/
def MmapBalanced (filter : NativeHookFilter) : Prop :=
  filter.nativeHook.countMmapSizes = unclosedSize .mmapEvent filter.nativeHook.rows

instance (filter : NativeHookFilter) : Decidable filter.MmapBalanced :=
  inferInstanceAs (Decidable (_ = _))

/--
In every state that the events reach the total of the mappings is the size of
the open ones, exactly when every unmapping that closes a mapping carries the
size of that mapping.
-/
theorem mmapBalanced_iff (mainEvents : List (UInt64 × NativeHookMainEvent)) :
    (∀ past, past <+: mainEvents → (run parseMainEvent initial past).MmapBalanced) ↔
      EachStep parseMainEvent UnmapsWhole initial mainEvents := by
  rw [reached_iff_eachStep parseMainEvent MmapBalanced mainEvents (by rfl)]
  refine eachStep_congr (fun filter => filter.Accounts ∧ filter.MmapTracked 0) ?_ ?_
    ⟨accounts_initial, mmapTracked_initial⟩
  · rintro filter mainEvent ⟨accounts, tracked⟩
    have next := tracked.parseMainEvent accounts.toBalanced mainEvent
    rw [← mmapDrift_eq_zero, MmapBalanced, next.total]
    omega
  · rintro filter mainEvent ⟨accounts, tracked⟩ whole
    have next := tracked.parseMainEvent accounts.toBalanced mainEvent
    rw [mmapDrift_eq_zero.2 whole, add_zero] at next
    exact ⟨accounts_parseMainEvent filter mainEvent accounts, next⟩

/-- Half of a mapping of 8192 bytes is unmapped: the row is closed whole. -/
theorem not_mmapBalanced_partial : ¬ (run parseMainEvent initial [(1, .mmapEvent 4096 8192 none),
    (2, .munmapEvent 4096 4096)]).MmapBalanced := by
  decide

end NativeHookFilter

end SysAnalyzer.Filter
