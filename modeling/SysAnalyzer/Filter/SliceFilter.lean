import SysAnalyzer.Base.TsCommon
import SysAnalyzer.Foundation.Run
import Mathlib

/-!
# The slice filter

`SliceFilter` turns begin and end events into rows of the callstack table.  A
begin appends a row whose duration is still -1 and pushes it on the slice stack
of its thread; an end completes the innermost row of that stack whose duration
is -1.  Both first run `CloseUnMatchedSlice`, which pops completed rows.

Threads are the internal thread ids the process filter answers for an event.
Row numbers are stored as 64-bit values and read back as 32-bit ones.
-/

namespace SysAnalyzer.Filter

open Foundation List Function Option

structure CallStackRow where
  timeStamp : UInt64
  dur : UInt64
  callId : UInt32
  cat : UInt64
  name : UInt64
  depth : UInt8
  parentId : UInt32
  deriving DecidableEq

abbrev CallStack := List CallStackRow

namespace CallStack

def setDur (slices : CallStack) (index : Nat) (dur : UInt64) : CallStack :=
  slices.modify index fun row => { row with dur }

def setDuration (slices : CallStack) (index : Nat) (timeStamp : UInt64) : CallStack :=
  slices.modify index fun row => { row with dur := timeStamp - row.timeStamp }

@[simp]
theorem length_setDuration (slices : CallStack) (index : Nat) (timeStamp : UInt64) :
    (slices.setDuration index timeStamp).length = slices.length :=
  length_modify ..

variable {index : Nat}

theorem getElem?_setDuration_of_ne (slices : CallStack) {other : Nat} (different : index ≠ other)
    (timeStamp : UInt64) : (slices.setDuration index timeStamp)[other]? = slices[other]? :=
  getElem?_modify_ne _ _ different

theorem getElem?_setDuration_self {slices : CallStack} {row : CallStackRow}
    (read : slices[index]? = some row) (timeStamp : UInt64) :
    (slices.setDuration index timeStamp)[index]? =
      some { row with dur := timeStamp - row.timeStamp } := by
  rw [setDuration, getElem?_modify_eq, read]
  rfl

def IgnoresDur {α : Type*} (read : CallStackRow → α) : Prop :=
  ∀ (row : CallStackRow) (dur : UInt64), read { row with dur } = read row

section Readings

variable {α : Type*} {read : CallStackRow → α}

theorem map_modify (slices : CallStack) (index : Nat) {change : CallStackRow → CallStackRow}
    (kept : ∀ row, read (change row) = read row) :
    (slices.modify index change).map read = slices.map read := by
  refine ext_getElem? fun other => ?_
  rw [getElem?_map, getElem?_map, getElem?_modify]
  split
  · cases slices[other]? with
    | none => rfl
    | some row => simp [kept]
  · simp

theorem map_setDur (ignores : IgnoresDur read) (slices : CallStack) (index : Nat)
    (dur : UInt64) : (slices.setDur index dur).map read = slices.map read :=
  map_modify slices index fun row => ignores row dur

theorem map_setDuration (ignores : IgnoresDur read) (slices : CallStack) (index : Nat)
    (timeStamp : UInt64) : (slices.setDuration index timeStamp).map read = slices.map read :=
  map_modify slices index fun row => ignores row _

end Readings

/-- The row of a stack entry: `uint32_t sliceIdx = stack[i].index`. -/
def rowAt (slices : CallStack) (index : Nat) : Option CallStackRow := slices[index % 2 ^ 32]?

theorem rowAt_of_few {slices : CallStack} (few : slices.length ≤ 2 ^ 32)
    {row : CallStackRow} (read : slices[index]? = some row) : slices.rowAt index = some row := by
  have inside : index < slices.length := (List.getElem?_eq_some_iff.1 read).1
  rw [rowAt, Nat.mod_eq_of_lt (by omega), read]

end CallStack

/-- `StackInfo`; of the entries the stack holds, only their rows are read. -/
structure StackInfo where
  isAsyncEvent : Bool := false
  asyncEventCount : UInt32 := 0
  asyncEventLastBeginTs : UInt32 := 0
  sliceStack : List Nat := []

def Fits (category name cat sliceName : UInt64) : Prop :=
  (category = invalidUint64 ∨ cat = invalidUint64 ∨ category = cat) ∧
    (name = invalidUint64 ∨ sliceName = invalidUint64 ∨ name = sliceName)

/-- The state of the filter; the last entry of a stack is its top. -/
structure SliceFilter where
  slices : CallStack
  stackMap : UInt32 → Option StackInfo
  callEventDisMatchCount : Nat

namespace SliceFilter

def initial : SliceFilter := ⟨[], fun _ => none, 0⟩

def stack (filter : SliceFilter) (internalTid : UInt32) : List Nat :=
  ((filter.stackMap internalTid).map StackInfo.sliceStack).getD []

/-- The loop state of `CloseUnMatchedSlice`. -/
structure Closing where
  slices : CallStack
  stack : List Nat
  incomplete : Bool

/-- One turn of the loop of `CloseUnMatchedSlice`. -/
def closeStep (ts : Int64) (closing : Closing) (i : Nat) : Closing :=
  match closing.stack[i]? with
  | none => closing
  | some index =>
    match closing.slices.rowAt index with
    | none => closing
    | some row =>
      let dur := row.dur.toInt64
      let endTs := row.timeStamp.toInt64 + dur
      if dur = -1 then { closing with incomplete := true }
      else if closing.incomplete then
        if ts ≤ endTs then closing
        else
          -- the inner loop names `stack[i]`, not `stack[j]`
          { slices :=
              if i + 1 < closing.stack.length then
                closing.slices.setDur (index % 2 ^ 32)
                  (endTs.toUInt64 - row.timeStamp)
              else closing.slices
            stack := closing.stack.take i
            incomplete := false }
      else if endTs ≤ ts then { closing with stack := closing.stack.dropLast }
      else closing

/-- `CloseUnMatchedSlice`: the table and the stack it leaves. -/
def closeUnMatchedSlice (ts : Int64) (slices : CallStack) (stack : List Nat) : Closing :=
  run (closeStep ts) ⟨slices, stack, false⟩ (range stack.length).reverse

/-- The test of `MatchingIncompleteSliceIndex` on one entry. -/
def matchesAt (slices : CallStack) (stack : List Nat) (category name : UInt64) (i : Nat) : Bool :=
  match stack[i]?.bind slices.rowAt with
  | none => false
  | some row =>
    row.dur == invalidUint64 && !(category != invalidUint64 &&
      (row.cat != invalidUint64 && category != row.cat)) &&
      !(name != invalidUint64 && row.name != invalidUint64 && name != row.name)

/-- `MatchingIncompleteSliceIndex`; `none` is -1. -/
def matchingIncompleteSliceIndex (slices : CallStack) (stack : List Nat) (category name : UInt64) :
    Option Nat :=
  (range stack.length).reverse.find? (matchesAt slices stack category name)

/-! ## Events -/

/-- `parentId`: the id of the top row, which is its row number. -/
def parentIdOf (stack : List Nat) : UInt32 :=
  match stack.getLast? with
  | none => invalidUint32
  | some index => UInt32.ofNat index

/-- The row `AppendInternalSlice` appends for a new slice, with depth 0. -/
def newRow (timeStamp duration : UInt64) (internalTid : UInt32)
    (cat name : UInt64) (stack : List Nat) : CallStackRow :=
  ⟨timeStamp, duration, internalTid, cat, name, 0, parentIdOf stack⟩

/-- `std::numeric_limits<uint8_t>::max()`. -/
def maxDepth : Nat := 255

/--
`StartSlice` on the resolved thread and without arguments.  The answer is the
row number, `none` for `SIZE_MAX`.
-/
def startSlice (filter : SliceFilter) (timeStamp duration : UInt64)
    (internalTid : UInt32) (cat name : UInt64) : Option Nat × SliceFilter :=
  let found := (filter.stackMap internalTid).getD {}
  let info : StackInfo :=
    if found.isAsyncEvent then
      { found with
        asyncEventCount := found.asyncEventCount + 1
        asyncEventLastBeginTs := timeStamp.toUInt32 }
    else found
  if info.isAsyncEvent ∧ info.sliceStack ≠ [] then
    (none, { filter with
      stackMap := Function.update filter.stackMap internalTid (some info) })
  else
    let closed := closeUnMatchedSlice timeStamp.toInt64 filter.slices info.sliceStack
    let row := newRow timeStamp duration internalTid cat name closed.stack
    if maxDepth ≤ closed.stack.length then
      (none, { filter with
        slices := closed.slices ++ [row]
        stackMap :=
          Function.update filter.stackMap internalTid
            (some { info with sliceStack := closed.stack }) })
    else
      (some closed.slices.length, { filter with
        slices :=
          closed.slices ++
            [{ row with depth := UInt8.ofNat closed.stack.length }]
        stackMap :=
          Function.update filter.stackMap internalTid
            (some
              { info with
                sliceStack := closed.stack ++ [closed.slices.length] }) })

/-- `BeginSlice` and `BeginBinder`: the new slice has a duration of -1. -/
def beginSlice (filter : SliceFilter) (timeStamp : UInt64) (internalTid : UInt32)
    (cat name : UInt64) : Option Nat × SliceFilter :=
  filter.startSlice timeStamp invalidUint64 internalTid cat name

/-- `AsyncBinder`: the new slice is complete and spans no time. -/
def asyncBinder (filter : SliceFilter) (timeStamp : UInt64) (internalTid : UInt32)
    (cat name : UInt64) : Option Nat × SliceFilter :=
  filter.startSlice timeStamp 0 internalTid cat name

/--
`EndSlice` and `EndBinder` with their `CompleteSlice`, on the resolved thread and without
arguments.  The answer is the completed row, `none` for `SIZE_MAX`.
-/
def endSlice (filter : SliceFilter) (timeStamp : UInt64) (internalTid : UInt32)
    (category name : UInt64) : Option Nat × SliceFilter :=
  match filter.stackMap internalTid with
  | none => (none, filter)
  | some info =>
    let closed := closeUnMatchedSlice timeStamp.toInt64 filter.slices info.sliceStack
    let left (slices : CallStack) (stack : List Nat) : SliceFilter :=
      { filter with
        slices := slices
        stackMap :=
          Function.update filter.stackMap internalTid
            (some { info with sliceStack := stack }) }
    if closed.stack = [] then
      (none, { left closed.slices closed.stack with
        callEventDisMatchCount := filter.callEventDisMatchCount + 1 })
    else
      match matchingIncompleteSliceIndex closed.slices closed.stack category name with
      | none => (none, left closed.slices closed.stack)
      | some stackIdx =>
        match closed.stack[stackIdx]? with
        | none => (none, left closed.slices closed.stack)
        | some lastRow =>
          (some lastRow, left (closed.slices.setDuration lastRow timeStamp)
            (if stackIdx + 1 = closed.stack.length then closed.stack.dropLast
            else closed.stack))

end SliceFilter

/-- An event of a trace; an end leaves category and name invalid. -/
inductive SliceEvent where
  | beginSlice (internalTid : UInt32) (timeStamp : UInt64) (cat name : UInt64)
  | endSlice (internalTid : UInt32) (timeStamp : UInt64)

namespace SliceEvent

def internalTid : SliceEvent → UInt32
  | .beginSlice internalTid _ _ _ => internalTid
  | .endSlice internalTid _ => internalTid

def timeStamp : SliceEvent → UInt64
  | .beginSlice _ timeStamp _ _ => timeStamp
  | .endSlice _ timeStamp => timeStamp

end SliceEvent

namespace SliceFilter

def handle (filter : SliceFilter) : SliceEvent → Option Nat × SliceFilter
  | .beginSlice internalTid timeStamp cat name => filter.beginSlice timeStamp internalTid cat name
  | .endSlice internalTid timeStamp =>
    filter.endSlice timeStamp internalTid invalidUint64 invalidUint64

def step (filter : SliceFilter) (event : SliceEvent) : SliceFilter := (filter.handle event).2

def after (events : List SliceEvent) : SliceFilter := run step initial events

/-- Closing leaves the table and the stack alone, or it pops entries. -/
structure Closed (slices : CallStack) (stack : List Nat) (closing : Closing) :
    Prop where
  isPrefix : closing.stack <+: stack
  size : closing.slices.length = slices.length
  slices_of_length : closing.stack.length = stack.length → closing.slices = slices

theorem closed_closeStep {slices : CallStack} {stack : List Nat} {closing : Closing}
    (closed : Closed slices stack closing) (ts : Int64) (i : Nat) :
    Closed slices stack (closeStep ts closing i) := by
  have bound := closed.isPrefix.length_le
  unfold closeStep
  split
  · exact closed
  · next index found =>
      have inside : i < closing.stack.length := (List.getElem?_eq_some_iff.1 found).1
      split
      · exact closed
      · next row _ =>
          dsimp only
          split_ifs
          · exact ⟨closed.isPrefix, closed.size, closed.slices_of_length⟩
          · exact closed
          · refine ⟨( take_prefix _ _).trans closed.isPrefix, ?_, ?_⟩
            · simp [CallStack.setDur, closed.size]
            · intro same
              simp only [length_take] at same
              omega
          · refine ⟨( take_prefix _ _).trans closed.isPrefix, closed.size, ?_⟩
            intro same
            simp only [length_take] at same
            omega
          · refine ⟨( dropLast_prefix _).trans closed.isPrefix, closed.size, ?_⟩
            intro same
            simp only [length_dropLast] at same
            omega
          · exact closed

theorem closed_closeUnMatchedSlice (ts : Int64) (slices : CallStack) (stack : List Nat) :
    Closed slices stack (closeUnMatchedSlice ts slices stack) := by
  have start : Closed slices stack ⟨slices, stack, false⟩ := ⟨prefix_rfl, rfl, fun _ => rfl⟩
  have kept (closing : Closing) (i : Nat) (closed : Closed slices stack closing) :
    Closed slices stack (closeStep ts closing i) :=
    closed_closeStep closed ts i
  exact run_invariant_of_preserves kept _ start

theorem map_closeUnMatchedSlice
    {α : Type*} {read : CallStackRow → α} (ignores : CallStack.IgnoresDur read)
    (ts : Int64) (slices : CallStack) (stack : List Nat) :
    (closeUnMatchedSlice ts slices stack).slices.map read = slices.map read := by
  have kept (closing : Closing) (i : Nat) (same : closing.slices.map read = slices.map read) :
    (closeStep ts closing i).slices.map read = slices.map read := by
    unfold closeStep
    split
    · exact same
    · split
      · exact same
      · dsimp only
        split_ifs
        · exact same
        · exact same
        · rw [CallStack.map_setDur ignores, same]
        · exact same
        · exact same
        · exact same
  have start : (⟨slices, stack, false⟩ : Closing).slices.map read = slices.map read := rfl
  exact run_invariant_of_preserves kept _ start

theorem closeUnMatchedSlice_of_incomplete {slices : CallStack} {stack : List Nat}
    (incomplete : ∀ index ∈ stack, ∃ row,
      slices.rowAt index = some row ∧ row.dur = invalidUint64) (ts : Int64) :
    (closeUnMatchedSlice ts slices stack).slices = slices ∧
      (closeUnMatchedSlice ts slices stack).stack = stack := by
  have kept (closing : Closing) (i : Nat) (same : closing.slices = slices ∧ closing.stack = stack) :
    (closeStep ts closing i).slices = slices ∧ (closeStep ts closing i).stack = stack := by
    unfold closeStep
    split
    · exact same
    · next index found =>
        rw [same.2] at found
        rcases incomplete index (mem_of_getElem? found) with
          ⟨row, read, pending⟩
        have minusOne : row.dur.toInt64 = -1 := by
          rw [pending]
          decide
        simp only [same.1, read, minusOne, if_true, same.2, and_self]
  have start : (⟨slices, stack, false⟩ : Closing).slices = slices ∧
    (⟨slices, stack, false⟩ : Closing).stack = stack :=
    ⟨rfl, rfl⟩
  exact run_invariant_of_preserves kept _ start

theorem closeUnMatchedSlice_completedTop
    {slices : CallStack} {index : Nat} {row : CallStackRow} {ts : Int64}
    (read : slices.rowAt index = some row) (complete : row.dur.toInt64 ≠ -1)
    (past : row.timeStamp.toInt64 + row.dur.toInt64 ≤ ts) (stack : List Nat) :
    closeUnMatchedSlice ts slices (stack ++ [index]) = closeUnMatchedSlice ts slices stack := by
  have popped : closeStep ts ⟨slices, stack ++ [index], false⟩ stack.length =
    ⟨slices, stack, false⟩ := by
    simp [closeStep, read, complete, past]
  rw [closeUnMatchedSlice, length_append, length_singleton,
    range_succ, reverse_append, reverse_singleton,
    singleton_append, run_cons, popped, ← closeUnMatchedSlice]

theorem matchesAt_iff (slices : CallStack) (stack : List Nat) (category name : UInt64) (i : Nat) :
    matchesAt slices stack category name i = true ↔
      ∃ index row, stack[i]? = some index ∧ slices.rowAt index = some row ∧
        row.dur = invalidUint64 ∧ Fits category name row.cat row.name := by
  unfold matchesAt Fits
  cases entry : stack[i]? with
  | none => simp
  | some index =>
    cases read : slices.rowAt index with
    | none => simp [read]
    | some row =>
      simp only [bind_some, read, Bool.and_eq_true, beq_iff_eq,
        Bool.not_eq_true', Bool.and_eq_false_iff, bne_eq_false_iff_eq,
        some.injEq]
      constructor
      · rintro ⟨⟨pending, catFits⟩, nameFits⟩
        exact ⟨index, row, rfl, read, pending, catFits, or_assoc.1 nameFits⟩
      · rintro ⟨_, other, rfl, readOther, pending, catFits, nameFits⟩
        rw [read, some.injEq] at readOther
        subst readOther
        exact ⟨⟨pending, catFits⟩, or_assoc.2 nameFits⟩

theorem matchesAt_invalid (slices : CallStack) (stack : List Nat) (i : Nat) :
    matchesAt slices stack invalidUint64 invalidUint64 i = true ↔
      ∃ index row, stack[i]? = some index ∧ slices.rowAt index = some row ∧
        row.dur = invalidUint64 := by
  unfold matchesAt
  cases found : stack[i]? with
  | none => simp
  | some index =>
    cases read : slices.rowAt index with
    | none => simp [read]
    | some row => simp [read]

theorem matchingIncompleteSliceIndex_eq_some
    {slices : CallStack} {stack : List Nat} {category name : UInt64} {i : Nat}
    (found : matchingIncompleteSliceIndex slices stack category name = some i) :
    i < stack.length ∧ matchesAt slices stack category name i = true := by
  have isMatch := find?_some found
  have member := mem_of_find?_eq_some found
  rw [mem_reverse, mem_range] at member
  exact ⟨member, isMatch⟩

theorem matchingIncompleteSliceIndex_top
    (slices : CallStack) (stack : List Nat) (top : Nat) (category name : UInt64) :
    matchingIncompleteSliceIndex slices (stack ++ [top]) category name =
      if matchesAt slices (stack ++ [top]) category name stack.length then some stack.length else
        (range stack.length).reverse.find?
          (matchesAt slices (stack ++ [top]) category name) := by
  unfold matchingIncompleteSliceIndex
  rw [length_append, length_singleton, range_succ,
    reverse_append, reverse_singleton, singleton_append,
    find?_cons]
  split <;> simp_all

/-! ## What an event does -/

/-- No thread is marked asynchronous; nothing in the filter ever marks one. -/
def Synchronous (filter : SliceFilter) : Prop :=
  ∀ internalTid info, filter.stackMap internalTid = some info → info.isAsyncEvent = false

theorem stack_getD (filter : SliceFilter) (internalTid : UInt32) :
    ((filter.stackMap internalTid).getD {}).sliceStack = filter.stack internalTid := by
  unfold stack
  cases filter.stackMap internalTid <;> rfl

variable {filter : SliceFilter}

theorem Synchronous.getD (synchronous : filter.Synchronous) (internalTid : UInt32) :
    ((filter.stackMap internalTid).getD {}).isAsyncEvent = false := by
  cases found : filter.stackMap internalTid with
  | none => rfl
  | some info => exact synchronous internalTid info found

variable {info : StackInfo}

theorem stack_of_update {next : SliceFilter} {internalTid : UInt32} (updated :
    next.stackMap = Function.update filter.stackMap internalTid (some info)) :
    next.stack = Function.update filter.stack internalTid info.sliceStack := by
  ext1 other
  unfold stack
  rw [updated]
  by_cases same : other = internalTid
  · subst same
    simp
  · simp [update_of_ne same]

theorem Synchronous.of_update {next : SliceFilter} (synchronous : filter.Synchronous)
    {internalTid : UInt32} (updated :
      next.stackMap = Function.update filter.stackMap internalTid (some info))
    (notAsync : info.isAsyncEvent = false) : next.Synchronous := by
  intro other otherInfo found
  rw [updated] at found
  by_cases same : other = internalTid
  · subst same
    rw [update_self, some.injEq] at found
    rw [← found, notAsync]
  · rw [update_of_ne same] at found
    exact synchronous other otherInfo found

/-- What a begin or an end leaves behind. -/
structure Leaves (filter : SliceFilter) (internalTid : UInt32)
    (result : Option Nat × SliceFilter)
    (answer : Option Nat) (slices : CallStack) (stack : List Nat) : Prop where
  answer_eq : result.1 = answer
  slices_eq : result.2.slices = slices
  stack_eq : result.2.stack = Function.update filter.stack internalTid stack
  synchronous : result.2.Synchronous

theorem Leaves.of_update (synchronous : filter.Synchronous)
    {internalTid : UInt32} {result : Option Nat × SliceFilter}
    {answer : Option Nat} {slices : CallStack} {stack : List Nat}
    (notAsync : info.isAsyncEvent = false)
    (answered : result.1 = answer) (table : result.2.slices = slices) (updated :
      result.2.stackMap = Function.update filter.stackMap internalTid
        (some { info with sliceStack := stack })) :
    Leaves filter internalTid result answer slices stack :=
  ⟨answered, table, stack_of_update updated, synchronous.of_update updated notAsync⟩

variable {closed : Closing}

section

variable (synchronous : filter.Synchronous)
include synchronous

theorem leaves_startSlice_refused {timeStamp : UInt64} (duration : UInt64) {internalTid : UInt32}
    (cat name : UInt64) (closing : closeUnMatchedSlice timeStamp.toInt64 filter.slices
      (filter.stack internalTid) = closed) (deep : maxDepth ≤ closed.stack.length) :
    Leaves filter internalTid (filter.startSlice timeStamp duration internalTid cat name) none
      (closed.slices ++ [newRow timeStamp duration internalTid cat name closed.stack])
      closed.stack := by
  have notAsync := synchronous.getD internalTid
  unfold startSlice
  simp only [notAsync, Bool.false_eq_true, if_false, false_and, stack_getD, closing, deep, if_true]
  refine Leaves.of_update synchronous notAsync rfl rfl ?_
  rw [notAsync]

theorem leaves_startSlice_accepted {timeStamp : UInt64} (duration : UInt64) {internalTid : UInt32}
    (cat name : UInt64) (closing : closeUnMatchedSlice timeStamp.toInt64 filter.slices
      (filter.stack internalTid) = closed) (room : closed.stack.length < maxDepth) :
    Leaves filter internalTid (filter.startSlice timeStamp duration internalTid cat name)
      (some closed.slices.length) (closed.slices ++
        [{ newRow timeStamp duration internalTid cat name closed.stack with
          depth := UInt8.ofNat closed.stack.length }])
      (closed.stack ++ [closed.slices.length]) := by
  have notAsync := synchronous.getD internalTid
  unfold startSlice
  simp only [notAsync, Bool.false_eq_true, if_false, false_and, stack_getD, closing, not_le.2 room]
  refine Leaves.of_update synchronous notAsync rfl rfl ?_
  rw [notAsync]

theorem leaves_endSlice_unmatched
    {timeStamp : UInt64} {internalTid : UInt32} {category name : UInt64}
    (closing : closeUnMatchedSlice timeStamp.toInt64 filter.slices
      (filter.stack internalTid) = closed) (unmatched :
      matchingIncompleteSliceIndex closed.slices closed.stack category name = none) :
    Leaves filter internalTid (filter.endSlice timeStamp internalTid category name)
      none closed.slices closed.stack := by
  unfold endSlice
  cases found : filter.stackMap internalTid with
  | none =>
    have empty : filter.stack internalTid = [] := by simp [stack, found]
    rw [empty] at closing
    rw [← closing]
    refine ⟨rfl, rfl, ?_, synchronous⟩
    change filter.stack = Function.update filter.stack internalTid []
    rw [← empty, update_eq_self]
  | some info =>
    have isStack : info.sliceStack = filter.stack internalTid := by simp [stack, found]
    have notAsync := synchronous internalTid info found
    simp only [isStack, closing, unmatched]
    split
    · exact Leaves.of_update synchronous notAsync rfl rfl rfl
    · exact Leaves.of_update synchronous notAsync rfl rfl rfl

theorem leaves_endSlice_matched {timeStamp : UInt64} {internalTid : UInt32} {category name : UInt64}
    (closing : closeUnMatchedSlice timeStamp.toInt64 filter.slices
      (filter.stack internalTid) = closed) {stackIdx lastRow : Nat} (isMatch :
      matchingIncompleteSliceIndex closed.slices closed.stack category name =
        some stackIdx) (entry : closed.stack[stackIdx]? = some lastRow) :
    Leaves filter internalTid (filter.endSlice timeStamp internalTid category name)
      (some lastRow) (closed.slices.setDuration lastRow timeStamp)
      (if stackIdx + 1 = closed.stack.length then closed.stack.dropLast else closed.stack) := by
  have nonempty : closed.stack ≠ [] := by
    rintro empty
    simp [empty] at entry
  unfold endSlice
  cases found : filter.stackMap internalTid with
  | none =>
    have empty : filter.stack internalTid = [] := by simp [stack, found]
    rw [empty] at closing
    rw [← closing] at nonempty
    exact absurd rfl nonempty
  | some info =>
    have isStack : info.sliceStack = filter.stack internalTid := by simp [stack, found]
    have notAsync := synchronous internalTid info found
    simp only [isStack, closing, isMatch, entry, nonempty, if_false]
    exact Leaves.of_update synchronous notAsync rfl rfl rfl

theorem leaves_endSlice_top {timeStamp : UInt64} {internalTid : UInt32}
    (closing : closeUnMatchedSlice timeStamp.toInt64 filter.slices
      (filter.stack internalTid) = closed)
    {outer : List Nat} {top : Nat} (onTop : closed.stack = outer ++ [top])
    {row : CallStackRow} (read : closed.slices.rowAt top = some row)
    (pending : row.dur = invalidUint64) :
    Leaves filter internalTid (filter.endSlice timeStamp internalTid invalidUint64 invalidUint64)
      (some top) (closed.slices.setDuration top timeStamp) outer := by
  have isTop : matchesAt closed.slices (outer ++ [top]) invalidUint64 invalidUint64
    outer.length = true := by
    rw [matchesAt_invalid]
    exact ⟨top, row, by simp, read, pending⟩
  have isMatch : matchingIncompleteSliceIndex closed.slices closed.stack invalidUint64
    invalidUint64 = some outer.length := by
    rw [onTop, matchingIncompleteSliceIndex_top, if_pos isTop]
  have entry : closed.stack[outer.length]? = some top := by
    rw [onTop]
    simp
  have leaves := leaves_endSlice_matched synchronous closing isMatch entry
  simpa [onTop] using leaves

theorem depth_endSlice (timeStamp : UInt64) (internalTid : UInt32) (category name : UInt64) :
    (filter.endSlice timeStamp internalTid category name).2.slices.map CallStackRow.depth =
      filter.slices.map CallStackRow.depth ∧
    (filter.endSlice timeStamp internalTid category name).2.Synchronous := by
  have ignores : CallStack.IgnoresDur CallStackRow.depth := fun _ _ => rfl
  have depths :=
    map_closeUnMatchedSlice ignores timeStamp.toInt64 filter.slices (filter.stack internalTid)
  generalize closing : closeUnMatchedSlice timeStamp.toInt64 filter.slices
    (filter.stack internalTid) = closed at depths
  cases isMatch : matchingIncompleteSliceIndex closed.slices closed.stack category name with
  | none =>
    have leaves := leaves_endSlice_unmatched synchronous closing isMatch
    exact ⟨by rw [leaves.slices_eq, depths], leaves.synchronous⟩
  | some stackIdx =>
    have inside := (matchingIncompleteSliceIndex_eq_some isMatch).1
    have leaves :=
      leaves_endSlice_matched synchronous closing isMatch (getElem?_eq_getElem inside)
    exact
      ⟨by rw [leaves.slices_eq, CallStack.map_setDuration ignores, depths],
        leaves.synchronous⟩

end

end SliceFilter

/-- A call of the filter, on the thread the process filter resolves for it. -/
inductive SliceCall where
  | beginSlice (internalTid : UInt32) (timeStamp : UInt64) (cat name : UInt64)
  | beginBinder (internalTid : UInt32) (timeStamp : UInt64) (cat name : UInt64)
  | asyncBinder (internalTid : UInt32) (timeStamp : UInt64) (cat name : UInt64)
  | endSlice (internalTid : UInt32) (timeStamp : UInt64)
    (category name : UInt64)
  | endBinder (internalTid : UInt32) (timeStamp : UInt64)
    (category name : UInt64)

namespace SliceCall

def internalTid : SliceCall → UInt32
  | .beginSlice internalTid _ _ _ => internalTid
  | .beginBinder internalTid _ _ _ => internalTid
  | .asyncBinder internalTid _ _ _ => internalTid
  | .endSlice internalTid _ _ _ => internalTid
  | .endBinder internalTid _ _ _ => internalTid

def timeStamp : SliceCall → UInt64
  | .beginSlice _ timeStamp _ _ => timeStamp
  | .beginBinder _ timeStamp _ _ => timeStamp
  | .asyncBinder _ timeStamp _ _ => timeStamp
  | .endSlice _ timeStamp _ _ => timeStamp
  | .endBinder _ timeStamp _ _ => timeStamp

end SliceCall

namespace SliceFilter

def handleCall (filter : SliceFilter) : SliceCall → Option Nat × SliceFilter
  | .beginSlice internalTid timeStamp cat name => filter.beginSlice timeStamp internalTid cat name
  | .beginBinder internalTid timeStamp cat name => filter.beginSlice timeStamp internalTid cat name
  | .asyncBinder internalTid timeStamp cat name => filter.asyncBinder timeStamp internalTid cat name
  | .endSlice internalTid timeStamp category name =>
    filter.endSlice timeStamp internalTid category name
  | .endBinder internalTid timeStamp category name =>
    filter.endSlice timeStamp internalTid category name

def stepCall (filter : SliceFilter) (call : SliceCall) : SliceFilter := (filter.handleCall call).2

def afterCalls (calls : List SliceCall) : SliceFilter := run stepCall initial calls

end SliceFilter

end SysAnalyzer.Filter
