import SysAnalyzer.Filter.BinderCalls

/-!
# Binder calls close their own slices

The filter knows the nests of the threads only as stacks of slices.  As long as
row numbers fit in 32 bits a stack holds the slices of the nest of its thread,
all of them incomplete, and at most one more on top: that of the last one-way
message, which is complete.  The next event pops it, so that an end meets the
slice of the innermost transaction.

The three maps of the filter hold the ids of the messages under way, each kind
in one of them.
-/

namespace SysAnalyzer.Filter

open Foundation List Function

/-! ## The slices of a nest -/

namespace Activity

variable {activity : Activity} {ts : Int64} {internalTid other : UInt32}

/-- The slices of the transactions of a thread, innermost last. -/
def openSlices (activity : Activity) (internalTid : UInt32) : List Nat :=
  ((activity.nest internalTid).map Transaction.slice).reverse

theorem mem_openSlices {slice : Nat} : slice ∈ activity.openSlices internalTid ↔
    ∃ inner ∈ activity.nest internalTid, inner.slice = slice := by
  rw [openSlices, mem_reverse, mem_map]

theorem length_openSlices :
    (activity.openSlices internalTid).length = (activity.nest internalTid).length := by
  rw [openSlices, length_reverse, length_map]

theorem nest_enter_self (role : Role) (transactionId : UInt64) :
    (activity.enter ts internalTid role transactionId).nest internalTid =
      ⟨role, transactionId, activity.begun, ts⟩ :: activity.nest internalTid :=
  update_self _ _ _

theorem openSlices_enter_self (role : Role) (transactionId : UInt64) :
    (activity.enter ts internalTid role transactionId).openSlices internalTid =
      activity.openSlices internalTid ++ [activity.begun] := by
  simp [openSlices, enter]

theorem nest_enter_of_ne (different : other ≠ internalTid) (role : Role) (transactionId : UInt64) :
    (activity.enter ts internalTid role transactionId).nest other = activity.nest other :=
  update_of_ne different _ _

theorem openSlices_enter_of_ne
    (different : other ≠ internalTid) (role : Role) (transactionId : UInt64) :
    (activity.enter ts internalTid role transactionId).openSlices other =
      activity.openSlices other := by
  rw [openSlices, nest_enter_of_ne different, openSlices]

theorem leave_of_nest {innermost : Transaction} {outer : List Transaction}
    (nested : activity.nest internalTid = innermost :: outer) (ts : Int64) :
    activity.leave ts internalTid = { activity with
      nest := Function.update activity.nest internalTid outer
      spans :=
        ⟨innermost.role, internalTid, innermost.slice, innermost.start, ts⟩ ::
          activity.spans
      now := ts } := by
  rw [leave, nested]

theorem begun_leave (activity : Activity) (ts : Int64) (internalTid : UInt32) :
    (activity.leave ts internalTid).begun = activity.begun := by
  cases nested : activity.nest internalTid with
  | nil => rw [leave, nested]
  | cons innermost outer => rw [leave_of_nest nested]

section Nested

variable {innermost : Transaction} {outer : List Transaction}
  (nested : activity.nest internalTid = innermost :: outer)

include nested

theorem nest_leave (ts : Int64) :
    (activity.leave ts internalTid).nest = Function.update activity.nest internalTid outer := by
  rw [leave_of_nest nested]

theorem openSlices_leave_self (ts : Int64) :
    (activity.leave ts internalTid).openSlices internalTid =
      (outer.map Transaction.slice).reverse := by
  rw [openSlices, nest_leave nested, update_self]

theorem openSlices_leave_of_ne (different : other ≠ internalTid) (ts : Int64) :
    (activity.leave ts internalTid).openSlices other = activity.openSlices other := by
  rw [openSlices, nest_leave nested, update_of_ne different, openSlices]

end Nested

end Activity

/-- The row of a transaction that a thread is in the middle of. -/
def BinderNames.IsOpenRow (names : BinderNames) (internalTid : UInt32)
    (inner : Transaction) (row : CallStackRow) : Prop :=
  row.callId = internalTid ∧ row.name = names.sliceName inner.role ∧
    row.timeStamp = inner.start.toUInt64 ∧ row.dur = invalidUint64

def Settled (slices : CallStack) (now : Int64) (opened stack : List Nat) : Prop :=
  stack = opened ∨ ∃ index row,
    stack = opened ++ [index] ∧ slices[index]? = some row ∧ row.dur = 0 ∧
      row.timeStamp.toInt64 ≤ now

theorem Settled.mono {slices next : CallStack} {now ts : Int64} {opened stack : List Nat}
    (settled : Settled slices now opened stack) (later : now ≤ ts)
    (kept : ∀ (index : Nat) (row : CallStackRow),
      slices[index]? = some row → row.dur = 0 → next[index]? = some row) :
    Settled next ts opened stack := by
  rcases settled with same | ⟨index, row, split, read, noTime, past⟩
  · exact Or.inl same
  · exact Or.inr ⟨index, row, split, kept index row read noTime, noTime, Int64.le_trans past later⟩

/--
The table has one row for every slice, the stacks are settled, and the rows of
the transactions that are not over are incomplete.  A transaction that is over
has its times, and its slice is on no stack.
-/
structure Records (names : BinderNames) (filter : SliceFilter)
    (activity : Activity) : Prop where
  size : filter.slices.length = activity.begun
  synchronous : filter.Synchronous
  stack : ∀ internalTid, Settled filter.slices activity.now (activity.openSlices internalTid)
    (filter.stack internalTid)
  nodup : ∀ internalTid, (activity.openSlices internalTid).Nodup
  pending : ∀ internalTid, ∀ inner ∈ activity.nest internalTid, ∃ row,
    filter.slices[inner.slice]? = some row ∧ names.IsOpenRow internalTid inner row
  ended : ∀ span ∈ activity.spans, (∃ row,
    filter.slices[span.slice]? = some row ∧ names.IsRowOf span row) ∧
    ∀ internalTid, span.slice ∉ activity.openSlices internalTid

theorem records_initial (names : BinderNames) :
    Records names SliceFilter.initial Conversation.initial.activity := by
  refine ⟨rfl, ?_, fun _ => Or.inl rfl, fun _ => nodup_nil, ?_, ?_⟩
  · intro internalTid info found
    cases found
  · intro internalTid inner member
    cases member
  · intro span member
    cases member

namespace Records

variable {names : BinderNames} {filter : SliceFilter} {activity : Activity}
  {ts : Int64} {internalTid : UInt32}

section

variable (records : Records names filter activity)
include records

theorem closing (few : activity.begun ≤ 2 ^ 32) (later : activity.now ≤ ts) (internalTid : UInt32) :
    (SliceFilter.closeUnMatchedSlice ts.toUInt64.toInt64 filter.slices
      (filter.stack internalTid)).slices = filter.slices ∧
      (SliceFilter.closeUnMatchedSlice ts.toUInt64.toInt64 filter.slices
        (filter.stack internalTid)).stack = activity.openSlices internalTid := by
  rw [Int64.toInt64_toUInt64]
  rw [← records.size] at few
  have incomplete : ∀ index ∈ activity.openSlices internalTid, ∃ row,
    filter.slices.rowAt index = some row ∧ row.dur = invalidUint64 := by
    intro index member
    rcases Activity.mem_openSlices.1 member with ⟨inner, inNest, rfl⟩
    rcases records.pending internalTid inner inNest with
      ⟨row, read, -, -, -, pending⟩
    exact ⟨row, CallStack.rowAt_of_few few read, pending⟩
  have unchanged := SliceFilter.closeUnMatchedSlice_of_incomplete incomplete ts
  rcases records.stack internalTid with same | ⟨index, row, split, read, noTime, past⟩
  · rw [same]
    exact unchanged
  · have complete : row.dur.toInt64 ≠ -1 := by
      rw [noTime]
      decide
    have isPast : row.timeStamp.toInt64 + row.dur.toInt64 ≤ ts := by
      rw [noTime]
      simpa using Int64.le_trans past later
    rw [split, SliceFilter.closeUnMatchedSlice_completedTop
      (CallStack.rowAt_of_few few read) complete isPast]
    exact unchanged

theorem leaves_enter (few : activity.begun ≤ 2 ^ 32) (later : activity.now ≤ ts)
    (room : (activity.nest internalTid).length < SliceFilter.maxDepth) (cat name : UInt64) :
    ∃ row : CallStackRow, SliceFilter.Leaves filter internalTid
      (filter.beginSlice ts.toUInt64 internalTid cat name)
      (some activity.begun) (filter.slices ++ [row])
      (activity.openSlices internalTid ++ [activity.begun]) ∧
      row.callId = internalTid ∧ row.name = name ∧
        row.timeStamp = ts.toUInt64 ∧ row.dur = invalidUint64 := by
  have unchanged := records.closing few later internalTid
  generalize closing : SliceFilter.closeUnMatchedSlice ts.toUInt64.toInt64 filter.slices
    (filter.stack internalTid) = closed at unchanged
  have shallow : closed.stack.length < SliceFilter.maxDepth := by
    rwa [unchanged.2, Activity.length_openSlices]
  have leaves :=
    SliceFilter.leaves_startSlice_accepted records.synchronous invalidUint64
      cat name closing shallow
  rw [unchanged.1, unchanged.2, records.size] at leaves
  exact ⟨_, leaves, rfl, rfl, rfl, rfl⟩

theorem leaves_oneWay (few : activity.begun ≤ 2 ^ 32) (later : activity.now ≤ ts)
    (internalTid : UInt32) (cat name : UInt64) :
    ∃ answer row stack, SliceFilter.Leaves filter internalTid
      (filter.asyncBinder ts.toUInt64 internalTid cat name)
      answer (filter.slices ++ [row]) stack ∧
      row.dur = 0 ∧ row.timeStamp = ts.toUInt64 ∧ (stack = activity.openSlices internalTid ∨
        stack = activity.openSlices internalTid ++ [activity.begun]) := by
  have unchanged := records.closing few later internalTid
  generalize closing : SliceFilter.closeUnMatchedSlice ts.toUInt64.toInt64 filter.slices
    (filter.stack internalTid) = closed at unchanged
  by_cases shallow : closed.stack.length < SliceFilter.maxDepth
  · have leaves :=
      SliceFilter.leaves_startSlice_accepted records.synchronous 0 cat name closing shallow
    rw [unchanged.1, unchanged.2, records.size] at leaves
    exact ⟨_, _, _, leaves, rfl, rfl, Or.inr rfl⟩
  · have leaves :=
      SliceFilter.leaves_startSlice_refused records.synchronous 0 cat name
        closing (not_lt.1 shallow)
    rw [unchanged.1, unchanged.2] at leaves
    exact ⟨_, _, _, leaves, rfl, rfl, Or.inl rfl⟩

theorem leaves_leave (few : activity.begun ≤ 2 ^ 32) (later : activity.now ≤ ts)
    {innermost : Transaction} {outer : List Transaction}
    (nested : activity.nest internalTid = innermost :: outer) :
    SliceFilter.Leaves filter internalTid
      (filter.endSlice ts.toUInt64 internalTid invalidUint64 invalidUint64) (some innermost.slice)
      (filter.slices.setDuration innermost.slice ts.toUInt64)
      (outer.map Transaction.slice).reverse := by
  have unchanged := records.closing few later internalTid
  generalize closing : SliceFilter.closeUnMatchedSlice ts.toUInt64.toInt64 filter.slices
    (filter.stack internalTid) = closed at unchanged
  have onTop : closed.stack = (outer.map Transaction.slice).reverse ++ [innermost.slice] := by
    rw [unchanged.2, Activity.openSlices, nested, map_cons, reverse_cons]
  rcases records.pending internalTid innermost (by simp [nested]) with
    ⟨row, read, -, -, -, pending⟩
  rw [← records.size] at few
  have leaves :=
    SliceFilter.leaves_endSlice_top records.synchronous closing onTop
      (by rw [unchanged.1]; exact CallStack.rowAt_of_few few read) pending
  rwa [unchanged.1] at leaves

theorem lt_begun {slice : Nat} (member : slice ∈ activity.openSlices internalTid) :
    slice < activity.begun := by
  rcases Activity.mem_openSlices.1 member with ⟨inner, inNest, rfl⟩
  rcases records.pending internalTid inner inNest with ⟨row, read, -⟩
  rw [← records.size]
  exact (List.getElem?_eq_some_iff.1 read).1

theorem span_lt_begun {span : Span}
    (member : span ∈ activity.spans) : span.slice < activity.begun := by
  rcases (records.ended span member).1 with ⟨row, read, -⟩
  rw [← records.size]
  exact (List.getElem?_eq_some_iff.1 read).1

/-- A transaction begins a slice, within the depth limit. -/
theorem enter (few : activity.begun ≤ 2 ^ 32) (later : activity.now ≤ ts)
    (room : (activity.nest internalTid).length < SliceFilter.maxDepth)
    (role : Role) (transactionId : UInt64) :
    Records names (filter.beginSlice ts.toUInt64 internalTid names.binderCatalogId
      (names.sliceName role)).2 (activity.enter ts internalTid role transactionId) := by
  rcases records.leaves_enter few later room names.binderCatalogId
    (names.sliceName role) with ⟨row, leaves, isOpenRow⟩
  have old (index : Nat) (found : CallStackRow) (read : filter.slices[index]? = some found) :
    (filter.slices ++ [row])[index]? = some found := by
    have inside := (List.getElem?_eq_some_iff.1 read).1
    rw [getElem?_append_left inside, read]
  refine ⟨?_, leaves.synchronous, ?_, ?_, ?_, ?_⟩
  · rw [leaves.slices_eq, length_append, records.size]
    rfl
  · intro other
    rw [leaves.slices_eq, leaves.stack_eq]
    by_cases same : other = internalTid
    · subst same
      rw [update_self, Activity.openSlices_enter_self]
      exact Or.inl rfl
    · rw [update_of_ne same, Activity.openSlices_enter_of_ne same]
      exact (records.stack other).mono later fun index found read _ => old index found read
  · intro other
    by_cases same : other = internalTid
    · subst same
      rw [Activity.openSlices_enter_self, nodup_append]
      refine ⟨records.nodup other, nodup_singleton _, ?_⟩
      intro slice member fresh isFresh
      rw [mem_singleton] at isFresh
      have small := records.lt_begun member
      omega
    · rw [Activity.openSlices_enter_of_ne same]
      exact records.nodup other
  · intro other inner member
    rw [leaves.slices_eq]
    by_cases same : other = internalTid
    · subst same
      rw [Activity.nest_enter_self] at member
      rcases mem_cons.1 member with rfl | outer
      · refine ⟨row, ?_, isOpenRow⟩
        simp [← records.size]
      · rcases records.pending other inner outer with ⟨found, read, isOpen⟩
        exact ⟨found, old _ found read, isOpen⟩
    · rw [Activity.nest_enter_of_ne same] at member
      rcases records.pending other inner member with ⟨found, read, isOpen⟩
      exact ⟨found, old _ found read, isOpen⟩
  · intro span member
    have small := records.span_lt_begun member
    rcases records.ended span member with ⟨⟨found, read, isRow⟩, closed⟩
    refine ⟨⟨found, ?_, isRow⟩, ?_⟩
    · rw [leaves.slices_eq]
      exact old _ found read
    · intro other
      by_cases same : other = internalTid
      · subst same
        rw [Activity.openSlices_enter_self, mem_append, mem_singleton]
        rintro (isOpen | isFresh)
        · exact closed other isOpen
        · omega
      · rw [Activity.openSlices_enter_of_ne same]
        exact closed other

theorem oneWay (few : activity.begun ≤ 2 ^ 32) (later : activity.now ≤ ts)
    (internalTid : UInt32) (cat name : UInt64) :
    Records names (filter.asyncBinder ts.toUInt64 internalTid cat name).2 (activity.oneWay ts) := by
  rcases records.leaves_oneWay few later internalTid cat name with
    ⟨answer, row, stack, leaves, noTime, began, isStack⟩
  have old (index : Nat) (found : CallStackRow) (read : filter.slices[index]? = some found) :
    (filter.slices ++ [row])[index]? = some found := by
    have inside := (List.getElem?_eq_some_iff.1 read).1
    rw [getElem?_append_left inside, read]
  refine ⟨?_, leaves.synchronous, ?_, records.nodup, ?_, ?_⟩
  · rw [leaves.slices_eq, length_append, records.size]
    rfl
  · intro other
    rw [leaves.slices_eq, leaves.stack_eq]
    by_cases same : other = internalTid
    · subst same
      rw [update_self]
      rcases isStack with plain | withRow
      · exact Or.inl plain
      · refine Or.inr ⟨activity.begun, row, withRow, ?_, noTime, ?_⟩
        · simp [← records.size]
        · rw [began, Int64.toInt64_toUInt64]
          exact Int64.le_refl ts
    · rw [update_of_ne same]
      exact (records.stack other).mono later fun index found read _ => old index found read
  · intro other inner member
    rw [leaves.slices_eq]
    rcases records.pending other inner member with ⟨found, read, isOpen⟩
    exact ⟨found, old _ found read, isOpen⟩
  · intro span member
    rw [leaves.slices_eq]
    rcases records.ended span member with ⟨⟨found, read, isRow⟩, closed⟩
    exact ⟨⟨found, old _ found read, isRow⟩, closed⟩

theorem innermost_alone {innermost : Transaction} {outer : List Transaction}
    (nested : activity.nest internalTid = innermost :: outer)
    {other : UInt32} {inner : Transaction} (member :
      inner ∈ Function.update activity.nest internalTid outer other) :
    inner ∈ activity.nest other ∧ innermost.slice ≠ inner.slice := by
  by_cases same : other = internalTid
  · subst same
    rw [update_self] at member
    have nodup := records.nodup other
    rw [Activity.openSlices, nested, nodup_reverse, map_cons, nodup_cons] at nodup
    refine ⟨by simp [nested, member], ?_⟩
    intro sameSlice
    exact nodup.1 (mem_map.2 ⟨inner, member, sameSlice.symm⟩)
  · rw [update_of_ne same] at member
    refine ⟨member, ?_⟩
    intro sameSlice
    rcases records.pending internalTid innermost (by simp [nested]) with
      ⟨row, read, thread, -⟩
    rcases records.pending other inner member with
      ⟨found, readOther, otherThread, -⟩
    rw [← sameSlice, read, Option.some.injEq] at readOther
    subst readOther
    exact same (otherThread.symm.trans thread)

/-- A reply ends the slice of the innermost transaction. -/
theorem leave (few : activity.begun ≤ 2 ^ 32) (later : activity.now ≤ ts)
    {innermost : Transaction} {outer : List Transaction}
    (nested : activity.nest internalTid = innermost :: outer) :
    Records names (filter.endSlice ts.toUInt64 internalTid invalidUint64 invalidUint64).2
      (activity.leave ts internalTid) := by
  have leaves := records.leaves_leave few later nested
  rcases records.pending internalTid innermost (by simp [nested]) with
    ⟨row, read, thread, named, began, pending⟩
  have old (index : Nat) (different : innermost.slice ≠ index) :
    (filter.slices.setDuration innermost.slice ts.toUInt64)[index]? = filter.slices[index]? :=
    CallStack.getElem?_setDuration_of_ne _ different _
  have isOpen : innermost.slice ∈ activity.openSlices internalTid :=
    Activity.mem_openSlices.2 ⟨innermost, by simp [nested], rfl⟩
  have stillOpen (other : UInt32) (slice : Nat)
    (member : slice ∈ (activity.leave ts internalTid).openSlices other) :
    slice ∈ activity.openSlices other ∧ innermost.slice ≠ slice := by
    rcases Activity.mem_openSlices.1 member with ⟨inner, inNest, rfl⟩
    rw [Activity.nest_leave nested] at inNest
    rcases records.innermost_alone nested inNest with ⟨before, different⟩
    exact ⟨Activity.mem_openSlices.2 ⟨inner, before, rfl⟩, different⟩
  refine ⟨?_, leaves.synchronous, ?_, ?_, ?_, ?_⟩
  · rw [leaves.slices_eq, CallStack.length_setDuration, Activity.begun_leave]
    exact records.size
  · intro other
    rw [leaves.slices_eq, leaves.stack_eq]
    by_cases same : other = internalTid
    · subst same
      rw [update_self, Activity.openSlices_leave_self nested]
      exact Or.inl rfl
    · rw [update_of_ne same,
        Activity.openSlices_leave_of_ne nested same, Activity.leave_of_nest nested]
      refine (records.stack other).mono later ?_
      intro index found readFound noTime
      rw [old, readFound]
      rintro rfl
      rw [read, Option.some.injEq] at readFound
      subst readFound
      rw [pending] at noTime
      exact absurd noTime (by decide)
  · intro other
    by_cases same : other = internalTid
    · subst same
      have nodup := records.nodup other
      rw [Activity.openSlices, nested, nodup_reverse, map_cons, nodup_cons] at nodup
      rw [Activity.openSlices_leave_self nested, nodup_reverse]
      exact nodup.2
    · rw [Activity.openSlices_leave_of_ne nested same]
      exact records.nodup other
  · intro other inner member
    rw [Activity.nest_leave nested] at member
    rcases records.innermost_alone nested member with ⟨inNest, different⟩
    rw [leaves.slices_eq, old _ different]
    exact records.pending other inner inNest
  · intro span member
    rw [leaves.slices_eq]
    rw [Activity.leave_of_nest nested] at member
    rcases mem_cons.1 member with rfl | before
    · refine ⟨⟨_, CallStack.getElem?_setDuration_self read _, ?_⟩, ?_⟩
      · refine ⟨thread, named, began, ?_⟩
        rw [Int64.toUInt64_sub, began]
      · intro other isOpenThere
        exact (stillOpen other _ isOpenThere).2 rfl
    · rcases records.ended span before with ⟨⟨found, readSpan, isRow⟩, closed⟩
      refine ⟨⟨found, ?_, isRow⟩, ?_⟩
      · rw [old, readSpan]
        intro sameSlice
        rw [sameSlice] at isOpen
        exact closed internalTid isOpen
      · intro other isOpenThere
        exact closed other (stillOpen other _ isOpenThere).1

end

end Records

namespace BinderFilter

def Carries (filter : BinderFilter) (transactionId : UInt64) : Option Message → Prop
  | none =>
    transactionId ∉ filter.transReplyWaitingReply ∧ filter.transNeedReply transactionId = none ∧
      transactionId ∉ filter.asyncBinderEvents
  | some (.reply _) =>
    transactionId ∈ filter.transReplyWaitingReply ∧ filter.transNeedReply transactionId = none ∧
      transactionId ∉ filter.asyncBinderEvents
  | some .request =>
    transactionId ∉ filter.transReplyWaitingReply ∧
      (∃ caller, filter.transNeedReply transactionId = some caller) ∧
        transactionId ∉ filter.asyncBinderEvents
  | some .oneWay =>
    transactionId ∉ filter.transReplyWaitingReply ∧ filter.transNeedReply transactionId = none ∧
      transactionId ∈ filter.asyncBinderEvents

def AgreesAt (filter next : BinderFilter) (transactionId : UInt64) : Prop :=
  (transactionId ∈ next.transReplyWaitingReply ↔ transactionId ∈ filter.transReplyWaitingReply) ∧
    next.transNeedReply transactionId = filter.transNeedReply transactionId ∧
      (transactionId ∈ next.asyncBinderEvents ↔ transactionId ∈ filter.asyncBinderEvents)

variable {message : Option Message}

theorem Carries.of_agreesAt {filter next : BinderFilter} {transactionId : UInt64}
    (agrees : filter.AgreesAt next transactionId) (carries : filter.Carries transactionId message) :
    next.Carries transactionId message := by
  rcases agrees with ⟨sameReplies, sameRequests, sameOneWay⟩
  unfold Carries at carries ⊢
  rw [sameReplies, sameRequests, sameOneWay]
  exact carries

theorem carries_update {filter next : BinderFilter} {inFlight : UInt64 → Option Message}
    (carries : ∀ other, filter.Carries other (inFlight other)) {transactionId : UInt64}
    (here : next.Carries transactionId message)
    (elsewhere : ∀ other, other ≠ transactionId → filter.AgreesAt next other) (other : UInt64) :
    next.Carries other (Function.update inFlight transactionId message other) := by
  by_cases same : other = transactionId
  · subst same
    rwa [update_self]
  · rw [update_of_ne same]
    exact (carries other).of_agreesAt (elsewhere other same)

end BinderFilter

/-! ## The filter follows the conversation -/

/-- The slices are those of the nests, and the maps hold the messages. -/
structure BinderFollows (names : BinderNames) (filter : BinderFilter)
    (conversation : Conversation) : Prop where
  records : Records names filter.sliceFilter conversation.activity
  carries : ∀ transactionId, filter.Carries transactionId (conversation.inFlight transactionId)

theorem binderFollows_initial (names : BinderNames) :
    BinderFollows names BinderFilter.initial Conversation.initial := by
  refine ⟨records_initial names, fun transactionId => ?_⟩
  exact ⟨Finset.notMem_empty _, rfl, Finset.notMem_empty _⟩

theorem Conversation.nest_of_innermost {conversation : Conversation} {internalTid : UInt32}
    {innermost : Transaction} (isInnermost : innermost ∈ conversation.innermost internalTid) :
    ∃ outer, conversation.activity.nest internalTid = innermost :: outer :=
  head?_eq_some_iff.1 isInnermost

namespace BinderFollows

variable {names : BinderNames} {filter : BinderFilter}
  {conversation : Conversation}

section

variable (follows : BinderFollows names filter conversation)
include follows

theorem sendTraction (few : conversation.activity.begun ≤ 2 ^ 32)
    {ts : Int64} {tid : UInt32} {transactionId : UInt64} {destTid : UInt32}
    {isReply : Bool} {flags : UInt32} (allows : conversation.Allows
      (.sendTraction ts tid transactionId destTid isReply flags)) :
    BinderFollows names (filter.sendTraction names ts tid transactionId destTid isReply flags)
      (conversation.step (.sendTraction ts tid transactionId destTid isReply flags)) := by
  rcases allows with ⟨later, notInFlight, sends⟩
  have unused := follows.carries transactionId
  rw [notInFlight] at unused
  rcases unused with ⟨notReply, notRequest, notOneWay⟩
  cases isReply with
  | true =>
    rw [if_pos rfl] at sends
    rcases sends with ⟨served, isInnermost, -⟩
    rcases Conversation.nest_of_innermost isInnermost with ⟨outer, nested⟩
    rw [Option.mem_def] at isInnermost
    simp only [Conversation.step, BinderFilter.sendTraction, if_true, isInnermost]
    refine ⟨follows.records.leave few later nested, ?_⟩
    refine BinderFilter.carries_update follows.carries ?_ ?_
    · exact ⟨Finset.mem_insert_self _ _, notRequest, notOneWay⟩
    · intro other different
      exact ⟨by simp [different], rfl, Iff.rfl⟩
  | false =>
    rw [if_neg Bool.false_ne_true] at sends
    rcases sends with ⟨-, room⟩
    by_cases wantsReply : flags &&& noReturnMsgFlag = 0
    · simp only [Conversation.step, BinderFilter.sendTraction,
        Bool.false_eq_true, if_false, wantsReply, if_true]
      refine ⟨follows.records.enter few later (room wantsReply) .calling transactionId, ?_⟩
      refine BinderFilter.carries_update follows.carries ?_ ?_
      · exact ⟨notReply, ⟨tid, update_self _ _ _⟩, notOneWay⟩
      · intro other different
        exact ⟨Iff.rfl, update_of_ne different _ _, Iff.rfl⟩
    · simp only [Conversation.step, BinderFilter.sendTraction,
        Bool.false_eq_true, if_false, wantsReply]
      refine ⟨follows.records.oneWay few later tid _ _, ?_⟩
      refine BinderFilter.carries_update follows.carries ?_ ?_
      · exact ⟨notReply, notRequest, Finset.mem_insert_self _ _⟩
      · intro other different
        exact ⟨Iff.rfl, rfl, by simp [different]⟩

theorem receiveTraction (few : conversation.activity.begun ≤ 2 ^ 32)
    {ts : Int64} {pid : UInt32} {transactionId : UInt64}
    (allows : conversation.Allows (.receiveTraction ts pid transactionId)) :
    BinderFollows names (filter.receiveTraction names ts pid transactionId)
      (conversation.step (.receiveTraction ts pid transactionId)) := by
  rcases allows with ⟨later, receives⟩
  have carried := follows.carries transactionId
  cases sent : conversation.inFlight transactionId with
  | none =>
    rw [sent] at receives
    exact receives.elim
  | some message =>
    rw [sent] at receives carried
    cases message with
    | reply request =>
      rcases receives with ⟨waiting, isInnermost, -⟩
      rcases Conversation.nest_of_innermost isInnermost with
        ⟨outer, nested⟩
      rcases carried with ⟨isReply, notRequest, notOneWay⟩
      simp only [Conversation.step, BinderFilter.receiveTraction, sent, isReply, if_true]
      refine ⟨follows.records.leave few later nested, ?_⟩
      refine BinderFilter.carries_update follows.carries ?_ ?_
      · exact ⟨Finset.notMem_erase _ _, notRequest, notOneWay⟩
      · intro other different
        exact ⟨by simp [different], rfl, Iff.rfl⟩
    | request =>
      rcases carried with ⟨notReply, ⟨caller, isRequest⟩, notOneWay⟩
      simp only [Conversation.step, BinderFilter.receiveTraction, sent,
        notReply, if_false, isRequest]
      refine ⟨follows.records.enter few later receives .serving transactionId, ?_⟩
      refine BinderFilter.carries_update follows.carries ?_ ?_
      · exact ⟨notReply, update_self _ _ _, notOneWay⟩
      · intro other different
        exact ⟨Iff.rfl, update_of_ne different _ _, Iff.rfl⟩
    | oneWay =>
      rcases carried with ⟨notReply, notRequest, isOneWay⟩
      simp only [Conversation.step, BinderFilter.receiveTraction, sent,
        notReply, if_false, notRequest, isOneWay, if_true]
      refine ⟨follows.records.oneWay few later pid _ _, ?_⟩
      refine BinderFilter.carries_update follows.carries ?_ ?_
      · exact ⟨notReply, notRequest, Finset.notMem_erase _ _⟩
      · intro other different
        exact ⟨Iff.rfl, rfl, by simp [different]⟩

theorem step (few : conversation.activity.begun ≤ 2 ^ 32) {event : BinderEvent}
    (allows : conversation.Allows event) :
    BinderFollows names (filter.step names event) (conversation.step event) := by
  cases event with
  | sendTraction ts tid transactionId destTid isReply flags => exact follows.sendTraction few allows
  | receiveTraction ts pid transactionId => exact follows.receiveTraction few allows

end

end BinderFollows

theorem Conversation.begun_le_step (conversation : Conversation) (event : BinderEvent) :
    conversation.activity.begun ≤ (conversation.step event).activity.begun := by
  cases event with
  | sendTraction ts tid transactionId destTid isReply flags =>
    simp only [step]
    split_ifs
    · split
      · exact le_refl _
      · exact (Activity.begun_leave _ _ _).ge
    · exact Nat.le_succ _
    · exact Nat.le_succ _
  | receiveTraction ts pid transactionId =>
    simp only [step]
    split
    · exact le_refl _
    · exact (Activity.begun_leave _ _ _).ge
    · exact Nat.le_succ _
    · exact Nat.le_succ _

theorem Conversation.begun_le_run (conversation : Conversation) (events : List BinderEvent) :
    conversation.activity.begun ≤ (run Conversation.step conversation events).activity.begun := by
  induction events generalizing conversation with
  | nil => exact le_refl _
  | cons event rest induction =>
    exact (conversation.begun_le_step event).trans (induction (conversation.step event))

theorem BinderFollows.run
    {names : BinderNames} {filter : BinderFilter} {conversation : Conversation}
    {events : List BinderEvent} (follows : BinderFollows names filter conversation) (allows :
      EachStep Conversation.step Conversation.Allows conversation events) (few :
      (Foundation.run Conversation.step conversation events).activity.begun ≤ 2 ^ 32) :
    BinderFollows names (Foundation.run (BinderFilter.step names) filter events)
      (Foundation.run Conversation.step conversation events) := by
  induction events generalizing filter conversation with
  | nil => exact follows
  | cons event rest induction =>
    have now := (conversation.begun_le_run (event :: rest)).trans few
    exact induction (follows.step now allows.1) allows.2 few

/--
As long as row numbers fit in 32 bits, every transaction that a thread has ended
has its own slice with its own times.
-/
theorem closesOwnSlices (names : BinderNames) {events : List BinderEvent}
    (nested : ProperlyNested events) (few : (Conversation.after events).activity.begun ≤ 2 ^ 32) :
    ClosesOwnSlices names events := by
  have follows := (binderFollows_initial names).run nested few
  intro span member
  exact (follows.records.ended span member).1

def someNames : BinderNames := ⟨0, 1, 2, 3, 4⟩

def callWithin : List BinderEvent :=
  [.sendTraction 10 1 1 2 false 0, .receiveTraction 12 2 1,
    .sendTraction 13 2 2 3 false 1, .sendTraction 14 2 3 1 false 0,
    .receiveTraction 15 1 3, .sendTraction 16 1 4 2 true 0,
    .receiveTraction 18 2 4, .sendTraction 20 2 5 1 true 0,
    .receiveTraction 25 1 5]

theorem closesOwnSlices_callWithin :
    ProperlyNested callWithin ∧ (Conversation.after callWithin).activity.begun ≤ 2 ^ 32 ∧
      ClosesOwnSlices someNames callWithin := by
  have nested : ProperlyNested callWithin := by decide
  have few : (Conversation.after callWithin).activity.begun ≤ 2 ^ 32 := by decide
  exact ⟨nested, few, closesOwnSlices someNames nested few⟩

def call (request reply : UInt64) : List BinderEvent :=
  [.sendTraction 0 1 request 2 false 0, .receiveTraction 0 2 request,
    .sendTraction 0 2 reply 1 true 0, .receiveTraction 0 1 reply]

def calls (count : Nat) : List BinderEvent :=
  (range count).flatMap fun index =>
    call (UInt64.ofNat (2 * index)) (UInt64.ofNat (2 * index + 1))

def lastCall (oneWay request : UInt64) : List BinderEvent :=
  [.sendTraction 0 3 oneWay 4 false 1, .sendTraction 0 1 request 2 false 0]

/-- What the server of a call sees of it. -/
def serve (request reply : UInt64) : List BinderEvent :=
  [.receiveTraction 0 2 request, .sendTraction 0 2 reply 1 true 0]

def callBehind (count : Nat) : List BinderEvent :=
  calls count ++ (lastCall (UInt64.ofNat (2 * count)) (UInt64.ofNat (2 * count + 1)) ++
    serve (UInt64.ofNat (2 * count + 1)) (UInt64.ofNat (2 * count + 2)))

/-- No thread is in a transaction, and no message is under way. -/
def quiet (begun : Nat) (spans : List Span) (now : Int64) : Conversation :=
  ⟨⟨begun, fun _ => [], spans, now⟩, fun _ => none⟩

theorem call_of_quiet (begun : Nat) (spans : List Span) {now : Int64} (past : now ≤ 0)
    (request reply : UInt64) :
    EachStep Conversation.step Conversation.Allows (quiet begun spans now) (call request reply) ∧
      run Conversation.step (quiet begun spans now) (call request reply) = quiet (begun + 2)
        (⟨.calling, 1, begun, 0, 0⟩ :: ⟨.serving, 2, begun + 1, 0, 0⟩ :: spans) 0 := by
  constructor
  · simp [call, quiet, Conversation.Allows, Conversation.step,
      Conversation.post, Conversation.take, Conversation.innermost,
      Conversation.NotWaiting, Conversation.HasRoom, Conversation.MayReceive,
      Activity.enter, Activity.leave, SliceFilter.maxDepth, past]
  · have nests (outer : List Transaction) : Function.update (Function.update
      (Function.update (fun _ : UInt32 => []) 1 outer) 2 []) 1 [] =
      fun _ => [] := by
      ext1 internalTid
      by_cases first : internalTid = 1
      · simp [first]
      · simp [update_apply, first]
    simp [call, quiet, Conversation.step, Conversation.post,
      Conversation.take, Conversation.innermost, Activity.enter,
      Activity.leave, nests]

theorem calls_succ (count : Nat) : calls (count + 1) = calls count ++
    call (UInt64.ofNat (2 * count)) (UInt64.ofNat (2 * count + 1)) := by
  simp [calls, range_succ]

theorem calls_quiet (count : Nat) :
    ProperlyNested (calls count) ∧ ∃ spans now, now ≤ 0 ∧ Conversation.after (calls count) =
      quiet (2 * count) spans now ∧ (0 < count → ⟨.calling, 1, 0, 0, 0⟩ ∈ spans) := by
  induction count with
  | zero => exact ⟨trivial, [], Int64.minValue, by decide, rfl, by simp⟩
  | succ count induction =>
    rcases induction with ⟨nested, spans, now, past, reached, first⟩
    rcases call_of_quiet (2 * count) spans past (UInt64.ofNat (2 * count))
      (UInt64.ofNat (2 * count + 1)) with ⟨allowed, after⟩
    rw [← reached] at allowed after
    rw [Conversation.after, ← run_append, ← calls_succ] at after
    refine ⟨?_, _, 0, by decide, after, ?_⟩
    · rw [calls_succ]
      exact (eachStep_append _ _ _ _ _).2 ⟨nested, allowed⟩
    · intro _
      by_cases positive : 0 < count
      · simp [first positive]
      · have isZero : count = 0 := by omega
        simp [isZero]

theorem serve_behind {names : BinderNames} {filter : BinderFilter} {conversation : Conversation}
    (follows : BinderFollows names filter conversation)
    (size : conversation.activity.begun = 2 ^ 32) (past : conversation.activity.now ≤ 0)
    (idle : conversation.activity.nest 2 = [])
    (first : ⟨.calling, 1, 0, 0, 0⟩ ∈ conversation.activity.spans)
    {request : UInt64} (sent : conversation.inFlight request = some .request) (reply : UInt64) :
    ∃ row, (run (BinderFilter.step names) filter (serve request reply)).sliceFilter.slices[
      conversation.activity.begun]? = some row ∧ row.dur = invalidUint64 := by
  have room : (conversation.activity.nest 2).length < SliceFilter.maxDepth := by
    rw [idle]
    decide
  rcases follows.records.leaves_enter size.le past room names.binderCatalogId
    names.replyId with ⟨row, began, -, -, -, pending⟩
  have opened : conversation.activity.openSlices 2 = [] := by
    rw [Activity.openSlices, idle]
    rfl
  rw [opened, nil_append] at began
  rcases (follows.records.ended _ first).1 with
    ⟨firstRow, readFirst, -, -, atZero, noTime⟩
  have inside := (List.getElem?_eq_some_iff.1 readFirst).1
  have carried := follows.carries request
  rw [sent] at carried
  rcases carried with ⟨notReply, ⟨caller, isRequest⟩, -⟩
  have served : (run (BinderFilter.step names) filter (serve request reply)).sliceFilter =
    ((filter.sliceFilter.beginSlice (0 : Int64).toUInt64 2
      names.binderCatalogId names.replyId).2.endSlice
      (0 : Int64).toUInt64 2 invalidUint64 invalidUint64).2 := by
    simp [serve, BinderFilter.step, BinderFilter.receiveTraction,
      BinderFilter.sendTraction, notReply, isRequest]
  rw [served]
  generalize (filter.sliceFilter.beginSlice (0 : Int64).toUInt64 2 names.binderCatalogId
    names.replyId) = begin at began
  have stack : begin.2.stack 2 = [conversation.activity.begun] := by
    rw [began.stack_eq, update_self]
  have read : begin.2.slices.rowAt conversation.activity.begun = some firstRow := by
    rw [CallStack.rowAt, size, Nat.mod_self, began.slices_eq,
      getElem?_append_left inside, readFirst]
  have closing : SliceFilter.closeUnMatchedSlice (0 : Int64).toUInt64.toInt64
    begin.2.slices (begin.2.stack 2) = ⟨begin.2.slices, [], false⟩ := by
    rw [stack]
    exact SliceFilter.closeUnMatchedSlice_completedTop read
      (by rw [noTime]; decide) (by rw [noTime, atZero]; decide) []
  have finished : SliceFilter.Leaves begin.2 2
    (begin.2.endSlice (0 : Int64).toUInt64 2 invalidUint64 invalidUint64)
    none begin.2.slices [] :=
    SliceFilter.leaves_endSlice_unmatched began.synchronous closing rfl
  refine ⟨row, ?_, pending⟩
  rw [finished.slices_eq, began.slices_eq, ← follows.records.size]
  simp

theorem lastCall_of_quiet (begun : Nat) (spans : List Span) {now : Int64} (past : now ≤ 0)
    {oneWay request reply : UInt64} (different : request ≠ oneWay) (another : reply ≠ oneWay) :
    EachStep Conversation.step Conversation.Allows (quiet begun spans now)
      (lastCall oneWay request ++ serve request reply) ∧
      run Conversation.step (quiet begun spans now) (lastCall oneWay request) =
        ⟨⟨begun + 2, Function.update (fun _ => []) 1 [⟨.calling, request, begun + 1, 0⟩], spans, 0⟩,
          Function.update (Function.update (fun _ => none) oneWay (some .oneWay))
            request (some .request)⟩ ∧
        ⟨.serving, 2, begun + 2, 0, 0⟩ ∈ (run Conversation.step (quiet begun spans now)
          (lastCall oneWay request ++ serve request reply)).activity.spans := by
  have free : Function.update (Function.update (fun _ => none) oneWay (some Message.oneWay))
    request none reply = none := by
    simp [update_apply, another]
  refine ⟨?_, ?_, ?_⟩
  · simp [lastCall, serve, quiet, Conversation.Allows, Conversation.step,
      Conversation.post, Conversation.take, Conversation.innermost,
      Conversation.NotWaiting, Conversation.HasRoom, Conversation.MayReceive,
      Activity.enter, Activity.leave, Activity.oneWay, SliceFilter.maxDepth,
      noReturnMsgFlag, past, different, free]
  · simp [lastCall, quiet, Conversation.step, Conversation.post,
      Activity.enter, Activity.oneWay, noReturnMsgFlag]
  · simp [lastCall, serve, quiet, Conversation.step, Conversation.post,
      Conversation.take, Conversation.innermost, Activity.enter,
      Activity.leave, Activity.oneWay, noReturnMsgFlag]

theorem not_closesOwnSlices_callBehind : ProperlyNested (callBehind (2 ^ 31 - 1)) ∧
    ¬ ClosesOwnSlices someNames (callBehind (2 ^ 31 - 1)) := by
  have size : 2 * (2 ^ 31 - 1) + 2 = 2 ^ 32 := by norm_num
  generalize 2 ^ 31 - 1 = count at size
  rcases calls_quiet count with ⟨nested, spans, now, past, reached, first⟩
  have different : UInt64.ofNat (2 * count + 1) ≠ UInt64.ofNat (2 * count) := by
    intro same
    have values := congrArg UInt64.toNat same
    simp only [UInt64.toNat_ofNat'] at values
    omega
  have another : UInt64.ofNat (2 * count + 2) ≠ UInt64.ofNat (2 * count) := by
    intro same
    have values := congrArg UInt64.toNat same
    simp only [UInt64.toNat_ofNat'] at values
    omega
  rcases lastCall_of_quiet (2 * count) spans past different another with
    ⟨allowed, called, ended⟩
  rw [← reached] at allowed called ended
  rw [Conversation.after, ← run_append, ← Conversation.after] at called ended
  have allowedBefore := ((eachStep_append _ _ _ _ _).1 allowed).1
  have nestedBefore := (eachStep_append _ _ _ _ _).2 ⟨nested, allowedBefore⟩
  have few := size.le
  refine ⟨(eachStep_append _ _ _ _ _).2 ⟨nested, allowed⟩, ?_⟩
  intro closes
  rcases closes _ ended with ⟨row, read, -, -, -, noTime⟩
  have follows := (binderFollows_initial someNames).run nestedBefore
  rw [← Conversation.after, called] at follows
  rcases serve_behind (follows few) size (Int64.le_refl 0) rfl
    (first (by omega)) (update_self _ _ _)
    (UInt64.ofNat (2 * count + 2)) with ⟨stillOpen, readOpen, pending⟩
  rw [← run_append, append_assoc] at readOpen
  rw [BinderFilter.after, callBehind] at read
  rw [read, Option.some.injEq] at readOpen
  subst readOpen
  have complete : ((0 : Int64) - 0).toUInt64 = invalidUint64 := noTime.symm.trans pending
  exact absurd complete (by decide)

end SysAnalyzer.Filter
