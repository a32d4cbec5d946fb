import SysAnalyzer.Filter.SliceNesting
import SysAnalyzer.Filter.SliceAbandoned

/-!
# Slices beyond the depth limit

A begin that finds 255 slices on its stack appends a row, but no stack entry.
Its end is handled like any other and looks for the topmost incomplete entry
that its category and name fit.  Which slices end correctly is therefore decided
by the categories and names of the ends alone: an end within the limit has to fit
its own slice, and an end beyond the limit must fit none of the 255 slices on the
stack.  An end that leaves category and name invalid fits every slice, so that a
trace of such ends that goes beyond the limit always closes a wrong one.
-/

namespace SysAnalyzer.Filter

open Foundation List Function Option

namespace SliceCall

def event : SliceCall → SliceEvent
  | .beginSlice internalTid timeStamp cat name
  | .beginBinder internalTid timeStamp cat name
  | .asyncBinder internalTid timeStamp cat name => .beginSlice internalTid timeStamp cat name
  | .endSlice internalTid timeStamp _ _
  | .endBinder internalTid timeStamp _ _ => .endSlice internalTid timeStamp

/-- A `BeginSlice` or an `EndSlice` of the given thread. -/
def IsSliceOf (thread : UInt32) : SliceCall → Prop
  | .beginSlice internalTid _ _ _ => internalTid = thread
  | .endSlice internalTid _ _ _ => internalTid = thread
  | _ => False

def begun : SliceCall → Option (UInt64 × UInt64 × UInt64)
  | .beginSlice _ timeStamp cat name => some (timeStamp, cat, name)
  | _ => none

end SliceCall

def callNesting (calls : List SliceCall) : Nesting := Nesting.after (calls.map SliceCall.event)

def begunSlices (calls : List SliceCall) : List (UInt64 × UInt64 × UInt64) :=
  calls.filterMap SliceCall.begun

def FitsSlice (begun : List (UInt64 × UInt64 × UInt64))
    (category name : UInt64) (slice : Nat) : Prop :=
  ∃ timeStamp cat sliceName, begun[slice]? = some (timeStamp, cat, sliceName) ∧
    Fits category name cat sliceName

def outermost (opened : List Nat) : List Nat := opened.drop (opened.length - SliceFilter.maxDepth)

/--
An end within the depth limit fits its own slice, and an end beyond the limit
fits none of the outermost slices up to the limit.
-/
def Distinguishes (begun : List (UInt64 × UInt64 × UInt64)) (opened : List Nat)
    (category name : UInt64) : Prop :=
  if opened.length ≤ SliceFilter.maxDepth then
    ∀ own ∈ opened.head?, FitsSlice begun category name own
  else ∀ slice ∈ outermost opened, ¬ FitsSlice begun category name slice

def EndsDistinguish (thread : UInt32) (calls : List SliceCall) : Prop :=
  ∀ before timeStamp category name behind,
    calls = before ++ .endSlice thread timeStamp category name :: behind →
      Distinguishes (begunSlices before) ((callNesting before).opened thread) category name

/--
Every end closes the slice of its own begin, whose row then spans the time
between the two, or changes no duration, when that begin was refused.
-/
def EndsCloseOwn (thread : UInt32) (calls : List SliceCall) : Prop :=
  ∀ before beginTs cat name middle endTs category endName behind, calls =
    before ++ .beginSlice thread beginTs cat name ::
      (middle ++ .endSlice thread endTs category endName :: behind) →
    ((callNesting (before ++ .beginSlice thread beginTs cat name :: middle)
      ).opened thread).head? =
      some (callNesting before).begun →
    let reached :=
      SliceFilter.afterCalls (before ++ .beginSlice thread beginTs cat name :: middle)
    let ended := reached.handleCall (.endSlice thread endTs category endName)
    match ((SliceFilter.afterCalls before).handleCall
      (.beginSlice thread beginTs cat name)).1 with
    | some row =>
      ended.1 = some row ∧ ∃ final, (SliceFilter.afterCalls calls).slices[row]? = some final ∧
        final.dur = endTs - beginTs
    | none => ended.2.slices.map CallStackRow.dur = reached.slices.map CallStackRow.dur

section Outermost

theorem outermost_of_le {opened : List Nat} (short : opened.length ≤ SliceFilter.maxDepth) :
    outermost opened = opened := by
  rw [outermost, Nat.sub_eq_zero_of_le short, drop_zero]

theorem outermost_cons_of_le {opened : List Nat} (deep : SliceFilter.maxDepth ≤ opened.length)
    (slice : Nat) : outermost (slice :: opened) = outermost opened := by
  rw [outermost, outermost, length_cons, Nat.succ_sub deep, drop_succ_cons]

theorem length_outermost (opened : List Nat) :
    (outermost opened).length = min opened.length SliceFilter.maxDepth := by
  rw [outermost, length_drop]
  omega

theorem mem_of_mem_outermost {opened : List Nat} {slice : Nat} (member : slice ∈ outermost opened) :
    slice ∈ opened :=
  mem_of_mem_drop member

end Outermost

theorem callNesting_concat (calls : List SliceCall) (call : SliceCall) :
    callNesting (calls ++ [call]) = (callNesting calls).step call.event := by
  rw [callNesting, Nesting.after, map_append, run_append]
  rfl

theorem afterCalls_concat (calls : List SliceCall) (call : SliceCall) :
    SliceFilter.afterCalls (calls ++ [call]) = (SliceFilter.afterCalls calls).stepCall call := by
  rw [SliceFilter.afterCalls, run_append]
  rfl

theorem valid_callNesting (calls : List SliceCall) : (callNesting calls).Valid :=
  Nesting.valid_initial.run _

theorem begun_eq_length {thread : UInt32} {calls : List SliceCall}
    (slices : ∀ call ∈ calls, call.IsSliceOf thread) :
    (callNesting calls).begun = (begunSlices calls).length := by
  induction calls using reverseRecOn with
  | nil => rfl
  | append_singleton calls call induction =>
    have earlier := induction fun other member => slices other (mem_append_left _ member)
    have isSlice := slices call (by simp)
    rw [callNesting_concat, begunSlices, filterMap_append, length_append, ← begunSlices, ← earlier]
    cases call with
    | beginSlice => rfl
    | endSlice => rfl
    | beginBinder => exact isSlice.elim
    | asyncBinder => exact isSlice.elim
    | endBinder => exact isSlice.elim

/-! ## The stack beyond the limit -/

def CallStackRow.begun (row : CallStackRow) : UInt64 × UInt64 × UInt64 :=
  (row.timeStamp, row.cat, row.name)

/--
The filter has one row for every begin, and the stack of the thread holds the
outermost open slices, with durations of -1.
-/
structure Limited (thread : UInt32) (filter : SliceFilter) (opened : List Nat)
    (begun : List (UInt64 × UInt64 × UInt64)) : Prop where
  synchronous : filter.Synchronous
  rows : filter.slices.map CallStackRow.begun = begun
  stack : filter.stack thread = (outermost opened).reverse
  pending : ∀ slice ∈ outermost opened, ∃ row,
    filter.slices[slice]? = some row ∧ row.dur = invalidUint64

namespace Limited

variable {thread : UInt32} {filter : SliceFilter} {opened : List Nat}
  {begun : List (UInt64 × UInt64 × UInt64)}
  (limited : Limited thread filter opened begun)

include limited

theorem size : filter.slices.length = begun.length := by rw [← limited.rows, length_map]

theorem rowAt_entry (few : begun.length ≤ 2 ^ 32) {slice : Nat}
    (member : slice ∈ filter.stack thread) : filter.slices.rowAt slice = filter.slices[slice]? := by
  rw [limited.stack, mem_reverse] at member
  rcases limited.pending slice member with ⟨row, read, -⟩
  have inside := (List.getElem?_eq_some_iff.1 read).1
  rw [limited.size] at inside
  rw [CallStack.rowAt, Nat.mod_eq_of_lt (by omega)]

theorem incomplete (few : begun.length ≤ 2 ^ 32) : ∀ slice ∈ filter.stack thread, ∃ row,
    filter.slices.rowAt slice = some row ∧ row.dur = invalidUint64 := by
  intro slice member
  rw [limited.rowAt_entry few member]
  rw [limited.stack, mem_reverse] at member
  exact limited.pending slice member

theorem pending_append {added : CallStackRow} {slice : Nat} (member : slice ∈ outermost opened) :
    ∃ row, (filter.slices ++ [added])[slice]? = some row ∧ row.dur = invalidUint64 := by
  rcases limited.pending slice member with ⟨row, read, pending⟩
  have inside := (List.getElem?_eq_some_iff.1 read).1
  exact ⟨row, by rw [getElem?_append_left inside, read], pending⟩

section

variable (few : begun.length ≤ 2 ^ 32)
include few

theorem beginSlice (timeStamp cat name : UInt64) : (filter.beginSlice timeStamp thread cat name).1 =
    (if opened.length < SliceFilter.maxDepth then some begun.length else none) ∧
    Limited thread (filter.beginSlice timeStamp thread cat name).2
      (begun.length :: opened) (begun ++ [(timeStamp, cat, name)]) ∧
    ∃ row, (filter.beginSlice timeStamp thread cat name).2.slices = filter.slices ++ [row] := by
  have unchanged :=
    SliceFilter.closeUnMatchedSlice_of_incomplete (limited.incomplete few) timeStamp.toInt64
  generalize closing : SliceFilter.closeUnMatchedSlice timeStamp.toInt64 filter.slices
    (filter.stack thread) = closed at unchanged
  rcases unchanged with ⟨sameSlices, sameStack⟩
  have depth : closed.stack.length = min opened.length SliceFilter.maxDepth := by
    rw [sameStack, limited.stack, length_reverse, length_outermost]
  by_cases room : opened.length < SliceFilter.maxDepth
  · have leaves :=
      SliceFilter.leaves_startSlice_accepted limited.synchronous invalidUint64 cat
        name closing (by omega)
    rw [sameSlices, sameStack, limited.size] at leaves
    have all : outermost (begun.length :: opened) = begun.length :: opened := outermost_of_le room
    rw [if_pos room]
    refine ⟨leaves.answer_eq, ⟨leaves.synchronous, ?_, ?_, ?_⟩, _, leaves.slices_eq⟩
    · rw [SliceFilter.beginSlice, leaves.slices_eq, map_append, limited.rows]
      rfl
    · rw [SliceFilter.beginSlice, leaves.stack_eq, update_self,
        limited.stack, outermost_of_le room.le, all, reverse_cons]
    · intro slice member
      rw [SliceFilter.beginSlice, leaves.slices_eq]
      rw [all] at member
      rcases mem_cons.1 member with fresh | old
      · rw [fresh, ← limited.size, getElem?_concat_length]
        exact ⟨_, rfl, rfl⟩
      · exact limited.pending_append (by rwa [outermost_of_le room.le])
  · have deep := not_lt.1 room
    have leaves :=
      SliceFilter.leaves_startSlice_refused limited.synchronous invalidUint64 cat
        name closing (by omega)
    rw [sameSlices, sameStack] at leaves
    rw [if_neg room]
    refine ⟨leaves.answer_eq, ⟨leaves.synchronous, ?_, ?_, ?_⟩, _, leaves.slices_eq⟩
    · rw [SliceFilter.beginSlice, leaves.slices_eq, map_append, limited.rows]
      rfl
    · rw [SliceFilter.beginSlice, leaves.stack_eq, update_self,
        limited.stack, outermost_cons_of_le deep]
    · intro slice member
      rw [outermost_cons_of_le deep] at member
      rw [SliceFilter.beginSlice, leaves.slices_eq]
      exact limited.pending_append member

theorem matchesAt_iff (category name : UInt64) (i : Nat) :
    SliceFilter.matchesAt filter.slices (filter.stack thread) category name i = true ↔
      ∃ slice, (filter.stack thread)[i]? = some slice ∧ FitsSlice begun category name slice := by
  rw [SliceFilter.matchesAt_iff]
  constructor
  · rintro ⟨slice, row, entry, read, -, fits⟩
    rw [limited.rowAt_entry few (mem_of_getElem? entry)] at read
    refine ⟨slice, entry, row.timeStamp, row.cat, row.name, ?_, fits⟩
    rw [← limited.rows, getElem?_map, read]
    rfl
  · rintro ⟨slice, entry, timeStamp, cat, sliceName, read, fits⟩
    rw [← limited.rows, getElem?_map] at read
    rcases map_eq_some_iff.1 read with ⟨row, readRow, same⟩
    rcases limited.incomplete few slice (mem_of_getElem? entry) with
      ⟨other, readOther, pending⟩
    have sameRow := readOther
    rw [limited.rowAt_entry few (mem_of_getElem? entry), readRow, some.injEq] at sameRow
    subst sameRow
    simp only [CallStackRow.begun, Prod.mk.injEq] at same
    rcases same with ⟨-, rfl, rfl⟩
    exact ⟨slice, row, entry, readOther, pending, fits⟩

theorem endSlice_cases (timeStamp category name : UInt64) :
    ((∀ slice ∈ outermost opened, ¬ FitsSlice begun category name slice) ∧
      SliceFilter.Leaves filter thread (filter.endSlice timeStamp thread category name)
        none filter.slices (filter.stack thread)) ∨
    ∃ slice ∈ outermost opened, FitsSlice begun category name slice ∧ ∃ stack,
      SliceFilter.Leaves filter thread (filter.endSlice timeStamp thread category name)
        (some slice) (filter.slices.setDuration slice timeStamp) stack := by
  have unchanged :=
    SliceFilter.closeUnMatchedSlice_of_incomplete (limited.incomplete few) timeStamp.toInt64
  generalize closing : SliceFilter.closeUnMatchedSlice timeStamp.toInt64 filter.slices
    (filter.stack thread) = closed at unchanged
  rcases closed with ⟨slices, stack, incomplete⟩
  rcases unchanged with ⟨rfl, rfl⟩
  cases isMatch : SliceFilter.matchingIncompleteSliceIndex filter.slices (filter.stack thread)
    category name with
  | none =>
    refine Or.inl ⟨?_, SliceFilter.leaves_endSlice_unmatched limited.synchronous closing isMatch⟩
    intro slice member fits
    rw [← mem_reverse, ← limited.stack] at member
    rcases getElem?_of_mem member with ⟨i, entry⟩
    have inside := (List.getElem?_eq_some_iff.1 entry).1
    have unmatched := find?_eq_none.1 isMatch i (by simpa using inside)
    exact unmatched ((limited.matchesAt_iff few category name i).2 ⟨slice, entry, fits⟩)
  | some stackIdx =>
    rcases SliceFilter.matchingIncompleteSliceIndex_eq_some isMatch with
      ⟨-, here⟩
    rcases (limited.matchesAt_iff few category name stackIdx).1 here with
      ⟨slice, entry, fits⟩
    have member : slice ∈ outermost opened := by
      rw [← mem_reverse, ← limited.stack]
      exact mem_of_getElem? entry
    exact Or.inr ⟨slice, member, fits, _,
      SliceFilter.leaves_endSlice_matched limited.synchronous closing isMatch entry⟩

theorem endSlice_own {own : Nat} {outer : List Nat} (split : outermost opened = own :: outer)
    {category name : UInt64} (fits : FitsSlice begun category name own) (timeStamp : UInt64) :
    SliceFilter.Leaves filter thread (filter.endSlice timeStamp thread category name)
      (some own) (filter.slices.setDuration own timeStamp) outer.reverse := by
  have stack : filter.stack thread = outer.reverse ++ [own] := by
    rw [limited.stack, split, reverse_cons]
  have unchanged :=
    SliceFilter.closeUnMatchedSlice_of_incomplete (limited.incomplete few) timeStamp.toInt64
  generalize closing : SliceFilter.closeUnMatchedSlice timeStamp.toInt64 filter.slices
    (filter.stack thread) = closed at unchanged
  have top :=
    (limited.matchesAt_iff few category name outer.reverse.length).2
      ⟨own, by rw [stack, getElem?_concat_length], fits⟩
  rw [stack] at unchanged top
  have isMatch : SliceFilter.matchingIncompleteSliceIndex closed.slices closed.stack
    category name = some outer.reverse.length := by
    rw [unchanged.1, unchanged.2, SliceFilter.matchingIncompleteSliceIndex_top, if_pos top]
  have entry : closed.stack[outer.reverse.length]? = some own := by
    rw [unchanged.2, getElem?_concat_length]
  have leaves := SliceFilter.leaves_endSlice_matched limited.synchronous closing isMatch entry
  simpa [unchanged.1, unchanged.2] using leaves

theorem endSlice_distinguished {own : Nat} {outer : List Nat}
    (split : opened = own :: outer) (nodup : opened.Nodup) {category name : UInt64}
    (distinguishes : Distinguishes begun opened category name) (timeStamp : UInt64) :
    Limited thread (filter.endSlice timeStamp thread category name).2 outer begun ∧
      if opened.length ≤ SliceFilter.maxDepth then
        (filter.endSlice timeStamp thread category name).1 = some own ∧
          (filter.endSlice timeStamp thread category name).2.slices =
            filter.slices.setDuration own timeStamp else
        (filter.endSlice timeStamp thread category name).2.slices = filter.slices := by
  subst split
  unfold Distinguishes at distinguishes
  by_cases short : (own :: outer).length ≤ SliceFilter.maxDepth
  · rw [if_pos short] at distinguishes ⊢
    have all := outermost_of_le short
    have allOuter : outermost outer = outer := by
      rw [length_cons] at short
      exact outermost_of_le (by omega)
    have leaves := limited.endSlice_own few all (distinguishes own rfl) timeStamp
    refine ⟨⟨leaves.synchronous, ?_, ?_, ?_⟩, leaves.answer_eq, leaves.slices_eq⟩
    · have ignores : CallStack.IgnoresDur CallStackRow.begun := fun _ _ => rfl
      rw [leaves.slices_eq, CallStack.map_setDuration ignores, limited.rows]
    · rw [leaves.stack_eq, update_self, allOuter]
    · intro slice member
      rw [allOuter] at member
      have other : own ≠ slice := by
        rintro rfl
        exact (nodup_cons.1 nodup).1 member
      rw [leaves.slices_eq, CallStack.getElem?_setDuration_of_ne _ other]
      refine limited.pending slice ?_
      rw [all]
      exact mem_cons_of_mem _ member
  · rw [if_neg short] at distinguishes ⊢
    have deep : SliceFilter.maxDepth ≤ outer.length := by
      rw [length_cons] at short
      omega
    have same : outermost (own :: outer) = outermost outer := outermost_cons_of_le deep own
    rcases limited.endSlice_cases few timeStamp category name with
      ⟨-, leaves⟩ | ⟨slice, member, fits, -⟩
    · refine ⟨⟨leaves.synchronous, ?_, ?_, ?_⟩, leaves.slices_eq⟩
      · rw [leaves.slices_eq, limited.rows]
      · rw [leaves.stack_eq, update_self, limited.stack, same]
      · intro slice member
        rw [leaves.slices_eq]
        exact limited.pending slice (by rwa [same])
    · exact absurd fits (distinguishes slice member)

end

end Limited

variable {second : List SliceCall}

theorem EndsDistinguish.of_append {thread : UInt32} {first : List SliceCall}
    (distinguish : EndsDistinguish thread (first ++ second)) : EndsDistinguish thread first := by
  intro before timeStamp category name behind split
  exact distinguish before timeStamp category name (behind ++ second)
    (by rw [split, append_assoc, cons_append])

structure SliceCalls (thread : UInt32) (calls : List SliceCall) : Prop where
  slices : ∀ call ∈ calls, call.IsSliceOf thread
  closes : EachStep Nesting.step Nesting.Closes Nesting.initial (calls.map SliceCall.event)

theorem SliceCalls.of_append {thread : UInt32} {first : List SliceCall}
    (closing : SliceCalls thread (first ++ second)) : SliceCalls thread first := by
  refine ⟨fun call member => closing.slices call (mem_append_left _ member), ?_⟩
  have closes := closing.closes
  rw [map_append, eachStep_append] at closes
  exact closes.1

variable {name : UInt64}

theorem SliceCalls.opened_ne_nil
    {thread : UInt32} {calls : List SliceCall} {timeStamp category : UInt64}
    (closing : SliceCalls thread (calls ++ [.endSlice thread timeStamp category name])) :
    (callNesting calls).opened thread ≠ [] := by
  have closes := closing.closes
  rw [map_append, eachStep_append] at closes
  exact closes.2.1 thread timeStamp rfl

theorem limited_after {thread : UInt32} {calls : List SliceCall} (closing : SliceCalls thread calls)
    (few : (begunSlices calls).length ≤ 2 ^ 32) (distinguish : EndsDistinguish thread calls) :
    Limited thread (SliceFilter.afterCalls calls)
      ((callNesting calls).opened thread) (begunSlices calls) := by
  induction calls using reverseRecOn with
  | nil =>
    have none : outermost ((callNesting []).opened thread) = [] := outermost_of_le (Nat.zero_le _)
    refine ⟨SliceFilter.sound_initial.synchronous, rfl, ?_, ?_⟩
    · rw [none]
      rfl
    · intro slice member
      rw [none] at member
      cases member
  | append_singleton calls call induction =>
    have size : (begunSlices calls).length ≤ (begunSlices (calls ++ [call])).length := by
      rw [begunSlices, begunSlices, filterMap_append, length_append]
      exact Nat.le_add_right _ _
    have fewEarlier := size.trans few
    have limited := induction closing.of_append fewEarlier distinguish.of_append
    have isSlice := closing.slices call (by simp)
    cases call with
    | beginSlice internalTid timeStamp cat name =>
      have isThread : internalTid = thread := isSlice
      subst isThread
      have next := (limited.beginSlice fewEarlier timeStamp cat name).2.1
      rw [← begun_eq_length closing.of_append.slices] at next
      rw [afterCalls_concat, callNesting_concat, begunSlices,
        filterMap_append, SliceCall.event, Nesting.opened_begin]
      exact next
    | endSlice internalTid timeStamp category name =>
      have isThread : internalTid = thread := isSlice
      subst isThread
      rcases exists_cons_of_ne_nil closing.opened_ne_nil with
        ⟨own, outer, opened⟩
      have next :=
        (limited.endSlice_distinguished fewEarlier opened
          ((valid_callNesting calls).nodup internalTid)
          (distinguish calls timeStamp category name [] rfl) timeStamp).1
      rw [afterCalls_concat, callNesting_concat, SliceCall.event,
        Nesting.opened_end, opened, tail_cons, begunSlices,
        filterMap_append]
      change Limited _ _ _ (begunSlices calls ++ [])
      rw [append_nil]
      exact next
    | beginBinder => exact isSlice.elim
    | asyncBinder => exact isSlice.elim
    | endBinder => exact isSlice.elim

namespace Nesting

theorem suffix_or_closed {nesting : Nesting} (valid : nesting.Valid) {thread : UInt32} {slice : Nat}
    {outer : List Nat} (begun : slice < nesting.begun) (opened :
      slice :: outer <:+ nesting.opened thread ∨
        slice ∉ nesting.opened thread) (events : List SliceEvent) :
    slice :: outer <:+ (run Nesting.step nesting events).opened thread ∨
      slice ∉ (run Nesting.step nesting events).opened thread := by
  induction events generalizing nesting with
  | nil => exact opened
  | cons event rest induction =>
    refine induction (valid.step event) (lt_of_lt_of_le begun (nesting.begun_le_step event)) ?_
    by_cases kept : slice ∈ (nesting.step event).opened thread
    · refine Or.inl ?_
      have before : slice ∈ nesting.opened thread := by
        rcases mem_opened_step kept with old | ⟨fresh, -, -⟩
        · exact old
        · omega
      have suffix : slice :: outer <:+ nesting.opened thread :=
        opened.resolve_right (not_not.2 before)
      by_cases other : thread = event.internalTid
      · subst other
        cases event with
        | beginSlice internalTid timeStamp cat name =>
          rw [SliceEvent.internalTid, opened_begin]
          exact suffix.trans (suffix_cons _ _)
        | endSlice internalTid timeStamp =>
          rw [SliceEvent.internalTid, opened_end] at kept ⊢
          rw [SliceEvent.internalTid] at suffix
          have nodup := valid.nodup internalTid
          rcases suffix with ⟨inner, split⟩
          rw [← split] at kept nodup ⊢
          cases inner with
          | nil => exact absurd kept (nodup_cons.1 nodup).1
          | cons first inner => exact suffix_append inner _
      · rw [opened_step_of_ne nesting other]
        exact suffix
    · exact Or.inr kept

end Nesting

variable {before middle : List SliceCall}

theorem opened_of_head {thread : UInt32} {beginTs cat : UInt64} (first :
    ((callNesting (before ++ .beginSlice thread beginTs cat name :: middle)
      ).opened thread).head? = some (callNesting before).begun) :
    (callNesting (before ++ .beginSlice thread beginTs cat name :: middle) ).opened thread =
      (callNesting before).begun :: (callNesting before).opened thread := by
  have nodup :=
    (valid_callNesting (before ++ .beginSlice thread beginTs cat name :: middle)).nodup thread
  have split : callNesting (before ++ .beginSlice thread beginTs cat name :: middle) =
    run Nesting.step ((callNesting before).step (.beginSlice thread beginTs cat name))
      (middle.map SliceCall.event) := by
    rw [callNesting, Nesting.after, map_append, run_append]
    rfl
  have isOpen : (callNesting before).begun :: (callNesting before).opened thread <:+
    ((callNesting before).step (.beginSlice thread beginTs cat name)).opened thread := by
    rw [Nesting.opened_begin]
  have place :=
    Nesting.suffix_or_closed ((valid_callNesting before).step _)
      (Nat.lt_succ_self _) (Or.inl isOpen) (middle.map SliceCall.event)
  rw [← split] at place
  rcases place with ⟨inner, suffix⟩ | closed
  · rw [← suffix] at first nodup ⊢
    cases inner with
    | nil => rfl
    | cons top inner =>
      rw [cons_append, head?_cons, some.injEq] at first
      subst first
      rw [cons_append, nodup_cons] at nodup
      exact absurd (mem_append_right _ mem_cons_self) nodup.1
  · exact absurd (mem_of_mem_head? first) closed

variable {slice : Nat}

theorem exists_begin {thread : UInt32} {calls : List SliceCall}
    (slices : ∀ call ∈ calls, call.IsSliceOf thread)
    (opened : slice ∈ (callNesting calls).opened thread) : ∃ before timeStamp cat name middle,
      calls = before ++ .beginSlice thread timeStamp cat name :: middle ∧
        (callNesting before).begun = slice := by
  induction calls using reverseRecOn with
  | nil => cases opened
  | append_singleton calls call induction =>
    rw [callNesting_concat] at opened
    rcases Nesting.mem_opened_step opened with old | ⟨fresh, -, more⟩
    · rcases induction (fun other member => slices other (mem_append_left _ member)) old
        with ⟨before, timeStamp, cat, name, middle, split, number⟩
      exact ⟨before, timeStamp, cat, name, middle ++ [call], by simp [split], number⟩
    · have isSlice := slices call (by simp)
      cases call with
      | beginSlice internalTid timeStamp cat name =>
        have isThread : internalTid = thread := isSlice
        subst isThread
        exact ⟨calls, timeStamp, cat, name, [], rfl, fresh.symm⟩
      | endSlice => exact absurd more (ne_of_lt (Nat.lt_succ_self _))
      | beginBinder => exact isSlice.elim
      | asyncBinder => exact isSlice.elim
      | endBinder => exact isSlice.elim

theorem begunSlices_append (first second : List SliceCall) :
    begunSlices (first ++ second) = begunSlices first ++ begunSlices second :=
  filterMap_append

theorem length_begunSlices_le (first second : List SliceCall) :
    (begunSlices first).length ≤ (begunSlices (first ++ second)).length := by
  rw [begunSlices_append, length_append]
  exact Nat.le_add_right _ _

variable {behind : List SliceCall}

theorem row_of_closed {thread : UInt32} {calls : List SliceCall}
    (closing : SliceCalls thread (calls ++ behind))
    (few : (begunSlices (calls ++ behind)).length ≤ 2 ^ 32)
    (distinguish : EndsDistinguish thread (calls ++ behind))
    (begun : slice < (begunSlices calls).length)
    (closed : slice ∉ (callNesting calls).opened thread) :
    slice ∉ (callNesting (calls ++ behind)).opened thread ∧
      (SliceFilter.afterCalls (calls ++ behind)).slices[slice]? =
        (SliceFilter.afterCalls calls).slices[slice]? := by
  induction behind using reverseRecOn with
  | nil => simpa using closed
  | append_singleton behind call induction =>
    rw [← append_assoc] at closing few distinguish ⊢
    have fewEarlier := (length_begunSlices_le _ _).trans few
    rcases induction closing.of_append fewEarlier distinguish.of_append with
      ⟨stillClosed, same⟩
    have limited := limited_after closing.of_append fewEarlier distinguish.of_append
    have size := limited.size
    have begunLater := begun.trans_le (length_begunSlices_le calls behind)
    have count := begun_eq_length closing.of_append.slices
    have isSlice := closing.slices call (by simp)
    rw [afterCalls_concat, callNesting_concat, ← same]
    generalize calls ++ behind = earlier at *
    refine ⟨?_, ?_⟩
    · intro back
      rcases Nesting.mem_opened_step back with old | ⟨fresh, -, -⟩
      · exact stillClosed old
      · omega
    · cases call with
      | beginSlice internalTid timeStamp cat name =>
        have isThread : internalTid = thread := isSlice
        subst isThread
        rcases (limited.beginSlice fewEarlier timeStamp cat name).2.2 with
          ⟨row, appended⟩
        change (SliceFilter.beginSlice _ _ _ _ _).2.slices[slice]? = _
        rw [appended, getElem?_append_left (by omega)]
      | endSlice internalTid timeStamp category name =>
        have isThread : internalTid = thread := isSlice
        subst isThread
        change (SliceFilter.endSlice _ _ _ _ _).2.slices[slice]? = _
        rcases limited.endSlice_cases fewEarlier timeStamp category name with
          ⟨-, leaves⟩ | ⟨other, member, -, stack, leaves⟩
        · rw [leaves.slices_eq]
        · have different : other ≠ slice := by
            rintro rfl
            exact stillClosed (mem_of_mem_outermost member)
          rw [leaves.slices_eq, CallStack.getElem?_setDuration_of_ne _ different]
      | beginBinder => exact isSlice.elim
      | asyncBinder => exact isSlice.elim
      | endBinder => exact isSlice.elim

theorem Limited.read_begun {thread : UInt32} {filter : SliceFilter} {opened : List Nat}
    {beginTs cat : UInt64} (limited : Limited thread filter opened
      (begunSlices (before ++ .beginSlice thread beginTs cat name :: middle))) :
    ∃ row, filter.slices[(begunSlices before).length]? = some row ∧ row.timeStamp = beginTs := by
  have read : (filter.slices.map CallStackRow.begun)[(begunSlices before).length]? =
    some (beginTs, cat, name) := by
    rw [limited.rows, begunSlices_append, List.getElem?_append_right (le_refl _), Nat.sub_self]
    rfl
  rw [getElem?_map] at read
  rcases map_eq_some_iff.1 read with ⟨row, readRow, same⟩
  exact ⟨row, readRow, congrArg Prod.fst same⟩

theorem endsCloseOwn_of_endsDistinguish {thread : UInt32} {calls : List SliceCall}
    (closing : SliceCalls thread calls) (few : (begunSlices calls).length ≤ 2 ^ 32)
    (distinguish : EndsDistinguish thread calls) : EndsCloseOwn thread calls := by
  intro before beginTs cat name middle endTs category endName behind split first
    reached ended
  have fromEnd : calls = (before ++ .beginSlice thread beginTs cat name :: middle) ++
    .endSlice thread endTs category endName :: behind := by
    simp [split]
  have behindEnd : calls = (before ++ .beginSlice thread beginTs cat name :: middle ++
    [.endSlice thread endTs category endName]) ++ behind := by
    simp [split]
  have closingBefore : SliceCalls thread before := (split ▸ closing).of_append
  have number := begun_eq_length closingBefore.slices
  have opened := opened_of_head first
  rw [number] at opened
  have fewBefore := (length_begunSlices_le _ _).trans (split ▸ few)
  have limitedBefore := limited_after closingBefore fewBefore (split ▸ distinguish).of_append
  have fewReached := (length_begunSlices_le _ _).trans (fromEnd ▸ few)
  have limited :=
    limited_after (fromEnd ▸ closing).of_append fewReached (fromEnd ▸ distinguish).of_append
  have atEnd :=
    limited.endSlice_distinguished fewReached opened ((valid_callNesting _).nodup thread)
      (distinguish _ endTs category endName behind fromEnd) endTs
  have answer := (limitedBefore.beginSlice fewBefore beginTs cat name).1
  change match (SliceFilter.beginSlice _ _ _ _ _).1 with | some row => _ | none => _
  rw [answer]
  rw [opened, length_cons] at atEnd
  by_cases room : ((callNesting before).opened thread).length < SliceFilter.maxDepth
  · rw [if_pos (Nat.succ_le_iff.2 room)] at atEnd
    rw [if_pos room]
    refine ⟨atEnd.2.1, ?_⟩
    rcases limited.read_begun with ⟨row, read, begun⟩
    have closed : (begunSlices before).length ∉ (callNesting
      (before ++ .beginSlice thread beginTs cat name :: middle ++
        [.endSlice thread endTs category endName])).opened thread := by
      rw [callNesting_concat]
      exact Nesting.closed_of_end (valid_callNesting _) opened endTs thread
    have begunBefore : (begunSlices before).length < (begunSlices
      (before ++ .beginSlice thread beginTs cat name :: middle ++
        [.endSlice thread endTs category endName])).length := by
      have inside := (List.getElem?_eq_some_iff.1 read).1
      rw [limited.size] at inside
      exact inside.trans_le (length_begunSlices_le _ _)
    have kept :=
      (row_of_closed (behindEnd ▸ closing) (behindEnd ▸ few)
        (behindEnd ▸ distinguish) begunBefore closed).2
    rw [← behindEnd, afterCalls_concat] at kept
    refine ⟨{ row with dur := endTs - row.timeStamp }, ?_, by rw [← begun]⟩
    rw [kept]
    change (SliceFilter.endSlice _ _ _ _ _).2.slices[_]? = _
    rw [atEnd.2.2, CallStack.getElem?_setDuration_self read]
  · rw [if_neg (mt Nat.succ_le_iff.1 room)] at atEnd
    rw [if_neg room]
    exact congrArg (map CallStackRow.dur) atEnd.2

theorem endsDistinguish_concat {thread : UInt32} {calls : List SliceCall} {call : SliceCall}
    (earlier : EndsDistinguish thread calls) (last : ∀ timeStamp category name,
      call = .endSlice thread timeStamp category name →
        Distinguishes (begunSlices calls) ((callNesting calls).opened thread)
          category name) : EndsDistinguish thread (calls ++ [call]) := by
  intro before timeStamp category name behind split
  rcases eq_nil_or_concat behind with rfl | ⟨inner, final, rfl⟩
  · rcases append_inj' split rfl with ⟨rfl, same⟩
    exact last timeStamp category name (singleton_inj.1 same)
  · rw [concat_eq_append, ← cons_append, ← append_assoc] at split
    rcases append_inj' split rfl with ⟨same, -⟩
    exact earlier before timeStamp category name inner same

theorem Limited.durations_ne {thread : UInt32} {filter : SliceFilter} {opened : List Nat}
    {begun : List (UInt64 × UInt64 × UInt64)} (limited : Limited thread filter opened begun)
    (member : slice ∈ outermost opened) {timeStamp : UInt64}
    (ordered : ∀ entry ∈ begun, entry.1 ≤ timeStamp) (valid : timeStamp ≠ invalidUint64) :
    (filter.slices.setDuration slice timeStamp).map CallStackRow.dur ≠
      filter.slices.map CallStackRow.dur := by
  rcases limited.pending slice member with ⟨row, read, pending⟩
  intro same
  have here := congrArg (fun durs => durs[slice]?) same
  simp only [getElem?_map, CallStack.getElem?_setDuration_self read, read,
    map_some, some.injEq, pending] at here
  refine SliceFilter.sub_ne_invalid (ordered row.begun ?_) valid here
  rw [← limited.rows]
  exact mem_map_of_mem (mem_of_getElem? read)

theorem begun_le_end {thread : UInt32} {timeStamp category : UInt64}
    (slices : ∀ call ∈ before, call.IsSliceOf thread) (ordered : TimeOrdered
      ((before ++ .endSlice thread timeStamp category name :: behind).map SliceCall.event)) :
    ∀ entry ∈ begunSlices before, entry.1 ≤ timeStamp := by
  intro entry member
  rcases mem_filterMap.1 member with ⟨call, inBefore, begun⟩
  have isSlice := slices call inBefore
  rw [map_append] at ordered
  have order :=
    (pairwise_append.1 ordered).2.2 call.event
      (mem_map_of_mem inBefore) (.endSlice thread timeStamp) (by simp [SliceCall.event])
  cases call with
  | beginSlice internalTid beginTs cat sliceName =>
    rw [SliceCall.begun, some.injEq] at begun
    rw [← begun]
    exact order isSlice
  | endSlice => cases begun
  | beginBinder => exact isSlice.elim
  | asyncBinder => exact isSlice.elim
  | endBinder => exact isSlice.elim

theorem endsDistinguish_of_endsCloseOwn {thread : UInt32} {calls : List SliceCall}
    (closing : SliceCalls thread calls) (few : (begunSlices calls).length ≤ 2 ^ 32)
    (ordered : TimeOrdered (calls.map SliceCall.event))
    (valid : ∀ call ∈ calls, call.timeStamp ≠ invalidUint64)
    (closeOwn : EndsCloseOwn thread calls) {reached rest : List SliceCall}
    (split : calls = reached ++ rest) : EndsDistinguish thread reached := by
  induction reached using reverseRecOn generalizing rest with
  | nil =>
    intro before timeStamp category name behind impossible
    simp at impossible
  | append_singleton reached call induction =>
    rw [append_assoc, singleton_append] at split
    have earlier := induction split
    refine endsDistinguish_concat earlier ?_
    rintro endTs category endName rfl
    have closingReached : SliceCalls thread reached := (split ▸ closing).of_append
    have fewReached := (length_begunSlices_le _ _).trans (split ▸ few)
    have limited := limited_after closingReached fewReached earlier
    have fromEnd : calls = (reached ++ [.endSlice thread endTs category endName]) ++ rest := by
      simp [split]
    rcases exists_cons_of_ne_nil (fromEnd ▸ closing).of_append.opened_ne_nil with
      ⟨own, outer, opened⟩
    have isOpen : own ∈ (callNesting reached).opened thread := by
      rw [opened]
      exact mem_cons_self
    rcases exists_begin closingReached.slices isOpen with
      ⟨before, beginTs, cat, name, middle, rfl, number⟩
    have first : ((callNesting (before ++ .beginSlice thread beginTs cat name :: middle)
      ).opened thread).head? = some (callNesting before).begun := by
      rw [opened, number, head?_cons]
    have openedBegin := opened_of_head first
    have size := begun_eq_length closingReached.of_append.slices
    have fewBefore := (length_begunSlices_le _ _).trans fewReached
    have answer :=
      ((limited_after closingReached.of_append fewBefore
        earlier.of_append).beginSlice fewBefore beginTs cat name).1
    have closed :=
      closeOwn before beginTs cat name middle endTs category endName rest (by simp [split]) first
    dsimp only at closed
    change match (SliceFilter.beginSlice _ _ _ _ _).1 with
      | some row => _ | none => _ at closed
    rw [answer] at closed
    rw [Distinguishes, openedBegin, length_cons]
    by_cases room : ((callNesting before).opened thread).length < SliceFilter.maxDepth
    · rw [if_pos room] at closed
      rw [if_pos (Nat.succ_le_iff.2 room)]
      rintro _ ⟨⟩
      rcases limited.endSlice_cases fewReached endTs category endName with
        ⟨-, leaves⟩ | ⟨slice, -, fits, stack, leaves⟩
      · exact absurd (leaves.answer_eq.symm.trans closed.1) (by simp)
      · have same := leaves.answer_eq.symm.trans closed.1
        rw [some.injEq, ← size] at same
        rwa [← same]
    · rw [if_neg room] at closed
      rw [if_neg (mt Nat.succ_le_iff.1 room), ← openedBegin]
      rcases limited.endSlice_cases fewReached endTs category endName with
        ⟨unfit, -⟩ | ⟨slice, member, -, stack, leaves⟩
      · exact unfit
      · have validEnd : endTs ≠ invalidUint64 :=
          valid (.endSlice thread endTs category endName) (by simp [split])
        have changed :=
          limited.durations_ne member
            (begun_le_end closingReached.slices (split ▸ ordered)) validEnd
        rw [← leaves.slices_eq] at changed
        exact absurd closed changed

/--
The calls of one thread, with at most 2^32 begins and before the largest time
stamp: every end closes its own slice or leaves all durations alone exactly when
every end tells its own slice from those on the stack.
-/
theorem endsCloseOwn_iff {thread : UInt32} {calls : List SliceCall}
    (slices : ∀ call ∈ calls, call.IsSliceOf thread)
    (balanced : Balanced (calls.map SliceCall.event))
    (ordered : TimeOrdered (calls.map SliceCall.event))
    (valid : ∀ call ∈ calls, call.timeStamp ≠ invalidUint64)
    (few : (callNesting calls).begun ≤ 2 ^ 32) :
    EndsCloseOwn thread calls ↔ EndsDistinguish thread calls := by
  have closing : SliceCalls thread calls := ⟨slices, balanced.1⟩
  rw [begun_eq_length slices] at few
  constructor
  · intro closeOwn
    exact endsDistinguish_of_endsCloseOwn closing few ordered valid closeOwn (append_nil calls).symm
  · exact endsCloseOwn_of_endsDistinguish closing few

/-- A slice inside another; only the end of the inner one has a name. -/
def nestedCalls : List SliceCall :=
  [.beginSlice 1 10 5 6, .beginSlice 1 12 7 8, .endSlice 1 15 7 8,
    .endSlice 1 20 invalidUint64 invalidUint64]

theorem endsCloseOwn_nestedCalls : EndsCloseOwn 1 nestedCalls := by
  refine (endsCloseOwn_iff ?_ ⟨?_, ?_⟩ ?_ ?_ ?_).2 ?_
  · simp [nestedCalls, SliceCall.IsSliceOf]
  · simp [nestedCalls, SliceCall.event, EachStep, Nesting.Closes, Nesting.step, Nesting.initial]
  · simp [nestedCalls, SliceCall.event, Nesting.after, Nesting.step, Nesting.initial, run]
  · simp [nestedCalls, SliceCall.event, TimeOrdered, SliceEvent.timeStamp, SliceEvent.internalTid]
  · simp [nestedCalls, SliceCall.timeStamp, invalidUint64]
  · decide
  · intro before timeStamp category name behind split
    rcases before with _ | ⟨_, _ | ⟨_, _ | ⟨_, _ | ⟨_, rest⟩⟩⟩⟩
    · cases split
    · cases split
    · cases split
      rw [Distinguishes, if_pos (by decide)]
      rintro _ ⟨⟩
      exact ⟨12, 7, 8, rfl, .inr (.inr rfl), .inr (.inr rfl)⟩
    · cases split
      rw [Distinguishes, if_pos (by decide)]
      rintro _ ⟨⟩
      exact ⟨10, 5, 6, rfl, .inl rfl, .inl rfl⟩
    · simp [nestedCalls] at split

def towerBegin : SliceCall := .beginSlice 1 0 5 6

def towerEnd : SliceCall := .endSlice 1 10 invalidUint64 invalidUint64

/-- Slices begun one inside the other, and then ended. -/
def tower (height : Nat) : List SliceCall :=
  replicate height towerBegin ++ replicate height towerEnd

theorem mem_tower {height : Nat} {call : SliceCall} (member : call ∈ tower height) :
    call = towerBegin ∨ call = towerEnd := by
  rcases mem_append.1 member with isBegin | isEnd
  · exact Or.inl (eq_of_mem_replicate isBegin)
  · exact Or.inr (eq_of_mem_replicate isEnd)

variable (height : Nat)

theorem callNesting_begins : (callNesting (replicate height towerBegin)).begun = height ∧
    (callNesting (replicate height towerBegin)).opened 1 = (range height).reverse := by
  induction height with
  | zero => exact ⟨rfl, rfl⟩
  | succ height induction =>
    rw [replicate_succ', callNesting_concat]
    refine ⟨congrArg Nat.succ induction.1, ?_⟩
    rw [towerBegin, SliceCall.event, Nesting.opened_begin, ← towerBegin,
      induction.1, induction.2, range_succ, reverse_append]
    rfl

theorem opened_begins_length :
    ((callNesting (replicate height towerBegin)).opened 1).length = height := by
  rw [(callNesting_begins height).2, length_reverse, length_range]

theorem ends_of_opened {nesting : Nesting} {height : Nat}
    (deep : (nesting.opened 1).length = height) :
    EachStep Nesting.step Nesting.Closes nesting (replicate height towerEnd.event) ∧
      (run Nesting.step nesting (replicate height towerEnd.event)).opened 1 = [] := by
  induction height generalizing nesting with
  | zero => exact ⟨trivial, eq_nil_of_length_eq_zero deep⟩
  | succ height induction =>
    rw [replicate_succ]
    have shorter : ((nesting.step towerEnd.event).opened 1).length = height := by
      rw [towerEnd, SliceCall.event, Nesting.opened_end, length_tail, deep]
      rfl
    rcases induction shorter with ⟨closes, empty⟩
    refine ⟨⟨?_, closes⟩, empty⟩
    rintro internalTid timeStamp ⟨⟩ none
    rw [none] at deep
    cases deep

theorem balanced_tower : Balanced ((tower height).map SliceCall.event) := by
  have after : Nesting.after ((tower height).map SliceCall.event) =
    run Nesting.step (callNesting (replicate height towerBegin))
      (replicate height towerEnd.event) := by
    rw [tower, map_append, Nesting.after, run_append, map_replicate, map_replicate]
    simp only [callNesting, Nesting.after, map_replicate]
  rcases ends_of_opened (opened_begins_length height) with ⟨closes, empty⟩
  refine ⟨?_, ?_⟩
  · rw [tower, map_append, eachStep_append, map_replicate (f := SliceCall.event) (a := towerEnd)]
    refine ⟨?_, closes⟩
    rw [eachStep_iff_split]
    intro before event rest split internalTid timeStamp isEnd
    have member : event ∈ (replicate height towerBegin).map SliceCall.event := by
      rw [split]
      simp
    rw [map_replicate] at member
    rw [isEnd] at member
    cases eq_of_mem_replicate member
  · intro internalTid
    by_cases same : internalTid = 1
    · rw [after, same, empty]
    · have kept (nesting : Nesting) (event : SliceEvent) (none : nesting.opened internalTid = [])
        (onThread : event.internalTid = 1) :
        (nesting.step event).opened internalTid = [] := by
        rw [Nesting.opened_step_of_ne nesting (by rwa [onThread]), none]
      refine run_invariant kept rfl ?_
      rw [eachStep_iff_split]
      intro before event rest split
      have member : event ∈ (tower height).map SliceCall.event := by
        rw [split]
        simp
      rcases mem_map.1 member with ⟨call, inTower, rfl⟩
      rcases mem_tower inTower with rfl | rfl
      · rfl
      · rfl

theorem timeOrdered_tower : TimeOrdered ((tower height).map SliceCall.event) := by
  rw [TimeOrdered, pairwise_map, tower, pairwise_append]
  refine ⟨?_, ?_, ?_⟩
  · exact pairwise_replicate.2 (Or.inr fun _ => UInt64.le_refl _)
  · exact pairwise_replicate.2 (Or.inr fun _ => UInt64.le_refl _)
  · intro first isBegin second isEnd _
    rw [eq_of_mem_replicate isBegin, eq_of_mem_replicate isEnd]
    decide

theorem isSliceOf_tower : ∀ call ∈ tower height, call.IsSliceOf 1 := by
  intro call member
  rcases mem_tower member with rfl | rfl
  · rfl
  · rfl

theorem not_endsCloseOwn_of_deep {height : Nat} (deep : SliceFilter.maxDepth ≤ height)
    (small : 2 * (height + 1) ≤ 2 ^ 32) : ¬ EndsCloseOwn 1 (tower (height + 1)) := by
  intro closeOwn
  have valid : ∀ call ∈ tower (height + 1), call.timeStamp ≠ invalidUint64 := by
    intro call member
    rcases mem_tower member with rfl | rfl
    · decide
    · decide
  have few : (begunSlices (tower (height + 1))).length ≤ 2 ^ 32 := by
    refine (length_filterMap_le _ _).trans ?_
    rw [tower, length_append, length_replicate, length_replicate]
    omega
  have distinguish :=
    endsDistinguish_of_endsCloseOwn
      ⟨isSliceOf_tower _, (balanced_tower _).1⟩ few (timeOrdered_tower _) valid
      closeOwn (append_nil _).symm
      (replicate (height + 1) towerBegin) 10 invalidUint64 invalidUint64
      (replicate height towerEnd) rfl
  rw [Distinguishes, opened_begins_length, if_neg (by omega)] at distinguish
  refine distinguish 0 ?_ ⟨0, 5, 6, rfl, Or.inl rfl, Or.inl rfl⟩
  rw [outermost, opened_begins_length, (callNesting_begins _).2,
    drop_reverse, mem_reverse, take_range, mem_range,
    length_range]
  unfold SliceFilter.maxDepth at deep ⊢
  omega

/-- 256 slices inside each other: an end closes a slice that is not its own. -/
theorem not_endsCloseOwn_tower :
    (∀ call ∈ tower 256, call.IsSliceOf 1) ∧ Balanced ((tower 256).map SliceCall.event) ∧
      TimeOrdered ((tower 256).map SliceCall.event) ∧
        ¬ NestedWithin SliceFilter.maxDepth ((tower 256).map SliceCall.event) ∧
          ¬ EndsCloseOwn 1 (tower 256) := by
  refine ⟨isSliceOf_tower 256, balanced_tower 256, timeOrdered_tower 256, ?_,
    not_endsCloseOwn_of_deep (le_refl _) (by decide)⟩
  intro within
  have deep :=
    within ((replicate 256 towerBegin).map SliceCall.event)
      ((replicate 256 towerEnd).map SliceCall.event)
      (by rw [tower, map_append]) 1
  rw [← callNesting, opened_begins_length] at deep
  exact absurd deep (by decide)

end SysAnalyzer.Filter
