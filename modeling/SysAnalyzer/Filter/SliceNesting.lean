import SysAnalyzer.Filter.SliceFilter

/-!
# Nested slices

`Nesting` says what begin and end events mean: a begin opens a slice on its
thread, an end closes the innermost slice that is open there.  Slices are
numbered in the order of their begins.

In a balanced trace that never nests deeper than the depth limit the filter
keeps exactly the open slices on its stacks, none of them completed.  Nothing is
then popped early, every end meets its own begin, and every row ends with the
times, the depth and the parent of its slice, as long as row numbers fit in 32
bits.
-/

namespace SysAnalyzer.Filter

open Foundation List Function

/-- The number of begins and the open slices of each thread, innermost first. -/
structure Nesting where
  begun : Nat
  opened : UInt32 → List Nat

namespace Nesting

def initial : Nesting := ⟨0, fun _ => []⟩

def step (nesting : Nesting) : SliceEvent → Nesting
  | .beginSlice internalTid _ _ _ =>
    ⟨nesting.begun + 1, Function.update nesting.opened internalTid
      (nesting.begun :: nesting.opened internalTid)⟩
  | .endSlice internalTid _ =>
    ⟨nesting.begun, Function.update nesting.opened internalTid (nesting.opened internalTid).tail⟩

def after (events : List SliceEvent) : Nesting := run step initial events

def Closes (nesting : Nesting) (event : SliceEvent) : Prop :=
  ∀ internalTid timeStamp, event = .endSlice internalTid timeStamp → nesting.opened internalTid ≠ []

end Nesting

/-- Every end closes a slice, and no slice is left open. -/
def Balanced (events : List SliceEvent) : Prop :=
  EachStep Nesting.step Nesting.Closes Nesting.initial events ∧
    ∀ internalTid, (Nesting.after events).opened internalTid = []

/-- At no time more than `limit` slices are open on a thread. -/
def NestedWithin (limit : Nat) (events : List SliceEvent) : Prop :=
  ∀ before rest, events = before ++ rest →
    ∀ internalTid, ((Nesting.after before).opened internalTid).length ≤ limit

def TimeOrdered (events : List SliceEvent) : Prop :=
  events.Pairwise fun first second =>
    first.internalTid = second.internalTid → first.timeStamp ≤ second.timeStamp

def HasParent (row : CallStackRow) (opened : List Nat) : Prop :=
  match opened with
  | [] => row.parentId = invalidUint32
  | parent :: _ => row.parentId.toNat = parent

/--
Every begin has an end at which its slice is the innermost open one, its row
spans the time between the two and holds the depth and the parent at the begin,
and all slice stacks are empty.
-/
def WellNested (events : List SliceEvent) (filter : SliceFilter) : Prop :=
  (∀ before internalTid beginTs cat name rest,
    events = before ++ .beginSlice internalTid beginTs cat name :: rest → ∃ middle endTs behind,
      rest = middle ++ .endSlice internalTid endTs :: behind ∧ ((Nesting.after
        (before ++ .beginSlice internalTid beginTs cat name :: middle)
        ).opened internalTid).head? = some (Nesting.after before).begun ∧
        ∃ row, filter.slices[(Nesting.after before).begun]? = some row ∧
          beginTs.toNat + row.dur.toNat = endTs.toNat ∧ row.depth.toNat =
            ((Nesting.after before).opened internalTid).length ∧
            HasParent row ((Nesting.after before).opened internalTid)) ∧
    ∀ internalTid, filter.stack internalTid = []

namespace Nesting

/-- Open slices have begun, and each is open on one thread and once. -/
structure Valid (nesting : Nesting) : Prop where
  begun : ∀ internalTid, ∀ slice ∈ nesting.opened internalTid, slice < nesting.begun
  nodup : ∀ internalTid, (nesting.opened internalTid).Nodup
  alone : ∀ first second slice, slice ∈ nesting.opened first → slice ∈ nesting.opened second →
    first = second

theorem valid_initial : initial.Valid := by refine ⟨?_, ?_, ?_⟩ <;> simp [initial]

theorem opened_step_of_ne (nesting : Nesting) {event : SliceEvent} {internalTid : UInt32}
    (other : internalTid ≠ event.internalTid) :
    (nesting.step event).opened internalTid = nesting.opened internalTid := by
  cases event <;> exact update_of_ne other _ _

theorem opened_begin (nesting : Nesting) (internalTid : UInt32) (timeStamp cat name : UInt64) :
    (nesting.step (.beginSlice internalTid timeStamp cat name)).opened internalTid =
      nesting.begun :: nesting.opened internalTid :=
  update_self _ _ _

theorem opened_end (nesting : Nesting) (internalTid : UInt32) (timeStamp : UInt64) :
    (nesting.step (.endSlice internalTid timeStamp)).opened internalTid =
      (nesting.opened internalTid).tail :=
  update_self _ _ _

theorem mem_opened_step
    {nesting : Nesting} {event : SliceEvent} {internalTid : UInt32} {slice : Nat}
    (member : slice ∈ (nesting.step event).opened internalTid) :
    slice ∈ nesting.opened internalTid ∨ slice = nesting.begun ∧ event.internalTid = internalTid ∧
      (nesting.step event).begun = nesting.begun + 1 := by
  by_cases other : internalTid = event.internalTid
  · subst other
    cases event with
    | beginSlice internalTid timeStamp cat name =>
      simp only [SliceEvent.internalTid, opened_begin] at member ⊢
      rcases mem_cons.1 member with fresh | old
      · exact Or.inr ⟨fresh, trivial, rfl⟩
      · exact Or.inl old
    | endSlice internalTid timeStamp =>
      simp only [SliceEvent.internalTid, opened_end] at member ⊢
      exact Or.inl (mem_of_mem_tail member)
  · rw [opened_step_of_ne nesting other] at member
    exact Or.inl member

theorem begun_le_step (nesting : Nesting) (event : SliceEvent) :
    nesting.begun ≤ (nesting.step event).begun := by
  cases event with
  | beginSlice => exact Nat.le_succ _
  | endSlice => exact le_refl _

theorem Valid.step {nesting : Nesting} (valid : nesting.Valid) (event : SliceEvent) :
    (nesting.step event).Valid := by
  refine ⟨?_, ?_, ?_⟩
  · intro internalTid slice member
    rcases mem_opened_step member with old | ⟨fresh, -, more⟩
    · exact lt_of_lt_of_le (valid.begun internalTid slice old) (begun_le_step nesting event)
    · omega
  · intro internalTid
    by_cases other : internalTid = event.internalTid
    · subst other
      cases event with
      | beginSlice internalTid timeStamp cat name =>
        simp only [SliceEvent.internalTid, opened_begin]
        refine nodup_cons.2 ⟨?_, valid.nodup internalTid⟩
        intro member
        exact lt_irrefl _ (valid.begun internalTid _ member)
      | endSlice internalTid timeStamp =>
        simp only [SliceEvent.internalTid, opened_end]
        exact (valid.nodup internalTid).sublist (tail_sublist _)
    · rw [opened_step_of_ne nesting other]
      exact valid.nodup internalTid
  · intro first second slice inFirst inSecond
    rcases mem_opened_step inFirst with oldFirst | ⟨fresh, isFirst, -⟩
    · rcases mem_opened_step inSecond with oldSecond | ⟨fresh, -, -⟩
      · exact valid.alone first second slice oldFirst oldSecond
      · have small := valid.begun first slice oldFirst
        omega
    · rcases mem_opened_step inSecond with oldSecond | ⟨-, isSecond, -⟩
      · have small := valid.begun second slice oldSecond
        omega
      · rw [← isFirst, ← isSecond]

theorem Valid.run {nesting : Nesting} (valid : nesting.Valid) (events : List SliceEvent) :
    (Foundation.run Nesting.step nesting events).Valid :=
  run_invariant_of_preserves (fun _ event valid => valid.step event) events valid

end Nesting

/-! ## The filter follows the nesting -/

/--
The filter has one row for every begin, its stacks hold the open slices, and
their durations are still -1.
-/
structure Tracks (filter : SliceFilter) (nesting : Nesting) : Prop where
  size : filter.slices.length = nesting.begun
  stack : ∀ internalTid, filter.stack internalTid = (nesting.opened internalTid).reverse
  synchronous : filter.Synchronous
  pending : ∀ internalTid, ∀ slice ∈ nesting.opened internalTid,
    ∃ row, filter.slices[slice]? = some row ∧ row.dur = invalidUint64

theorem tracks_initial : Tracks SliceFilter.initial Nesting.initial := by
  refine ⟨rfl, fun _ => rfl, ?_, ?_⟩
  · intro internalTid info found
    cases found
  · intro internalTid slice member
    cases member

/-- What an event may ask for: a slice to close, or room for another one. -/
def Nesting.Allows (nesting : Nesting) : SliceEvent → Prop
  | .beginSlice internalTid _ _ _ => (nesting.opened internalTid).length < SliceFilter.maxDepth
  | .endSlice internalTid _ => nesting.opened internalTid ≠ []

namespace Tracks

variable {filter : SliceFilter} {nesting : Nesting}

theorem incomplete (tracks : Tracks filter nesting) (few : nesting.begun ≤ 2 ^ 32)
    (internalTid : UInt32) : ∀ index ∈ filter.stack internalTid, ∃ row,
      filter.slices.rowAt index = some row ∧ row.dur = invalidUint64 := by
  intro index member
  rw [tracks.stack, mem_reverse] at member
  rcases tracks.pending internalTid index member with ⟨row, read, pending⟩
  rw [← tracks.size] at few
  exact ⟨row, CallStack.rowAt_of_few few read, pending⟩

def beganRow (nesting : Nesting) (internalTid : UInt32)
    (timeStamp cat name : UInt64) : CallStackRow :=
  { SliceFilter.newRow timeStamp invalidUint64 internalTid cat name
      (nesting.opened internalTid).reverse with
    depth := UInt8.ofNat (nesting.opened internalTid).length }

section

variable (tracks : Tracks filter nesting)
include tracks

theorem leaves_begin (few : nesting.begun ≤ 2 ^ 32) {internalTid : UInt32}
    (room : (nesting.opened internalTid).length < SliceFilter.maxDepth)
    (timeStamp cat name : UInt64) :
    SliceFilter.Leaves filter internalTid (filter.beginSlice timeStamp internalTid cat name)
      (some nesting.begun) (filter.slices ++ [beganRow nesting internalTid timeStamp cat name])
      ((nesting.opened internalTid).reverse ++ [nesting.begun]) := by
  have unchanged :=
    SliceFilter.closeUnMatchedSlice_of_incomplete
      (tracks.incomplete few internalTid) timeStamp.toInt64
  generalize closing : SliceFilter.closeUnMatchedSlice timeStamp.toInt64 filter.slices
    (filter.stack internalTid) = closed at unchanged
  have leaves :=
    SliceFilter.leaves_startSlice_accepted tracks.synchronous invalidUint64 cat
      name closing (by simpa [unchanged.2, tracks.stack] using room)
  simpa [SliceFilter.beginSlice, unchanged.1, unchanged.2, tracks.stack,
    tracks.size, beganRow] using leaves

theorem leaves_end (few : nesting.begun ≤ 2 ^ 32)
    {internalTid : UInt32} {slice : Nat} {outer : List Nat}
    (opened : nesting.opened internalTid = slice :: outer) (timeStamp : UInt64) :
    SliceFilter.Leaves filter internalTid
      (filter.endSlice timeStamp internalTid invalidUint64 invalidUint64)
      (some slice) (filter.slices.setDuration slice timeStamp)
      outer.reverse := by
  have incomplete := tracks.incomplete few internalTid
  have unchanged := SliceFilter.closeUnMatchedSlice_of_incomplete incomplete timeStamp.toInt64
  have stack : filter.stack internalTid = outer.reverse ++ [slice] := by
    rw [tracks.stack, opened, reverse_cons]
  rcases incomplete slice (by simp [stack]) with ⟨row, read, pending⟩
  generalize closing : SliceFilter.closeUnMatchedSlice timeStamp.toInt64 filter.slices
    (filter.stack internalTid) = closed at unchanged
  have onTop : closed.stack = outer.reverse ++ [slice] := by rw [unchanged.2, stack]
  have leaves :=
    SliceFilter.leaves_endSlice_top tracks.synchronous closing onTop (by rwa [unchanged.1]) pending
  rwa [unchanged.1] at leaves

/-- A step of the filter is one of the nesting. -/
theorem step (valid : nesting.Valid) (few : nesting.begun ≤ 2 ^ 32) {event : SliceEvent}
    (allows : nesting.Allows event) : Tracks (filter.step event) (nesting.step event) := by
  cases event with
  | beginSlice internalTid timeStamp cat name =>
    have leaves := tracks.leaves_begin few allows timeStamp cat name
    refine ⟨?_, ?_, leaves.synchronous, ?_⟩
    · change (filter.beginSlice _ _ _ _).2.slices.length = _
      rw [leaves.slices_eq, length_append, tracks.size]
      rfl
    · intro other
      change (filter.beginSlice _ _ _ _).2.stack other = _
      rw [leaves.stack_eq]
      by_cases same : other = internalTid
      · subst same
        rw [update_self, Nesting.opened_begin, reverse_cons]
      · rw [update_of_ne same, Nesting.opened_step_of_ne _ same, tracks.stack]
    · intro other slice member
      change ∃ row, (filter.beginSlice _ _ _ _).2.slices[slice]? = _ ∧ _
      rw [leaves.slices_eq]
      rcases Nesting.mem_opened_step member with old | ⟨fresh, -, -⟩
      · rcases tracks.pending other slice old with ⟨row, read, pending⟩
        have inside := (List.getElem?_eq_some_iff.1 read).1
        exact ⟨row, by rw [getElem?_append_left inside, read], pending⟩
      · refine ⟨beganRow nesting internalTid timeStamp cat name, ?_, rfl⟩
        rw [fresh, ← tracks.size]
        simp
  | endSlice internalTid timeStamp =>
    cases opened : nesting.opened internalTid with
    | nil => exact absurd opened allows
    | cons closed outer =>
      have leaves := tracks.leaves_end few opened timeStamp
      refine ⟨?_, ?_, leaves.synchronous, ?_⟩
      · change (filter.endSlice _ _ _ _).2.slices.length = _
        rw [leaves.slices_eq, CallStack.length_setDuration, tracks.size]
        rfl
      · intro other
        change (filter.endSlice _ _ _ _).2.stack other = _
        rw [leaves.stack_eq]
        by_cases same : other = internalTid
        · subst same
          rw [update_self, Nesting.opened_end, opened, tail_cons]
        · rw [update_of_ne same, Nesting.opened_step_of_ne _ same, tracks.stack]
      · intro other slice member
        change ∃ row, (filter.endSlice _ _ _ _).2.slices[slice]? = _ ∧ _
        have stillOpen : slice ∈ nesting.opened other := by
          rcases Nesting.mem_opened_step member with old | ⟨-, -, more⟩
          · exact old
          · exact absurd more (ne_of_lt (Nat.lt_succ_self _))
        have notClosed : closed ≠ slice := by
          rintro rfl
          have isThread : other = internalTid :=
            valid.alone other internalTid closed stillOpen (by simp [opened])
          subst isThread
          rw [Nesting.opened_end, opened, tail_cons] at member
          have nodup := valid.nodup other
          rw [opened] at nodup
          exact (nodup_cons.1 nodup).1 member
        rcases tracks.pending other slice stillOpen with ⟨row, read, pending⟩
        refine ⟨row, ?_, pending⟩
        rw [leaves.slices_eq, CallStack.getElem?_setDuration_of_ne _ notClosed, read]

theorem row_step (few : nesting.begun ≤ 2 ^ 32)
    {event : SliceEvent} (allows : nesting.Allows event) {slice : Nat}
    (begun : slice < nesting.begun)
    (kept : ∀ internalTid timeStamp, event = .endSlice internalTid timeStamp →
      (nesting.opened internalTid).head? ≠ some slice) :
    (filter.step event).slices[slice]? = filter.slices[slice]? := by
  cases event with
  | beginSlice internalTid timeStamp cat name =>
    have leaves := tracks.leaves_begin few allows timeStamp cat name
    change (filter.beginSlice _ _ _ _).2.slices[slice]? = _
    rw [leaves.slices_eq, getElem?_append_left (by rw [tracks.size]; exact begun)]
  | endSlice internalTid timeStamp =>
    cases opened : nesting.opened internalTid with
    | nil => exact absurd opened allows
    | cons closed outer =>
      have leaves := tracks.leaves_end few opened timeStamp
      have other : closed ≠ slice := by
        have notThis := kept internalTid timeStamp rfl
        rw [opened, head?_cons] at notThis
        exact fun same => notThis (congrArg some same)
      change (filter.endSlice _ _ _ _).2.slices[slice]? = _
      rw [leaves.slices_eq, CallStack.getElem?_setDuration_of_ne _ other]

end

end Tracks

theorem Nesting.begun_le_run (nesting : Nesting) (events : List SliceEvent) :
    nesting.begun ≤ (run Nesting.step nesting events).begun := by
  induction events generalizing nesting with
  | nil => exact le_refl _
  | cons event rest induction =>
    exact (nesting.begun_le_step event).trans (induction (nesting.step event))

variable {events : List SliceEvent}

theorem Tracks.run {filter : SliceFilter} {nesting : Nesting}
    (tracks : Tracks filter nesting) (valid : nesting.Valid)
    (allows : EachStep Nesting.step Nesting.Allows nesting events)
    (few : (Foundation.run Nesting.step nesting events).begun ≤ 2 ^ 32) :
    Tracks (Foundation.run SliceFilter.step filter events)
      (Foundation.run Nesting.step nesting events) := by
  induction events generalizing filter nesting with
  | nil => exact tracks
  | cons event rest induction =>
    have now := (nesting.begun_le_run (event :: rest)).trans few
    exact induction (tracks.step valid now allows.1) (valid.step event) allows.2 few

def Nesting.Keeps (slice : Nat) (nesting : Nesting) (event : SliceEvent) : Prop :=
  ∀ internalTid timeStamp, event = .endSlice internalTid timeStamp →
    (nesting.opened internalTid).head? ≠ some slice

theorem Tracks.row_run {filter : SliceFilter} {nesting : Nesting}
    (tracks : Tracks filter nesting) (valid : nesting.Valid)
    (allows : EachStep Nesting.step Nesting.Allows nesting events)
    (few : (Foundation.run Nesting.step nesting events).begun ≤ 2 ^ 32)
    {slice : Nat} (begun : slice < nesting.begun)
    (kept : EachStep Nesting.step (Nesting.Keeps slice) nesting events) :
    (Foundation.run SliceFilter.step filter events).slices[slice]? = filter.slices[slice]? := by
  induction events generalizing filter nesting with
  | nil => rfl
  | cons event rest induction =>
    have now := (nesting.begun_le_run (event :: rest)).trans few
    have here := tracks.row_step now allows.1 begun kept.1
    have later :=
      induction (tracks.step valid now allows.1) (valid.step event) allows.2 few
        (lt_of_lt_of_le begun (nesting.begun_le_step event)) kept.2
    rw [run_cons, later, here]

namespace Nesting

variable {internalTid : UInt32} {slice : Nat}

theorem mem_step_of_keeps {nesting : Nesting} {event : SliceEvent}
    (isOpen : slice ∈ nesting.opened internalTid) (kept : nesting.Keeps slice event) :
    slice ∈ (nesting.step event).opened internalTid := by
  by_cases other : internalTid = event.internalTid
  · subst other
    cases event with
    | beginSlice internalTid timeStamp cat name =>
      simp only [SliceEvent.internalTid, opened_begin] at isOpen ⊢
      exact mem_cons_of_mem _ isOpen
    | endSlice internalTid timeStamp =>
      have notFirst := kept internalTid timeStamp rfl
      simp only [SliceEvent.internalTid, opened_end] at isOpen ⊢
      cases opened : nesting.opened internalTid with
      | nil => simp [opened] at isOpen
      | cons first outer =>
        rw [opened] at isOpen notFirst
        rcases mem_cons.1 isOpen with isFirst | inside
        · exact absurd (congrArg some isFirst.symm) notFirst
        · exact inside
  · rw [opened_step_of_ne nesting other]
    exact isOpen

theorem exists_end {nesting : Nesting} (valid : nesting.Valid)
    (isOpen : slice ∈ nesting.opened internalTid) {events : List SliceEvent}
    (closed : slice ∉ (run Nesting.step nesting events).opened internalTid) :
    ∃ middle timeStamp behind, events = middle ++ .endSlice internalTid timeStamp :: behind ∧
      EachStep Nesting.step (Keeps slice) nesting middle ∧
        ((run Nesting.step nesting middle).opened internalTid).head? = some slice := by
  induction events generalizing nesting with
  | nil => exact absurd isOpen closed
  | cons event rest induction =>
    by_cases kept : nesting.Keeps slice event
    · rcases induction (valid.step event) (mem_step_of_keeps isOpen kept) closed
        with ⟨middle, timeStamp, behind, split, keptLater, first⟩
      exact ⟨event :: middle, timeStamp, behind, by rw [split]; rfl, ⟨kept, keptLater⟩, first⟩
    · simp only [Keeps, not_forall, not_not] at kept
      rcases kept with ⟨other, timeStamp, rfl, first⟩
      have isThread : other = internalTid :=
        valid.alone other internalTid slice (mem_of_mem_head? first) isOpen
      subst isThread
      exact ⟨[], timeStamp, rest, rfl, trivial, first⟩

theorem keeps_of_closed {nesting : Nesting} (begun : slice < nesting.begun)
    (closed : ∀ internalTid, slice ∉ nesting.opened internalTid) (events : List SliceEvent) :
    EachStep Nesting.step (Keeps slice) nesting events := by
  induction events generalizing nesting with
  | nil => trivial
  | cons event rest induction =>
    refine ⟨?_, induction ?_ ?_⟩
    · intro internalTid timeStamp _ first
      exact closed internalTid (mem_of_mem_head? first)
    · exact lt_of_lt_of_le begun (nesting.begun_le_step event)
    · intro internalTid member
      rcases mem_opened_step member with old | ⟨fresh, -, -⟩
      · exact closed internalTid old
      · omega

theorem closed_of_end {nesting : Nesting} (valid : nesting.Valid) {outer : List Nat}
    (opened : nesting.opened internalTid = slice :: outer) (timeStamp : UInt64) (other : UInt32) :
    slice ∉ (nesting.step (.endSlice internalTid timeStamp)).opened other := by
  intro member
  by_cases same : other = internalTid
  · subst same
    have nodup := valid.nodup other
    rw [opened] at nodup
    rw [opened_end, opened, tail_cons] at member
    exact (nodup_cons.1 nodup).1 member
  · have isThread :=
      valid.alone other internalTid slice
        (by rwa [opened_step_of_ne nesting same] at member) (by simp [opened])
    exact same isThread

end Nesting

theorem allows_of_nestedWithin (balanced : Balanced events)
    (within : NestedWithin SliceFilter.maxDepth events) :
    EachStep Nesting.step Nesting.Allows Nesting.initial events := by
  have closes := balanced.1
  rw [eachStep_iff_split] at closes ⊢
  intro before event rest split
  cases event with
  | beginSlice internalTid timeStamp cat name =>
    have deeper :=
      within (before ++ [.beginSlice internalTid timeStamp cat name]) rest
        (by simp [split]) internalTid
    rw [Nesting.after, run_append, run_cons, run_nil, Nesting.opened_begin, length_cons] at deeper
    exact deeper
  | endSlice internalTid timeStamp => exact closes before _ rest split internalTid timeStamp rfl

theorem beganRow_depth {nesting : Nesting} {internalTid : UInt32}
    (room : (nesting.opened internalTid).length < SliceFilter.maxDepth)
    (timeStamp cat name : UInt64) :
    (Tracks.beganRow nesting internalTid timeStamp cat name).depth.toNat =
      (nesting.opened internalTid).length := by
  unfold SliceFilter.maxDepth at room
  simp only [Tracks.beganRow, UInt8.toNat_ofNat']
  omega

theorem beganRow_parent {nesting : Nesting} (valid : nesting.Valid) (few : nesting.begun ≤ 2 ^ 32)
    (internalTid : UInt32) (timeStamp cat name : UInt64) :
    HasParent (Tracks.beganRow nesting internalTid timeStamp cat name)
      (nesting.opened internalTid) := by
  cases opened : nesting.opened internalTid with
  | nil => simp [HasParent, Tracks.beganRow, SliceFilter.newRow, SliceFilter.parentIdOf, opened]
  | cons parent outer =>
    have small := valid.begun internalTid parent (by simp [opened])
    simp only [HasParent, Tracks.beganRow, SliceFilter.newRow,
      SliceFilter.parentIdOf, opened, getLast?_reverse, head?_cons,
      UInt32.toNat_ofNat']
    omega

theorem Tracks.row_of_end {filter : SliceFilter} {nesting : Nesting}
    (tracks : Tracks filter nesting) (valid : nesting.Valid)
    {internalTid : UInt32} {endTs : UInt64} {middle behind : List SliceEvent}
    (allows : EachStep Nesting.step Nesting.Allows nesting
      (middle ++ .endSlice internalTid endTs :: behind)) (few :
      (Foundation.run Nesting.step nesting
        (middle ++ .endSlice internalTid endTs :: behind)).begun ≤ 2 ^ 32)
    {slice : Nat} {row : CallStackRow} (read : filter.slices[slice]? = some row)
    (kept : EachStep Nesting.step (Nesting.Keeps slice) nesting middle) (first :
      ((Foundation.run Nesting.step nesting middle).opened internalTid).head? = some slice) :
    (Foundation.run SliceFilter.step filter
      (middle ++ .endSlice internalTid endTs :: behind)).slices[slice]? =
      some { row with dur := endTs - row.timeStamp } := by
  rw [eachStep_append] at allows
  rcases allows with ⟨allowsMiddle, allowsEnd, allowsBehind⟩
  rw [run_append, run_cons] at few ⊢
  have begun : slice < nesting.begun := by
    rw [← tracks.size]
    exact (List.getElem?_eq_some_iff.1 read).1
  have fewEnd := (Nesting.begun_le_run _ behind).trans few
  have fewMiddle := (Nesting.begun_le_step _ _).trans fewEnd
  have before := (tracks.row_run valid allowsMiddle fewMiddle begun kept).trans read
  have tracksMiddle := tracks.run valid allowsMiddle fewMiddle
  have validMiddle := valid.run middle
  have begunMiddle := lt_of_lt_of_le begun (nesting.begun_le_run middle)
  generalize Foundation.run Nesting.step nesting middle = reached at *
  rcases head?_eq_some_iff.1 first with ⟨outer, opened⟩
  have written : ((Foundation.run SliceFilter.step filter middle).step
    (.endSlice internalTid endTs)).slices[slice]? =
      some { row with dur := endTs - row.timeStamp } := by
    change (SliceFilter.endSlice _ _ _ _ _).2.slices[slice]? = _
    rw [(tracksMiddle.leaves_end fewMiddle opened endTs).slices_eq,
      CallStack.getElem?_setDuration_self before]
  have closed :=
    Nesting.keeps_of_closed (lt_of_lt_of_le begunMiddle
      (reached.begun_le_step (.endSlice internalTid endTs)))
      (Nesting.closed_of_end validMiddle opened endTs) behind
  rw [← written]
  exact (tracksMiddle.step validMiddle fewMiddle allowsEnd).row_run
    (validMiddle.step _) allowsBehind few
    (lt_of_lt_of_le begunMiddle (reached.begun_le_step _)) closed

/--
Well-nested slices: in every balanced trace within the depth limit, whose begins
are numbered by 32 bits, every row has the times, the depth and the parent of
its slice, and all stacks are empty at the end.
-/
theorem wellNested_after {events : List SliceEvent} (balanced : Balanced events)
    (ordered : TimeOrdered events) (within : NestedWithin SliceFilter.maxDepth events)
    (few : (Nesting.after events).begun ≤ 2 ^ 32) :
    WellNested events (SliceFilter.after events) := by
  have allows := allows_of_nestedWithin balanced within
  refine ⟨?_, ?_⟩
  · intro before internalTid beginTs cat name rest split
    subst split
    rw [eachStep_append] at allows
    rcases allows with ⟨allowsBefore, room, allowsRest⟩
    have closed := balanced.2 internalTid
    simp only [Nesting.after, run_append, run_cons] at few closed
    have fewRest := (Nesting.begun_le_run _ rest).trans few
    have fewBefore := (Nesting.begun_le_step _ _).trans fewRest
    have tracks := tracks_initial.run Nesting.valid_initial allowsBefore fewBefore
    have valid := Nesting.valid_initial.run before
    simp only [Nesting.after, SliceFilter.after, run_append, run_cons]
    generalize Foundation.run Nesting.step Nesting.initial before = nesting at *
    generalize Foundation.run SliceFilter.step SliceFilter.initial before = filter at *
    have isOpen : nesting.begun ∈ (nesting.step (.beginSlice internalTid beginTs cat name)).opened
      internalTid := by
      rw [Nesting.opened_begin]
      exact mem_cons_self
    rcases Nesting.exists_end (valid.step _) isOpen (by rw [closed]; simp) with
      ⟨middle, endTs, behind, rfl, kept, first⟩
    have read : (filter.step (.beginSlice internalTid beginTs cat name)).slices[ nesting.begun]? =
      some (Tracks.beganRow nesting internalTid beginTs cat name) := by
      change (filter.beginSlice _ _ _ _).2.slices[_]? = _
      rw [(tracks.leaves_begin fewBefore room beginTs cat name).slices_eq, ← tracks.size]
      simp
    have final :=
      (tracks.step valid fewBefore room).row_of_end (valid.step _) allowsRest few read kept first
    have inOrder : beginTs ≤ endTs := by
      have fromBegin := (pairwise_append.1 ordered).2.1
      exact (pairwise_cons.1 fromBegin).1 (.endSlice internalTid endTs) (by simp) rfl
    refine ⟨middle, endTs, behind, rfl, first, _, final, ?_, beganRow_depth room beginTs cat name,
      beganRow_parent valid fewBefore internalTid beginTs cat name⟩
    change beginTs.toNat + (endTs - beginTs).toNat = endTs.toNat
    rw [UInt64.toNat_sub_of_le _ _ inOrder]
    exact Nat.add_sub_cancel' (UInt64.le_iff_toNat_le.1 inOrder)
  · intro internalTid
    have tracks := tracks_initial.run Nesting.valid_initial allows few
    change (run SliceFilter.step SliceFilter.initial events).stack internalTid = _
    rw [tracks.stack]
    change ((Nesting.after events).opened internalTid).reverse = []
    rw [balanced.2, reverse_nil]

theorem nestedWithin_of_eachStep {limit : Nat} (bounded :
    EachStep Nesting.step (fun nesting event => ∀ internalTid,
      ((nesting.step event).opened internalTid).length ≤ limit)
      Nesting.initial events) : NestedWithin limit events := by
  rw [eachStep_iff_split] at bounded
  intro before rest split internalTid
  rcases eq_nil_or_concat before with rfl | ⟨earlier, event, rfl⟩
  · exact Nat.zero_le limit
  · have here := bounded earlier event rest (by simp [split]) internalTid
    rwa [Nesting.after, concat_eq_append, run_append, run_cons, run_nil]

def nestedPair : List SliceEvent :=
  [.beginSlice 0 10 0 0, .beginSlice 0 20 0 0, .endSlice 0 30, .endSlice 0 50]

theorem wellNested_nestedPair : WellNested nestedPair (SliceFilter.after nestedPair) := by
  refine wellNested_after ⟨?_, ?_⟩ ?_ (nestedWithin_of_eachStep ?_) ?_
  · simp [nestedPair, EachStep, Nesting.Closes, Nesting.step, Nesting.initial]
  · simp [nestedPair, Nesting.after, Nesting.step, Nesting.initial, run]
  · simp [TimeOrdered, nestedPair, SliceEvent.timeStamp, SliceEvent.internalTid]
  · simp only [nestedPair, EachStep, and_true]
    refine ⟨?_, ?_, ?_, ?_⟩ <;> intro internalTid <;> by_cases same : internalTid = 0 <;>
      simp [Nesting.step, Nesting.initial, SliceFilter.maxDepth, same]
  · decide

/-! ## Row numbers beyond 32 bits -/

def beginZero : SliceEvent := .beginSlice 0 0 0 0

def endZero : SliceEvent := .endSlice 0 0

/-- Slices of thread 0 at time 0, one after the other. -/
def slicesInRow (count : Nat) : List SliceEvent :=
  (replicate count [beginZero, endZero]).flatten

/-- Slices one after the other, and behind them one slice inside another. -/
def nestedBehind (count : Nat) : List SliceEvent :=
  slicesInRow count ++ [beginZero, beginZero, endZero, endZero]

variable (count : Nat)

theorem slicesInRow_succ : slicesInRow (count + 1) = beginZero :: endZero :: slicesInRow count := by
  simp [slicesInRow, replicate_succ]

theorem step_slice (begun : Nat) :
    ((⟨begun, fun _ => []⟩ : Nesting).step beginZero).step endZero = ⟨begun + 1, fun _ => []⟩ := by
  simp [Nesting.step, beginZero, endZero]

theorem run_slicesInRow (begun : Nat) :
    run Nesting.step ⟨begun, fun _ => []⟩ (slicesInRow count) = ⟨begun + count, fun _ => []⟩ := by
  induction count generalizing begun with
  | zero => rfl
  | succ count induction =>
    rw [slicesInRow_succ, run_cons, run_cons, step_slice, induction]
    congr 1
    omega

theorem eachStep_slicesInRow {condition : Nesting → SliceEvent → Prop}
    (atBegin : ∀ begun, condition ⟨begun, fun _ => []⟩ beginZero)
    (atEnd : ∀ begun, condition ((⟨begun, fun _ => []⟩ : Nesting).step beginZero) endZero)
    (count begun : Nat) :
    EachStep Nesting.step condition ⟨begun, fun _ => []⟩ (slicesInRow count) := by
  induction count generalizing begun with
  | zero => trivial
  | succ count induction =>
    rw [slicesInRow_succ]
    refine ⟨atBegin begun, atEnd begun, ?_⟩
    rw [step_slice]
    exact induction (begun + 1)

theorem balanced_nestedBehind : Balanced (nestedBehind count) := by
  have after := run_slicesInRow count 0
  refine ⟨?_, ?_⟩
  · rw [nestedBehind, eachStep_append]
    refine ⟨eachStep_slicesInRow ?_ ?_ count 0, ?_⟩
    · simp [Nesting.Closes, beginZero]
    · simp [Nesting.Closes, beginZero, endZero, Nesting.step]
    · rw [Nesting.initial, after]
      simp [EachStep, Nesting.Closes, beginZero, endZero, Nesting.step]
  · rw [Nesting.after, nestedBehind, run_append, Nesting.initial, after]
    simp [run, beginZero, endZero, Nesting.step]

theorem timeOrdered_nestedBehind : TimeOrdered (nestedBehind count) := by
  have zero : ∀ event ∈ nestedBehind count, event.timeStamp = 0 := by
    intro event member
    have cases : event = beginZero ∨ event = endZero := by
      simp only [nestedBehind, slicesInRow, mem_append, mem_flatten,
        mem_replicate, mem_cons, not_mem_nil, or_false] at member
      rcases member with ⟨pair, ⟨-, rfl⟩, inPair⟩ | inTail
      · simpa using inPair
      · rcases inTail with h | h | h | h <;> simp [h]
    rcases cases with rfl | rfl <;> rfl
  refine pairwise_of_forall_mem_list fun first inFirst second inSecond _ => ?_
  have same : first.timeStamp = second.timeStamp :=
    (zero first inFirst).trans (zero second inSecond).symm
  exact same ▸ UInt64.le_refl first.timeStamp

theorem nestedWithin_nestedBehind : NestedWithin SliceFilter.maxDepth (nestedBehind count) := by
  have short (nesting : Nesting) (event : SliceEvent) (internalTid : UInt32) :
    ((nesting.step event).opened internalTid).length ≤
      (nesting.opened internalTid).length + 1 := by
    by_cases other : internalTid = event.internalTid
    · subst other
      cases event with
      | beginSlice internalTid timeStamp cat name =>
        simp [SliceEvent.internalTid, Nesting.opened_begin]
      | endSlice internalTid timeStamp =>
        simp only [SliceEvent.internalTid, Nesting.opened_end, length_tail]
        omega
    · rw [Nesting.opened_step_of_ne nesting other]
      omega
  refine nestedWithin_of_eachStep ?_
  rw [nestedBehind, eachStep_append]
  refine ⟨eachStep_slicesInRow ?_ ?_ count 0, ?_⟩
  · intro begun internalTid
    have bound := short ⟨begun, fun _ => []⟩ beginZero internalTid
    simp only [length_nil, SliceFilter.maxDepth] at bound ⊢
    omega
  · intro begun internalTid
    rw [step_slice]
    simp
  · rw [Nesting.initial, run_slicesInRow]
    refine ⟨?_, ?_, ?_, ?_, trivial⟩ <;> intro internalTid <;> by_cases same : internalTid = 0 <;>
      simp [Nesting.step, beginZero, endZero, SliceFilter.maxDepth, same]

theorem allows_slicesInRow (begun : Nat) :
    EachStep Nesting.step Nesting.Allows ⟨begun, fun _ => []⟩ (slicesInRow count) := by
  refine eachStep_slicesInRow ?_ ?_ count begun
  · simp [Nesting.Allows, beginZero, SliceFilter.maxDepth]
  · simp [Nesting.Allows, Nesting.step, beginZero, endZero]

theorem tracks_slicesInRow {count : Nat} (few : count ≤ 2 ^ 32) :
    Tracks (SliceFilter.after (slicesInRow count)) ⟨count, fun _ => []⟩ := by
  have reached := run_slicesInRow count 0
  rw [zero_add] at reached
  have tracks := tracks_initial.run Nesting.valid_initial (allows_slicesInRow count 0)
  rw [Nesting.initial, reached] at tracks
  exact tracks few

theorem firstRow_slicesInRow {count : Nat} (few : count + 1 ≤ 2 ^ 32) :
    ∃ row, (SliceFilter.after (slicesInRow (count + 1))).slices[0]? = some row ∧
      row.timeStamp = 0 ∧ row.dur = 0 := by
  have allows := allows_slicesInRow (count + 1) 0
  have reached := run_slicesInRow (count + 1) 0
  rw [slicesInRow_succ] at allows reached
  rw [run_cons] at reached
  have valid : Nesting.Valid ⟨0, fun _ => []⟩ := Nesting.valid_initial
  have began : (SliceFilter.initial.step beginZero).slices[0]? =
    some (Tracks.beganRow ⟨0, fun _ => []⟩ 0 0 0 0) := by
    change (SliceFilter.initial.beginSlice 0 0 0 0).2.slices[0]? = _
    rw [(tracks_initial.leaves_begin (Nat.zero_le _) allows.1 0 0 0).slices_eq]
    rfl
  have allowsLater : EachStep Nesting.step Nesting.Allows (Nesting.initial.step beginZero)
    ([] ++ .endSlice 0 0 :: slicesInRow count) :=
    allows.2
  have final : (run SliceFilter.step (SliceFilter.initial.step beginZero)
    ([] ++ .endSlice 0 0 :: slicesInRow count)).slices[0]? =
    some { Tracks.beganRow ⟨0, fun _ => []⟩ 0 0 0 0 with dur := 0 - 0 } := by
    refine (tracks_initial.step valid (Nat.zero_le _) allows.1).row_of_end
      (valid.step beginZero) allowsLater ?_ began trivial rfl
    change (run Nesting.step _ (endZero :: slicesInRow count)).begun ≤ _
    rw [Nesting.initial, reached, zero_add]
    exact few
  rw [SliceFilter.after, slicesInRow_succ, run_cons]
  exact ⟨_, final, rfl, rfl⟩

theorem depth_innerBehind {count : Nat} (size : count + 1 = 2 ^ 32) :
    ∃ row, (SliceFilter.after (nestedBehind (count + 1))).slices[count + 2]? = some row ∧
      row.depth = 0 := by
  have few : count + 1 ≤ 2 ^ 32 := size.le
  have tracks := tracks_slicesInRow few
  rcases firstRow_slicesInRow few with ⟨first, readFirst, atZero, noTime⟩
  rw [SliceFilter.after, nestedBehind, run_append]
  rw [SliceFilter.after] at tracks readFirst
  generalize run SliceFilter.step SliceFilter.initial (slicesInRow (count + 1)) = filter at *
  have valid : Nesting.Valid ⟨count + 1, fun _ => []⟩ := by refine ⟨?_, ?_, ?_⟩ <;> simp
  have room : Nesting.Allows ⟨count + 1, fun _ => []⟩ beginZero := by
    simp [Nesting.Allows, beginZero, SliceFilter.maxDepth]
  have outer := tracks.leaves_begin few room 0 0 0
  have tracksOuter := tracks.step valid few room
  have stackOuter : (filter.step beginZero).stack 0 = [count + 1] := by
    rw [tracksOuter.stack]
    rfl
  have readOuter : (filter.step beginZero).slices.rowAt (count + 1) = some first := by
    have inside := (List.getElem?_eq_some_iff.1 readFirst).1
    rw [CallStack.rowAt, size, Nat.mod_self]
    change (filter.beginSlice _ _ _ _).2.slices[0]? = _
    rw [outer.slices_eq, getElem?_append_left inside, readFirst]
  have closing : SliceFilter.closeUnMatchedSlice (0 : UInt64).toInt64
    (filter.step beginZero).slices ((filter.step beginZero).stack 0) =
      ⟨(filter.step beginZero).slices, [], false⟩ := by
    rw [stackOuter]
    exact SliceFilter.closeUnMatchedSlice_completedTop readOuter
      (by rw [noTime]; decide) (by rw [noTime, atZero]; decide) []
  have inner :=
    SliceFilter.leaves_startSlice_accepted tracksOuter.synchronous invalidUint64 0
      0 closing (Nat.succ_pos _)
  have firstEnd := SliceFilter.depth_endSlice inner.synchronous 0 0 invalidUint64 invalidUint64
  have secondEnd := SliceFilter.depth_endSlice firstEnd.2 0 0 invalidUint64 invalidUint64
  have depths := secondEnd.1.trans firstEnd.1
  rw [inner.slices_eq, map_append] at depths
  have here := congrArg (fun list => list[count + 2]?) depths
  have sizeOuter : (filter.step beginZero).slices.length = count + 2 := tracksOuter.size
  simp only [getElem?_map] at here
  rw [List.getElem?_append_right (by simp [sizeOuter]), length_map, sizeOuter, Nat.sub_self] at here
  rcases Option.map_eq_some_iff.1 here with ⟨row, read, shallow⟩
  exact ⟨row, read, shallow⟩

/-- With 2^32 rows before them, two nested slices are recorded side by side. -/
theorem not_wellNested_nestedBehind :
    Balanced (nestedBehind (2 ^ 32)) ∧ TimeOrdered (nestedBehind (2 ^ 32)) ∧
      NestedWithin SliceFilter.maxDepth (nestedBehind (2 ^ 32)) ∧
        ¬ WellNested (nestedBehind (2 ^ 32)) (SliceFilter.after (nestedBehind (2 ^ 32))) := by
  refine ⟨balanced_nestedBehind _, timeOrdered_nestedBehind _, nestedWithin_nestedBehind _, ?_⟩
  intro wellNested
  have size : 4294967295 + 1 = 2 ^ 32 := by norm_num
  generalize 4294967295 = count at size
  rw [← size] at wellNested
  rcases depth_innerBehind size with ⟨row, read, shallow⟩
  have nesting : Nesting.after (slicesInRow (count + 1) ++ [beginZero]) =
    (⟨count + 1, fun _ => []⟩ : Nesting).step beginZero := by
    rw [Nesting.after, run_append, Nesting.initial, run_slicesInRow, zero_add]
    rfl
  rcases wellNested.1 (slicesInRow (count + 1) ++ [beginZero]) 0 0 0 0
    [endZero, endZero] (by simp [nestedBehind, beginZero]) with
    ⟨_, _, _, _, _, inner, readInner, _, deep, _⟩
  rw [nesting] at readInner deep
  change _[count + 2]? = _ at readInner
  rw [read, Option.some.injEq] at readInner
  rw [← readInner, shallow, beginZero, Nesting.opened_begin] at deep
  cases deep

end SysAnalyzer.Filter
