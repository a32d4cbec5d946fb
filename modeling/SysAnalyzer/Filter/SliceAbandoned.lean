import SysAnalyzer.Filter.SliceFilter

/-!
# Slices that leave a stack open

An end with a category or a name may complete a slice below the top of its
stack, and the completed entry stays there.  The next call whose time is past
the end of that slice pops it with everything above it.  The loop that should
give the entries above an end writes to the completed row instead, so that an
incomplete slice above it leaves the stack with its duration still -1.

This is the only way a slice is lost: in every run in which no call finds a
completed slice of the past below an incomplete one, an entry that leaves a
stack has a duration.
-/

namespace SysAnalyzer.Filter

open Foundation List Function

namespace SliceFilter

def CompleteAt (slices : CallStack) (index : Nat) : Prop :=
  ∃ row, slices.rowAt index = some row ∧ row.dur ≠ invalidUint64

def IncompleteAt (slices : CallStack) (index : Nat) : Prop :=
  ∃ row, slices.rowAt index = some row ∧ row.dur = invalidUint64

/-- The row of a stack entry is complete and ended before the given time. -/
def PastAt (ts : Int64) (slices : CallStack) (index : Nat) : Prop :=
  ∃ row, slices.rowAt index = some row ∧ row.dur ≠ invalidUint64 ∧
    row.timeStamp.toInt64 + row.dur.toInt64 < ts

/-- The entry at a position is of the past and lies below an incomplete one. -/
def StrandedAt (ts : Int64) (slices : CallStack) (stack : List Nat) (lower : Nat) : Prop :=
  ∃ below, stack[lower]? = some below ∧ PastAt ts slices below ∧
    ∃ upper above, lower < upper ∧ stack[upper]? = some above ∧ IncompleteAt slices above

/-- A complete entry of the past lies below an incomplete one. -/
def Stranded (ts : Int64) (slices : CallStack) (stack : List Nat) : Prop :=
  ∃ lower, StrandedAt ts slices stack lower

/--
An entry that leaves a stack in a call is complete after the call.  The row of
an entry is the one its slice was appended with.
-/
def NoneAbandoned (filter : SliceFilter) (call : SliceCall) : Prop :=
  ∀ internalTid, ∀ index ∈ filter.stack internalTid,
    index ∉ (filter.stepCall call).stack internalTid →
      ∃ row, (filter.stepCall call).slices[index]? = some row ∧ row.dur ≠ invalidUint64

/-- The call finds no complete slice of the past below an incomplete one. -/
def NoneStranded (filter : SliceFilter) (call : SliceCall) : Prop :=
  ¬ Stranded call.timeStamp.toInt64 filter.slices (filter.stack call.internalTid)

/-! ## The closing loop -/

theorem toInt64_eq_neg_one_iff (dur : UInt64) : dur.toInt64 = -1 ↔ dur = invalidUint64 := by
  constructor
  · intro minusOne
    exact congrArg Int64.toUInt64 minusOne
  · rintro rfl
    decide

theorem closeStep_of_read {ts : Int64} {closing : Closing} {i index : Nat} {row : CallStackRow}
    (entry : closing.stack[i]? = some index) (read : closing.slices.rowAt index = some row) :
    closeStep ts closing i = if row.dur = invalidUint64 then { closing with incomplete := true }
      else if closing.incomplete then
        if ts ≤ row.timeStamp.toInt64 + row.dur.toInt64 then closing
        else
          { slices :=
              if i + 1 < closing.stack.length then
                closing.slices.setDur (index % 2 ^ 32)
                  ((row.timeStamp.toInt64 + row.dur.toInt64).toUInt64 -
                    row.timeStamp)
              else closing.slices
            stack := closing.stack.take i
            incomplete := false }
      else if row.timeStamp.toInt64 + row.dur.toInt64 ≤ ts then
        { closing with stack := closing.stack.dropLast }
      else closing := by
  simp only [closeStep, entry, read, toInt64_eq_neg_one_iff]

theorem not_incompleteAt {slices : CallStack} {index : Nat} (complete : CompleteAt slices index) :
    ¬ IncompleteAt slices index := by
  rcases complete with ⟨row, read, done⟩
  rintro ⟨other, readOther, pending⟩
  rw [read, Option.some.injEq] at readOther
  exact done (readOther ▸ pending)

section Loop

variable {ts : Int64} {slices : CallStack} {stack : List Nat}

/--
The loop before its turn on the entry below `first`, when no turn so far has met
a complete entry of the past below an incomplete one.
-/
structure Seen (slices : CallStack) (stack : List Nat) (first : Nat)
    (closing : Closing) : Prop where
  slices_eq : closing.slices = slices
  isPrefix : closing.stack <+: stack
  rest : first ≤ closing.stack.length
  popped : ∀ position index, closing.stack.length ≤ position →
    stack[position]? = some index → CompleteAt slices index
  complete : closing.incomplete = false → ∀ position index, first ≤ position →
    stack[position]? = some index → CompleteAt slices index
  incomplete : closing.incomplete = true → ∃ position index, first ≤ position ∧
    stack[position]? = some index ∧ IncompleteAt slices index

theorem seen_start : Seen slices stack stack.length ⟨slices, stack, false⟩ := by
  have nothing (position index : Nat) (outside : stack.length ≤ position)
    (entry : stack[position]? = some index) : CompleteAt slices index := by
    rw [getElem?_eq_none outside] at entry
    cases entry
  exact ⟨rfl, prefix_rfl, le_refl _, nothing, fun _ => nothing,
    fun isTrue => absurd isTrue Bool.false_ne_true⟩

theorem Seen.getElem?_stack {first position : Nat} {closing : Closing}
    (seen : Seen slices stack first closing) (inside : position < closing.stack.length) :
    closing.stack[position]? = stack[position]? := by
  rcases seen.isPrefix with ⟨popped, split⟩
  rw [← split, getElem?_append_left inside]

theorem Seen.step {first index : Nat} {row : CallStackRow} {closing : Closing}
    (seen : Seen slices stack (first + 1) closing)
    (entry : stack[first]? = some index) (read : slices.rowAt index = some row)
    (kept : ¬ StrandedAt ts slices stack first) :
    Seen slices stack first (closeStep ts closing first) := by
  have entryHere : closing.stack[first]? = some index := by
    rw [seen.getElem?_stack seen.rest, entry]
  have readHere : closing.slices.rowAt index = some row := by rw [seen.slices_eq, read]
  rw [closeStep_of_read entryHere readHere]
  have later {position other : Nat} (from_ : first ≤ position)
    (found : stack[position]? = some other) :
    first + 1 ≤ position ∨ other = index := by
    rcases Nat.lt_or_eq_of_le from_ with above | here
    · exact Or.inl above
    · rw [← here, entry, Option.some.injEq] at found
      exact Or.inr found.symm
  have shorter : first ≤ closing.stack.length := (Nat.le_succ _).trans seen.rest
  by_cases pending : row.dur = invalidUint64
  · rw [if_pos pending]
    exact ⟨seen.slices_eq, seen.isPrefix, shorter, seen.popped,
      fun isFalse => absurd isFalse (by simp),
      fun _ => ⟨first, index, le_refl _, entry, row, read, pending⟩⟩
  rw [if_neg pending]
  by_cases waiting : closing.incomplete = true
  · rcases seen.incomplete waiting with ⟨position, other, above, found, open_⟩
    have notPast : ts ≤ row.timeStamp.toInt64 + row.dur.toInt64 := by
      by_contra past
      exact kept ⟨index, entry, ⟨row, read, pending, Int64.not_le.1 past⟩, position,
        other, above, found, open_⟩
    rw [if_pos waiting, if_pos notPast]
    exact ⟨seen.slices_eq, seen.isPrefix, shorter, seen.popped,
      fun isFalse => absurd (waiting.symm.trans isFalse) (by simp),
      fun _ => ⟨position, other, (Nat.le_succ _).trans above, found, open_⟩⟩
  rw [if_neg waiting]
  -- nothing incomplete so far: whichever entry is popped, it is complete
  have allComplete (position other : Nat) (from_ : first ≤ position)
      (found : stack[position]? = some other) : CompleteAt slices other := by
    rcases later from_ found with above | same
    · exact seen.complete (by simpa using waiting) position other above found
    · exact ⟨row, same ▸ read, pending⟩
  split_ifs with past
  · have rest := seen.rest
    refine ⟨seen.slices_eq, ( dropLast_prefix _).trans seen.isPrefix, ?_, ?_,
      fun _ => allComplete, fun isTrue => absurd isTrue waiting⟩
    · simp only [length_dropLast]
      omega
    · intro position other outside found
      simp only [length_dropLast] at outside
      exact allComplete position other (by omega) found
  · exact ⟨seen.slices_eq, seen.isPrefix, shorter, seen.popped,
      fun _ => allComplete, fun isTrue => absurd isTrue waiting⟩

section

variable (readable : ∀ index ∈ stack, ∃ row, slices.rowAt index = some row)
include readable

theorem exists_seen (first : Nat) (inside : first ≤ stack.length)
    (kept : ∀ lower, first ≤ lower → ¬ StrandedAt ts slices stack lower) :
    ∃ closing, Seen slices stack first closing ∧ closeUnMatchedSlice ts slices stack =
      run (closeStep ts) closing (range first).reverse := by
  rcases Nat.exists_eq_add_of_le inside with ⟨turns, size⟩
  induction turns generalizing first with
  | zero =>
    rw [add_zero] at size
    rw [← size]
    exact ⟨_, seen_start, rfl⟩
  | succ turns induction =>
    rcases induction (first + 1) (by omega)
      (fun lower above => kept lower ((Nat.le_succ _).trans above))
      (by omega) with
      ⟨closing, seen, same⟩
    have entry : stack[first]? = some (stack.get ⟨first, by omega⟩) := getElem?_eq_getElem _
    rcases readable _ (mem_of_getElem? entry) with ⟨row, read⟩
    refine ⟨closeStep ts closing first, seen.step entry read (kept first (le_refl _)), ?_⟩
    rw [same, range_succ, reverse_append, reverse_singleton, singleton_append, run_cons]

theorem closeUnMatchedSlice_of_not_stranded (notStranded : ¬ Stranded ts slices stack) :
    (closeUnMatchedSlice ts slices stack).slices = slices ∧
      ∀ index ∈ stack, index ∉ (closeUnMatchedSlice ts slices stack).stack →
        CompleteAt slices index := by
  rcases exists_seen readable 0 (Nat.zero_le _)
    (fun lower _ stranded => notStranded ⟨lower, stranded⟩) with
    ⟨closing, seen, same⟩
  rw [same]
  refine ⟨seen.slices_eq, ?_⟩
  intro index member gone
  rcases getElem?_of_mem member with ⟨position, entry⟩
  by_cases inside : position < closing.stack.length
  · rw [← seen.getElem?_stack inside] at entry
    exact absurd (mem_of_getElem? entry) gone
  · exact seen.popped position index (not_lt.1 inside) entry

end

theorem closeStep_frame (ts : Int64) {closing : Closing} {stack : List Nat} {number : Nat}
    {read : Option CallStackRow} (apart : ∀ index ∈ stack, index % 2 ^ 32 ≠ number)
    (isPrefix : closing.stack <+: stack) (same : closing.slices[number]? = read) (i : Nat) :
    (closeStep ts closing i).stack <+: stack ∧ (closeStep ts closing i).slices[number]? = read := by
  have closed : Closed closing.slices closing.stack (closeStep ts closing i) :=
    closed_closeStep ⟨prefix_rfl, rfl, fun _ => rfl⟩ ts i
  refine ⟨closed.isPrefix.trans isPrefix, ?_⟩
  unfold closeStep
  split
  · exact same
  · next index entry =>
      split
      · exact same
      · have other : index % 2 ^ 32 ≠ number :=
          apart index (isPrefix.subset (mem_of_getElem? entry))
        dsimp only
        split_ifs
        · exact same
        · exact same
        · rw [CallStack.setDur, getElem?_modify_ne _ _ other, same]
        · exact same
        · exact same
        · exact same

theorem run_closeStep_frame (ts : Int64) (closing : Closing) {number : Nat}
    (apart : ∀ index ∈ closing.stack, index % 2 ^ 32 ≠ number) (turns : List Nat) :
    (run (closeStep ts) closing turns).stack <+: closing.stack ∧
      (run (closeStep ts) closing turns).slices[number]? = closing.slices[number]? := by
  have kept (reached : Closing) (i : Nat) (frame : reached.stack <+: closing.stack ∧
    reached.slices[number]? = closing.slices[number]?) :
    (closeStep ts reached i).stack <+: closing.stack ∧
      (closeStep ts reached i).slices[number]? = closing.slices[number]? :=
    closeStep_frame ts apart frame.1 frame.2 i
  exact run_invariant_of_preserves kept turns ⟨prefix_rfl, rfl⟩

theorem apart_of_distinct (distinct : (stack.map (· % 2 ^ 32)).Nodup) {first second : Nat}
    (different : first ≠ second) {left right : Nat} (entryFirst : stack[first]? = some left)
    (entrySecond : stack[second]? = some right) : left % 2 ^ 32 ≠ right % 2 ^ 32 := by
  intro same
  have inside : first < (stack.map (· % 2 ^ 32)).length := by
    rw [length_map]
    exact (List.getElem?_eq_some_iff.1 entryFirst).1
  refine different ((getElem?_inj inside distinct).1 ?_)
  rw [getElem?_map, getElem?_map, entryFirst, entrySecond]
  exact congrArg some same

theorem exists_topmost_stranded (stranded : Stranded ts slices stack) :
    ∃ lower, StrandedAt ts slices stack lower ∧
      ∀ higher, lower + 1 ≤ higher → ¬ StrandedAt ts slices stack higher := by
  classical
  have inside (lower : Nat) (here : StrandedAt ts slices stack lower) : lower ≤ stack.length := by
    rcases here with ⟨below, entry, -⟩
    exact (List.getElem?_eq_some_iff.1 entry).1.le
  rcases stranded with ⟨lower, here⟩
  refine ⟨Nat.findGreatest (StrandedAt ts slices stack) stack.length, ?_, ?_⟩
  · exact Nat.findGreatest_spec (inside lower here) here
  · intro higher greater there
    exact Nat.findGreatest_is_greatest greater (inside higher there) there

theorem closeUnMatchedSlice_of_stranded
    (readable : ∀ index ∈ stack, ∃ row, slices.rowAt index = some row)
    (distinct : (stack.map (· % 2 ^ 32)).Nodup) (stranded : Stranded ts slices stack) :
    ∃ index ∈ stack, index ∉ (closeUnMatchedSlice ts slices stack).stack ∧
      IncompleteAt (closeUnMatchedSlice ts slices stack).slices index := by
  rcases exists_topmost_stranded stranded with
    ⟨lower, ⟨below, entryLower, ⟨row, read, done, past⟩, upper, above, higher,
      entryUpper, pending⟩, topmost⟩
  have insideUpper := (List.getElem?_eq_some_iff.1 entryUpper).1
  rcases exists_seen readable (lower + 1) (by omega) topmost with
    ⟨closing, seen, same⟩
  have waiting : closing.incomplete = true := by
    by_contra notWaiting
    exact not_incompleteAt (seen.complete (by simpa using notWaiting) upper above higher entryUpper)
      pending
  have stacked : lower + 1 < closing.stack.length := by
    by_contra outside
    exact not_incompleteAt (seen.popped upper above (by omega) entryUpper) pending
  have entryHere : closing.stack[lower]? = some below := by
    rw [seen.getElem?_stack (by omega), entryLower]
  have readHere : closing.slices.rowAt below = some row := by rw [seen.slices_eq, read]
  have apart : ∀ index ∈ closing.stack.take lower, index % 2 ^ 32 ≠ above % 2 ^ 32 := by
    intro index member
    rcases getElem?_of_mem member with ⟨position, entry⟩
    have under : position < lower := by
      have inside := (List.getElem?_eq_some_iff.1 entry).1
      simp only [length_take] at inside
      omega
    rw [getElem?_take_of_lt under, seen.getElem?_stack (by omega)] at entry
    exact apart_of_distinct distinct (by omega) entry entryUpper
  rw [same, range_succ, reverse_append, reverse_singleton,
    singleton_append, run_cons, closeStep_of_read entryHere readHere,
    if_neg done, if_pos waiting, if_neg (Int64.not_le.2 past), if_pos stacked]
  have different : below % 2 ^ 32 ≠ above % 2 ^ 32 :=
    apart_of_distinct distinct (by omega) entryLower entryUpper
  have final :=
    run_closeStep_frame ts ⟨closing.slices.setDur (below % 2 ^ 32)
      ((row.timeStamp.toInt64 + row.dur.toInt64).toUInt64 - row.timeStamp),
      closing.stack.take lower, false⟩
      apart (range lower).reverse
  refine ⟨above, mem_of_getElem? entryUpper, ?_, ?_⟩
  · intro member
    exact apart above (final.1.subset member) rfl
  · rcases pending with ⟨other, readOther, open_⟩
    refine ⟨other, ?_, open_⟩
    rw [CallStack.rowAt, final.2, CallStack.setDur,
      getElem?_modify_ne _ _ different, seen.slices_eq]
    exact readOther

end Loop

theorem incompleteAt_of_matchesAt
    {slices : CallStack} {stack : List Nat} {category name : UInt64} {i index : Nat}
    (isMatch : matchesAt slices stack category name i = true)
    (entry : stack[i]? = some index) : IncompleteAt slices index := by
  unfold matchesAt at isMatch
  rw [entry, Option.bind_some] at isMatch
  cases read : slices.rowAt index with
  | none => simp [read] at isMatch
  | some row =>
    simp only [read, Bool.and_eq_true, beq_iff_eq] at isMatch
    exact ⟨row, read, isMatch.1.1⟩

/-- The outcomes of a call on a thread, given what its closing left. -/
inductive Outcome (filter : SliceFilter) (internalTid : UInt32)
    (timeStamp : UInt64) (closed : Closing)
    (result : Option Nat × SliceFilter) : Prop where
  | refused (row : CallStackRow) (begun : row.timeStamp = timeStamp)
    (leaves : Leaves filter internalTid result none (closed.slices ++ [row]) closed.stack)
  | accepted (row : CallStackRow) (begun : row.timeStamp = timeStamp)
    (leaves : Leaves filter internalTid result (some closed.slices.length)
      (closed.slices ++ [row]) (closed.stack ++ [closed.slices.length]))
  | unmatched
    (leaves : Leaves filter internalTid result none closed.slices closed.stack)
  | matched (stackIdx lastRow : Nat)
    (entry : closed.stack[stackIdx]? = some lastRow)
    (incomplete : IncompleteAt closed.slices lastRow)
    (leaves : Leaves filter internalTid result (some lastRow)
      (closed.slices.setDuration lastRow timeStamp)
      (if stackIdx + 1 = closed.stack.length then closed.stack.dropLast else closed.stack))

theorem Outcome.stack_of_ne {filter : SliceFilter} {internalTid other : UInt32} {timeStamp : UInt64}
    {closed : Closing} {result : Option Nat × SliceFilter}
    (outcome : Outcome filter internalTid timeStamp closed result)
    (different : other ≠ internalTid) : result.2.stack other = filter.stack other := by
  cases outcome with
  | refused row begun leaves => rw [leaves.stack_eq, update_of_ne different]
  | accepted row begun leaves => rw [leaves.stack_eq, update_of_ne different]
  | unmatched leaves => rw [leaves.stack_eq, update_of_ne different]
  | matched stackIdx lastRow entry incomplete leaves => rw [leaves.stack_eq, update_of_ne different]

section Calls

variable {filter : SliceFilter}

theorem outcome_startSlice (synchronous : filter.Synchronous) (timeStamp duration : UInt64)
    (internalTid : UInt32) (cat name : UInt64) :
    Outcome filter internalTid timeStamp (closeUnMatchedSlice timeStamp.toInt64 filter.slices
      (filter.stack internalTid))
      (filter.startSlice timeStamp duration internalTid cat name) := by
  generalize closing : closeUnMatchedSlice timeStamp.toInt64 filter.slices
    (filter.stack internalTid) = closed
  by_cases deep : maxDepth ≤ closed.stack.length
  · exact .refused _ rfl (leaves_startSlice_refused synchronous duration cat name closing deep)
  · exact .accepted _ rfl (leaves_startSlice_accepted synchronous duration cat name closing
      (not_le.1 deep))

theorem outcome_endSlice (synchronous : filter.Synchronous) (timeStamp : UInt64)
    (internalTid : UInt32) (category name : UInt64) :
    Outcome filter internalTid timeStamp (closeUnMatchedSlice timeStamp.toInt64 filter.slices
      (filter.stack internalTid)) (filter.endSlice timeStamp internalTid category name) := by
  generalize closing : closeUnMatchedSlice timeStamp.toInt64 filter.slices
    (filter.stack internalTid) = closed
  cases isMatch : matchingIncompleteSliceIndex closed.slices closed.stack category name with
  | none => exact .unmatched (leaves_endSlice_unmatched synchronous closing isMatch)
  | some stackIdx =>
    rcases matchingIncompleteSliceIndex_eq_some isMatch with ⟨inside, matches_⟩
    have entry := getElem?_eq_getElem inside
    exact .matched stackIdx _ entry (incompleteAt_of_matchesAt matches_ entry)
      (leaves_endSlice_matched synchronous closing isMatch entry)

theorem outcome_handleCall (synchronous : filter.Synchronous) (call : SliceCall) :
    Outcome filter call.internalTid call.timeStamp
      (closeUnMatchedSlice call.timeStamp.toInt64 filter.slices (filter.stack call.internalTid))
      (filter.handleCall call) := by
  cases call with
  | beginSlice internalTid timeStamp cat name =>
    exact outcome_startSlice synchronous timeStamp _ internalTid cat name
  | beginBinder internalTid timeStamp cat name =>
    exact outcome_startSlice synchronous timeStamp _ internalTid cat name
  | asyncBinder internalTid timeStamp cat name =>
    exact outcome_startSlice synchronous timeStamp _ internalTid cat name
  | endSlice internalTid timeStamp category name =>
    exact outcome_endSlice synchronous timeStamp internalTid category name
  | endBinder internalTid timeStamp category name =>
    exact outcome_endSlice synchronous timeStamp internalTid category name

end Calls

/-- The entries of a stack are different rows of the table. -/
structure Sound (filter : SliceFilter) : Prop where
  synchronous : filter.Synchronous
  inside : ∀ internalTid, ∀ index ∈ filter.stack internalTid, index < filter.slices.length
  nodup : ∀ internalTid, (filter.stack internalTid).Nodup

theorem sound_initial : initial.Sound := by
  refine ⟨?_, ?_, ?_⟩
  · intro internalTid info found
    cases found
  · intro internalTid index member
    cases member
  · intro internalTid
    exact nodup_nil

namespace Sound

variable {filter : SliceFilter} (sound : filter.Sound)

include sound

theorem of_leaves {internalTid : UInt32} {result : Option Nat × SliceFilter}
    {answer : Option Nat} {slices : CallStack} {stack : List Nat}
    (leaves : Leaves filter internalTid result answer slices stack)
    (longer : filter.slices.length ≤ slices.length)
    (inside : ∀ index ∈ stack, index < slices.length) (nodup : stack.Nodup) : result.2.Sound := by
  refine ⟨leaves.synchronous, ?_, ?_⟩
  · intro other index member
    rw [leaves.stack_eq] at member
    rw [leaves.slices_eq]
    by_cases same : other = internalTid
    · subst same
      rw [update_self] at member
      exact inside index member
    · rw [update_of_ne same] at member
      exact lt_of_lt_of_le (sound.inside other index member) longer
  · intro other
    rw [leaves.stack_eq]
    by_cases same : other = internalTid
    · subst same
      rwa [update_self]
    · rw [update_of_ne same]
      exact sound.nodup other

theorem step (call : SliceCall) : (filter.stepCall call).Sound ∧
    (filter.stepCall call).slices.length ≤ filter.slices.length + 1 := by
  have outcome := outcome_handleCall sound.synchronous call
  have closing :=
    closed_closeUnMatchedSlice call.timeStamp.toInt64 filter.slices (filter.stack call.internalTid)
  generalize closeUnMatchedSlice call.timeStamp.toInt64 filter.slices
    (filter.stack call.internalTid) = closed at outcome closing
  have size := closing.size
  have inside : ∀ index ∈ closed.stack, index < closed.slices.length := by
    intro index member
    rw [size]
    exact sound.inside _ index (closing.isPrefix.subset member)
  have nodup : closed.stack.Nodup := (sound.nodup _).sublist closing.isPrefix.sublist
  cases outcome with
  | refused row begun leaves =>
    refine ⟨sound.of_leaves leaves ?_ ?_ nodup, ?_⟩
    · simp [size]
    · intro index member
      exact (inside index member).trans_le (by simp)
    · simp [stepCall, leaves.slices_eq, size]
  | accepted row begun leaves =>
    refine ⟨sound.of_leaves leaves ?_ ?_ ?_, ?_⟩
    · simp [size]
    · intro index member
      rcases mem_append.1 member with old | fresh
      · exact (inside index old).trans_le (by simp)
      · simp [mem_singleton.1 fresh]
    · rw [nodup_append]
      refine ⟨nodup, nodup_singleton _, ?_⟩
      intro index old other fresh same
      have bound := inside index old
      rw [same, mem_singleton.1 fresh] at bound
      exact lt_irrefl _ bound
    · simp [stepCall, leaves.slices_eq, size]
  | unmatched leaves =>
    refine ⟨sound.of_leaves leaves size.ge inside nodup, ?_⟩
    simp [stepCall, leaves.slices_eq, size]
  | matched stackIdx lastRow entry incomplete leaves =>
    have shorter : (if stackIdx + 1 = closed.stack.length then closed.stack.dropLast
      else closed.stack) <+: closed.stack := by
      split
      · exact dropLast_prefix _
      · exact prefix_rfl
    refine ⟨sound.of_leaves leaves (by simp [size]) ?_ (nodup.sublist shorter.sublist), ?_⟩
    · intro index member
      rw [CallStack.length_setDuration]
      exact inside index (shorter.subset member)
    · simp [stepCall, leaves.slices_eq, size]

section

variable (few : filter.slices.length ≤ 2 ^ 32)
include few

theorem rowAt {internalTid : UInt32} {index : Nat}
    (member : index ∈ filter.stack internalTid) (slices : CallStack) :
    slices.rowAt index = slices[index]? := by
  have inside := sound.inside internalTid index member
  rw [CallStack.rowAt, Nat.mod_eq_of_lt (by omega)]

theorem readable (internalTid : UInt32) :
    ∀ index ∈ filter.stack internalTid, ∃ row, filter.slices.rowAt index = some row := by
  intro index member
  rw [sound.rowAt few member]
  exact ⟨_, getElem?_eq_getElem (sound.inside internalTid index member)⟩

theorem distinct (internalTid : UInt32) : ((filter.stack internalTid).map (· % 2 ^ 32)).Nodup := by
  have narrow : ∀ index ∈ filter.stack internalTid, index % 2 ^ 32 = id index := by
    intro index member
    have inside := sound.inside internalTid index member
    exact Nat.mod_eq_of_lt (by omega)
  rw [map_congr_left narrow, map_id]
  exact sound.nodup internalTid

end

end Sound

theorem sub_ne_invalid {first last : UInt64} (order : first ≤ last) (valid : last ≠ invalidUint64) :
    last - first ≠ invalidUint64 := by
  intro same
  have value := congrArg UInt64.toNat same
  rw [UInt64.toNat_sub_of_le _ _ order] at value
  have bound : last.toNat < 2 ^ 64 := last.toNat_lt
  have largest : invalidUint64.toNat = 2 ^ 64 - 1 := by decide
  refine valid (UInt64.toNat_inj.1 ?_)
  omega

theorem mem_dropLast_of_ne_top {stack : List Nat} {stackIdx top index : Nat}
    (entry : stack[stackIdx]? = some top) (isTop : stackIdx + 1 = stack.length)
    (member : index ∈ stack) (other : top ≠ index) : index ∈ stack.dropLast := by
  have last : stack.getLast? = some top := by
    rw [getLast?_eq_getElem?, ← isTop]
    exact entry
  rcases getLast?_eq_some_iff.1 last with ⟨lower, rfl⟩
  rw [dropLast_concat]
  rcases mem_append.1 member with inLower | atTop
  · exact inLower
  · exact absurd (mem_singleton.1 atTop).symm other

section Step

variable {filter : SliceFilter} {call : SliceCall}

theorem noneStranded_of_noneAbandoned (sound : filter.Sound) (few : filter.slices.length ≤ 2 ^ 32)
    (noneAbandoned : filter.NoneAbandoned call) : filter.NoneStranded call := by
  intro stranded
  rcases closeUnMatchedSlice_of_stranded (sound.readable few call.internalTid)
    (sound.distinct few call.internalTid) stranded with
    ⟨index, member, popped, row, read, pending⟩
  have closing :=
    closed_closeUnMatchedSlice call.timeStamp.toInt64 filter.slices (filter.stack call.internalTid)
  have outcome := outcome_handleCall sound.synchronous call
  rw [sound.rowAt few member] at read
  generalize closeUnMatchedSlice call.timeStamp.toInt64 filter.slices
    (filter.stack call.internalTid) = closed at *
  have inside : index < closed.slices.length := (List.getElem?_eq_some_iff.1 read).1
  have lost
    (gone : index ∉ (filter.stepCall call).stack call.internalTid)
    (same : (filter.stepCall call).slices[index]? = some row) : False := by
    rcases noneAbandoned call.internalTid index member gone with
      ⟨other, readOther, done⟩
    rw [same, Option.some.injEq] at readOther
    exact done (readOther ▸ pending)
  cases outcome with
  | refused added begun leaves =>
    refine lost ?_ ?_
    · rwa [stepCall, leaves.stack_eq, update_self]
    · rw [stepCall, leaves.slices_eq, getElem?_append_left inside, read]
  | accepted added begun leaves =>
    refine lost ?_ ?_
    · rw [stepCall, leaves.stack_eq, update_self]
      intro back
      rcases mem_append.1 back with old | fresh
      · exact popped old
      · exact inside.ne (mem_singleton.1 fresh)
    · rw [stepCall, leaves.slices_eq, getElem?_append_left inside, read]
  | unmatched leaves =>
    refine lost ?_ ?_
    · rwa [stepCall, leaves.stack_eq, update_self]
    · rw [stepCall, leaves.slices_eq, read]
  | matched stackIdx lastRow entry incomplete leaves =>
    refine lost ?_ ?_
    · rw [stepCall, leaves.stack_eq, update_self]
      intro back
      split at back
      · exact popped (mem_of_mem_dropLast back)
      · exact popped back
    · have other : lastRow ≠ index := by
        rintro rfl
        exact popped (mem_of_getElem? entry)
      rw [stepCall, leaves.slices_eq, CallStack.getElem?_setDuration_of_ne _ other, read]

theorem noneAbandoned_of_noneStranded (sound : filter.Sound) (few : filter.slices.length ≤ 2 ^ 32)
    (ordered : ∀ row ∈ filter.slices, row.timeStamp ≤ call.timeStamp)
    (valid : call.timeStamp ≠ invalidUint64)
    (noneStranded : filter.NoneStranded call) : filter.NoneAbandoned call := by
  have closed :=
    closeUnMatchedSlice_of_not_stranded (sound.readable few call.internalTid) noneStranded
  have outcome := outcome_handleCall sound.synchronous call
  generalize closeUnMatchedSlice call.timeStamp.toInt64 filter.slices
    (filter.stack call.internalTid) = closing at *
  rcases closing with ⟨slices, stack, incomplete⟩
  rcases closed with ⟨rfl, complete⟩
  dsimp only at outcome complete
  have popped (index : Nat) (member : index ∈ filter.stack call.internalTid)
    (gone : index ∉ stack) :
    ∃ row, filter.slices[index]? = some row ∧ row.dur ≠ invalidUint64 := by
    rcases complete index member gone with ⟨row, read, done⟩
    rw [sound.rowAt few member] at read
    exact ⟨row, read, done⟩
  intro internalTid index member gone
  have isThread : internalTid = call.internalTid := by
    by_contra other
    rw [stepCall, outcome.stack_of_ne other] at gone
    exact gone member
  subst isThread
  have inside := sound.inside _ index member
  cases outcome with
  | refused added begun leaves =>
    rw [stepCall, leaves.stack_eq, update_self] at gone
    rw [stepCall, leaves.slices_eq, getElem?_append_left inside]
    exact popped index member gone
  | accepted added begun leaves =>
    rw [stepCall, leaves.stack_eq, update_self] at gone
    rw [stepCall, leaves.slices_eq, getElem?_append_left inside]
    exact popped index member fun old => gone (mem_append_left _ old)
  | unmatched leaves =>
    rw [stepCall, leaves.stack_eq, update_self] at gone
    rw [stepCall, leaves.slices_eq]
    exact popped index member gone
  | matched stackIdx lastRow entry pending leaves =>
    rw [stepCall, leaves.stack_eq, update_self] at gone
    rw [stepCall, leaves.slices_eq]
    by_cases completed : lastRow = index
    · subst completed
      rcases (sound.readable few _ lastRow member) with ⟨row, read⟩
      rw [sound.rowAt few member] at read
      rw [CallStack.getElem?_setDuration_self read]
      exact ⟨_, rfl, sub_ne_invalid (ordered row (mem_of_getElem? read)) valid⟩
    · rw [CallStack.getElem?_setDuration_of_ne _ completed]
      refine popped index member fun old => gone ?_
      split
      · next top => exact mem_dropLast_of_ne_top entry top old completed
      · exact old

end Step

theorem timeStamps_stepCall
    {filter : SliceFilter} (synchronous : filter.Synchronous) (call : SliceCall) :
    ∀ row ∈ (filter.stepCall call).slices, row.timeStamp = call.timeStamp ∨
      ∃ old ∈ filter.slices, row.timeStamp = old.timeStamp := by
  have ignores : CallStack.IgnoresDur CallStackRow.timeStamp := fun _ _ => rfl
  have same :=
    map_closeUnMatchedSlice ignores call.timeStamp.toInt64 filter.slices
      (filter.stack call.internalTid)
  have outcome := outcome_handleCall synchronous call
  generalize closeUnMatchedSlice call.timeStamp.toInt64 filter.slices
    (filter.stack call.internalTid) = closed at outcome same
  have kept (slices : CallStack) (times : slices.map CallStackRow.timeStamp =
    filter.slices.map CallStackRow.timeStamp)
    (row : CallStackRow) (member : row ∈ slices) :
    ∃ old ∈ filter.slices, row.timeStamp = old.timeStamp := by
    have listed : row.timeStamp ∈ filter.slices.map CallStackRow.timeStamp := by
      rw [← times]
      exact mem_map_of_mem member
    rcases mem_map.1 listed with ⟨old, inTable, time⟩
    exact ⟨old, inTable, time.symm⟩
  intro row member
  cases outcome with
  | refused added begun leaves =>
    rw [stepCall, leaves.slices_eq] at member
    rcases mem_append.1 member with old | fresh
    · exact Or.inr (kept _ same row old)
    · rw [mem_singleton.1 fresh]
      exact Or.inl begun
  | accepted added begun leaves =>
    rw [stepCall, leaves.slices_eq] at member
    rcases mem_append.1 member with old | fresh
    · exact Or.inr (kept _ same row old)
    · rw [mem_singleton.1 fresh]
      exact Or.inl begun
  | unmatched leaves =>
    rw [stepCall, leaves.slices_eq] at member
    exact Or.inr (kept _ same row member)
  | matched stackIdx lastRow entry incomplete leaves =>
    rw [stepCall, leaves.slices_eq] at member
    refine Or.inr (kept _ ?_ row member)
    rw [CallStack.map_setDuration ignores, same]

theorem eachStep_noneAbandoned_iff
    {filter : SliceFilter} (sound : filter.Sound) {calls : List SliceCall}
    (few : filter.slices.length + calls.length ≤ 2 ^ 32)
    (earlier : ∀ row ∈ filter.slices, ∀ call ∈ calls, row.timeStamp ≤ call.timeStamp)
    (ordered : calls.Pairwise fun first second =>
      first.timeStamp ≤ second.timeStamp) (valid : ∀ call ∈ calls, call.timeStamp ≠ invalidUint64) :
    EachStep stepCall NoneAbandoned filter calls ↔ EachStep stepCall NoneStranded filter calls := by
  induction calls generalizing filter with
  | nil => exact Iff.rfl
  | cons call rest induction =>
    rw [length_cons] at few
    rcases pairwise_cons.1 ordered with ⟨first, orderedRest⟩
    rcases sound.step call with ⟨soundNext, size⟩
    have here : filter.NoneAbandoned call ↔ filter.NoneStranded call :=
      ⟨noneStranded_of_noneAbandoned sound (by omega),
        noneAbandoned_of_noneStranded sound (by omega)
          (fun row member => earlier row member call mem_cons_self)
          (valid call mem_cons_self)⟩
    have later :=
      induction soundNext (by omega) ?_ orderedRest
        (fun other member => valid other (mem_cons_of_mem _ member))
    · rw [eachStep_cons, eachStep_cons, here, later]
    · intro row member other inRest
      rcases timeStamps_stepCall sound.synchronous call row member with
        atCall | ⟨old, inTable, atOld⟩
      · rw [atCall]
        exact first other inRest
      · rw [atOld]
        exact earlier old inTable other (mem_cons_of_mem _ inRest)

/--
In a run of at most 2^32 calls in the order of their times, no open slice leaves
a stack exactly when no call finds a complete slice of the past below an
incomplete one.
-/
theorem noneAbandoned_iff_noneStranded {calls : List SliceCall}
    (ordered : calls.Pairwise fun first second =>
      first.timeStamp ≤ second.timeStamp) (valid : ∀ call ∈ calls, call.timeStamp ≠ invalidUint64)
    (few : calls.length ≤ 2 ^ 32) : EachStep stepCall NoneAbandoned initial calls ↔
      EachStep stepCall NoneStranded initial calls := by
  refine eachStep_noneAbandoned_iff sound_initial ?_ ?_ ordered valid
  · simpa [initial] using few
  · intro row member
    cases member

def binderPair : List SliceCall := [.beginBinder 1 10 5 6, .endBinder 1 20 5 6]

theorem noneAbandoned_binderPair : EachStep stepCall NoneAbandoned initial binderPair := by
  refine (noneAbandoned_iff_noneStranded ?_ ?_ ?_).2 ?_
  · simp [binderPair, SliceCall.timeStamp]
  · simp [binderPair, SliceCall.timeStamp, invalidUint64]
  · decide
  · refine ⟨?_, ?_, trivial⟩
    · rintro ⟨lower, below, entry, -⟩
      exact absurd entry (by simp [initial, stack])
    · rintro ⟨lower, below, -, -, upper, above, higher, entry, -⟩
      have size : ((initial.stepCall (.beginBinder 1 10 5 6)).stack 1).length = 1 := by decide
      have inside := (List.getElem?_eq_some_iff.1 entry).1
      change upper < ((initial.stepCall _).stack 1).length at inside
      omega

def crossedEnds : List SliceCall :=
  [.beginBinder 1 0 1 6, .beginBinder 1 10 2 6, .endBinder 1 20 1 invalidUint64,
    .endBinder 1 30 2 invalidUint64]

/-- The inner slice leaves the stack with its duration still -1. -/
theorem abandoned_crossedEnds : (crossedEnds.Pairwise fun first second =>
    first.timeStamp ≤ second.timeStamp) ∧
    ¬ EachStep stepCall NoneAbandoned initial crossedEnds := by
  refine ⟨by simp [crossedEnds, SliceCall.timeStamp], ?_⟩
  rintro ⟨-, -, -, last, -⟩
  rcases last 1 1 (by decide) (by decide) with ⟨row, read, done⟩
  have pending : ((run stepCall initial crossedEnds).slices[1]?).map CallStackRow.dur =
    some invalidUint64 := by
    decide
  change (run stepCall initial crossedEnds).slices[1]? = some row at read
  rw [read, Option.map_some, Option.some.injEq] at pending
  exact done pending

end SliceFilter

end SysAnalyzer.Filter
