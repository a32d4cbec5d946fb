import SysAnalyzer.Filter.BinderArguments

/-!
# The rows that get arguments

Every entry of a stack is a row of the table, and the row of a slice of the
stack's thread.  `AddArgs` answers the row of an entry, so that what it finds is
a slice of the thread it was asked for.

When it finds none it answers the invalid row, and `ReceiveTraction` passes that
on.  The slice it looks for is the reply that it has just begun; the reply is
missing from the stack when the thread has 255 slices open already, and then
only an older open reply of the same thread can stand in for it.
-/

namespace SysAnalyzer.Filter

open Foundation List Option Function

namespace SliceFilter

def callIds (filter : SliceFilter) : List UInt32 := filter.slices.map CallStackRow.callId

structure OwnsRows (filter : SliceFilter) : Prop where
  synchronous : filter.Synchronous
  owned : ∀ internalTid, ∀ index ∈ filter.stack internalTid,
    filter.callIds[index]? = some internalTid

variable {index : Nat}

theorem getElem?_of_grown {α : Type*} {older newer : List α} (grown : older <+: newer)
    {value : α} (read : older[index]? = some value) : newer[index]? = some value := by
  rcases grown with ⟨appended, rfl⟩
  rw [List.getElem?_append_left (List.getElem?_eq_some_iff.1 read).1, read]

theorem ownsRows_initial : initial.OwnsRows := by
  constructor
  · intro internalTid info found
    cases found
  · intro internalTid index member
    cases member

theorem callIds_closeUnMatchedSlice (filter : SliceFilter) (ts : Int64) (stack : List Nat) :
    (closeUnMatchedSlice ts filter.slices stack).slices.map CallStackRow.callId = filter.callIds :=
  map_closeUnMatchedSlice (fun _ _ => rfl) ts filter.slices stack

variable {filter : SliceFilter}

section

variable (owns : filter.OwnsRows)
include owns

/--
Rows are appended, and the stack of one thread becomes one of entries that it
had and of rows of its own.
-/
theorem OwnsRows.of_leaves {internalTid : UInt32}
    {result : Option Nat × SliceFilter} {answer : Option Nat}
    {slices : CallStack} {stack : List Nat}
    (leaves : Leaves filter internalTid result answer slices stack)
    (grown : filter.callIds <+: slices.map CallStackRow.callId)
    (own : ∀ index ∈ stack, index ∈ filter.stack internalTid ∨
      (slices.map CallStackRow.callId)[index]? = some internalTid) : result.2.OwnsRows := by
  have table : result.2.callIds = slices.map CallStackRow.callId := by
    rw [callIds, leaves.slices_eq]
  have kept (other : UInt32) (index : Nat) (member : index ∈ filter.stack other) :
    (slices.map CallStackRow.callId)[index]? = some other :=
    getElem?_of_grown grown (owns.owned other index member)
  refine ⟨leaves.synchronous, ?_⟩
  intro other index member
  rw [leaves.stack_eq] at member
  rw [table]
  by_cases same : other = internalTid
  · subst same
    rw [update_self] at member
    rcases own index member with before | new
    · exact kept other index before
    · exact new
  · rw [update_of_ne same] at member
    exact kept other index member

theorem OwnsRows.startSlice
    (timeStamp duration : UInt64) (internalTid : UInt32) (cat name : UInt64) :
    let started := filter.startSlice timeStamp duration internalTid cat name
    started.2.OwnsRows ∧ started.2.callIds = filter.callIds ++ [internalTid] ∧
      ∀ index, started.1 = some index → started.2.callIds[index]? = some internalTid := by
  have shape :=
    closed_closeUnMatchedSlice timeStamp.toInt64 filter.slices (filter.stack internalTid)
  have same := filter.callIds_closeUnMatchedSlice timeStamp.toInt64 (filter.stack internalTid)
  generalize closing : closeUnMatchedSlice timeStamp.toInt64 filter.slices
    (filter.stack internalTid) = closed at shape same
  have remaining (index : Nat) (member : index ∈ closed.stack) : index ∈ filter.stack internalTid :=
    shape.isPrefix.subset member
  by_cases room : closed.stack.length < maxDepth
  · have leaves :=
      leaves_startSlice_accepted owns.synchronous duration cat name closing room
    have table : (filter.startSlice timeStamp duration internalTid cat name).2.callIds =
      filter.callIds ++ [internalTid] := by
      rw [callIds, leaves.slices_eq, map_append, same]
      rfl
    have last : (filter.callIds ++ [internalTid])[closed.slices.length]? = some internalTid := by
      rw [← same, getElem?_append_right (by simp)]
      simp
    refine ⟨owns.of_leaves leaves ?_ ?_, table, ?_⟩
    · rw [map_append, same]
      exact prefix_append _ _
    · intro index member
      rcases mem_append.1 member with old | new
      · exact Or.inl (remaining index old)
      · right
        rw [mem_singleton.1 new, map_append, same]
        exact last
    · intro index answered
      rw [leaves.answer_eq, some.injEq] at answered
      rw [table, ← answered]
      exact last
  · have leaves :=
      leaves_startSlice_refused owns.synchronous duration cat name closing (not_lt.1 room)
    refine ⟨owns.of_leaves leaves ?_ ?_, ?_, ?_⟩
    · rw [map_append, same]
      exact prefix_append _ _
    · intro index member
      exact Or.inl (remaining index member)
    · rw [callIds, leaves.slices_eq, map_append, same]
      rfl
    · intro index answered
      rw [leaves.answer_eq] at answered
      cases answered

theorem OwnsRows.endSlice (timeStamp : UInt64) (internalTid : UInt32) (category name : UInt64) :
    (filter.endSlice timeStamp internalTid category name).2.OwnsRows := by
  have shape :=
    closed_closeUnMatchedSlice timeStamp.toInt64 filter.slices (filter.stack internalTid)
  have same := filter.callIds_closeUnMatchedSlice timeStamp.toInt64 (filter.stack internalTid)
  generalize closing : closeUnMatchedSlice timeStamp.toInt64 filter.slices
    (filter.stack internalTid) = closed at shape same
  have remaining (index : Nat) (member : index ∈ closed.stack) : index ∈ filter.stack internalTid :=
    shape.isPrefix.subset member
  cases isMatch : matchingIncompleteSliceIndex closed.slices closed.stack category name with
  | none =>
    have leaves := leaves_endSlice_unmatched owns.synchronous closing isMatch
    refine owns.of_leaves leaves ?_ ?_
    · rw [same]
    · intro index member
      exact Or.inl (remaining index member)
  | some stackIdx =>
    have inside := (matchingIncompleteSliceIndex_eq_some isMatch).1
    have leaves :=
      leaves_endSlice_matched owns.synchronous closing isMatch (getElem?_eq_getElem inside)
    refine owns.of_leaves leaves ?_ ?_
    · rw [CallStack.map_setDuration (fun _ _ => rfl), same]
    · intro index member
      refine Or.inl (remaining index ?_)
      split at member
      · exact mem_of_mem_dropLast member
      · exact member

theorem OwnsRows.of_table {slices : CallStack}
    (grown : filter.callIds <+: slices.map CallStackRow.callId) :
    ({ filter with slices := slices } : SliceFilter).OwnsRows :=
  ⟨owns.synchronous, fun internalTid index member =>
    getElem?_of_grown grown (owns.owned internalTid index member)⟩

end

/-- The number of an entry is read back as that of an incomplete slice that fits. -/
def ReadsIncomplete (slices : CallStack) (category name : UInt64) (index : Nat) : Prop :=
  ∃ row, slices.rowAt index = some row ∧ row.dur = invalidUint64 ∧
    Fits category name row.cat row.name

theorem matchingIncompleteSliceIndex_isSome_iff
    (slices : CallStack) (stack : List Nat) (category name : UInt64) :
    (matchingIncompleteSliceIndex slices stack category name).isSome = true ↔
      ∃ index ∈ stack, ReadsIncomplete slices category name index := by
  rw [matchingIncompleteSliceIndex, find?_isSome]
  constructor
  · rintro ⟨i, _, isMatch⟩
    rcases (matchesAt_iff ..).1 isMatch with ⟨index, row, entry, reads⟩
    exact ⟨index, mem_of_getElem? entry, row, reads⟩
  · rintro ⟨index, member, row, reads⟩
    rcases getElem?_of_mem member with ⟨i, entry⟩
    refine ⟨i, ?_, (matchesAt_iff ..).2 ⟨index, row, entry, reads⟩⟩
    rw [mem_reverse, mem_range]
    exact (List.getElem?_eq_some_iff.1 entry).1

theorem readsIncomplete_append (slices : CallStack) (row : CallStackRow) (category name : UInt64)
    (older : index % 2 ^ 32 < slices.length) :
    ReadsIncomplete (slices ++ [row]) category name index ↔
      ReadsIncomplete slices category name index := by
  unfold ReadsIncomplete CallStack.rowAt
  rw [getElem?_append_left older]

theorem readsIncomplete_appended (slices : CallStack) (row : CallStackRow) (category name : UInt64)
    (few : slices.length < 2 ^ 32) : ReadsIncomplete (slices ++ [row]) category name slices.length ↔
      row.dur = invalidUint64 ∧ Fits category name row.cat row.name := by
  unfold ReadsIncomplete CallStack.rowAt
  rw [Nat.mod_eq_of_lt few]
  simp

/--
The slice that a begin pushes, or an older one of its thread, is found under the
names of the begin: there is room on the stack and the new row is read back as
an incomplete slice, or an older entry is one.
-/
def FindsBegun (filter : SliceFilter) (timeStamp : UInt64)
    (internalTid : UInt32) (cat name : UInt64) : Prop :=
  let closed := closeUnMatchedSlice timeStamp.toInt64 filter.slices (filter.stack internalTid)
  (closed.stack.length < maxDepth ∧ (closed.slices.length < 2 ^ 32 ∨
    ReadsIncomplete closed.slices cat name closed.slices.length)) ∨
    ∃ index ∈ closed.stack, ReadsIncomplete closed.slices cat name index

theorem OwnsRows.index_lt (owns : filter.OwnsRows) {internalTid : UInt32}
    (member : index ∈ filter.stack internalTid) : index < filter.slices.length := by
  have read := owns.owned internalTid index member
  have inside := (List.getElem?_eq_some_iff.1 read).1
  rwa [callIds, length_map] at inside

theorem OwnsRows.findsBegun_iff (owns : filter.OwnsRows) (timeStamp : UInt64)
    (internalTid : UInt32) (cat name : UInt64) :
    let begun := (filter.beginSlice timeStamp internalTid cat name).2
    (∃ index ∈ begun.stack internalTid, ReadsIncomplete begun.slices cat name index) ↔
      filter.FindsBegun timeStamp internalTid cat name := by
  have shape :=
    closed_closeUnMatchedSlice timeStamp.toInt64 filter.slices (filter.stack internalTid)
  unfold FindsBegun beginSlice
  generalize closing : closeUnMatchedSlice timeStamp.toInt64 filter.slices
    (filter.stack internalTid) = closed at shape
  dsimp only
  have older (index : Nat) (member : index ∈ closed.stack) :
    index % 2 ^ 32 < closed.slices.length := by
    have inside := owns.index_lt (shape.isPrefix.subset member)
    rw [shape.size]
    exact lt_of_le_of_lt (Nat.mod_le _ _) inside
  by_cases room : closed.stack.length < maxDepth
  · have leaves :=
      leaves_startSlice_accepted owns.synchronous invalidUint64 cat name closing room
    rw [leaves.stack_eq, leaves.slices_eq, update_self]
    simp only [room, true_and, mem_append, mem_singleton, or_and_right, exists_or, exists_eq_left]
    rw [or_comm]
    apply or_congr
    · by_cases few : closed.slices.length < 2 ^ 32
      · rw [readsIncomplete_appended _ _ _ _ few]
        simp only [few, true_or, iff_true]
        exact ⟨rfl, Or.inr (Or.inr rfl), Or.inr (Or.inr rfl)⟩
      · rw [readsIncomplete_append]
        · simp only [few, false_or]
        · have bound := Nat.mod_lt closed.slices.length (Nat.two_pow_pos 32)
          omega
    · apply exists_congr
      intro index
      apply and_congr_right
      intro member
      exact readsIncomplete_append _ _ _ _ (older index member)
  · have leaves :=
      leaves_startSlice_refused owns.synchronous invalidUint64 cat name closing (not_lt.1 room)
    rw [leaves.stack_eq, leaves.slices_eq, update_self]
    simp only [room, false_and, false_or]
    apply exists_congr
    intro index
    apply and_congr_right
    intro member
    exact readsIncomplete_append _ _ _ _ (older index member)

end SliceFilter

namespace ProcessFilter

theorem updateOrCreateThread_of_known {filter : ProcessFilter} {tid : UInt32} {internalTid : Nat}
    (known : filter.getInternalTid tid = some internalTid) (timeStamp : UInt64) :
    filter.updateOrCreateThread timeStamp tid = (filter, internalTid) := by
  unfold getInternalTid at known
  simp [updateOrCreateThread, updateOrCreateThreadWithNameIndex, known]

theorem getInternalTid_updateOrCreateThread
    (filter : ProcessFilter) (timeStamp : UInt64) (tid : UInt32) :
    (filter.updateOrCreateThread timeStamp tid).1.getInternalTid tid =
      some (filter.updateOrCreateThread timeStamp tid).2 := by
  cases known : filter.getInternalTid tid with
  | some internalTid =>
    rw [updateOrCreateThread_of_known known]
    exact known
  | none =>
    unfold getInternalTid at known
    unfold updateOrCreateThread updateOrCreateThreadWithNameIndex
    simp only [known]
    -- the new thread is the last of those with its number
    show (map Prod.snd _).getLast? = _
    simp only [newThread, modifyThread, filter_append, map_append]
    simp

end ProcessFilter

namespace StreamFilters

variable (filters : StreamFilters)

variable (timeStamp : UInt64)

@[simp]
theorem sliceFilter_startSlice (duration : UInt64) (internalTid : UInt32)
    (cat nameIndex : UInt64) (args : ArgsSet) :
    (filters.startSlice timeStamp duration internalTid cat nameIndex args).filters.sliceFilter =
      (filters.sliceFilter.startSlice timeStamp duration internalTid cat nameIndex).2 := by
  unfold startSlice
  dsimp only
  split
  · rfl
  · split_ifs <;> rfl

@[simp]
theorem processFilter_startSlice (duration : UInt64) (internalTid : UInt32)
    (cat nameIndex : UInt64) (args : ArgsSet) :
    (filters.startSlice timeStamp duration internalTid cat nameIndex args).filters.processFilter =
      filters.processFilter := by
  unfold startSlice
  dsimp only
  split
  · rfl
  · split_ifs <;> rfl

theorem answer_of_mem_writes_startSlice {timeStamp duration : UInt64} {internalTid : UInt32}
    {cat nameIndex : UInt64} {args : ArgsSet} {write : ArgSetWrite}
    (member : write ∈ (filters.startSlice timeStamp duration internalTid cat nameIndex
      args).writes) : (filters.sliceFilter.startSlice timeStamp duration internalTid cat
      nameIndex).1 = some write.row := by
  unfold startSlice at member
  dsimp only at member
  split at member
  · cases member
  · next index answered =>
      rw [answered]
      split_ifs at member
      · rw [mem_singleton.1 member]
      · rw [mem_singleton.1 member]
      · cases member

theorem writes_startSlice_empty (duration : UInt64) (internalTid : UInt32)
    (cat nameIndex : UInt64) :
    (filters.startSlice timeStamp duration internalTid cat nameIndex {}).writes = [] := by
  unfold startSlice
  dsimp only
  split
  · rfl
  · rfl

@[simp]
theorem sliceFilter_completeSlice (internalTid : UInt32) (category name : UInt64) (args : ArgsSet) :
    (filters.completeSlice timeStamp internalTid category name args).filters.sliceFilter =
      (filters.sliceFilter.endSlice timeStamp internalTid category name).2 := by
  unfold completeSlice
  dsimp only
  split <;> rfl

theorem writes_completeSlice_empty
    {filters : StreamFilters} (synchronous : filters.sliceFilter.Synchronous)
    (timeStamp : UInt64) (internalTid : UInt32) (category name : UInt64) :
    (filters.completeSlice timeStamp internalTid category name {}).writes = [] := by
  unfold completeSlice
  dsimp only
  split
  · rfl
  · rw [synchronous.getD internalTid]
    rfl

@[simp]
theorem sliceFilter_addArgs (tid : UInt32) (key1 key2 : UInt64) :
    (filters.addArgs tid key1 key2).2.sliceFilter = filters.sliceFilter := by
  unfold addArgs
  dsimp only
  split
  · rfl
  · split_ifs <;> rfl

@[simp]
theorem processFilter_addArgs (tid : UInt32) (key1 key2 : UInt64) :
    (filters.addArgs tid key1 key2).2.processFilter = filters.processFilter := by
  unfold addArgs
  dsimp only
  split
  · rfl
  · split_ifs <;> rfl

variable {internalTid : Nat}

theorem row_addArgs {filters : StreamFilters} {tid : UInt32}
    (known : filters.processFilter.getInternalTid tid = some internalTid) (key1 key2 : UInt64) :
    (filters.addArgs tid key1 key2).1.1 =
      (filters.incompleteRow (UInt32.ofNat internalTid) key1 key2).getD invalidUint32.toNat := by
  unfold addArgs
  rw [known]
  dsimp only
  split
  · next missing => rw [missing]; rfl
  · next index found =>
      rw [found]
      split_ifs <;> rfl

theorem mem_stack_of_incompleteRow
    {filters : StreamFilters} {internalTid : UInt32} {key1 key2 : UInt64} {index : Nat}
    (found : filters.incompleteRow internalTid key1 key2 = some index) :
    index ∈ filters.sliceFilter.stack internalTid := by
  rcases bind_eq_some_iff.1 found with ⟨idx, _, entry⟩
  exact mem_of_getElem? entry

theorem incompleteRow_isSome_iff (internalTid : UInt32) (key1 key2 : UInt64) :
    (filters.incompleteRow internalTid key1 key2).isSome = true ↔
      ∃ index ∈ filters.sliceFilter.stack internalTid,
        SliceFilter.ReadsIncomplete filters.sliceFilter.slices key1 key2 index := by
  rw [← SliceFilter.matchingIncompleteSliceIndex_isSome_iff, incompleteRow]
  cases isMatch : SliceFilter.matchingIncompleteSliceIndex filters.sliceFilter.slices
    (filters.sliceFilter.stack internalTid) key1 key2 with
  | none => simp
  | some idx =>
    have inside := (SliceFilter.matchingIncompleteSliceIndex_eq_some isMatch).1
    simp [inside]

section Steps

variable {filters} (owns : filters.sliceFilter.OwnsRows)

include owns

variable (timeStamp : UInt64)

theorem ownsRows_startSlice (duration : UInt64) (internalTid : UInt32)
    (cat nameIndex : UInt64) (args : ArgsSet) :
    (filters.startSlice timeStamp duration internalTid cat nameIndex
      args).filters.sliceFilter.OwnsRows := by
  rw [sliceFilter_startSlice]
  exact (owns.startSlice timeStamp duration internalTid cat nameIndex).1

theorem ownsRows_completeSlice (internalTid : UInt32) (category name : UInt64) (args : ArgsSet) :
    (filters.completeSlice timeStamp internalTid category name
      args).filters.sliceFilter.OwnsRows := by
  rw [sliceFilter_completeSlice]
  exact owns.endSlice timeStamp internalTid category name

theorem ownsRows_beginBinder (pid : UInt32) (cat nameIndex : UInt64) (args : ArgsSet) :
    (filters.beginBinder timeStamp pid cat nameIndex args).filters.sliceFilter.OwnsRows := by
  apply ownsRows_startSlice
  exact owns

theorem ownsRows_asyncBinder (pid : UInt32) (cat nameIndex : UInt64) (args : ArgsSet) :
    (filters.asyncBinder timeStamp pid cat nameIndex args).filters.sliceFilter.OwnsRows := by
  apply ownsRows_startSlice
  exact owns

theorem ownsRows_endBinder (pid : UInt32) (category name : UInt64) (args : ArgsSet) :
    (filters.endBinder timeStamp pid category name args).filters.sliceFilter.OwnsRows := by
  apply ownsRows_completeSlice
  exact owns

theorem ownsRows_startAsyncSlice (threadGroupId : UInt32) (cookie nameIndex : UInt64) :
    (filters.startAsyncSlice timeStamp threadGroupId cookie nameIndex).sliceFilter.OwnsRows := by
  unfold startAsyncSlice
  dsimp only
  split_ifs
  · exact owns
  · apply owns.of_table
    rw [map_append]
    exact prefix_append _ _

theorem ownsRows_finishAsyncSlice (threadGroupId : UInt32) (cookie nameIndex : UInt64) :
    (filters.finishAsyncSlice timeStamp threadGroupId cookie nameIndex).sliceFilter.OwnsRows := by
  unfold finishAsyncSlice
  dsimp only
  split_ifs
  · exact owns
  · split
    · exact owns
    · apply owns.of_table
      rw [CallStack.map_setDuration (fun _ _ => rfl)]
      exact prefix_rfl

variable (names : BinderNames)

theorem ownsRows_sendTraction (ts : Int64) (tid : UInt32) (transactionId : UInt64)
    (destTid : UInt32) (isReply : Bool) (flags : UInt32) :
    (filters.sendTraction names ts tid transactionId destTid isReply
      flags).sliceFilter.OwnsRows := by
  unfold sendTraction
  dsimp only
  split_ifs
  · apply ownsRows_endBinder
    show (addArgs _ _ _ _).2.sliceFilter.OwnsRows
    rw [sliceFilter_addArgs]
    exact owns
  · exact ownsRows_endBinder owns ..
  · exact ownsRows_beginBinder owns ..
  · exact ownsRows_asyncBinder owns ..

theorem ownsRows_beginReply (ts : Int64) (pid : UInt32) (transactionId : UInt64) (caller : UInt32) :
    (filters.beginReply names ts pid transactionId caller).filters.sliceFilter.OwnsRows := by
  unfold beginReply
  show (addArgs _ _ _ _).2.sliceFilter.OwnsRows
  rw [sliceFilter_addArgs, sliceFilter_addArgs]
  exact ownsRows_beginBinder owns ..

theorem ownsRows_receiveTraction (ts : Int64) (pid : UInt32) (transactionId : UInt64) :
    (filters.receiveTraction names ts pid transactionId).filters.sliceFilter.OwnsRows := by
  have known : (filters.updateOrCreateThread ts.toUInt64 pid).2.sliceFilter.OwnsRows := owns
  unfold receiveTraction
  dsimp only
  split
  · exact ownsRows_endBinder known ..
  · split
    · exact ownsRows_beginReply known ..
    · split
      · exact ownsRows_asyncBinder known ..
      · exact known

theorem ownsRows_step (hashFun : String → UInt64) (call : StreamCall) :
    (filters.step names hashFun call).sliceFilter.OwnsRows := by
  cases call with
  | beginSlice =>
    apply ownsRows_startSlice
    exact owns
  | endSlice =>
    apply ownsRows_completeSlice
    exact owns
  | beginBinder => exact ownsRows_beginBinder owns ..
  | asyncBinder => exact ownsRows_asyncBinder owns ..
  | endBinder => exact ownsRows_endBinder owns ..
  | startAsyncSlice => exact ownsRows_startAsyncSlice owns ..
  | finishAsyncSlice => exact ownsRows_finishAsyncSlice owns ..
  | addArgs tid key1 key2 =>
    show (filters.addArgs tid key1 key2).2.sliceFilter.OwnsRows
    rw [sliceFilter_addArgs]
    exact owns
  | process => exact owns
  | sendTraction => exact ownsRows_sendTraction owns ..
  | receiveTraction => exact ownsRows_receiveTraction owns ..

end Steps

/-! ## The arguments that a receipt places -/

/-- The internal thread that receives. -/
def receiver (ts : Int64) (pid : UInt32) : UInt32 :=
  (filters.updateOrCreateThread ts.toUInt64 pid).1

/-- A receipt places arguments on rows of slices of the receiving thread. -/
def PlacesOnOwn (names : BinderNames) (filters : StreamFilters) : StreamCall → Prop
  | .receiveTraction ts pid transactionId =>
    let received := filters.receiveTraction names ts pid transactionId
    ∀ write ∈ received.writes, ∃ row, received.filters.sliceFilter.slices[write.row]? = some row ∧
      row.callId = filters.receiver ts pid
  | _ => True

/--
The number `INVALID_UINT32` is that of a row of a thread, or of the row that the
thread appends next.
-/
def InvalidRowIsOf (slices : CallStack) (internalTid : UInt32) : Prop :=
  slices.length = invalidUint32.toNat ∨
    ∃ row, slices[invalidUint32.toNat]? = some row ∧ row.callId = internalTid

/-- A receipt that begins a reply will find a reply on the receiver's stack. -/
def FindsReply (names : BinderNames) (filters : StreamFilters) : StreamCall → Prop
  | .receiveTraction ts pid transactionId =>
    transactionId ∉ filters.transReplyWaitingReply → filters.transNeedReply transactionId ≠ none →
      filters.sliceFilter.FindsBegun ts.toUInt64 (filters.receiver ts pid)
        names.binderCatalogId names.replyId ∨
        InvalidRowIsOf filters.sliceFilter.slices (filters.receiver ts pid)
  | _ => True

theorem exists_row_iff (filter : SliceFilter) (index : Nat) (internalTid : UInt32) :
    (∃ row, filter.slices[index]? = some row ∧ row.callId = internalTid) ↔
      filter.callIds[index]? = some internalTid := by
  rw [SliceFilter.callIds, getElem?_map, map_eq_some_iff]

theorem invalidRowIsOf_iff (filter : SliceFilter) (internalTid : UInt32) :
    InvalidRowIsOf filter.slices internalTid ↔
      (filter.callIds ++ [internalTid])[invalidUint32.toNat]? = some internalTid := by
  have size : filter.callIds.length = filter.slices.length := length_map ..
  rw [InvalidRowIsOf, exists_row_iff, getElem?_append, size]
  split_ifs with inside
  · constructor
    · rintro (beyond | own)
      · omega
      · exact own
    · exact Or.inr
  · have outside : filter.callIds[invalidUint32.toNat]? = none :=
      getElem?_eq_none (by omega)
    rw [outside, getElem?_singleton]
    split_ifs with last
    · simp only [or_false, iff_true]
      omega
    · simp only [or_false, iff_false]
      omega

theorem row_of_incompleteRow_iff {filters : StreamFilters} (owns : filters.sliceFilter.OwnsRows)
    (internalTid : UInt32) (key1 key2 : UInt64) :
    (∃ row, filters.sliceFilter.slices[(filters.incompleteRow internalTid key1
      key2).getD invalidUint32.toNat]? = some row ∧ row.callId = internalTid) ↔
      (∃ index ∈ filters.sliceFilter.stack internalTid,
        SliceFilter.ReadsIncomplete filters.sliceFilter.slices key1 key2 index) ∨
        filters.sliceFilter.callIds[invalidUint32.toNat]? = some internalTid := by
  rw [exists_row_iff, ← incompleteRow_isSome_iff]
  cases found : filters.incompleteRow internalTid key1 key2 with
  | none => simp
  | some index =>
    have own := owns.owned internalTid index (mem_stack_of_incompleteRow found)
    simp [own]

theorem incompleteRow_congr
    {first second : StreamFilters} (same : first.sliceFilter = second.sliceFilter)
    (internalTid : UInt32) (key1 key2 : UInt64) :
    first.incompleteRow internalTid key1 key2 = second.incompleteRow internalTid key1 key2 := by
  unfold incompleteRow
  rw [same]

variable {pid : UInt32}

theorem beginBinder_of_known {filters : StreamFilters}
    (known : filters.processFilter.getInternalTid pid = some internalTid)
    (timeStamp : UInt64) (cat nameIndex : UInt64) (args : ArgsSet) :
    filters.beginBinder timeStamp pid cat nameIndex args =
      filters.startSlice timeStamp invalidUint64 (UInt32.ofNat internalTid) cat nameIndex args := by
  rw [beginBinder, updateOrCreateThread, ProcessFilter.updateOrCreateThread_of_known known]

@[simp]
theorem sliceFilter_beginReply
    (names : BinderNames) (ts : Int64) (pid : UInt32) (transactionId : UInt64) (caller : UInt32) :
    (filters.beginReply names ts pid transactionId caller).filters.sliceFilter =
      (filters.beginBinder ts.toUInt64 pid names.binderCatalogId names.replyId
        {}).filters.sliceFilter := by
  unfold beginReply
  show (addArgs _ _ _ _).2.sliceFilter = _
  rw [sliceFilter_addArgs, sliceFilter_addArgs]

theorem writes_beginReply {filters : StreamFilters}
    (known : filters.processFilter.getInternalTid pid = some internalTid)
    (names : BinderNames) (ts : Int64) (transactionId : UInt64) (caller : UInt32) :
    let replied := filters.beginReply names ts pid transactionId caller
    ∃ argSetId, replied.writes = [⟨(replied.filters.incompleteRow (UInt32.ofNat internalTid)
      names.binderCatalogId names.replyId).getD invalidUint32.toNat, argSetId⟩] := by
  intro replied
  have begins := beginBinder_of_known known ts.toUInt64 names.binderCatalogId names.replyId {}
  have quiet : (filters.beginBinder ts.toUInt64 pid names.binderCatalogId names.replyId
    {}).writes = [] := by
    rw [begins, writes_startSlice_empty]
  have stillKnown : (filters.beginBinder ts.toUInt64 pid names.binderCatalogId names.replyId
    {}).filters.processFilter.getInternalTid pid = some internalTid := by
    rw [begins, processFilter_startSlice, known]
  have same := sliceFilter_beginReply filters names ts pid transactionId caller
  rw [incompleteRow_congr same]
  have shape : ∃ argSetId, replied.writes =
    (filters.beginBinder ts.toUInt64 pid names.binderCatalogId names.replyId {}).writes ++
      [⟨(addArgs (addArgs (filters.beginBinder ts.toUInt64 pid names.binderCatalogId
        names.replyId {}).filters
        caller names.binderCatalogId names.transSliceId).2 pid
        names.binderCatalogId names.replyId).1.1, argSetId⟩] :=
    ⟨_, rfl⟩
  rcases shape with ⟨argSetId, shape⟩
  refine ⟨argSetId, ?_⟩
  rw [shape, quiet, nil_append, row_addArgs]
  · rw [incompleteRow_congr (sliceFilter_addArgs _ _ _ _)]
  · rw [processFilter_addArgs, stillKnown]

theorem places_beginReply_iff {filters : StreamFilters} (owns : filters.sliceFilter.OwnsRows)
    (known : filters.processFilter.getInternalTid pid = some internalTid)
    (names : BinderNames) (ts : Int64) (transactionId : UInt64) (caller : UInt32) :
    let replied := filters.beginReply names ts pid transactionId caller
    (∀ write ∈ replied.writes, ∃ row, replied.filters.sliceFilter.slices[write.row]? = some row ∧
      row.callId = UInt32.ofNat internalTid) ↔
      filters.sliceFilter.FindsBegun ts.toUInt64 (UInt32.ofNat internalTid)
        names.binderCatalogId names.replyId ∨
        InvalidRowIsOf filters.sliceFilter.slices (UInt32.ofNat internalTid) := by
  intro replied
  have owned : replied.filters.sliceFilter.OwnsRows :=
    ownsRows_beginReply owns names ts pid transactionId caller
  have begun : replied.filters.sliceFilter =
    (filters.sliceFilter.beginSlice ts.toUInt64 (UInt32.ofNat internalTid)
      names.binderCatalogId names.replyId).2 := by
    rw [sliceFilter_beginReply, beginBinder_of_known known,
      sliceFilter_startSlice, SliceFilter.beginSlice]
  have grown : replied.filters.sliceFilter.callIds =
    filters.sliceFilter.callIds ++ [UInt32.ofNat internalTid] := by
    rw [begun]
    exact (owns.startSlice _ _ _ _ _).2.1
  rcases writes_beginReply known names ts transactionId caller with
    ⟨argSetId, once⟩
  rw [once]
  simp only [mem_singleton, forall_eq]
  rw [row_of_incompleteRow_iff owned, grown, ← invalidRowIsOf_iff, begun]
  exact or_congr_left (owns.findsBegun_iff ..)

theorem places_startSlice {filters : StreamFilters} (owns : filters.sliceFilter.OwnsRows)
    (timeStamp duration : UInt64) (internalTid : UInt32) (cat nameIndex : UInt64) (args : ArgsSet) :
    let started := filters.startSlice timeStamp duration internalTid cat nameIndex args
    ∀ write ∈ started.writes, ∃ row, started.filters.sliceFilter.slices[write.row]? = some row ∧
      row.callId = internalTid := by
  intro started write member
  rw [exists_row_iff, sliceFilter_startSlice]
  exact (owns.startSlice timeStamp duration internalTid cat nameIndex).2.2 write.row
    (answer_of_mem_writes_startSlice filters member)

theorem writes_endBinder_empty
    {filters : StreamFilters} (synchronous : filters.sliceFilter.Synchronous)
    (timeStamp : UInt64) (pid : UInt32) (category name : UInt64) :
    (filters.endBinder timeStamp pid category name {}).writes = [] := by
  apply writes_completeSlice_empty
  exact synchronous

theorem updateOrCreateThread_again (timeStamp : UInt64) (pid : UInt32) :
    let updated := filters.updateOrCreateThread timeStamp pid
    updated.2.updateOrCreateThread timeStamp pid = updated := by
  have known :=
    ProcessFilter.getInternalTid_updateOrCreateThread filters.processFilter timeStamp pid
  simp [updateOrCreateThread, ProcessFilter.updateOrCreateThread_of_known known]

theorem placesOnOwn_iff {filters : StreamFilters} (owns : filters.sliceFilter.OwnsRows)
    (names : BinderNames) (call : StreamCall) :
    PlacesOnOwn names filters call ↔ FindsReply names filters call := by
  cases call with
  | receiveTraction ts pid transactionId =>
    have known :=
      ProcessFilter.getInternalTid_updateOrCreateThread filters.processFilter ts.toUInt64 pid
    have resolved : (filters.updateOrCreateThread ts.toUInt64 pid).2.sliceFilter.OwnsRows := owns
    unfold PlacesOnOwn FindsReply receiveTraction
    dsimp only
    split_ifs with waiting
    · have quiet :=
        writes_endBinder_empty resolved.synchronous ts.toUInt64 pid invalidUint64 invalidUint64
      rw [quiet]
      simp [waiting]
    · cases needs : filters.transNeedReply transactionId with
      | some caller =>
        simp only [waiting, not_false_eq_true, reduceCtorEq, ne_eq, forall_const]
        exact places_beginReply_iff resolved known names ts transactionId caller
      | none =>
        simp only [ne_eq, not_true_eq_false, IsEmpty.forall_iff, implies_true, iff_true]
        split
        · next args _ =>
            rw [asyncBinder, updateOrCreateThread_again]
            exact places_startSlice resolved ts.toUInt64 0
              (filters.receiver ts pid) names.binderCatalogId
              names.asyncRcvId args
        · intro write member
          cases member
  | _ => exact Iff.rfl

/--
Over any sequence of operations, every receipt gives `SetArgSetId` the row of a
slice of the receiving thread exactly when every receipt that begins a reply
finds a reply on the receiver's stack.
-/
theorem placesOnOwn_run_iff (names : BinderNames) (hashFun : String → UInt64)
    (calls : List StreamCall) :
    EachStep (step names hashFun) (PlacesOnOwn names) (initial hashFun) calls ↔
      EachStep (step names hashFun) (FindsReply names) (initial hashFun) calls := by
  apply eachStep_congr fun filters => filters.sliceFilter.OwnsRows
  · intro filters call owns
    exact placesOnOwn_iff owns names call
  · intro filters call owns _
    exact ownsRows_step owns names hashFun call
  · exact SliceFilter.ownsRows_initial

theorem transactions_beginBinder (timeStamp : UInt64) (pid : UInt32) (cat nameIndex : UInt64)
    (args : ArgsSet) :
    let begun := (filters.beginBinder timeStamp pid cat nameIndex args).filters
    begun.transReplyWaitingReply = filters.transReplyWaitingReply ∧
      begun.transNeedReply = filters.transNeedReply := by
  unfold beginBinder startSlice
  dsimp only
  split
  · exact ⟨rfl, rfl⟩
  · split_ifs <;> exact ⟨rfl, rfl⟩

theorem thread_beginBinder (pid : UInt32) (cat nameIndex : UInt64) (args : ArgsSet) :
    ((filters.beginBinder timeStamp pid cat nameIndex
      args).filters.updateOrCreateThread timeStamp pid).1 =
      (filters.updateOrCreateThread timeStamp pid).1 := by
  have again := congrArg Prod.fst (updateOrCreateThread_again filters timeStamp pid)
  rw [updateOrCreateThread, beginBinder, processFilter_startSlice]
  exact again

def request : StreamCall := .sendTraction 0 1 7 2 false 0

def lockTry : StreamCall := .beginBinder 0 2 1 6 {}

def receipt : StreamCall := .receiveTraction 0 2 7

def someNames : BinderNames := ⟨1, 2, 3, 4, 5⟩

structure Locking (count : Nat) (filters : StreamFilters) : Prop where
  owns : filters.sliceFilter.OwnsRows
  thread : (filters.updateOrCreateThread 0 2).1 = 2
  size : filters.sliceFilter.slices.length = count + 1
  depth : (filters.sliceFilter.stack 2).length = count
  pending : ∀ row ∈ filters.sliceFilter.slices,
    row.dur = invalidUint64 ∧ (row.name = 2 ∨ row.name = 6)
  wanted : 7 ∉ filters.transReplyWaitingReply ∧ filters.transNeedReply 7 ≠ none

variable {filters} {count : Nat}

theorem locking_request (hashFun : String → UInt64) :
    Locking 0 ((initial hashFun).step someNames hashFun request) := by
  have start : (initial hashFun).sliceFilter.OwnsRows := SliceFilter.ownsRows_initial
  have begun : ((initial hashFun).step someNames hashFun request).sliceFilter.slices =
    [⟨0, invalidUint64, 1, 1, 2, 0, invalidUint32⟩] := rfl
  refine ⟨ownsRows_step start someNames hashFun request, rfl, rfl, rfl, ?_, ?_, ?_⟩
  · intro row member
    rw [begun, mem_singleton] at member
    rw [member]
    exact ⟨rfl, Or.inl rfl⟩
  · exact Finset.notMem_empty 7
  · exact some_ne_none 1

theorem Locking.read (locking : Locking count filters) (few : count ≤ 255) {index : Nat}
    (member : index ∈ filters.sliceFilter.stack 2) :
    ∃ row ∈ filters.sliceFilter.slices, filters.sliceFilter.slices.rowAt index = some row := by
  have inside := locking.owns.index_lt member
  have size := locking.size
  refine ⟨filters.sliceFilter.slices[index], getElem_mem inside, ?_⟩
  apply CallStack.rowAt_of_few (by omega)
  exact getElem?_eq_getElem inside

theorem Locking.closed (locking : Locking count filters) (few : count ≤ 255) (ts : Int64) :
    let closed :=
      SliceFilter.closeUnMatchedSlice ts filters.sliceFilter.slices (filters.sliceFilter.stack 2)
    closed.slices = filters.sliceFilter.slices ∧ closed.stack = filters.sliceFilter.stack 2 := by
  apply SliceFilter.closeUnMatchedSlice_of_incomplete
  intro index member
  rcases locking.read few member with ⟨row, known, read⟩
  exact ⟨row, read, (locking.pending row known).1⟩

theorem Locking.more (locking : Locking count filters) (hashFun : String → UInt64)
    (few : count < 255) : Locking (count + 1) (filters.step someNames hashFun lockTry) := by
  have begins : (filters.step someNames hashFun lockTry).sliceFilter =
    (filters.sliceFilter.startSlice 0 invalidUint64 2 1 6).2 := by
    show (filters.beginBinder 0 2 1 6 {}).filters.sliceFilter = _
    rw [beginBinder, locking.thread, sliceFilter_startSlice]
    rfl
  have closed := locking.closed few.le (0 : UInt64).toInt64
  have room : (SliceFilter.closeUnMatchedSlice (0 : UInt64).toInt64 filters.sliceFilter.slices
    (filters.sliceFilter.stack 2)).stack.length < SliceFilter.maxDepth := by
    rw [closed.2, locking.depth]
    exact few
  have leaves :=
    SliceFilter.leaves_startSlice_accepted locking.owns.synchronous invalidUint64 1 6 rfl room
  rw [closed.1, closed.2] at leaves
  constructor
  · exact ownsRows_step locking.owns someNames hashFun lockTry
  · exact (thread_beginBinder filters 0 2 1 6 {}).trans locking.thread
  · rw [begins, leaves.slices_eq, length_append, locking.size]
    rfl
  · rw [begins, leaves.stack_eq, update_self, length_append, locking.depth]
    rfl
  · intro row member
    rw [begins, leaves.slices_eq] at member
    rcases mem_append.1 member with older | new
    · exact locking.pending row older
    · rw [mem_singleton.1 new]
      exact ⟨rfl, Or.inr rfl⟩
  · have kept := transactions_beginBinder filters 0 2 1 6 {}
    exact ⟨kept.1 ▸ locking.wanted.1, kept.2 ▸ locking.wanted.2⟩

theorem Locking.not_findsReply (locking : Locking 255 filters) :
    ¬ FindsReply someNames filters receipt := by
  intro finds
  have noTime : (0 : Int64).toUInt64 = 0 := rfl
  have receives : filters.receiver 0 2 = 2 := locking.thread
  have found := finds locking.wanted.1 locking.wanted.2
  rw [noTime, receives] at found
  have closed := locking.closed le_rfl (0 : UInt64).toInt64
  rcases found with (⟨room, _⟩ | ⟨index, member, row, read, incomplete⟩) | own
  · rw [closed.2, locking.depth] at room
    exact absurd room (lt_irrefl 255)
  · rw [closed.2] at member
    rw [closed.1] at read
    rcases locking.read le_rfl member with ⟨known, among, same⟩
    rw [read, some.injEq] at same
    rw [← same] at among
    have name := incomplete.2.2
    rcases (locking.pending row among).2 with isRequest | isLock
    · rw [isRequest] at name
      exact absurd name (by decide)
    · rw [isLock] at name
      exact absurd name (by decide)
  · have size := locking.size
    rcases own with full | ⟨row, read, _⟩
    · rw [size] at full
      exact absurd full (by decide)
    · have inside := (List.getElem?_eq_some_iff.1 read).1
      rw [size] at inside
      exact absurd inside (by decide)

theorem locking_lockTries (hashFun : String → UInt64) (locking : Locking 0 filters) :
    ∀ {count}, count ≤ 255 → Locking count
      (run (step someNames hashFun) filters (replicate count lockTry)) := by
  intro count few
  induction count with
  | zero => exact locking
  | succ count induction =>
    rw [replicate_succ', run_append]
    exact (induction (by omega)).more hashFun (by omega)

/--
Thread 2 tries to take 255 locks and then receives a transaction: the reply has
no place on its stack, and `SetArgSetId` gets the invalid row.
-/
theorem not_placesOnOwn_deep :
    ¬ EachStep (step someNames fun _ => 0) (PlacesOnOwn someNames) (initial fun _ => 0)
      (request :: (replicate 255 lockTry ++ [receipt])) := by
  rw [eachStep_cons, eachStep_append, eachStep_cons]
  rintro ⟨_, _, atReceipt, _⟩
  have locking := locking_lockTries (fun _ => 0) (locking_request fun _ => 0) (le_refl 255)
  exact locking.not_findsReply ((placesOnOwn_iff locking.owns ..).1 atReceipt)

end StreamFilters

end SysAnalyzer.Filter
