import SysAnalyzer.Base.TripleMap
import SysAnalyzer.Filter.SliceFilter

/-!
# Asynchronous slices

An asynchronous slice begins and ends by a key: its thread, a cookie and a name.
`asyncEventMap_` gives every open key an id, and `asyncEventFilterMap_` gives
that id the row of the callstack table that the start appended.

`Pairing` says which start an end belongs to: the one start of its key that has
not been finished.  The two maps of the filter hold exactly that, at every point
of every run.
-/

namespace SysAnalyzer.Filter

open Foundation Function List Option
open Base

/-- A row that `AppendInternalAsyncSlice` appends; it has no parent. -/
structure AsyncRow where
  timeStamp : UInt64
  dur : UInt64
  callId : UInt32
  cat : UInt64
  name : UInt64
  depth : UInt8
  cookie : UInt64

structure AsyncEvent where
  timeStamp : UInt64
  row : Nat

/-- Thread, cookie and name of an asynchronous slice. -/
abbrev AsyncKey := UInt32 × UInt64 × UInt64

/-- `SetDuration` on the table of asynchronous slices. -/
def setAsyncDuration (slices : List AsyncRow) (index : Nat) (timeStamp : UInt64) : List AsyncRow :=
  slices.modify index fun row => { row with dur := timeStamp - row.timeStamp }

/-- The part of the filter that asynchronous slices use. -/
structure AsyncFilter where
  slices : List AsyncRow
  asyncEventMap : TripleMap UInt32 UInt64 UInt64 UInt64
  asyncEventFilterMap : StdMap UInt64 AsyncEvent
  asyncEventSize : UInt64
  asyncEventDisMatchCount : UInt64

/-- A call of the filter, on the thread the process filter resolves for it. -/
inductive AsyncCall where
  | start (key : AsyncKey) (timeStamp : UInt64)
  | finish (key : AsyncKey) (timeStamp : UInt64)

namespace AsyncFilter

def initial : AsyncFilter := ⟨[], TripleMap.empty invalidUint64, fun _ => none, 0, 0⟩

/-- `asyncEventMap_.Find`. -/
def lastFilterId (filter : AsyncFilter) (key : AsyncKey) : UInt64 :=
  filter.asyncEventMap.find key.1 key.2.1 key.2.2

/-- No `std::deque` holds more elements (`PTRDIFF_MAX`). -/
def maxRows : Nat := 2 ^ 63 - 1

/--
`StartAsyncSlice`: the row appended, `none` for `INVALID_UINT64`.  Where the
table cannot grow, the standard library throws and there is no filter to go on
with.
-/
def startAsyncSlice (filter : AsyncFilter) (key : AsyncKey)
    (timeStamp : UInt64) : Option (Option Nat × AsyncFilter) :=
  if filter.lastFilterId key ≠ invalidUint64 then
    some (none, { filter with
      asyncEventDisMatchCount := filter.asyncEventDisMatchCount + 1 })
  else if maxRows ≤ filter.slices.length then none
  else
    let asyncEventSize := filter.asyncEventSize + 1
    let index := filter.slices.length
    some (some index, { filter with
      asyncEventSize
      asyncEventMap := filter.asyncEventMap.insert key.1 key.2.1 key.2.2 asyncEventSize
      slices :=
        filter.slices ++
          [⟨timeStamp, invalidUint64, key.1, invalidUint64, key.2.2, 0,
            key.2.1⟩]
          -- `insert` keeps an entry that is already there
      asyncEventFilterMap :=
        match filter.asyncEventFilterMap asyncEventSize with
        | some _ => filter.asyncEventFilterMap
        | none =>
          Function.update filter.asyncEventFilterMap asyncEventSize
            (some ⟨timeStamp, index⟩) })

/-- `FinishAsyncSlice`: the row completed, `none` for `INVALID_UINT64`. -/
def finishAsyncSlice (filter : AsyncFilter) (key : AsyncKey)
    (timeStamp : UInt64) : Option Nat × AsyncFilter :=
  let lastFilterId := filter.lastFilterId key
  let mismatched : AsyncFilter :=
    { filter with
      asyncEventDisMatchCount := filter.asyncEventDisMatchCount + 1 }
  if lastFilterId = invalidUint64 then (none, mismatched)
  else
    match filter.asyncEventFilterMap lastFilterId with
    | none => (none, mismatched)
    | some event =>
      (some event.row, { filter with
        slices := setAsyncDuration filter.slices event.row timeStamp
        asyncEventFilterMap := Function.update filter.asyncEventFilterMap lastFilterId none
        asyncEventMap := filter.asyncEventMap.erase key.1 key.2.1 key.2.2 })

def handle (filter : AsyncFilter) : AsyncCall → Option (Option Nat × AsyncFilter)
  | .start key timeStamp => filter.startAsyncSlice key timeStamp
  | .finish key timeStamp => some (filter.finishAsyncSlice key timeStamp)

def step (filter : AsyncFilter) (call : AsyncCall) : Option AsyncFilter :=
  (filter.handle call).map Prod.snd

end AsyncFilter

/-- The number of starts that opened a key, and the start of each open key. -/
structure Pairing where
  appended : Nat
  opened : AsyncKey → Option AsyncEvent

namespace Pairing

def initial : Pairing := ⟨0, fun _ => none⟩

/-- A start opens a closed key, a finish closes its key. -/
def step (pairing : Pairing) : AsyncCall → Pairing
  | .start key timeStamp =>
    match pairing.opened key with
    | some _ => pairing
    | none =>
      ⟨pairing.appended + 1, Function.update pairing.opened key
        (some ⟨timeStamp, pairing.appended⟩)⟩
  | .finish key _ => { pairing with opened := Function.update pairing.opened key none }

def after (calls : List AsyncCall) : Pairing := run step initial calls

section

variable {pairing : Pairing} {key : AsyncKey}
  (closed : pairing.opened key = none)
include closed

theorem appended_start (timeStamp : UInt64) :
    (pairing.step (.start key timeStamp)).appended = pairing.appended + 1 := by
  simp only [step, closed]

theorem opened_start (timeStamp : UInt64) (other : AsyncKey) :
    (pairing.step (.start key timeStamp)).opened other =
      if other = key then some ⟨timeStamp, pairing.appended⟩ else pairing.opened other := by
  simp only [step, closed, update_apply]

end

theorem step_start_of_open {pairing : Pairing} {key : AsyncKey} {event : AsyncEvent}
    (isOpen : pairing.opened key = some event) (timeStamp : UInt64) :
    pairing.step (.start key timeStamp) = pairing := by
  simp only [step, isOpen]

theorem opened_finish (pairing : Pairing) (key : AsyncKey) (timeStamp : UInt64) (other : AsyncKey) :
    (pairing.step (.finish key timeStamp)).opened other =
      if other = key then none else pairing.opened other :=
  update_apply ..

theorem step_finish_of_closed
    {pairing : Pairing} {key : AsyncKey} (closed : pairing.opened key = none)
    (timeStamp : UInt64) : pairing.step (.finish key timeStamp) = pairing := by
  simp only [step, ← closed, update_eq_self]

end Pairing

/--
The maps of the filter and the open keys: a key has an id exactly when it is
open, different open keys have different ids, and the ids lead to the starts of
the open keys and to nothing else.
-/
structure Corresponds (filter : AsyncFilter) (pairing : Pairing) : Prop where
  open_iff : ∀ key,
    filter.lastFilterId key ≠ invalidUint64 ↔ pairing.opened key ≠ none
  event : ∀ key, pairing.opened key ≠ none →
    filter.asyncEventFilterMap (filter.lastFilterId key) = pairing.opened key
  injective : ∀ first second, pairing.opened first ≠ none → pairing.opened second ≠ none →
    filter.lastFilterId first = filter.lastFilterId second → first = second
  onto : ∀ id event, filter.asyncEventFilterMap id = some event →
    ∃ key, pairing.opened key = some event ∧ filter.lastFilterId key = id

/-- What a call does, given the starts that are open before it. -/
def Pairs (filter : AsyncFilter) (pairing : Pairing) (call : AsyncCall)
    (answer : Option Nat) (next : AsyncFilter) : Prop :=
  match call with
  | .start key timeStamp =>
    match pairing.opened key with
    | none =>
      answer = some pairing.appended ∧ next.slices = filter.slices ++
        [⟨timeStamp, invalidUint64, key.1, invalidUint64, key.2.2, 0, key.2.1⟩] ∧
        filter.slices.length = pairing.appended ∧
          next.asyncEventDisMatchCount = filter.asyncEventDisMatchCount
    | some _ =>
      answer = none ∧ next.slices = filter.slices ∧
        next.asyncEventDisMatchCount = filter.asyncEventDisMatchCount + 1
  | .finish key timeStamp =>
    match pairing.opened key with
    | some event =>
      answer = some event.row ∧ next.slices = filter.slices.modify event.row
        (fun row => { row with dur := timeStamp - event.timeStamp }) ∧
        event.row < filter.slices.length ∧
          next.asyncEventDisMatchCount = filter.asyncEventDisMatchCount
    | none =>
      answer = none ∧ next.slices = filter.slices ∧
        next.asyncEventDisMatchCount = filter.asyncEventDisMatchCount + 1

/-! ## The invariant -/

/-- Correspondence, with the numbers of rows and ids that keep it. -/
structure Follows (filter : AsyncFilter) (pairing : Pairing) : Prop where
  corresponds : Corresponds filter pairing
  size : filter.slices.length = pairing.appended
  count : filter.asyncEventSize.toNat = pairing.appended
  bound : pairing.appended ≤ AsyncFilter.maxRows
  invalid : filter.asyncEventMap.invalidValue = invalidUint64
  issued : ∀ key, pairing.opened key ≠ none →
    (filter.lastFilterId key).toNat ≤ filter.asyncEventSize.toNat
  begun : ∀ key event, pairing.opened key = some event →
    ∃ row, filter.slices[event.row]? = some row ∧ row.timeStamp = event.timeStamp

theorem follows_initial : Follows AsyncFilter.initial Pairing.initial := by
  refine ⟨⟨?_, ?_, ?_, ?_⟩, rfl, rfl, Nat.zero_le _, rfl, ?_, ?_⟩
  · intro key
    simp [AsyncFilter.initial, AsyncFilter.lastFilterId, Pairing.initial]
  · intro key opened
    exact absurd rfl opened
  · intro first second opened
    exact absurd rfl opened
  · intro id event found
    cases found
  · intro key opened
    exact absurd rfl opened
  · intro key event opened
    cases opened

namespace Follows

variable {filter : AsyncFilter} {pairing : Pairing}
  (follows : Follows filter pairing)

include follows

theorem lastFilterId_of_closed {key : AsyncKey} (closed : pairing.opened key = none) :
    filter.lastFilterId key = invalidUint64 := by
  by_contra found
  exact (follows.corresponds.open_iff key).1 found closed

theorem lastFilterId_of_open {key : AsyncKey} {event : AsyncEvent}
    (opened : pairing.opened key = some event) : filter.lastFilterId key ≠ invalidUint64 ∧
      filter.asyncEventFilterMap (filter.lastFilterId key) = some event := by
  have isOpen : pairing.opened key ≠ none := by simp [opened]
  exact ⟨(follows.corresponds.open_iff key).2 isOpen,
    (follows.corresponds.event key isOpen).trans opened⟩

theorem fresh (room : filter.slices.length < AsyncFilter.maxRows) :
    (filter.asyncEventSize + 1).toNat = pairing.appended + 1 ∧
      filter.asyncEventSize + 1 ≠ invalidUint64 ∧
        filter.asyncEventFilterMap (filter.asyncEventSize + 1) = none ∧
          ∀ key, pairing.opened key ≠ none →
            filter.lastFilterId key ≠ filter.asyncEventSize + 1 := by
  have size := follows.size
  have count := follows.count
  unfold AsyncFilter.maxRows at room
  have next : (filter.asyncEventSize + 1).toNat = pairing.appended + 1 := by
    rw [UInt64.toNat_add, count]
    exact Nat.mod_eq_of_lt (by simp; omega)
  have unused (key : AsyncKey) (opened : pairing.opened key ≠ none) :
    filter.lastFilterId key ≠ filter.asyncEventSize + 1 := by
    intro same
    have issued := follows.issued key opened
    rw [same, next, count] at issued
    omega
  refine ⟨next, ?_, ?_, unused⟩
  · intro same
    rw [same] at next
    have largest : invalidUint64.toNat = 2 ^ 64 - 1 := by decide
    omega
  · cases found : filter.asyncEventFilterMap (filter.asyncEventSize + 1) with
    | none => rfl
    | some event =>
      rcases follows.corresponds.onto _ event found with ⟨key, opened, same⟩
      exact absurd same (unused key (by simp [opened]))

theorem mismatched (count : UInt64) :
    Follows { filter with asyncEventDisMatchCount := count } pairing :=
  ⟨⟨follows.corresponds.open_iff, follows.corresponds.event,
    follows.corresponds.injective, follows.corresponds.onto⟩,
    follows.size, follows.count, follows.bound, follows.invalid,
    follows.issued, follows.begun⟩

variable {next : AsyncFilter}

/-- A start that opens a pair adds its row. -/
theorem opens {key : AsyncKey} (closed : pairing.opened key = none)
    {timeStamp : UInt64} {row : AsyncRow} (atTime : row.timeStamp = timeStamp)
    (room : filter.slices.length < AsyncFilter.maxRows)
    (slices : next.slices = filter.slices ++ [row])
    (size : next.asyncEventSize = filter.asyncEventSize + 1) (ids :
      next.asyncEventMap = filter.asyncEventMap.insert key.1 key.2.1 key.2.2
        (filter.asyncEventSize + 1)) (events : next.asyncEventFilterMap =
        Function.update filter.asyncEventFilterMap (filter.asyncEventSize + 1)
          (some ⟨timeStamp, filter.slices.length⟩)) :
    Follows next (pairing.step (.start key timeStamp)) := by
  rcases follows.fresh room with ⟨number, valid, -, unused⟩
  have opened := Pairing.opened_start closed timeStamp
  have appended := Pairing.appended_start closed timeStamp
  generalize pairing.step (.start key timeStamp) = after at *
  have idOf (other : AsyncKey) : next.lastFilterId other =
    if other = key then filter.asyncEventSize + 1
    else filter.lastFilterId other := by
    rw [AsyncFilter.lastFilterId, ids, TripleMap.find_insert]
    rfl
  refine ⟨⟨?_, ?_, ?_, ?_⟩, ?_, ?_, ?_, ?_, ?_, ?_⟩
  · intro other
    rw [idOf, opened]
    by_cases same : other = key
    · simp [same, valid]
    · simpa [same] using follows.corresponds.open_iff other
  · intro other isOpen
    rw [opened] at isOpen ⊢
    rw [idOf, events]
    by_cases same : other = key
    · simp [same, follows.size]
    · rw [if_neg same] at isOpen ⊢
      rw [if_neg same, update_of_ne (unused other isOpen)]
      exact follows.corresponds.event other isOpen
  · intro first second firstOpen secondOpen
    rw [opened] at firstOpen secondOpen
    rw [idOf, idOf]
    by_cases sameFirst : first = key
    · by_cases sameSecond : second = key
      · intro _
        rw [sameFirst, sameSecond]
      · rw [if_neg sameSecond] at secondOpen
        rw [if_pos sameFirst, if_neg sameSecond]
        intro equal
        exact absurd equal.symm (unused second secondOpen)
    · rw [if_neg sameFirst] at firstOpen
      by_cases sameSecond : second = key
      · rw [if_neg sameFirst, if_pos sameSecond]
        intro equal
        exact absurd equal (unused first firstOpen)
      · rw [if_neg sameSecond] at secondOpen
        rw [if_neg sameFirst, if_neg sameSecond]
        exact follows.corresponds.injective first second firstOpen secondOpen
  · intro id event found
    rw [events] at found
    by_cases isNext : id = filter.asyncEventSize + 1
    · rw [isNext, update_self, some.injEq, follows.size] at found
      refine ⟨key, ?_, ?_⟩
      · rw [opened, if_pos rfl, found]
      · rw [idOf, if_pos rfl, isNext]
    · rw [update_of_ne isNext] at found
      rcases follows.corresponds.onto id event found with ⟨other, isOpen, same⟩
      have different : other ≠ key := by
        rintro rfl
        rw [closed] at isOpen
        cases isOpen
      refine ⟨other, ?_, ?_⟩
      · rw [opened, if_neg different, isOpen]
      · rw [idOf, if_neg different, same]
  · rw [slices, length_append, follows.size, appended]
    rfl
  · rw [size, number, appended]
  · rw [follows.size] at room
    rw [appended]
    exact room
  · rw [ids, TripleMap.invalidValue_insert, follows.invalid]
  · intro other isOpen
    rw [opened] at isOpen
    rw [idOf, size, number]
    by_cases same : other = key
    · rw [if_pos same, number]
    · rw [if_neg same] at isOpen ⊢
      exact (follows.issued other isOpen).trans (by rw [follows.count]; omega)
  · intro other event isOpen
    rw [opened] at isOpen
    rw [slices]
    by_cases same : other = key
    · rw [if_pos same, some.injEq] at isOpen
      subst isOpen
      refine ⟨row, ?_, atTime⟩
      change (filter.slices ++ [row])[pairing.appended]? = some row
      rw [← follows.size, getElem?_concat_length]
    · rw [if_neg same] at isOpen
      rcases follows.begun other event isOpen with ⟨found, read, begun⟩
      have inside := (List.getElem?_eq_some_iff.1 read).1
      exact ⟨found, by rw [getElem?_append_left inside, read], begun⟩

/-- A finish closes the pair that is open, and gives its row the duration. -/
theorem closes {key : AsyncKey} {event : AsyncEvent} (isOpen : pairing.opened key = some event)
    (timeStamp : UInt64) (slices : next.slices = setAsyncDuration filter.slices event.row timeStamp)
    (size : next.asyncEventSize = filter.asyncEventSize) (ids :
      next.asyncEventMap = filter.asyncEventMap.erase key.1 key.2.1 key.2.2)
    (events : next.asyncEventFilterMap =
      Function.update filter.asyncEventFilterMap (filter.lastFilterId key)
        none) : Follows next (pairing.step (.finish key timeStamp)) := by
  have opened := pairing.opened_finish key timeStamp
  have appended : (pairing.step (.finish key timeStamp)).appended = pairing.appended := rfl
  generalize pairing.step (.finish key timeStamp) = after at *
  have idOf (other : AsyncKey) : next.lastFilterId other =
    if other = key then invalidUint64 else filter.lastFilterId other := by
    rw [AsyncFilter.lastFilterId, ids, TripleMap.find_erase, follows.invalid]
    rfl
  have keyOpen : pairing.opened key ≠ none := by simp [isOpen]
  have others {other : AsyncKey} (stillOpen : after.opened other ≠ none) :
    other ≠ key ∧ after.opened other = pairing.opened other := by
    rw [opened] at stillOpen ⊢
    by_cases same : other = key
    · simp [same] at stillOpen
    · exact ⟨same, if_neg same⟩
  refine ⟨⟨?_, ?_, ?_, ?_⟩, ?_, ?_, ?_, ?_, ?_, ?_⟩
  · intro other
    rw [idOf, opened]
    by_cases same : other = key
    · simp [same]
    · simpa [same] using follows.corresponds.open_iff other
  · intro other stillOpen
    rcases others stillOpen with ⟨different, before⟩
    rw [before] at stillOpen ⊢
    have differentId : filter.lastFilterId other ≠ filter.lastFilterId key := by
      intro equal
      exact different (follows.corresponds.injective other key stillOpen keyOpen equal)
    rw [idOf, if_neg different, events, update_of_ne differentId]
    exact follows.corresponds.event other stillOpen
  · intro first second firstOpen secondOpen
    rcases others firstOpen with ⟨differentFirst, firstBefore⟩
    rcases others secondOpen with ⟨differentSecond, secondBefore⟩
    rw [firstBefore] at firstOpen
    rw [secondBefore] at secondOpen
    rw [idOf, idOf, if_neg differentFirst, if_neg differentSecond]
    exact follows.corresponds.injective first second firstOpen secondOpen
  · intro id found read
    rw [events] at read
    by_cases same : id = filter.lastFilterId key
    · rw [same, update_self] at read
      cases read
    · rw [update_of_ne same] at read
      rcases follows.corresponds.onto id found read with ⟨other, before, rfl⟩
      have different : other ≠ key := fun equal => same (by rw [equal])
      refine ⟨other, ?_, ?_⟩
      · rw [opened, if_neg different, before]
      · rw [idOf, if_neg different]
  · rw [slices, setAsyncDuration, length_modify, appended, follows.size]
  · rw [size, appended, follows.count]
  · rw [appended]
    exact follows.bound
  · rw [ids, TripleMap.invalidValue_erase, follows.invalid]
  · intro other stillOpen
    rcases others stillOpen with ⟨different, before⟩
    rw [before] at stillOpen
    rw [idOf, if_neg different, size]
    exact follows.issued other stillOpen
  · intro other found stillOpen
    rcases others (by rw [stillOpen]; simp) with ⟨-, before⟩
    rw [before] at stillOpen
    rcases follows.begun other found stillOpen with ⟨row, read, begun⟩
    by_cases same : event.row = found.row
    · rw [slices, setAsyncDuration, same, getElem?_modify_eq, read]
      exact ⟨_, rfl, begun⟩
    · rw [slices, setAsyncDuration, getElem?_modify_ne _ _ same, read]
      exact ⟨row, rfl, begun⟩

theorem step {call : AsyncCall} {answer : Option Nat}
    (handled : filter.handle call = some (answer, next)) :
    Follows next (pairing.step call) ∧ Pairs filter pairing call answer next := by
  cases call with
  | start key timeStamp =>
    rw [AsyncFilter.handle, AsyncFilter.startAsyncSlice] at handled
    cases opened : pairing.opened key with
    | some event =>
      rw [if_pos (follows.lastFilterId_of_open opened).1, some.injEq,
        Prod.mk.injEq] at handled
      rcases handled with ⟨rfl, rfl⟩
      rw [Pairing.step_start_of_open opened]
      refine ⟨follows.mismatched _, ?_⟩
      simp only [Pairs, opened, and_self]
    | none =>
      rw [if_neg (not_not.2 (follows.lastFilterId_of_closed opened))]
        at handled
      by_cases full : AsyncFilter.maxRows ≤ filter.slices.length
      · rw [if_pos full] at handled
        cases handled
      · have room := not_le.1 full
        simp only [if_neg full, (follows.fresh room).2.2.1,
          some.injEq, Prod.mk.injEq] at handled
        rcases handled with ⟨rfl, rfl⟩
        refine ⟨follows.opens opened rfl room rfl rfl rfl rfl, ?_⟩
        simp only [Pairs, opened, follows.size, and_self]
  | finish key timeStamp =>
    rw [AsyncFilter.handle, AsyncFilter.finishAsyncSlice] at handled
    cases opened : pairing.opened key with
    | none =>
      simp only [follows.lastFilterId_of_closed opened, if_true,
        some.injEq, Prod.mk.injEq] at handled
      rcases handled with ⟨rfl, rfl⟩
      rw [Pairing.step_finish_of_closed opened]
      refine ⟨follows.mismatched _, ?_⟩
      simp only [Pairs, opened, and_self]
    | some event =>
      rcases follows.lastFilterId_of_open opened with ⟨valid, found⟩
      simp only [valid, if_false, found, some.injEq, Prod.mk.injEq] at handled
      rcases handled with ⟨rfl, rfl⟩
      refine ⟨follows.closes opened timeStamp rfl rfl rfl rfl, ?_⟩
      rcases follows.begun key event opened with ⟨row, read, begun⟩
      have inside := (List.getElem?_eq_some_iff.1 read).1
      simp only [Pairs, opened, true_and, and_true]
      refine ⟨?_, inside⟩
      refine ext_getElem? fun index => ?_
      rw [setAsyncDuration, getElem?_modify, getElem?_modify]
      by_cases same : event.row = index
      · rw [← same, read]
        simp [begun]
      · simp [same]

end Follows

theorem Follows.run {filter reached : AsyncFilter} {pairing : Pairing} {calls : List AsyncCall}
    (follows : Follows filter pairing)
    (ran : runPartial AsyncFilter.step filter calls = some reached) :
    Follows reached (Foundation.run Pairing.step pairing calls) := by
  induction calls generalizing filter pairing with
  | nil =>
    cases ran
    exact follows
  | cons call rest induction =>
    rw [runPartial, AsyncFilter.step] at ran
    cases handled : filter.handle call with
    | none =>
      rw [handled] at ran
      cases ran
    | some result =>
      rw [handled] at ran
      exact induction (follows.step handled).1 ran

/--
Asynchronous slices pair exactly: at every point of every run the maps hold the
open keys one to one, and a call starts, finishes or counts a mismatch as the
open starts say.
-/
theorem asyncSlices_pair {calls : List AsyncCall} {filter : AsyncFilter}
    (reached : runPartial AsyncFilter.step AsyncFilter.initial calls = some filter) :
    Corresponds filter (Pairing.after calls) ∧
      ∀ call answer next, filter.handle call = some (answer, next) →
        Pairs filter (Pairing.after calls) call answer next := by
  have follows := follows_initial.run reached
  refine ⟨follows.corresponds, ?_⟩
  intro call answer next handled
  exact (follows.step handled).2

def startedTwice : List AsyncCall := [.start (1, 7, 3) 10, .start (1, 7, 3) 20]

theorem asyncSlices_pair_startedTwice :
    ∃ filter, runPartial AsyncFilter.step AsyncFilter.initial startedTwice = some filter ∧
      Corresponds filter (Pairing.after startedTwice) ∧
        ∀ call answer next, filter.handle call = some (answer, next) →
          Pairs filter (Pairing.after startedTwice) call answer next := by
  have runs : (runPartial AsyncFilter.step AsyncFilter.initial startedTwice).isSome := by decide
  rcases isSome_iff_exists.1 runs with ⟨filter, reached⟩
  exact ⟨filter, reached, asyncSlices_pair reached⟩

end SysAnalyzer.Filter
