import SysAnalyzer.Foundation.Run

/-!
# The message queue

`AsyncQueue` pairs messages with readers through promises.  Whoever comes first,
message or reader, finds no partner and adds a promise to one queue and its
resolver to another; `enqueue` takes the oldest resolver and `dequeue` the oldest
promise.

A promise has a number, in the order of creation, and its resolver has the same
one.  The calls of resolvers are recorded; of several for one promise only the
first counts.
-/

namespace SysAnalyzer.Hdc

open Foundation List

universe u

structure DataMessageQueue (Entry : Type u) where
  eleArray : List Entry := []

namespace DataMessageQueue

variable {Entry : Type u}

/-- `push`; an entry that is null is refused. -/
def push (queue : DataMessageQueue Entry) : Option Entry → DataMessageQueue Entry × Bool
  | none => (queue, false)
  | some entry => (⟨entry :: queue.eleArray⟩, true)

def pop (queue : DataMessageQueue Entry) : Option Entry × DataMessageQueue Entry :=
  (queue.eleArray.getLast?, ⟨queue.eleArray.dropLast⟩)

def size (queue : DataMessageQueue Entry) : Nat := queue.eleArray.length

end DataMessageQueue

variable {DataMessage : Type u}

/-- The queue, the promises so far and the calls of their resolvers. -/
structure AsyncQueue (DataMessage : Type u) where
  promiseQueue : DataMessageQueue Nat := {}
  resolverQueue : DataMessageQueue Nat := {}
  created : Nat := 0
  resolved : List (Nat × DataMessage) := []

namespace AsyncQueue

def add (queue : AsyncQueue DataMessage) : AsyncQueue DataMessage :=
  { queue with
    resolverQueue := (queue.resolverQueue.push (some queue.created)).1
    promiseQueue := (queue.promiseQueue.push (some queue.created)).1
    created := queue.created + 1 }

def enqueue (queue : AsyncQueue DataMessage) (item : DataMessage) : AsyncQueue DataMessage :=
  let queue := if queue.resolverQueue.size = 0 then queue.add else queue
  let popped := queue.resolverQueue.pop
  { queue with
    resolverQueue := popped.2
    resolved :=
      match popped.1 with
      | some resolve => queue.resolved ++ [(resolve, item)]
      | none => queue.resolved }

/-- `dequeue`: the promise whose message is the answer. -/
def dequeue (queue : AsyncQueue DataMessage) : Nat × AsyncQueue DataMessage :=
  let queue := if queue.promiseQueue.size = 0 then queue.add else queue
  let popped := queue.promiseQueue.pop
  let left := { queue with promiseQueue := popped.2 }
  match popped.1 with
  | some promise => (promise, left)
  -- a promise that nothing resolves
  | none => (queue.created, { left with created := queue.created + 1 })

def message? (queue : AsyncQueue DataMessage) (promise : Nat) : Option DataMessage :=
  (queue.resolved.find? fun call => call.1 == promise).map Prod.snd

end AsyncQueue

inductive QueueCall (DataMessage : Type u) where
  | enqueue (item : DataMessage)
  | dequeue

namespace QueueCall

def item? : QueueCall DataMessage → Option DataMessage
  | .enqueue item => some item
  | .dequeue => none

end QueueCall

/-- The queue, and the promises that were returned, first ones first. -/
structure QueueHistory (DataMessage : Type u) where
  queue : AsyncQueue DataMessage := {}
  returned : List Nat := []

namespace QueueHistory

def step (history : QueueHistory DataMessage) : QueueCall DataMessage → QueueHistory DataMessage
  | .enqueue item => { history with queue := history.queue.enqueue item }
  | .dequeue =>
    let answered := history.queue.dequeue
    ⟨answered.2, history.returned ++ [answered.1]⟩

def after (calls : List (QueueCall DataMessage)) : QueueHistory DataMessage := run step {} calls

def messagesWaiting (history : QueueHistory DataMessage) : List Nat :=
  history.queue.promiseQueue.eleArray.filter fun promise => (history.queue.message? promise).isSome

def readersWaiting (history : QueueHistory DataMessage) : List Nat :=
  history.returned.filter fun promise => (history.queue.message? promise).isNone

/--
The queue after some messages and some readers: each message has resolved the
promise of its place, each reader has the promise of its place, and the queues
hold the places that have only one of the two.
-/
structure Paired (history : QueueHistory DataMessage)
    (items : List DataMessage) (readers : Nat) : Prop where
  created : history.queue.created = max items.length readers
  promises : history.queue.promiseQueue.eleArray =
    (range' readers (items.length - readers)).reverse
  resolvers : history.queue.resolverQueue.eleArray =
    (range' items.length (readers - items.length)).reverse
  resolved : history.queue.resolved = (range items.length).zip items
  returned : history.returned = range readers

theorem pop_places (first count : Nat) :
    DataMessageQueue.pop ⟨(range' first (count + 1)).reverse⟩ =
      (some first, ⟨(range' (first + 1) count).reverse⟩) := by
  rw [range'_succ, reverse_cons, DataMessageQueue.pop, getLast?_concat, dropLast_concat]

theorem push_place (first count : Nat) : (first + count) :: (range' first count).reverse =
    (range' first (count + 1)).reverse := by
  rw [range'_1_concat, reverse_concat]

theorem resolved_concat (items : List DataMessage) (item : DataMessage) :
    (range items.length).zip items ++ [(items.length, item)] =
      (range (items ++ [item]).length).zip (items ++ [item]) := by
  rw [length_append, length_singleton, range_succ, zip_append (length_range ..)]
  rfl

section Calls

variable {queue : AsyncQueue DataMessage}

theorem enqueue_of_asked {first count : Nat} (asked :
      queue.resolverQueue.eleArray = (range' first (count + 1)).reverse) (item : DataMessage) :
    queue.enqueue item = { queue with
        resolverQueue := ⟨(range' (first + 1) count).reverse⟩
        resolved := queue.resolved ++ [(first, item)] } := by
  rcases queue with ⟨promises, ⟨resolvers⟩, created, resolved⟩
  obtain rfl : resolvers = _ := asked
  have notEmpty : DataMessageQueue.size ⟨(range' first (count + 1)).reverse⟩ ≠ 0 := by
    simp [DataMessageQueue.size]
  simp only [AsyncQueue.enqueue, notEmpty, if_false, pop_places]

theorem enqueue_of_notAsked (notAsked : queue.resolverQueue.eleArray = []) (item : DataMessage) :
    queue.enqueue item = { queue with
        promiseQueue := ⟨queue.created :: queue.promiseQueue.eleArray⟩
        created := queue.created + 1
        resolved := queue.resolved ++ [(queue.created, item)] } := by
  rcases queue with ⟨promises, ⟨resolvers⟩, created, resolved⟩
  obtain rfl : resolvers = [] := notAsked
  rfl

theorem dequeue_of_sent {first count : Nat} (sent :
    queue.promiseQueue.eleArray = (range' first (count + 1)).reverse) :
    queue.dequeue = (first, { queue with
      promiseQueue := ⟨(range' (first + 1) count).reverse⟩ }) := by
  rcases queue with ⟨⟨promises⟩, resolvers, created, resolved⟩
  obtain rfl : promises = _ := sent
  have notEmpty : DataMessageQueue.size ⟨(range' first (count + 1)).reverse⟩ ≠ 0 := by
    simp [DataMessageQueue.size]
  simp only [AsyncQueue.dequeue, notEmpty, if_false, pop_places]

theorem dequeue_of_notSent (notSent : queue.promiseQueue.eleArray = []) :
    queue.dequeue = (queue.created, { queue with
          resolverQueue := ⟨queue.created :: queue.resolverQueue.eleArray⟩
          created := queue.created + 1 }) := by
  rcases queue with ⟨⟨promises⟩, resolvers, created, resolved⟩
  obtain rfl : promises = [] := notSent
  rfl

end Calls

variable {history : QueueHistory DataMessage} {items : List DataMessage}
  {readers : Nat}

theorem Paired.enqueue (paired : Paired history items readers) (item : DataMessage) :
    Paired (history.step (.enqueue item)) (items ++ [item]) readers := by
  have size : (items ++ [item]).length = items.length + 1 := by simp
  rcases Nat.lt_or_ge items.length readers with asked | notAsked
  · rcases Nat.exists_eq_add_of_lt asked with ⟨others, split⟩
    have waiting : readers - items.length = others + 1 := by omega
    have resolvers := paired.resolvers
    rw [waiting] at resolvers
    rw [step, enqueue_of_asked resolvers]
    constructor
    · rw [paired.created, size]
      omega
    · have same : items.length + 1 - readers = items.length - readers := by
        omega
      rw [paired.promises, size, same]
    · have left : readers - (items.length + 1) = others := by omega
      rw [size, left]
    · rw [paired.resolved, resolved_concat]
    · exact paired.returned
  · have notWaiting : readers - items.length = 0 := by omega
    have resolvers := paired.resolvers
    rw [notWaiting] at resolvers
    have created : history.queue.created = items.length := by
      rw [paired.created, Nat.max_eq_left notAsked]
    rw [step, enqueue_of_notAsked resolvers, created]
    constructor
    · rw [size]
      show items.length + 1 = _
      omega
    · have place : items.length = readers + (items.length - readers) := by
        omega
      have grown : items.length - readers + 1 = items.length + 1 - readers := by
        omega
      rw [paired.promises, size, ← grown, ← push_place, ← place]
    · have none : readers - (items.length + 1) = 0 := by omega
      rw [resolvers, size, none]
      rfl
    · rw [paired.resolved, resolved_concat]
    · exact paired.returned

theorem Paired.dequeue (paired : Paired history items readers) :
    Paired (history.step .dequeue) items (readers + 1) := by
  have placed := paired.returned
  rcases Nat.lt_or_ge readers items.length with sent | notSent
  · rcases Nat.exists_eq_add_of_lt sent with ⟨others, split⟩
    have waiting : items.length - readers = others + 1 := by omega
    have promises := paired.promises
    rw [waiting] at promises
    rw [step, dequeue_of_sent promises]
    constructor
    · rw [paired.created]
      omega
    · have left : items.length - (readers + 1) = others := by omega
      rw [left]
    · have same : readers + 1 - items.length = readers - items.length := by
        omega
      rw [paired.resolvers, same]
    · exact paired.resolved
    · rw [placed, range_succ]
  · have notWaiting : items.length - readers = 0 := by omega
    have promises := paired.promises
    rw [notWaiting] at promises
    have created : history.queue.created = readers := by
      rw [paired.created, Nat.max_eq_right notSent]
    rw [step, dequeue_of_notSent promises, created]
    constructor
    · show readers + 1 = _
      omega
    · have none : items.length - (readers + 1) = 0 := by omega
      rw [promises, none]
      rfl
    · have place : readers = items.length + (readers - items.length) := by
        omega
      have grown : readers - items.length + 1 = readers + 1 - items.length := by omega
      rw [paired.resolvers, ← grown, ← push_place, ← place]
    · exact paired.resolved
    · rw [placed, range_succ]

theorem find?_place (items : List DataMessage) (promise : Nat) :
    (((range items.length).zip items).find? fun call =>
      call.1 == promise).map Prod.snd = items[promise]? := by
  induction items using reverseRecOn with
  | nil => rfl
  | append_singleton earlier item induction =>
    rw [← resolved_concat, find?_append, Option.map_or, induction]
    rcases Nat.lt_trichotomy promise earlier.length with
      inside | last | outside
    · rw [getElem?_append_left inside, getElem?_eq_getElem inside]
      rfl
    · rw [last]
      simp
    · have notLast : ¬ earlier.length = promise := by omega
      rw [getElem?_eq_none (by omega), getElem?_eq_none (by simp; omega)]
      simp [notLast]

theorem Paired.message? (paired : Paired history items readers) (promise : Nat) :
    history.queue.message? promise = items[promise]? := by
  rw [AsyncQueue.message?, paired.resolved, find?_place]

def sent (calls : List (QueueCall DataMessage)) : List DataMessage :=
  calls.filterMap QueueCall.item?

/-- The number of readers among some calls. -/
def asked (calls : List (QueueCall DataMessage)) : Nat := calls.countP fun call => call.item?.isNone

theorem paired_after (calls : List (QueueCall DataMessage)) :
    Paired (after calls) (sent calls) (asked calls) := by
  induction calls using reverseRecOn with
  | nil => exact ⟨rfl, rfl, rfl, rfl, rfl⟩
  | append_singleton earlier call induction =>
    rw [after, run_append, sent, asked, filterMap_append, countP_append]
    cases call with
    | enqueue item => exact induction.enqueue item
    | dequeue =>
      have noItem : [(.dequeue : QueueCall DataMessage)].filterMap QueueCall.item? = [] := rfl
      rw [noItem, append_nil]
      exact induction.dequeue

/--
In every history, the promise of a reader has the message of the same number and
nothing else once that is sent; no promise is returned or resolved twice; and
there are not both messages and readers that wait.
-/
theorem after_fifo (calls : List (QueueCall DataMessage)) :
    (after calls).returned.length = asked calls ∧ (∀ (reader promise : Nat),
      (after calls).returned[reader]? = some promise →
        (after calls).queue.message? promise = (sent calls)[reader]?) ∧
      (after calls).returned.Nodup ∧ ((after calls).queue.resolved.map Prod.fst).Nodup ∧
      ((after calls).messagesWaiting = [] ∨ (after calls).readersWaiting = []) := by
  have paired := paired_after calls
  have returned := paired.returned
  have messages := paired.message?
  refine ⟨?_, ?_, ?_, ?_, ?_⟩
  · rw [returned, length_range]
  · intro reader promise isPromise
    rw [returned] at isPromise
    have inside := (List.getElem?_eq_some_iff.1 isPromise).1
    rw [length_range] at inside
    rw [getElem?_range inside, Option.some.injEq] at isPromise
    rw [messages, isPromise]
  · rw [returned]
    exact nodup_range
  · rw [paired.resolved, map_fst_zip (by simp)]
    exact nodup_range
  · rcases Nat.le_total (asked calls) (sent calls).length with few | many
    · right
      apply filter_eq_nil_iff.2
      intro promise member
      rw [returned, mem_range] at member
      rw [messages, getElem?_eq_getElem (by omega)]
      exact Bool.false_ne_true
    · left
      have none : (sent calls).length - asked calls = 0 := by omega
      rw [messagesWaiting, paired.promises, none]
      rfl

end QueueHistory

end SysAnalyzer.Hdc
