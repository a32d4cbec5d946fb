import Mathlib.Data.List.TakeDrop

/-!
# Results in pages

`postMessage` cuts a long result list into pages.  It counts the pages by the
page size it is given, and `pagination` cuts them by `PAGE_SIZE`.
-/

namespace SysAnalyzer.LogicWorker

open List

variable {Item : Type*}

/-- `pagination`; the pages are counted from one. -/
def pagination (page pageSize : Nat) (source : List Item) : List Item :=
  let offset := (page - 1) * pageSize
  if offset + pageSize ≥ source.length then source.drop offset
  else (source.drop offset).take pageSize

def PAGE_SIZE : Nat := 500000

structure Msg (Item : Type*) where
  tag : String
  index : Nat
  isSending : Bool
  data : List Item

/-- `Math.ceil(results.length / pageSize)`. -/
def pageCount (results : List Item) (pageSize : Nat) : Nat :=
  (results.length + pageSize - 1) / pageSize

/-- The message with page `i`. -/
def pageMsg (results : List Item) (pageCount i : Nat) : Msg Item :=
  let tag := if i = 1 then "start" else if i = pageCount then "end" else "sending"
  { tag
    index := i
    isSending := tag != "end"
    data := pagination i PAGE_SIZE results }

/-- The messages that `postMessage` posts. -/
def postMessage (results : List Item) (pageSize : Nat) : List (Msg Item) :=
  if results.length > pageSize then
    (range (pageCount results pageSize)).map fun i =>
      pageMsg results (pageCount results pageSize) (i + 1)
  else [{ tag := "end", index := 0, isSending := false, data := results }]

/-- The messages bring the results, in pages that are not too long, and the last
message, and no other, says that nothing follows. -/
structure Complete (results : List Item) (pageSize : Nat)
    (messages : List (Msg Item)) : Prop where
  whole : messages.flatMap Msg.data = results
  ends : ∃ front last, messages = front ++ [last] ∧ last.isSending = false ∧
    ∀ message ∈ front, message.isSending = true
  bounded : ∀ message ∈ messages, message.data.length ≤ pageSize

variable (results : List Item)

theorem pagination_eq (page pageSize : Nat) :
    pagination (page + 1) pageSize results = (results.drop (page * pageSize)).take pageSize := by
  rw [pagination, Nat.add_sub_cancel]
  split_ifs with long
  · rw [take_of_length_le]
    rw [length_drop]
    omega
  · rfl

theorem flatMap_pagination (count pageSize : Nat) :
    ((range count).flatMap fun i => pagination (i + 1) pageSize results) =
      results.take (count * pageSize) := by
  induction count with
  | zero => simp
  | succ count induction =>
    rw [range_succ, flatMap_append, induction, flatMap_singleton, pagination_eq,
      Nat.succ_mul, take_add]

theorem length_pagination (page pageSize : Nat) : (pagination (page + 1) pageSize results).length =
    min pageSize (results.length - page * pageSize) := by
  rw [pagination_eq, length_take, length_drop]

variable {pageSize : Nat}

theorem one_lt_pageCount (positive : 1 ≤ pageSize)
    (long : results.length > pageSize) : 1 < pageCount results pageSize := by
  rw [pageCount, Nat.lt_div_iff_mul_lt (by omega)]
  omega

theorem ends_postMessage (positive : 1 ≤ pageSize) (long : results.length > pageSize) :
    ∃ front last, postMessage results pageSize = front ++ [last] ∧
      last.isSending = false ∧ ∀ message ∈ front, message.isSending = true := by
  have pages := one_lt_pageCount results positive long
  rw [postMessage, if_pos long]
  generalize pageCount results pageSize = count at pages
  cases count with
  | zero => omega
  | succ count =>
    refine ⟨_, _, by rw [range_succ, map_append, map_singleton], ?_, ?_⟩
    · have notFirst : count ≠ 0 := by omega
      simp [pageMsg, notFirst]
    · intro message member
      rcases mem_map.1 member with ⟨i, inside, rfl⟩
      have notLast : i ≠ count := Nat.ne_of_lt (List.mem_range.1 inside)
      by_cases isFirst : i = 0 <;> simp [pageMsg, notLast, isFirst]

/--
The results arrive in pages of the given size exactly if they fit into one
message, or if the size is not below `PAGE_SIZE` and the pages counted by the
one and cut by the other reach the end of the list.
-/
theorem postMessage_complete_iff (results : List Item) {pageSize : Nat} (positive : 1 ≤ pageSize) :
    Complete results pageSize (postMessage results pageSize) ↔ results.length ≤ pageSize ∨
      PAGE_SIZE ≤ pageSize ∧ results.length ≤ pageCount results pageSize * PAGE_SIZE := by
  by_cases short : results.length ≤ pageSize
  · rw [postMessage, if_neg (by omega)]
    exact iff_of_true ⟨by simp, ⟨[], _, rfl, rfl, by simp⟩, by simpa⟩
      (.inl short)
  have long : results.length > pageSize := by omega
  have pages := one_lt_pageCount results positive long
  have data : (postMessage results pageSize).flatMap Msg.data =
    results.take (pageCount results pageSize * PAGE_SIZE) := by
    rw [postMessage, if_pos long, flatMap_map]
    exact flatMap_pagination results _ _
  rw [or_iff_right short]
  constructor
  · rintro ⟨whole, -, bounded⟩
    have first := bounded (pageMsg results (pageCount results pageSize) 1) (by
      rw [postMessage, if_pos long, mem_map]
      exact ⟨0, mem_range.2 (by omega), rfl⟩)
    rw [pageMsg, length_pagination results 0] at first
    rw [data, take_eq_self_iff] at whole
    exact ⟨by omega, whole⟩
  · rintro ⟨large, reaches⟩
    refine ⟨?_, ends_postMessage results positive long, ?_⟩
    · rw [data, take_of_length_le reaches]
    · intro message member
      rw [postMessage, if_pos long] at member
      rcases mem_map.1 member with ⟨i, -, rfl⟩
      rw [pageMsg, length_pagination]
      omega

theorem postMessage_complete_twoPages :
    Complete (replicate (2 * PAGE_SIZE) ()) PAGE_SIZE
      (postMessage (replicate (2 * PAGE_SIZE) ()) PAGE_SIZE) := by
  refine (postMessage_complete_iff _ (by decide)).2 (.inr ⟨Nat.le_refl _, ?_⟩)
  rw [pageCount, length_replicate]
  decide

theorem not_complete_pagesOfOne : ¬ Complete [0, 1] 1 (postMessage [0, 1] 1) := by
  intro complete
  have first := complete.bounded (pageMsg [0, 1] 2 1)
    (by simp [postMessage, pageCount, range_succ])
  simp [pageMsg, pagination, PAGE_SIZE] at first

end SysAnalyzer.LogicWorker
