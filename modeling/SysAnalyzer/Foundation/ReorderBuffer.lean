import SysAnalyzer.Foundation.Run
import Mathlib

/-!
# Sorting a stream through a bounded buffer

Entries arrive with keys that are almost in order.  A buffer keeps the last
`limit` of them sorted, equal keys in arrival order, and releases from its front
what exceeds the limit.  When no entry arrives behind more than `limit` entries
of larger keys, what is released and what is left, put together, is the stable
sort of the arrivals: an entry that was released had `limit` entries of no
smaller keys behind it, so nothing smaller can still arrive.
-/

namespace SysAnalyzer.Foundation

open List

universe u v

variable {Key : Type u} [LinearOrder Key] {Value : Type v}

/--
`sorted` holds the arrivals in the order of their keys, those of one key in the
order of their arrival.
-/
structure StableSortOf (sorted arrivals : List (Key × Value)) : Prop where
  perm : sorted.Perm arrivals
  ordered : sorted.Pairwise fun earlier later => earlier.1 ≤ later.1
  stable : ∀ key, sorted.filter (fun entry => decide (entry.1 = key)) =
    arrivals.filter fun entry => decide (entry.1 = key)

theorem stableSortOf_nil : StableSortOf ([] : List (Key × Value)) [] :=
  ⟨.refl [], .nil, fun _ => rfl⟩

def insertByKey (entries : List (Key × Value)) (entry : Key × Value) : List (Key × Value) :=
  let notLater := fun other : Key × Value => decide (other.1 ≤ entry.1)
  entries.takeWhile notLater ++ entry :: entries.dropWhile notLater

theorem length_insertByKey (entries : List (Key × Value)) (entry : Key × Value) :
    (insertByKey entries entry).length = entries.length + 1 := by
  have parts :=
    congrArg List.length (takeWhile_append_dropWhile
      (p := fun other : Key × Value => decide (other.1 ≤ entry.1))
      (l := entries))
  rw [length_append] at parts
  simp only [insertByKey, length_append, length_cons]
  omega

theorem insertByKey_append {first : List (Key × Value)} (second : List (Key × Value))
    {entry : Key × Value} (notLater : ∀ other ∈ first, other.1 ≤ entry.1) :
    insertByKey (first ++ second) entry = first ++ insertByKey second entry := by
  have passed : ∀ other ∈ first, decide (other.1 ≤ entry.1) = true :=
    fun other member => decide_eq_true (notLater other member)
  simp only [insertByKey, takeWhile_append_of_pos passed,
    dropWhile_append_of_pos passed, append_assoc]

variable {entries : List (Key × Value)}

theorem lt_of_mem_dropWhile (entry : Key × Value)
    (ordered : entries.Pairwise fun earlier later => earlier.1 ≤ later.1) :
    ∀ other ∈ entries.dropWhile (fun other => decide (other.1 ≤ entry.1)), entry.1 < other.1 := by
  induction entries with
  | nil => simp
  | cons head rest induction =>
    rw [pairwise_cons] at ordered
    by_cases notLater : head.1 ≤ entry.1
    · rw [dropWhile_cons_of_pos (by simpa using notLater)]
      exact induction ordered.2
    · rw [dropWhile_cons_of_neg (by simpa using notLater)]
      have headLater : entry.1 < head.1 := lt_of_not_ge notLater
      intro other member
      rcases mem_cons.1 member with rfl | inRest
      · exact headLater
      · exact lt_of_lt_of_le headLater (ordered.1 other inRest)

theorem le_of_mem_takeWhile {entry other : Key × Value} (member :
    other ∈ entries.takeWhile fun other => decide (other.1 ≤ entry.1)) : other.1 ≤ entry.1 := by
  simpa using mem_takeWhile_imp member

theorem StableSortOf.insertByKey {sorted arrivals : List (Key × Value)}
    (sort : StableSortOf sorted arrivals) (entry : Key × Value) :
    StableSortOf (insertByKey sorted entry) (arrivals ++ [entry]) := by
  let notLater := fun other : Key × Value => decide (other.1 ≤ entry.1)
  let before := sorted.takeWhile notLater
  let behind := sorted.dropWhile notLater
  have parts : before ++ behind = sorted := takeWhile_append_dropWhile
  have allBehind := lt_of_mem_dropWhile entry sort.ordered
  change StableSortOf (before ++ entry :: behind) (arrivals ++ [entry])
  refine ⟨?_, ?_, ?_⟩
  · refine perm_middle.trans ?_
    rw [parts]
    exact (sort.perm.cons entry).trans (perm_append_singleton entry _).symm
  · have ordered := sort.ordered
    rw [← parts, pairwise_append] at ordered
    refine pairwise_append.2 ⟨ordered.1, ?_, ?_⟩
    · refine pairwise_cons.2 ⟨?_, ordered.2.1⟩
      exact fun other member => le_of_lt (allBehind other member)
    · intro earlier ofBefore later ofRest
      have upTo := le_of_mem_takeWhile ofBefore
      rcases mem_cons.1 ofRest with rfl | ofBehind
      · exact upTo
      · exact le_trans upTo (le_of_lt (allBehind later ofBehind))
  · intro key
    have same := sort.stable key
    rw [← parts, filter_append] at same
    rw [filter_append, filter_append, ← same]
    by_cases ofKey : entry.1 = key
    · -- nothing behind the new entry has its key
      have noneBehind : behind.filter (fun other => decide (other.1 = key)) = [] := by
        rw [filter_eq_nil_iff]
        intro other member sameKey
        have later := allBehind other member
        rw [of_decide_eq_true sameKey, ofKey] at later
        exact lt_irrefl key later
      simp [ofKey, noneBehind]
    · simp [ofKey]

/-- The entries waiting, in order, and those that have been released. -/
structure ReorderBuffer (Key : Type u) (Value : Type v) where
  pending : List (Key × Value)
  released : List (Key × Value)

namespace ReorderBuffer

def empty : ReorderBuffer Key Value := ⟨[], []⟩

/-- Release the first `count` entries. -/
def release (buffer : ReorderBuffer Key Value) (count : Nat) : ReorderBuffer Key Value :=
  ⟨buffer.pending.drop count, buffer.released ++ buffer.pending.take count⟩

/-- An arrival, with the entries beyond the limit released. -/
def arrive (limit : Nat) (buffer : ReorderBuffer Key Value)
    (entry : Key × Value) : ReorderBuffer Key Value :=
  let pending := insertByKey buffer.pending entry
  ({ buffer with pending } : ReorderBuffer Key Value).release (pending.length - limit)

/-- Every entry arrives behind at most `limit` entries of larger keys. -/
def DelayBounded (limit : Nat) (arrivals : List (Key × Value)) : Prop :=
  EachStep (fun past entry => past ++ [entry]) (fun past entry =>
    past.countP (fun other => decide (entry.1 < other.1)) ≤ limit)
    [] arrivals

instance (limit : Nat) (arrivals : List (Key × Value)) : Decidable (DelayBounded limit arrivals) :=
  decidableEachStep _ _ [] arrivals

/-- Entries of a largest key never come late. -/
theorem DelayBounded.append_replicate {limit : Nat} {arrivals : List (Key × Value)}
    {entry : Key × Value} (delayed : DelayBounded limit arrivals)
    (largest : ∀ other ∈ arrivals, other.1 ≤ entry.1) (count : Nat) :
    DelayBounded limit (arrivals ++ replicate count entry) := by
  have together : Foundation.run (fun past entry => past ++ [entry]) [] arrivals = arrivals := by
    simp [Foundation.run, ← flatMap_def]
  refine (eachStep_append ..).2 ⟨delayed, ?_⟩
  rw [together]
  clear delayed together
  induction count generalizing arrivals with
  | zero => trivial
  | succ count induction =>
    refine ⟨?_, induction ?_⟩
    · have none : arrivals.countP (fun other => decide (entry.1 < other.1)) = 0 :=
        countP_eq_zero.2 fun other member => by simpa using largest other member
      exact none.le.trans (Nat.zero_le limit)
    · exact forall_mem_append.2 ⟨largest, forall_mem_singleton.2 (le_refl _)⟩

/--
Released and pending entries are the stable sort of the arrivals, and entries
have been released only from a buffer that is full since then.
-/
structure Sorts (limit : Nat) (arrivals : List (Key × Value))
    (buffer : ReorderBuffer Key Value) : Prop where
  sorted : StableSortOf (buffer.released ++ buffer.pending) arrivals
  bounded : buffer.pending.length ≤ limit
  full : buffer.released ≠ [] → buffer.pending.length = limit

theorem sorts_empty (limit : Nat) : (empty : ReorderBuffer Key Value).Sorts limit [] where
  sorted := stableSortOf_nil
  bounded := Nat.zero_le limit
  full := fun released => absurd rfl released

variable {arrivals : List (Key × Value)} {buffer : ReorderBuffer Key Value}

variable {limit : Nat}

theorem Sorts.released_le (sorts : buffer.Sorts limit arrivals) {entry : Key × Value} (delayed :
    arrivals.countP (fun other => decide (entry.1 < other.1)) ≤ limit) :
    ∀ other ∈ buffer.released, other.1 ≤ entry.1 := by
  intro other member
  by_contra notBefore
  have later : entry.1 < other.1 := lt_of_not_ge notBefore
  rw [← sorts.sorted.perm.countP_eq, countP_append] at delayed
  have someReleased : 0 < buffer.released.countP fun other => decide (entry.1 < other.1) :=
    countP_pos_iff.2 ⟨other, member, decide_eq_true later⟩
  have allPending : buffer.pending.countP (fun other => decide (entry.1 < other.1)) =
    buffer.pending.length := by
    rw [countP_eq_length]
    intro next ofPending
    have upTo :=
      (pairwise_append.1 sorts.sorted.ordered).2.2 other member next
        ofPending
    exact decide_eq_true (lt_of_lt_of_le later upTo)
  have isFull := sorts.full (ne_nil_of_mem member)
  omega

theorem Sorts.arrive (sorts : buffer.Sorts limit arrivals) {entry : Key × Value} (delayed :
    arrivals.countP (fun other => decide (entry.1 < other.1)) ≤ limit) :
    (buffer.arrive limit entry).Sorts limit (arrivals ++ [entry]) := by
  have length := length_insertByKey buffer.pending entry
  have bounded := sorts.bounded
  refine ⟨?_, ?_, ?_⟩
  · have together : (buffer.arrive limit entry).released ++ (buffer.arrive limit entry).pending =
      insertByKey (buffer.released ++ buffer.pending) entry := by
      rw [insertByKey_append buffer.pending (sorts.released_le delayed)]
      simp [ReorderBuffer.arrive, release]
    rw [together]
    exact sorts.sorted.insertByKey entry
  · simp only [ReorderBuffer.arrive, release, length_drop]
    omega
  · intro released
    simp only [ReorderBuffer.arrive, release, length_drop]
    by_cases isFull : buffer.pending.length = limit
    · omega
    · exfalso
      have nothing : buffer.released = [] := by
        by_contra someReleased
        exact isFull (sorts.full someReleased)
      have noneOver : (insertByKey buffer.pending entry).length - limit = 0 := by omega
      refine released ?_
      simp only [ReorderBuffer.arrive, release, nothing, noneOver]
      rfl

theorem Sorts.run {past : List (Key × Value)} (sorts : buffer.Sorts limit past) (delayed :
    EachStep (fun past entry => past ++ [entry]) (fun past entry =>
      past.countP (fun other => decide (entry.1 < other.1)) ≤ limit) past arrivals) :
    (Foundation.run (ReorderBuffer.arrive limit) buffer arrivals).Sorts limit
      (past ++ arrivals) := by
  induction arrivals generalizing past buffer with
  | nil => simpa using sorts
  | cons entry rest induction =>
    have next := induction (sorts.arrive delayed.1) delayed.2
    simpa using next

theorem stableSortOf_run (delayed : DelayBounded limit arrivals) :
    let buffer := Foundation.run (arrive limit) empty arrivals
    StableSortOf (buffer.release buffer.pending.length).released arrivals := by
  intro buffer
  have sorts := (sorts_empty limit).run delayed
  simpa [release] using sorts.sorted

end ReorderBuffer

end SysAnalyzer.Foundation
