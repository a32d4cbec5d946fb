import Mathlib.Data.Set.Card

/-!
# Breadth-first search

A search marks vertices with their depth and keeps them in a queue, the done ones
in front of the pending ones.  The first pending vertex is expanded: what it
leads to and is not marked yet gets the next depth and joins the queue.

`Searching` holds between two expansions and `Expanding` within one.  The depths
of the pending vertices increase and no mark is more than one above the first of
them; so an expanded vertex leads to marks at most one above its own, and when
nothing is pending the marks are the shortest distances from the seeds.  Seeds
may repeat.
-/

namespace SysAnalyzer.Foundation

open List Function Option

universe u

variable {Vertex : Type u}

/-- A walk of a given length. -/
inductive Steps (next : Vertex → List Vertex) : Vertex → Nat → Vertex → Prop
  | refl (vertex : Vertex) : Steps next vertex 0 vertex
  | snoc {first last following : Vertex} {length : Nat}
      (walk : Steps next first length last) (leads : following ∈ next last) :
      Steps next first (length + 1) following

def ReachedIn (next : Vertex → List Vertex) (seeds : List Vertex)
    (vertex : Vertex) (length : Nat) : Prop :=
  ∃ seed ∈ seeds, Steps next seed length vertex

def ShortestFrom (next : Vertex → List Vertex) (seeds : List Vertex)
    (vertex : Vertex) (length : Nat) : Prop :=
  ReachedIn next seeds vertex length ∧
    ∀ other, ReachedIn next seeds vertex other → length ≤ other

def Reached (next : Vertex → List Vertex) (seeds : List Vertex)
    (vertex : Vertex) : Prop :=
  ∃ length, ReachedIn next seeds vertex length

section Reached

variable {next : Vertex → List Vertex} {seeds : List Vertex}

def beyondSeeds (next : Vertex → List Vertex) (seeds : List Vertex) :
    Set Vertex :=
  { vertex | Reached next seeds vertex ∧ vertex ∉ seeds }

theorem exists_leads_of_mem_beyondSeeds
    {vertex : Vertex} (beyond : vertex ∈ beyondSeeds next seeds) :
    ∃ before, vertex ∈ next before := by
  rcases beyond with ⟨⟨length, seed, isSeed, walk⟩, notSeed⟩
  cases walk with
  | refl => exact absurd isSeed notSeed
  | snoc _ leads => exact ⟨_, leads⟩

end Reached

def depthOf (depth : Vertex → Option Nat) (vertex : Vertex) : Nat :=
  (depth vertex).getD 0

/-- What holds of the marks and the queue throughout a search. -/
structure Marking (next : Vertex → List Vertex) (seeds : List Vertex)
    (depth : Vertex → Option Nat) (done pending : List Vertex) : Prop where
  /-- The queue is the seeds and then every other marked vertex once. -/
  found :
    ∃ discovered, done ++ pending = seeds ++ discovered ∧ discovered.Nodup ∧
      ∀ vertex ∈ discovered, vertex ∉ seeds
  marked :
    ∀ vertex, (∃ length, depth vertex = some length) ↔ vertex ∈ done ++ pending
  start : ∀ seed ∈ seeds, depth seed = some 0
  sound : ∀ vertex length, depth vertex = some length →
      ReachedIn next seeds vertex length
  expanded : ∀ vertex ∈ done, ∀ following ∈ next vertex,
      ∃ length, depth following = some length ∧
        length ≤ depthOf depth vertex + 1
  ordered : pending.Pairwise fun earlier later =>
      depthOf depth earlier ≤ depthOf depth later

/-- Between two expansions. -/
structure Searching (next : Vertex → List Vertex) (seeds : List Vertex)
    (depth : Vertex → Option Nat) (done pending : List Vertex) : Prop
    extends Marking next seeds depth done pending where
  near : ∀ first ∈ pending.head?, ∀ vertex,
      depthOf depth vertex ≤ depthOf depth first + 1

structure Expanding (next : Vertex → List Vertex) (seeds : List Vertex)
    (depth : Vertex → Option Nat) (done : List Vertex) (first : Vertex)
    (pending seen : List Vertex) : Prop
    extends Marking next seeds depth done (first :: pending) where
  near : ∀ vertex, depthOf depth vertex ≤ depthOf depth first + 1
  seenMarked : ∀ following ∈ seen, ∃ length, depth following = some length

variable [DecidableEq Vertex]

theorem searching_start (next : Vertex → List Vertex) (seeds : List Vertex) :
    Searching next seeds
      (fun vertex => if vertex ∈ seeds then some 0 else none) [] seeds where
  found := ⟨[], by simp, nodup_nil, by simp⟩
  marked := by
    intro vertex
    by_cases member : vertex ∈ seeds <;> simp [member]
  start := by
    intro seed member
    rw [if_pos member]
  sound := by
    intro vertex length mark
    by_cases member : vertex ∈ seeds
    · rw [if_pos member, some.injEq] at mark
      subst mark
      exact ⟨vertex, member, .refl vertex⟩
    · simp [member] at mark
  expanded := by simp
  ordered := by
    refine pairwise_of_forall_mem_list ?_
    intro earlier ofSeeds later _
    simp [depthOf, ofSeeds]
  near := by
    intro first _ vertex
    by_cases member : vertex ∈ seeds <;> simp [depthOf, member]

section Search

variable {next : Vertex → List Vertex} {seeds : List Vertex}
  {depth : Vertex → Option Nat} {done pending seen : List Vertex}
  {first following : Vertex}

variable {vertex : Vertex}

variable {length : Nat}

omit [DecidableEq Vertex] in
theorem depthOf_eq
    (mark : depth vertex = some length) : depthOf depth vertex = length := by
  rw [depthOf, mark]
  rfl

omit [DecidableEq Vertex] in
theorem Searching.expand
    (searching : Searching next seeds depth done (first :: pending)) :
    Expanding next seeds depth done first pending [] :=
  { searching.toMarking with
    near := searching.near first rfl
    seenMarked := by simp }

omit [DecidableEq Vertex] in
theorem Expanding.exists_mark
    (expanding : Expanding next seeds depth done first pending seen) :
    ∃ length, depth first = some length :=
  (expanding.marked first).2 (by simp)

omit [DecidableEq Vertex] in
theorem Expanding.skip
    (expanding : Expanding next seeds depth done first pending seen)
    (isMarked : ∃ length, depth following = some length) :
    Expanding next seeds depth done first pending (following :: seen) :=
  { expanding with
    seenMarked := by
      intro vertex member
      rcases mem_cons.1 member with rfl | ofSeen
      · exact isMarked
      · exact expanding.seenMarked vertex ofSeen }

/-- A follower that is new goes to the end of the queue, one level deeper. -/
theorem Expanding.discover
    (expanding : Expanding next seeds depth done first pending seen)
    (leads : following ∈ next first) (isNew : depth following = none) :
    Expanding next seeds
      (Function.update depth following (some (depthOf depth first + 1)))
      done first (pending ++ [following]) (following :: seen) := by
  rcases expanding.exists_mark with ⟨length, firstMark⟩
  have notQueued : following ∉ done ++ first :: pending := by
    intro queued
    rcases (expanding.marked following).2 queued with ⟨other, mark⟩
    rw [isNew] at mark
    cases mark
  have other : ∀ {vertex : Vertex}, vertex ≠ following →
      Function.update depth following (some (depthOf depth first + 1)) vertex =
        depth vertex :=
    fun different => update_of_ne different _ _
  have queuedOther : ∀ {vertex : Vertex}, vertex ∈ done ++ first :: pending →
      vertex ≠ following := by
    rintro vertex queued rfl
    exact notQueued queued
  have sameDepth : ∀ {vertex : Vertex}, vertex ∈ done ++ first :: pending →
      depthOf (Function.update depth following
          (some (depthOf depth first + 1))) vertex =
        depthOf depth vertex := by
    intro vertex queued
    exact congrArg (fun mark => mark.getD 0) (other (queuedOther queued))
  have newDepth : depthOf (Function.update depth following
          (some (depthOf depth first + 1))) following =
        depthOf depth first + 1 :=
    depthOf_eq (update_self following _ depth)
  have firstQueued : first ∈ done ++ first :: pending := by simp
  refine { found := ?_, marked := ?_, start := ?_, sound := ?_,
           expanded := ?_, ordered := ?_, near := ?_, seenMarked := ?_ }
  · rcases expanding.found with ⟨discovered, queue, nodup, notSeeds⟩
    refine ⟨discovered ++ [following], ?_, ?_, ?_⟩
    · rw [← append_assoc, ← queue]
      simp
    · refine nodup_append.2 ⟨nodup, by simp, ?_⟩
      intro vertex ofDiscovered another ofNew
      rw [mem_singleton] at ofNew
      rw [ofNew]
      refine queuedOther ?_
      rw [queue]
      exact mem_append_right _ ofDiscovered
    · intro vertex member
      rcases mem_append.1 member with ofDiscovered | ofNew
      · exact notSeeds vertex ofDiscovered
      · rw [mem_singleton] at ofNew
        subst ofNew
        intro isSeed
        have mark := expanding.start vertex isSeed
        rw [isNew] at mark
        cases mark
  · intro vertex
    by_cases same : vertex = following
    · subst same
      simp
    · rw [other same, expanding.marked vertex]
      simp [same]
  · intro seed isSeed
    have mark := expanding.start seed isSeed
    rw [other, mark]
    rintro rfl
    rw [isNew] at mark
    cases mark
  · intro vertex vertexLength mark
    by_cases same : vertex = following
    · subst same
      rw [update_self, some.injEq] at mark
      rw [← mark, depthOf_eq firstMark]
      rcases expanding.sound first length firstMark with ⟨seed, isSeed, walk⟩
      exact ⟨seed, isSeed, .snoc walk leads⟩
    · rw [other same] at mark
      exact expanding.sound vertex vertexLength mark
  · intro vertex isDone another leadsTo
    rcases expanding.expanded vertex isDone another leadsTo with
      ⟨anotherLength, mark, bound⟩
    refine ⟨anotherLength, ?_, ?_⟩
    · rw [other, mark]
      rintro rfl
      rw [isNew] at mark
      cases mark
    · rw [sameDepth (mem_append_left _ isDone)]
      exact bound
  · rw [← cons_append, pairwise_append]
    refine ⟨?_, pairwise_singleton _ _, ?_⟩
    · refine expanding.ordered.imp_of_mem ?_
      intro earlier later ofEarlier ofLater below
      rw [sameDepth (mem_append_right _ ofEarlier),
        sameDepth (mem_append_right _ ofLater)]
      exact below
    · intro earlier ofPending later isLast
      rw [mem_singleton] at isLast
      rw [isLast, newDepth, sameDepth (mem_append_right _ ofPending)]
      exact expanding.near earlier
  · intro vertex
    rw [sameDepth firstQueued]
    by_cases same : vertex = following
    · rw [same, newDepth]
    · have unchanged := congrArg (fun mark => mark.getD 0) (other same)
      exact le_trans (le_of_eq unchanged) (expanding.near vertex)
  · intro vertex member
    rcases mem_cons.1 member with rfl | ofSeen
    · exact ⟨_, update_self _ _ _⟩
    · rcases expanding.seenMarked vertex ofSeen with ⟨vertexLength, mark⟩
      by_cases same : vertex = following
      · subst same
        exact ⟨_, update_self _ _ _⟩
      · exact ⟨vertexLength, (other same).trans mark⟩

omit [DecidableEq Vertex] in
theorem Expanding.finish
    (expanding : Expanding next seeds depth done first pending seen)
    (complete : ∀ following ∈ next first, following ∈ seen) :
    Searching next seeds depth (done ++ [first]) pending where
  found := by simpa using expanding.found
  marked := by simpa using expanding.marked
  start := expanding.start
  sound := expanding.sound
  expanded := by
    intro vertex isDone following leads
    rcases mem_append.1 isDone with before | isFirst
    · exact expanding.expanded vertex before following leads
    · rw [mem_singleton] at isFirst
      subst isFirst
      rcases expanding.seenMarked following (complete following leads) with
        ⟨length, mark⟩
      refine ⟨length, mark, ?_⟩
      rw [← depthOf_eq mark]
      exact expanding.near following
  ordered := (pairwise_cons.1 expanding.ordered).2
  near := by
    intro nextFirst isFirst vertex
    have later : nextFirst ∈ pending := mem_of_mem_head? isFirst
    have above :=
      (pairwise_cons.1 expanding.ordered).1 nextFirst later
    exact le_trans (expanding.near vertex) (Nat.succ_le_succ above)

omit [DecidableEq Vertex] in
theorem Searching.mark_le (searching : Searching next seeds depth done [])
    {seed : Vertex} (isSeed : seed ∈ seeds)
    (walk : Steps next seed length vertex) :
    ∃ mark, depth vertex = some mark ∧ mark ≤ length := by
  induction walk with
  | refl => exact ⟨0, searching.start _ isSeed, le_refl 0⟩
  | snoc walk leads induction =>
    rcases induction with ⟨mark, isMarked, below⟩
    have isDone := (searching.marked _).1 ⟨mark, isMarked⟩
    rw [append_nil] at isDone
    rcases searching.expanded _ isDone _ leads with
      ⟨following, isFollowing, bound⟩
    rw [depthOf_eq isMarked] at bound
    exact ⟨following, isFollowing, le_trans bound (Nat.succ_le_succ below)⟩

omit [DecidableEq Vertex] in
theorem Searching.depth_eq_some_iff
    (searching : Searching next seeds depth done []) :
    depth vertex = some length ↔ ShortestFrom next seeds vertex length := by
  constructor
  · intro mark
    refine ⟨searching.sound vertex length mark, ?_⟩
    rintro other ⟨seed, isSeed, walk⟩
    rcases searching.mark_le isSeed walk with ⟨found, isFound, below⟩
    rw [mark, some.injEq] at isFound
    exact isFound ▸ below
  · rintro ⟨⟨seed, isSeed, walk⟩, least⟩
    rcases searching.mark_le isSeed walk with ⟨found, isFound, below⟩
    have reached := searching.sound vertex found isFound
    rw [isFound, le_antisymm below (least found reached)]

omit [DecidableEq Vertex] in
theorem Searching.depth_eq_none_iff
    (searching : Searching next seeds depth done []) :
    depth vertex = none ↔ ¬ Reached next seeds vertex := by
  constructor
  · rintro isNone ⟨length, seed, isSeed, walk⟩
    rcases searching.mark_le isSeed walk with ⟨found, isFound, _⟩
    rw [isNone] at isFound
    cases isFound
  · intro notReached
    cases mark : depth vertex with
    | none => rfl
    | some length =>
      exact absurd ⟨length, searching.sound vertex length mark⟩ notReached

omit [DecidableEq Vertex] in
theorem Searching.exists_discovered
    (searching : Searching next seeds depth done []) :
    ∃ discovered, done = seeds ++ discovered ∧ discovered.Nodup ∧ ∀ vertex,
        vertex ∈ discovered ↔ Reached next seeds vertex ∧ vertex ∉ seeds := by
  rcases searching.found with ⟨discovered, queue, nodup, notSeeds⟩
  rw [append_nil] at queue
  refine ⟨discovered, queue, nodup, ?_⟩
  have marked : ∀ vertex, Reached next seeds vertex ↔ vertex ∈ done := by
    intro vertex
    rw [← not_iff_not, ← searching.depth_eq_none_iff,
      eq_none_iff_forall_ne_some]
    have isMarked := searching.marked vertex
    rw [append_nil] at isMarked
    rw [← isMarked, not_exists]
  intro vertex
  rw [marked, queue, mem_append]
  constructor
  · intro member
    exact ⟨.inr member, notSeeds vertex member⟩
  · rintro ⟨isSeed | member, notSeed⟩
    · exact absurd isSeed notSeed
    · exact member

end Search

section Length

variable {next : Vertex → List Vertex} {seeds : List Vertex}
  {depth : Vertex → Option Nat} {done pending : List Vertex}

theorem Marking.length_le (marking : Marking next seeds depth done pending)
    (finite : (beyondSeeds next seeds).Finite) :
    (done ++ pending).length ≤
      seeds.length + (beyondSeeds next seeds).ncard := by
  rcases marking.found with ⟨discovered, queue, nodup, notSeeds⟩
  have included : (discovered.toFinset : Set Vertex) ⊆
      beyondSeeds next seeds := by
    intro vertex member
    rw [coe_toFinset] at member
    have queued : vertex ∈ done ++ pending := by
      rw [queue]
      exact mem_append_right _ member
    rcases (marking.marked vertex).2 queued with ⟨length, mark⟩
    exact ⟨⟨length, marking.sound vertex length mark⟩, notSeeds vertex member⟩
  rw [queue, length_append, ← toFinset_card_of_nodup nodup,
    ← Set.ncard_coe_finset]
  exact Nat.add_le_add_left (Set.ncard_le_ncard included finite) _

theorem Searching.length_done (searching : Searching next seeds depth done []) :
    done.length = seeds.length + (beyondSeeds next seeds).ncard := by
  rcases searching.exists_discovered with ⟨discovered, queue, nodup, iff⟩
  have same : beyondSeeds next seeds = (discovered.toFinset : Set Vertex) := by
    ext vertex
    rw [coe_toFinset]
    exact (iff vertex).symm
  rw [queue, length_append, same, Set.ncard_coe_finset,
    toFinset_card_of_nodup nodup]

end Length

section Restricted

variable {next : Vertex → List Vertex} {blocked : Vertex → Bool}

omit [DecidableEq Vertex]

def without (next : Vertex → List Vertex) (blocked : Vertex → Bool)
    (vertex : Vertex) : List Vertex :=
  (next vertex).filter fun following => !blocked following

@[simp]
theorem without_false (next : Vertex → List Vertex) :
    without next (fun _ => false) = next := by
  ext1 vertex
  simp [without]

theorem blocked_of_mem_beyondSeeds {seeds : List Vertex} {vertex : Vertex}
    (beyond : vertex ∈ beyondSeeds (without next blocked) seeds) :
    blocked vertex = false := by
  rcases exists_leads_of_mem_beyondSeeds beyond with ⟨before, leads⟩
  simpa using (mem_filter.1 leads).2

section

variable (closed : ∀ vertex, blocked vertex = true → ∀ following ∈ next vertex, blocked following = true)
include closed

theorem steps_without_iff
    {first last : Vertex} {length : Nat} (free : blocked last = false) :
    Steps (without next blocked) first length last ↔
      Steps next first length last := by
  constructor
  · intro walk
    clear free
    induction walk with
    | refl => exact .refl _
    | snoc _ leads induction =>
      exact .snoc induction (mem_of_mem_filter leads)
  · intro walk
    induction walk with
    | refl => exact .refl _
    | @snoc last following length walk leads induction =>
      have lastFree : blocked last = false := by
        cases isBlocked : blocked last with
        | false => rfl
        | true =>
          have blockedToo := closed last isBlocked following leads
          rw [free] at blockedToo
          cases blockedToo
      refine .snoc (induction lastFree) ?_
      exact mem_filter.2 ⟨leads, by simp [free]⟩

theorem shortestFrom_without_iff
    {seeds : List Vertex} {vertex : Vertex} {length : Nat}
    (free : blocked vertex = false) :
    ShortestFrom (without next blocked) seeds vertex length ↔
      ShortestFrom next seeds vertex length := by
  have reachedIn : ∀ other,
      ReachedIn (without next blocked) seeds vertex other ↔
        ReachedIn next seeds vertex other := by
    intro other
    simp only [ReachedIn, steps_without_iff closed free]
  simp only [ShortestFrom, reachedIn]

end

end Restricted

end SysAnalyzer.Foundation
