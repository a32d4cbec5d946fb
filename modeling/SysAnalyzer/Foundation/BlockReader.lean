import Mathlib.Data.List.Forall2
import SysAnalyzer.Foundation.Run

/-!
# Reading a stream in blocks

A block reader is a machine whose states say how many bytes they read next, and
what the bytes lead to.  It is fed a stream in chunks.  A call of it reads
blocks as long as there are complete ones, but it may also end behind a block,
and then it leaves the rest of the chunk to the next call.  A stream is read to
its end exactly when there is a chunk for each place where a call has to end.
-/

namespace SysAnalyzer.Foundation

open List

universe u v w x

variable {State : Type u} {Byte : Type v} {Event : Type w}

/-- The bytes that come behind each chunk. -/
def unfed : List (List Byte) → List Nat
  | [] => []
  | _ :: chunks => chunks.flatten.length :: unfed chunks

/--
There is a chunk of its own for each stop, in order, that ends at the stop or
behind it.  Stops and ends are given by the bytes behind them.
-/
def Meets (stops ends : List Nat) : Prop :=
  List.SublistForall₂ (fun stop unread => unread ≤ stop) stops ends

theorem meets_nil_right (stops : List Nat) : Meets stops [] ↔ stops = [] := by
  constructor
  · intro meets
    cases meets
    rfl
  · rintro rfl
    exact .nil

/-- The stops that are left after a call on all but some bytes. -/
def advance (unread : Nat) : List Nat → List Nat
  | [] => []
  | stop :: stops => if unread ≤ stop then stops else stop :: stops

theorem meets_cons_right (stops ends : List Nat) (unread : Nat) :
    Meets stops (unread :: ends) ↔ Meets (advance unread stops) ends := by
  cases stops with
  | nil => exact ⟨fun _ => .nil, fun _ => .nil⟩
  | cons stop stops =>
    rw [advance]
    by_cases reached : unread ≤ stop
    · rw [if_pos reached]
      constructor
      · intro meets
        cases meets with
        | cons _ later => exact later
        | cons_right later =>
          rcases sublistForall₂_iff.1 later with ⟨used, all, sub⟩
          rcases forall₂_cons_left_iff.1 all with
            ⟨first, rest, _, allRest, rfl⟩
          exact sublistForall₂_iff.2 ⟨rest, allRest, (sublist_cons_self _ _).trans sub⟩
      · exact .cons reached
    · rw [if_neg reached]
      constructor
      · intro meets
        cases meets with
        | cons at_stop _ => exact absurd at_stop reached
        | cons_right later => exact later
      · exact .cons_right

theorem meets_end {chunks : List (List Byte)} (some : chunks ≠ []) : Meets [0] (unfed chunks) := by
  induction chunks with
  | nil => exact absurd rfl some
  | cons chunk chunks induction =>
    rw [unfed, meets_cons_right, advance]
    split
    · exact .nil
    · rename_i behind
      refine induction ?_
      rintro rfl
      exact behind (Nat.le_refl 0)

/-! ## Readers -/

/-- The length of the next block, and what the block leads to. -/
structure BlockReader (State : Type u) (Byte : Type v) (Event : Type w) where
  need : State → Nat
  accept : State → List Byte → Option (State × List Event)

namespace BlockReader

variable {reader : BlockReader State Byte Event} {pauses : State → Prop}

/-- There is no block that could be read. -/
def Settled (reader : BlockReader State Byte Event) (state : State) (bytes : List Byte) : Prop :=
  bytes.length < reader.need state ∨ reader.accept state (bytes.take (reader.need state)) = none

theorem not_settled_of_accept {state next : State} {block rest : List Byte} {events : List Event}
    (length : block.length = reader.need state)
    (accepted : reader.accept state block = some (next, events)) :
    ¬ Settled reader state (block ++ rest) := by
  rintro (short | refused)
  · rw [length_append, length] at short
    omega
  · rw [← length, take_left, accepted] at refused
    cases refused

/-- What one call reads: it ends behind the first block that pauses it. -/
inductive Burst (reader : BlockReader State Byte Event)
    (pauses : State → Prop) :
    State → List Byte → List Event → State → List Byte → Prop where
  | settled {state : State} {bytes : List Byte}
    (settled : Settled reader state bytes) :
    Burst reader pauses state bytes [] state bytes
  | pause {state next : State} {block rest : List Byte}
    {events : List Event}
    (length : block.length = reader.need state)
    (accepted : reader.accept state block = some (next, events))
    (paused : pauses state) :
    Burst reader pauses state (block ++ rest) events next rest
  | block {state next final : State} {block rest left : List Byte}
    {events more : List Event}
    (length : block.length = reader.need state)
    (accepted : reader.accept state block = some (next, events))
    (unpaused : ¬ pauses state)
    (later : Burst reader pauses next rest more final left) :
    Burst reader pauses state (block ++ rest) (events ++ more) final left

open Classical in
/--
The blocks of a stream, with the places where calls have to end: behind the
blocks that pause, and behind the last one.
-/
inductive Stops (reader : BlockReader State Byte Event)
    (pauses : State → Prop) :
    State → List Byte → List Event → List Nat → State → List Byte → Prop where
  | done (state : State) (bytes : List Byte) :
    Stops reader pauses state bytes [] [] state bytes
  | block {state next final : State} {block rest left : List Byte}
    {events more : List Event} {stops : List Nat}
    (length : block.length = reader.need state)
    (accepted : reader.accept state block = some (next, events))
    (later : Stops reader pauses next rest more stops final left) :
    Stops reader pauses state (block ++ rest) (events ++ more)
      (if pauses state ∨ stops = [] then rest.length :: stops else stops)
      final left

section

variable {state next final : State} {block rest left : List Byte}
  (length : block.length = reader.need state)
include length

theorem Stops.pass {events more : List Event} {stops : List Nat}
    (accepted : reader.accept state block = some (next, events))
    (unpaused : ¬ pauses state) (others : stops ≠ [])
    (later : Stops reader pauses next rest more stops final left) :
    Stops reader pauses state (block ++ rest) (events ++ more) stops final left := by
  classical
  have read := Stops.block length accepted later
  rwa [if_neg (not_or.2 ⟨unpaused, others⟩)] at read

theorem Stops.stop {events more : List Event} {stops : List Nat}
    (accepted : reader.accept state block = some (next, events))
    (stopping : pauses state ∨ stops = [])
    (later : Stops reader pauses next rest more stops final left) :
    Stops reader pauses state (block ++ rest) (events ++ more)
      (rest.length :: stops) final left := by
  classical
  have read := Stops.block length accepted later
  rwa [if_pos stopping] at read

end

theorem Stops.of_nil {state final : State} {bytes left : List Byte} {events : List Event}
    (read : Stops reader pauses state bytes events [] final left) :
    events = [] ∧ final = state ∧ left = bytes := by
  classical
  generalize isNil : ([] : List Nat) = stops at read
  cases read with
  | done => exact ⟨rfl, rfl, rfl⟩
  | block length accepted later =>
    split at isNil
    · cases isNil
    · rename_i others
      exact absurd (.inr isNil.symm) others

theorem Stops.of_no_events
    {state final : State} {bytes left : List Byte} {stops : List Nat} (logs : ∀ state block events,
      reader.accept state block = some (final, events) → events ≠ [])
    (read : Stops reader pauses state bytes [] stops final left) : stops = [] := by
  generalize isNil : ([] : List Event) = every at read
  suffices final = state ∧ stops = [] from this.2
  induction read with
  | done => exact ⟨rfl, rfl⟩
  | block length accepted later induction =>
    rcases append_eq_nil_iff.1 isNil.symm with ⟨rfl, rfl⟩
    rcases induction logs rfl with ⟨rfl, _⟩
    exact absurd rfl (logs _ _ _ accepted)

theorem Stops.le {state final : State} {bytes left : List Byte} {events : List Event}
    {stops : List Nat} (read : Stops reader pauses state bytes events stops final left) :
    ∀ stop ∈ stops, stop ≤ bytes.length := by
  classical
  induction read with
  | done => simp
  | @block _ _ _ block rest _ _ _ _ _ _ _ induction =>
    have shorter : rest.length ≤ (block ++ rest).length := by
      rw [length_append]
      omega
    intro stop member
    split at member
    · rcases mem_cons.1 member with rfl | member
      · exact shorter
      · exact Nat.le_trans (induction stop member) shorter
    · exact Nat.le_trans (induction stop member) shorter

open Classical in
theorem Stops.of_block {state next final : State} {block rest left : List Byte}
    {events every : List Event} {stops : List Nat}
    (read : Stops reader pauses state (block ++ rest) every stops final left)
    (settled : Settled reader final left) (length : block.length = reader.need state)
    (accepted : reader.accept state block = some (next, events)) :
    ∃ (more : List Event) (later : List Nat), every = events ++ more ∧ stops =
      (if pauses state ∨ later = [] then rest.length :: later else later) ∧
      Stops reader pauses next rest more later final left := by
  generalize whole : block ++ rest = bytes at read
  cases read with
  | done =>
    rw [← whole] at settled
    exact absurd settled (not_settled_of_accept length accepted)
  | @block _ _ _ _ _ _ _ _ later otherLength otherAccepted read =>
    rcases append_inj whole (length.trans otherLength.symm) with
      ⟨rfl, rfl⟩
    rw [accepted, Option.some.injEq, Prod.mk.injEq] at otherAccepted
    rcases otherAccepted with ⟨rfl, rfl⟩
    exact ⟨_, later, rfl, rfl, read⟩

theorem Stops.advance_settled {state final : State} {bytes unread left : List Byte}
    {every : List Event} {stops : List Nat} (waiting : Settled reader state bytes)
    (read : Stops reader pauses state (bytes ++ unread) every stops final left) :
    advance unread.length stops = stops := by
  classical
  generalize whole : bytes ++ unread = all at read
  cases read with
  | done => rfl
  | @block _ _ _ block rest _ _ _ later length accepted read =>
    have short : rest.length < unread.length := by
      have total := congrArg List.length whole
      rw [length_append, length_append] at total
      rcases waiting with short | refused
      · omega
      · by_contra long
        have isBlock : bytes.take (reader.need state) = block := by
          rw [← length, ← take_append_of_le_length (by omega), whole, take_left]
        rw [isBlock, accepted] at refused
        cases refused
    cases later with
    | nil => rw [if_pos (.inr rfl), advance, if_neg (Nat.not_le.2 short)]
    | cons stop later =>
      have shorter := read.le stop mem_cons_self
      split
      · rw [advance, if_neg (Nat.not_le.2 short)]
      · rw [advance, if_neg (by omega)]

theorem Burst.stops {state middle final : State} {bytes unread atMiddle left : List Byte}
    {events every : List Event} {stops : List Nat}
    (burst : Burst reader pauses state bytes events middle atMiddle)
    (read : Stops reader pauses state (bytes ++ unread) every stops final left)
    (settled : Settled reader final left) :
    ∃ more, every = events ++ more ∧ Stops reader pauses middle (atMiddle ++ unread) more
      (advance unread.length stops) final left := by
  classical
  induction burst generalizing every stops with
  | settled waiting =>
    refine ⟨every, rfl, ?_⟩
    rwa [Stops.advance_settled waiting read]
  | @pause state next block rest events length accepted paused =>
    rw [append_assoc] at read
    rcases read.of_block settled length accepted with
      ⟨more, later, rfl, rfl, laterRead⟩
    refine ⟨more, rfl, ?_⟩
    rwa [if_pos (.inl paused), advance, if_pos (by simp)]
  | @block state next _ block rest _ events _ length accepted unpaused _
    induction =>
    rw [append_assoc] at read
    rcases read.of_block settled length accepted with
      ⟨more, later, rfl, rfl, laterRead⟩
    rcases induction laterRead with ⟨last, rfl, lastRead⟩
    refine ⟨last, (append_assoc _ _ _).symm, ?_⟩
    cases later with
    | nil => rwa [if_pos (.inr rfl), advance, if_pos (by simp)]
    | cons stop later => rwa [if_neg (by simp [unpaused])]

section Chunks

variable {Machine : Type x} {feed : Machine → List Byte → Machine}
  {state : Machine → State} {pending : Machine → List Byte}
  {log : Machine → List Event} {lost : State → Machine → Prop}

/--
A call reads a burst from what is pending and the chunk.  It may lose its place
in the stream, in a state in which the reader reads nothing more.
-/
structure Feeds (reader : BlockReader State Byte Event)
    (pauses : State → Prop) (feed : Machine → List Byte → Machine)
    (state : Machine → State) (pending : Machine → List Byte)
    (log : Machine → List Event) (invariant : Machine → Prop)
    (lost : State → Machine → Prop) : Prop where
  burst : ∀ (machine : Machine) (chunk : List Byte), invariant machine →
    ∃ events next left, log (feed machine chunk) = log machine ++ events ∧
      Burst reader pauses (state machine) (pending machine ++ chunk) events next left ∧
      (invariant (feed machine chunk) ∧ state (feed machine chunk) = next ∧
        pending (feed machine chunk) = left ∨
        lost next (feed machine chunk))
  dead : ∀ final machine, lost final machine → ∀ block, reader.accept final block = none

variable {invariant : Machine → Prop}

theorem Stops.of_dead {final other : State} {bytes left : List Byte} {events : List Event}
    {stops : List Nat} (dead : ∀ block, reader.accept other block = none)
    (read : Stops reader pauses other bytes events stops final left) :
    events = [] ∧ stops = [] ∧ final = other ∧ left = bytes := by
  cases read with
  | done => exact ⟨rfl, rfl, rfl, rfl⟩
  | block _ accepted _ =>
    rw [dead] at accepted
    cases accepted

theorem run_quiet {final : State} (quiet :
    ∀ machine chunk, lost final machine → lost final (feed machine chunk) ∧
      log (feed machine chunk) = log machine) (chunks : List (List Byte)) {machine : Machine}
    (isLost : lost final machine) :
    lost final (run feed machine chunks) ∧ log (run feed machine chunks) = log machine := by
  induction chunks generalizing machine with
  | nil => exact ⟨isLost, rfl⟩
  | cons chunk chunks induction =>
    rcases quiet machine chunk isLost with ⟨still, same⟩
    rcases induction still with ⟨atEnd, sameLater⟩
    exact ⟨atEnd, sameLater.trans same⟩

/--
What a machine makes of a stream in chunks: it logs the events up to the first
stop for which there is no chunk.
-/
theorem Feeds.chunks (feeds : Feeds reader pauses feed state pending log invariant lost)
    {chunks : List (List Byte)} {machine : Machine} {final : State}
    {left : List Byte} {every : List Event} {stops : List Nat}
    (nonempty : ∀ chunk ∈ chunks, chunk ≠ []) (holds : invariant machine)
    (settled : Settled reader final left) (read :
      Stops reader pauses (state machine) (pending machine ++ chunks.flatten)
        every stops final left) (quiet :
      left = [] ∨ ∀ machine chunk, lost final machine → lost final (feed machine chunk) ∧
        log (feed machine chunk) = log machine) :
    ∃ (logged more : List Event) (next : State) (bytes : List Byte) (ahead : List Nat),
      every = logged ++ more ∧ log (run feed machine chunks) = log machine ++ logged ∧
        Stops reader pauses next bytes more ahead final left ∧
        (ahead = [] ↔ Meets stops (unfed chunks)) ∧
        (invariant (run feed machine chunks) ∧ state (run feed machine chunks) = next ∧
          pending (run feed machine chunks) = bytes ∨ lost next (run feed machine chunks)) := by
  induction chunks generalizing machine every stops with
  | nil =>
    rw [flatten_nil, append_nil] at read
    exact ⟨[], every, state machine, pending machine, stops, rfl,
      (append_nil _).symm, read, (meets_nil_right stops).symm,
      .inl ⟨holds, rfl, rfl⟩⟩
  | cons chunk chunks induction =>
    rcases feeds.burst machine chunk holds with
      ⟨events, next, behind, logged, burst, outcome⟩
    rw [flatten_cons, ← append_assoc] at read
    rcases burst.stops read settled with ⟨more, rfl, later⟩
    have others : ∀ chunk ∈ chunks, chunk ≠ [] :=
      fun chunk member => nonempty chunk (mem_cons_of_mem _ member)
    rcases outcome with ⟨kept, rfl, rfl⟩ | isLost
    · rcases induction others kept later with
        ⟨first, last, next, bytes, ahead, rfl, moreLogged, reads, meets, atEnd⟩
      refine ⟨events ++ first, last, next, bytes, ahead,
        (append_assoc _ _ _).symm, ?_, reads, ?_, atEnd⟩
      · rw [run_cons, moreLogged, logged, append_assoc]
      · rw [meets, unfed, meets_cons_right]
    · -- the place is lost, and then nothing of the stream is read
      rcases later.of_dead (feeds.dead next _ isLost) with
        ⟨rfl, none, rfl, leftAll⟩
      have stays : lost final (run feed (feed machine chunk) chunks) ∧
        log (run feed (feed machine chunk) chunks) = log (feed machine chunk) := by
        rcases quiet with rfl | quiet
        · cases chunks with
          | nil => exact ⟨isLost, rfl⟩
          | cons second chunks =>
            have empty := append_eq_nil_iff.1 leftAll.symm
            have isNil := append_eq_nil_iff.1 empty.2
            exact absurd isNil.1 (others second mem_cons_self)
        · exact run_quiet quiet chunks isLost
      refine ⟨events, [], final, left, [], rfl, ?_, .done _ _, ?_, .inr stays.1⟩
      · rw [run_cons, stays.2, logged]
      · rw [unfed, meets_cons_right, none]
        exact ⟨fun _ => .nil, fun _ => rfl⟩

end Chunks

end BlockReader

end SysAnalyzer.Foundation
