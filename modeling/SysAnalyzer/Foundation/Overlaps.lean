import Mathlib

/-!
# Overlaps of time spans

How long two spans overlap is the number of the instants that they share.  Spans
that are apart share a span no longer than it is, and spans that follow each
other without a gap share all of it.
-/

namespace SysAnalyzer.Foundation

universe u

/-- A span of time, without its end. -/
structure Span where
  start : Int
  stop : Int

namespace Span

def overlap (first second : Span) : Int :=
  max 0 (min first.stop second.stop - max first.start second.start)

/-- One span ends before the other begins. -/
def Apart (first second : Span) : Prop := first.stop ≤ second.start ∨ second.stop ≤ first.start

noncomputable def instants (span : Span) : Finset Int := Finset.Ico span.start span.stop

theorem overlap_nonneg (first second : Span) : 0 ≤ first.overlap second := le_max_left _ _

theorem overlap_eq_card (first second : Span) :
    first.overlap second = ((first.instants ∩ second.instants).card : Int) := by
  unfold overlap instants
  rw [Finset.Ico_inter_Ico, Int.card_Ico, Int.ofNat_toNat]
  exact max_comm _ _

theorem Apart.disjoint {first second : Span} (apart : first.Apart second) :
    Disjoint first.instants second.instants := by
  rw [Finset.disjoint_left]
  intro instant ofFirst ofSecond
  unfold instants at ofFirst ofSecond
  rw [Finset.mem_Ico] at ofFirst ofSecond
  rcases apart with before | behind <;> omega

theorem sum_card_inter_le {sets : List (Finset Int)}
    (apart : sets.Pairwise Disjoint) (whole : Finset Int) :
    (sets.map fun set => (whole ∩ set).card).sum ≤ whole.card := by
  induction sets generalizing whole with
  | nil => exact Nat.zero_le _
  | cons first rest induction =>
    rw [List.pairwise_cons] at apart
    have others : rest.map (fun set => (whole ∩ set).card) =
      rest.map fun set => ((whole \ first) ∩ set).card := by
      refine List.map_congr_left ?_
      intro set member
      congr 1
      ext instant
      have notBoth : instant ∈ first → instant ∉ set :=
        fun ofFirst => Finset.disjoint_left.1 (apart.1 set member) ofFirst
      simp only [Finset.mem_inter, Finset.mem_sdiff]
      tauto
    rw [List.map_cons, List.sum_cons, others, ← Finset.card_inter_add_card_sdiff whole first]
    exact Nat.add_le_add_left (induction apart.2 _) _

theorem sum_overlap_le {spans : List Span} (apart : spans.Pairwise Apart)
    (whole : Span) (ordered : whole.start ≤ whole.stop) :
    (spans.map whole.overlap).sum ≤ whole.stop - whole.start := by
  have sets : (spans.map instants).Pairwise Disjoint :=
    List.pairwise_map.2 (apart.imp Apart.disjoint)
  have bound := sum_card_inter_le sets whole.instants
  have counted : (spans.map whole.overlap).sum = (((spans.map instants).map fun set =>
    (whole.instants ∩ set).card).sum : Nat) := by
    clear bound sets apart
    induction spans with
    | nil => rfl
    | cons span spans induction =>
      simp only [List.map_cons, List.sum_cons, induction, Nat.cast_add, overlap_eq_card]
  have length : (whole.instants.card : Int) = whole.stop - whole.start := by
    unfold instants
    rw [Int.card_Ico]
    omega
  rw [counted, ← length]
  exact_mod_cast bound

/-- Spans that follow each other from one time to another. -/
inductive Tiles : Int → Int → List Span → Prop
  | nil (time : Int) : Tiles time time []
  | cons {start middle stop : Int} {rest : List Span}
    (ordered : start ≤ middle) (follow : Tiles middle stop rest) :
    Tiles start stop (⟨start, middle⟩ :: rest)

variable {start middle stop : Int} {spans : List Span}

theorem Tiles.le (tiles : Tiles start stop spans) : start ≤ stop := by
  induction tiles with
  | nil time => exact le_rfl
  | cons ordered _ induction => exact ordered.trans induction

theorem Tiles.ordered (tiles : Tiles start stop spans) :
    ∀ span ∈ spans, span.start ≤ span.stop := by
  induction tiles with
  | nil time => simp
  | cons ordered _ induction =>
    rw [List.forall_mem_cons]
    exact ⟨ordered, induction⟩

theorem Tiles.concat (tiles : Tiles start middle spans) (ordered : middle ≤ stop) :
    Tiles start stop (spans ++ [⟨middle, stop⟩]) := by
  induction tiles with
  | nil time => exact .cons ordered (.nil stop)
  | cons first _ induction => exact .cons first (induction ordered)

theorem Tiles.sum_overlap (tiles : Tiles start stop spans) (other : Span) :
    (spans.map other.overlap).sum = other.overlap ⟨start, stop⟩ := by
  induction tiles with
  | nil time =>
    rw [List.map_nil, List.sum_nil]
    unfold overlap
    dsimp only
    omega
  | cons ordered follow induction =>
    have later := follow.le
    rw [List.map_cons, List.sum_cons, induction]
    unfold overlap
    dsimp only
    omega

theorem Tiles.sum_overlap_of_inside (tiles : Tiles start stop spans)
    (inside : Span) (ordered : inside.start ≤ inside.stop)
    (fromStart : start ≤ inside.start) (toStop : inside.stop ≤ stop) :
    (spans.map inside.overlap).sum = inside.stop - inside.start := by
  rw [tiles.sum_overlap]
  unfold overlap
  dsimp only
  omega

end Span

theorem sum_map_filter {Item : Type u} {items : List Item}
    (keep : Item → Bool) {number : Item → Int}
    (zero : ∀ item ∈ items, keep item = false → number item = 0) :
    ((items.filter keep).map number).sum = (items.map number).sum := by
  induction items with
  | nil => rfl
  | cons item items induction =>
    rw [List.forall_mem_cons] at zero
    rw [List.filter_cons, List.map_cons, List.sum_cons, ← induction zero.2]
    cases kept : keep item with
    | true => simp
    | false => simp [zero.1 kept]

theorem sum_map_eq_iff {Item : Type u} {items : List Item} (lower upper : Item → Int)
    (bounded : ∀ item ∈ items, lower item ≤ upper item) :
    (items.map upper).sum = (items.map lower).sum ↔ ∀ item ∈ items, upper item = lower item := by
  induction items with
  | nil => simp
  | cons item items induction =>
    rw [List.forall_mem_cons] at bounded
    have later := List.sum_le_sum bounded.2
    rw [List.map_cons, List.sum_cons, List.map_cons, List.sum_cons,
      List.forall_mem_cons, ← induction bounded.2]
    constructor
    · intro same
      have here := bounded.1
      constructor <;> omega
    · rintro ⟨same, rest⟩
      rw [same, rest]

end SysAnalyzer.Foundation
