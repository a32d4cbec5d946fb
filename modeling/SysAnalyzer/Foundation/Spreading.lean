import Mathlib.Data.List.Count
import Mathlib.Data.Set.Basic

/-!
# Marks that spread from a stack

A round takes one vertex from a stack of marked vertices, marks what it leads to
and puts what was not marked before on the stack.  Whatever the order in a round
is, the marks are closed under the relation except at the vertices on the stack;
so when the stack is empty they are what is reached from the seeds.  What bounds
the rounds is a count that falls with every new mark.
-/

namespace SysAnalyzer.Foundation

open List

universe u

variable {Vertex : Type u} {leads : Vertex → Vertex → Prop}
  {seeds : Set Vertex}

def ReachedFrom (leads : Vertex → Vertex → Prop) (seeds : Set Vertex) (vertex : Vertex) : Prop :=
  ∃ seed ∈ seeds, Relation.ReflTransGen leads seed vertex

theorem reachedFrom_of_mem {seed : Vertex} (member : seed ∈ seeds) : ReachedFrom leads seeds seed :=
  ⟨seed, member, .refl⟩

variable {vertex : Vertex}

theorem ReachedFrom.tail {following : Vertex} (reached : ReachedFrom leads seeds vertex)
    (step : leads vertex following) : ReachedFrom leads seeds following := by
  rcases reached with ⟨seed, member, walk⟩
  exact ⟨seed, member, walk.tail step⟩

theorem ReachedFrom.mem {marked : Set Vertex}
    (reached : ReachedFrom leads seeds vertex) (seeded : seeds ⊆ marked)
    (closed : ∀ before ∈ marked, ∀ following, leads before following →
      following ∈ marked) : vertex ∈ marked := by
  rcases reached with ⟨seed, member, walk⟩
  induction walk with
  | refl => exact seeded member
  | tail _ step marks => exact closed _ marks _ step

theorem ReachedFrom.mem_or_leads (reached : ReachedFrom leads seeds vertex) :
    vertex ∈ seeds ∨ ∃ before, leads before vertex := by
  rcases reached with ⟨seed, member, walk⟩
  cases walk with
  | refl => exact .inl member
  | tail _ step => exact .inr ⟨_, step⟩

/-- Between two rounds. -/
structure Spreading (leads : Vertex → Vertex → Prop)
    (seeds marked : Set Vertex) (stack : List Vertex) : Prop where
  seeded : seeds ⊆ marked
  sound : ∀ vertex ∈ marked, ReachedFrom leads seeds vertex
  pending : ∀ vertex ∈ stack, vertex ∈ marked
  closed : ∀ vertex ∈ marked, vertex ∉ stack →
    ∀ following, leads vertex following → following ∈ marked

namespace Spreading

theorem start {stack : List Vertex} (stacked : ∀ vertex, vertex ∈ stack ↔ vertex ∈ seeds) :
    Spreading leads seeds seeds stack where
  seeded := Set.Subset.refl seeds
  sound := by
    intro vertex member
    exact reachedFrom_of_mem member
  pending := by
    intro vertex member
    exact (stacked vertex).1 member
  closed := by
    intro vertex member absent
    exact absurd ((stacked vertex).2 member) absent

theorem round {marked nextMarked : Set Vertex} {vertex : Vertex} {rest stack : List Vertex}
    (spreading : Spreading leads seeds marked (vertex :: rest)) (marks :
      ∀ other, other ∈ nextMarked ↔ other ∈ marked ∨ leads vertex other)
    (stacked : ∀ other, other ∈ stack ↔ other ∈ rest ∨ (leads vertex other ∧ other ∉ marked)) :
    Spreading leads seeds nextMarked stack where
  seeded := by
    intro seed member
    exact (marks seed).2 (.inl (spreading.seeded member))
  sound := by
    intro other member
    rcases (marks other).1 member with before | step
    · exact spreading.sound other before
    · have taken := spreading.pending vertex mem_cons_self
      exact (spreading.sound vertex taken).tail step
  pending := by
    intro other member
    rcases (stacked other).1 member with before | ⟨step, _⟩
    · have marked := spreading.pending other (mem_cons_of_mem vertex before)
      exact (marks other).2 (.inl marked)
    · exact (marks other).2 (.inr step)
  closed := by
    intro other member absent following step
    have notStacked : ¬ (other ∈ rest ∨ (leads vertex other ∧ other ∉ marked)) :=
      fun either => absent ((stacked other).2 either)
    push Not at notStacked
    rcases notStacked with ⟨notRest, known⟩
    have before : other ∈ marked := by
      rcases (marks other).1 member with before | led
      · exact before
      · exact known led
    by_cases same : other = vertex
    · rw [same] at step
      exact (marks following).2 (.inr step)
    · have away : other ∉ vertex :: rest := by
        simp [same, notRest]
      have after := spreading.closed other before away following step
      exact (marks following).2 (.inl after)

theorem mem_iff {marked : Set Vertex}
    (spreading : Spreading leads seeds marked []) (vertex : Vertex) :
    vertex ∈ marked ↔ ReachedFrom leads seeds vertex := by
  constructor
  · exact spreading.sound vertex
  · intro reached
    apply reached.mem spreading.seeded
    intro before member following step
    exact spreading.closed before member not_mem_nil following step

end Spreading

theorem countP_lt {Element : Type u} {counted left : Element → Bool}
    {element : Element} {elements : List Element}
    (weaker : ∀ other ∈ elements, left other = true → counted other = true)
    (member : element ∈ elements) (before : counted element = true) (after : left element = false) :
    elements.countP left < elements.countP counted := by
  rcases append_of_mem member with ⟨front, back, rfl⟩
  have inFront : front.countP left ≤ front.countP counted := by
    apply countP_mono_left
    intro other inFront
    exact weaker other (mem_append_left _ inFront)
  have inBack : back.countP left ≤ back.countP counted := by
    apply countP_mono_left
    intro other inBack
    exact weaker other (mem_append_right _ (mem_cons_of_mem _ inBack))
  rw [countP_append, countP_append, countP_cons, countP_cons, before, after]
  simp only [Bool.false_eq_true, if_true, if_false]
  omega

end SysAnalyzer.Foundation
