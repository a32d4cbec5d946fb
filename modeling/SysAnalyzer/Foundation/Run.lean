import Mathlib.Data.List.Basic
import Mathlib.Data.List.Induction

/-!
# Finite runs of a deterministic step function

A loop that feeds a list of inputs to a state is the left fold of its body.
This module gives the two rules every such loop is reasoned with: an invariant
kept by one step is kept by a whole run, and a condition on single steps is
read in the state each step starts from.

`EachStep` is the run-level reading of a step condition.  It unfolds along the
list, so a proof by induction over the inputs never mentions a split of the
list; `eachStep_iff_split` gives the equivalent statement over all splits.
-/

namespace SysAnalyzer.Foundation

open List Option

universe u v w

variable {State : Type u} {Event : Type v}

/-- The state reached by feeding a finite list of events to `step`. -/
def run (step : State → Event → State) (state : State) (events : List Event) : State :=
  events.foldl step state

section

variable (step : State → Event → State)
include step

@[simp]
theorem run_nil (state : State) : run step state [] = state := rfl

@[simp]
theorem run_cons (state : State) (event : Event) (rest : List Event) :
    run step state (event :: rest) = run step (step state event) rest :=
  rfl

theorem run_append (state : State) (first second : List Event) :
    run step state (first ++ second) = run step (run step state first) second := by
  simp [run, foldl_append]

theorem run_map {Source : Type w} (read : Source → Event) (state : State) (events : List Source) :
    run (fun state event => step state (read event)) state events =
      run step state (events.map read) := by
  simp [run, foldl_map]

end

/-- Every step of a run meets `condition` in the state it starts from. -/
def EachStep (step : State → Event → State)
    (condition : State → Event → Prop) : State → List Event → Prop
  | _, [] => True
  | state, event :: rest => condition state event ∧ EachStep step condition (step state event) rest

@[simp]
theorem eachStep_nil (step : State → Event → State) (condition : State → Event → Prop)
    (state : State) : EachStep step condition state [] :=
  trivial

@[simp]
theorem eachStep_cons (step : State → Event → State) (condition : State → Event → Prop)
    (state : State) (event : Event) (rest : List Event) :
    EachStep step condition state (event :: rest) ↔ condition state event ∧
      EachStep step condition (step state event) rest :=
  Iff.rfl

instance decidableEachStep (step : State → Event → State) (condition : State → Event → Prop)
    [∀ state event, Decidable (condition state event)] :
    ∀ state events, Decidable (EachStep step condition state events)
  | _, [] => isTrue trivial
  | state, event :: rest =>
    have := decidableEachStep step condition (step state event) rest
    inferInstanceAs (Decidable (_ ∧ _))

section

variable (step : State → Event → State)
include step

theorem eachStep_iff_split (condition : State → Event → Prop)
    (state : State) (events : List Event) :
    EachStep step condition state events ↔ ∀ before event after, events = before ++ event :: after →
      condition (run step state before) event := by
  induction events generalizing state with
  | nil => simp
  | cons head rest induction =>
    rw [eachStep_cons, induction]
    constructor
    · rintro ⟨atHead, later⟩ before event after split
      cases before with
      | nil =>
        simp only [nil_append, List.cons.injEq] at split
        rcases split with ⟨rfl, rfl⟩
        exact atHead
      | cons first tail =>
        simp only [cons_append, List.cons.injEq] at split
        rcases split with ⟨rfl, tailSplit⟩
        exact later tail event after tailSplit
    · intro everySplit
      refine ⟨everySplit [] head rest rfl, ?_⟩
      intro before event after split
      exact everySplit (head :: before) event after (by rw [split]; rfl)

theorem eachStep_append (condition : State → Event → Prop)
    (state : State) (first second : List Event) :
    EachStep step condition state (first ++ second) ↔ EachStep step condition state first ∧
      EachStep step condition (run step state first) second := by
  induction first generalizing state with
  | nil => simp
  | cons event rest induction => simp [induction, and_assoc]

theorem eachStep_forall {Index : Sort w} (condition : Index → State → Event → Prop)
    (state : State) (events : List Event) :
    EachStep step (fun state event => ∀ index, condition index state event) state events ↔
      ∀ index, EachStep step (condition index) state events := by
  induction events generalizing state with
  | nil => simp
  | cons event rest induction =>
    simp only [eachStep_cons, induction]
    exact forall_and.symm

end

variable {condition : State → Event → Prop} {invariant : State → Prop}
  {state : State} {events : List Event}

/--
An invariant that one step keeps, under a condition on the step, is kept by a
whole run whose steps all meet the condition.
-/
theorem run_invariant {step : State → Event → State} (preserves :
    ∀ state event, invariant state → condition state event →
      invariant (step state event)) (initial : invariant state)
    (steps : EachStep step condition state events) : invariant (run step state events) := by
  induction events generalizing state with
  | nil => exact initial
  | cons event rest induction => exact induction (preserves state event initial steps.1) steps.2

theorem run_invariant_of_preserves {step : State → Event → State} (preserves :
    ∀ state event, invariant state → invariant (step state event))
    (events : List Event) (initial : invariant state) : invariant (run step state events) := by
  induction events generalizing state with
  | nil => exact initial
  | cons event rest induction => exact induction (preserves state event initial)

variable {first second : State → Event → Prop}

theorem eachStep_congr {step : State → Event → State} (invariant : State → Prop)
    (agree : ∀ state event, invariant state → (first state event ↔ second state event)) (preserves :
      ∀ state event, invariant state → second state event → invariant (step state event))
    (initial : invariant state) :
    EachStep step first state events ↔ EachStep step second state events := by
  induction events generalizing state with
  | nil => exact Iff.rfl
  | cons event rest induction =>
    rw [eachStep_cons, eachStep_cons, agree state event initial]
    refine and_congr_right fun atSecond => ?_
    exact induction (preserves state event initial atSecond)

theorem reached_iff_eachStep (step : State → Event → State) (holds : State → Prop)
    (events : List Event) (initial : holds state) :
    (∀ past, past <+: events → holds (run step state past)) ↔
      EachStep step (fun state event => holds (step state event)) state events := by
  rw [eachStep_iff_split]
  constructor
  · rintro everywhere before event after rfl
    have reached := everywhere (before ++ [event]) ⟨after, by simp⟩
    rwa [run_append] at reached
  · rintro steps past ⟨after, rfl⟩
    rcases eq_nil_or_concat' past with rfl | ⟨before, event, rfl⟩
    · exact initial
    · rw [run_append]
      exact steps before event after (by simp)

/-! ## Steps that may fail -/

def runPartial (step : State → Event → Option State) : State → List Event → Option State
  | state, [] => some state
  | state, event :: rest =>
    match step state event with
    | some next => runPartial step next rest
    | none => none

/-- Every step that is reached meets `condition` in the state it starts from. -/
def EachPartial (step : State → Event → Option State)
    (condition : State → Event → Prop) : State → List Event → Prop
  | _, [] => True
  | state, event :: rest =>
    condition state event ∧ ∀ next, step state event = some next →
      EachPartial step condition next rest

theorem runPartial_append (step : State → Event → Option State) (state : State)
    (first second : List Event) :
    runPartial step state (first ++ second) = (runPartial step state first).bind fun middle =>
      runPartial step middle second := by
  induction first generalizing state with
  | nil => rfl
  | cons event rest induction =>
    simp only [cons_append, runPartial]
    cases step state event with
    | none => rfl
    | some next => exact induction next

theorem runPartial_some (step : State → Event → State) (state : State) (events : List Event) :
    runPartial (fun state event => some (step state event)) state events =
      some (run step state events) := by
  induction events generalizing state with
  | nil => rfl
  | cons event rest induction => exact induction (step state event)

theorem eachPartial_some (step : State → Event → State) (condition : State → Event → Prop)
    (state : State) (events : List Event) :
    EachPartial (fun state event => some (step state event)) condition state events ↔
      EachStep step condition state events := by
  induction events generalizing state with
  | nil => exact Iff.rfl
  | cons event rest induction =>
    simp only [EachPartial, eachStep_cons, some.injEq, forall_eq', induction]

theorem eachPartial_iff_split (step : State → Event → Option State)
    (condition : State → Event → Prop) (state : State) (events : List Event) :
    EachPartial step condition state events ↔ ∀ before event after reached,
      events = before ++ event :: after → runPartial step state before = some reached →
        condition reached event := by
  induction events generalizing state with
  | nil => simp [EachPartial]
  | cons head rest induction =>
    constructor
    · rintro ⟨atHead, later⟩ before event after reached split run
      cases before with
      | nil =>
        simp only [nil_append, List.cons.injEq] at split
        rcases split with ⟨rfl, rfl⟩
        cases run
        exact atHead
      | cons first tail =>
        simp only [cons_append, List.cons.injEq] at split
        rcases split with ⟨rfl, tailSplit⟩
        simp only [runPartial] at run
        cases stepped : step state head with
        | none => simp [stepped] at run
        | some next =>
          rw [stepped] at run
          exact (induction next).1 (later next stepped) tail event after reached tailSplit run
    · intro everySplit
      refine ⟨everySplit [] head rest state rfl rfl, ?_⟩
      intro next stepped
      rw [induction next]
      intro before event after reached split run
      refine everySplit (head :: before) event after reached (by rw [split]; rfl) ?_
      simpa [runPartial, stepped] using run

theorem eachPartial_append (step : State → Event → Option State) (condition : State → Event → Prop)
    (state : State) (first second : List Event) :
    EachPartial step condition state (first ++ second) ↔ EachPartial step condition state first ∧
      ∀ middle, runPartial step state first = some middle →
        EachPartial step condition middle second := by
  induction first generalizing state with
  | nil => simp [EachPartial, runPartial]
  | cons event rest induction =>
    simp only [cons_append, EachPartial, runPartial]
    cases stepped : step state event with
    | none => simp
    | some next => simp [induction, and_assoc]

variable {step : State → Event → Option State}

variable {final : State}

theorem runPartial_invariant (preserves :
    ∀ state event next, invariant state → condition state event →
      step state event = some next → invariant next) (initial : invariant state)
    (steps : EachPartial step condition state events)
    (reached : runPartial step state events = some final) : invariant final := by
  induction events generalizing state with
  | nil =>
    cases reached
    exact initial
  | cons event rest induction =>
    simp only [runPartial] at reached
    cases stepped : step state event with
    | none => simp [stepped] at reached
    | some next =>
      rw [stepped] at reached
      exact induction (preserves state event next initial steps.1 stepped)
        (steps.2 next stepped) reached

variable {start : State}

/--
The invariant rule for a partial run whose invariant also reads the events so
far.
-/
theorem runPartial_history (invariant : List Event → State → Prop) (initial : invariant [] start)
    (preserves : ∀ past event state next,
      runPartial step start past = some state → invariant past state →
        step state event = some next → invariant (past ++ [event]) next)
    (reached : runPartial step start events = some final) : invariant events final := by
  induction events using reverseRecOn generalizing final with
  | nil =>
    cases reached
    exact initial
  | append_singleton past event induction =>
    rw [runPartial_append, bind_eq_some_iff] at reached
    rcases reached with ⟨state, before, last⟩
    simp only [runPartial] at last
    cases stepped : step state event with
    | none => simp [stepped] at last
    | some next =>
      simp only [stepped, some.injEq] at last
      subst last
      exact preserves past event state next before (induction before) stepped

/--
The exact condition of a property of every state reached.  The invariant may
read a ghost state that follows the events; where the invariant holds, a step
reaches a state with the property only if it meets the condition, and then it
keeps the invariant.
-/
theorem eachReached_iff {Ghost : Type w} {follow : Ghost → Event → Ghost}
    {allowed : Ghost → Event → Prop} (holds invariant : Ghost → State → Prop)
    (sound : ∀ ghost state, invariant ghost state → holds ghost state)
    (necessary : ∀ ghost state event next, invariant ghost state → allowed ghost event →
      step state event = some next → holds (follow ghost event) next →
        condition state event) (preserves :
      ∀ ghost state event next, invariant ghost state → allowed ghost event →
        condition state event → step state event = some next →
          invariant (follow ghost event) next) {ghost : Ghost} (initial : invariant ghost state)
    (allows : EachStep follow allowed ghost events)
    (reached : runPartial step state events = some final) :
    (∀ past between, past <+: events → runPartial step state past = some between →
      holds (run follow ghost past) between) ↔ EachPartial step condition state events := by
  induction events generalizing ghost state with
  | nil =>
    refine ⟨fun _ => trivial, ?_⟩
    intro _ past between isPrefix run
    rw [prefix_nil] at isPrefix
    subst isPrefix
    cases run
    exact sound ghost state initial
  | cons event rest induction =>
    simp only [runPartial] at reached
    cases stepped : step state event with
    | none => simp [stepped] at reached
    | some next =>
      rw [stepped] at reached
      constructor
      · intro everywhere
        have here : condition state event := by
          refine necessary ghost state event next initial allows.1 stepped ?_
          refine everywhere [event] next ?_ (by simp [runPartial, stepped])
          simp
        refine ⟨here, ?_⟩
        intro other sameStep
        rw [stepped, some.injEq] at sameStep
        subst sameStep
        have kept := preserves ghost state event next initial allows.1 here stepped
        refine (induction kept allows.2 reached).1 ?_
        intro past between isPrefix run
        refine everywhere (event :: past) between (cons_prefix_cons.2 ⟨rfl, isPrefix⟩) ?_
        simpa [runPartial, stepped] using run
      · rintro ⟨here, later⟩ past between isPrefix run
        cases past with
        | nil =>
          cases run
          exact sound ghost state initial
        | cons first past =>
          rcases cons_prefix_cons.1 isPrefix with ⟨rfl, ofRest⟩
          have kept := preserves ghost state first next initial allows.1 here stepped
          refine (induction kept allows.2 reached).2 (later next stepped) past between ofRest ?_
          simpa [runPartial, stepped] using run

theorem eachPartial_and :
    EachPartial step (fun state event => first state event ∧ second state event) state events ↔
      EachPartial step first state events ∧ EachPartial step second state events := by
  simp only [eachPartial_iff_split]
  constructor
  · intro both
    exact ⟨fun before event after reached split run =>
      (both before event after reached split run).1,
      fun before event after reached split run => (both before event after reached split run).2⟩
  · rintro ⟨ofFirst, ofSecond⟩ before event after reached split run
    exact ⟨ofFirst before event after reached split run,
      ofSecond before event after reached split run⟩

theorem reached_iff_eachPartial (step : State → Event → Option State) (holds : State → Prop)
    (events : List Event) (initial : holds state) :
    (∀ past between, past <+: events → runPartial step state past = some between → holds between) ↔
      EachPartial step (fun state event => ∀ next, step state event = some next → holds next)
        state events := by
  rw [eachPartial_iff_split]
  constructor
  · rintro everywhere before event after reached rfl run next stepped
    refine everywhere (before ++ [event]) next ?_ ?_
    · exact ⟨after, by simp⟩
    · rw [runPartial_append, run]
      simp [runPartial, stepped]
  · rintro steps past between ⟨after, rfl⟩ run
    rcases eq_nil_or_concat' past with rfl | ⟨before, event, rfl⟩
    · cases run
      exact initial
    · rw [runPartial_append, bind_eq_some_iff] at run
      rcases run with ⟨reached, atBefore, last⟩
      simp only [runPartial] at last
      cases stepped : step reached event with
      | none => simp [stepped] at last
      | some next =>
        simp only [stepped, some.injEq] at last
        subst last
        exact steps before event after reached (by simp) atBefore next stepped

theorem eachPartial_congr {allowed : Event → Prop} (invariant : State → Prop)
    (agree : ∀ state event next, invariant state → allowed event → step state event = some next →
      (first state event ↔ second state event)) (preserves :
      ∀ state event next, invariant state → allowed event → first state event →
        step state event = some next → invariant next)
    (initial : invariant state) (allows : ∀ event ∈ events, allowed event)
    (reached : runPartial step state events = some final) :
    EachPartial step first state events ↔ EachPartial step second state events := by
  induction events generalizing state with
  | nil => exact Iff.rfl
  | cons event rest induction =>
    simp only [runPartial] at reached
    cases stepped : step state event with
    | none => simp [stepped] at reached
    | some next =>
      rw [stepped] at reached
      have atEvent := allows event mem_cons_self
      have here := agree state event next initial atEvent stepped
      have later : ∀ event ∈ rest, allowed event :=
        fun event member => allows event (mem_cons_of_mem _ member)
      simp only [EachPartial, stepped, some.injEq, forall_eq', here]
      refine and_congr_right fun atSecond => ?_
      exact induction (preserves state event next initial atEvent (here.2 atSecond) stepped)
        later reached

/-- Some step of a partial run starts in a state in which `happens` holds. -/
def SomeStep (step : State → Event → Option State) (start : State)
    (happens : State → Event → Prop) (events : List Event) : Prop :=
  ∃ past event state, past ++ [event] <+: events ∧
    runPartial step start past = some state ∧ happens state event

theorem someStep_nil {happens : State → Event → Prop} : ¬ SomeStep step start happens [] := by
  rintro ⟨past, event, state, isPrefix, _⟩
  simp at isPrefix

theorem someStep_concat {past : List Event} {event : Event} (happens : State → Event → Prop)
    (reached : runPartial step start past = some state) :
    SomeStep step start happens (past ++ [event]) ↔
      SomeStep step start happens past ∨ happens state event := by
  constructor
  · rintro ⟨before, last, between, isPrefix, run, happened⟩
    rcases prefix_concat_iff.1 isPrefix with same | isPrefix
    · rcases append_inj' same rfl with ⟨rfl, sameEvent⟩
      rcases List.cons.inj sameEvent with ⟨rfl, _⟩
      rw [reached, some.injEq] at run
      subst run
      exact .inr happened
    · exact .inl ⟨before, last, between, isPrefix, run, happened⟩
  · rintro (⟨before, last, between, isPrefix, run, happened⟩ | happened)
    · exact ⟨before, last, between, isPrefix.trans (prefix_append past [event]), run, happened⟩
    · exact ⟨past, event, state, prefix_refl _, reached, happened⟩

end SysAnalyzer.Foundation
