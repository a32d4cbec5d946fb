import Mathlib.Data.List.Nodup
import Mathlib.Data.List.Perm.Basic

/-!
# Sessions in a list of events

Some events open a session under a key, and others close the session of a key.
A session is closed by the first event behind its opening that closes its key;
when no key is opened twice, an event closes one session at most.
-/

namespace SysAnalyzer.Foundation

open List

universe u v w x

/-- A session: what it was opened with and when it was closed. -/
structure Session (Key : Type u) (Data : Type v) (Time : Type w) where
  key : Key
  data : Data
  closed : Option Time
deriving DecidableEq

section Sessions

variable {Event : Type x} {Key : Type u} {Data : Type v} {Time : Type w}
variable [DecidableEq Key]

def closedBy (closing : Event → Option (Key × Time)) (key : Key) (event : Event) : Option Time :=
  match closing event with
  | none => none
  | some (other, time) => if other = key then some time else none

def Session.pass (closing : Event → Option (Key × Time)) (event : Event)
    (session : Session Key Data Time) : Session Key Data Time :=
  { session with
    closed := session.closed.or (closedBy closing session.key event) }

def sessions (opening : Event → Option (Key × Data)) (closing : Event → Option (Key × Time)) :
    List Event → List (Session Key Data Time)
  | [] => []
  | event :: rest =>
    let later := sessions opening closing rest
    match opening event with
    | none => later
    | some (key, data) => ⟨key, data, rest.findSome? (closedBy closing key)⟩ :: later

variable {opening : Event → Option (Key × Data)}
variable {closing : Event → Option (Key × Time)}

theorem sessions_concat (events : List Event) (event : Event) :
    sessions opening closing (events ++ [event]) =
      (sessions opening closing events).map (Session.pass closing event) ++
        ((opening event).map fun opened =>
          (⟨opened.1, opened.2, none⟩ : Session Key Data Time)).toList := by
  induction events with
  | nil => cases opened : opening event <;> simp [sessions, opened]
  | cons first rest induction =>
    rw [cons_append, sessions, induction, sessions]
    cases opened : opening first with
    | none => rfl
    | some started =>
      dsimp only
      rw [map_cons, cons_append, Session.pass, findSome?_append, findSome?_singleton]

theorem map_key_sessions (events : List Event) : (sessions opening closing events).map Session.key =
    events.filterMap fun event => (opening event).map Prod.fst := by
  induction events with
  | nil => rfl
  | cons event rest induction =>
    rw [sessions, filterMap_cons]
    cases opened : opening event with
    | none => exact induction
    | some started =>
      dsimp only [Option.map_some]
      rw [map_cons, induction]

theorem map_key_sessions_concat (events : List Event) (event : Event) :
    (sessions opening closing (events ++ [event])).map Session.key =
      (sessions opening closing events).map Session.key ++
        ((opening event).map Prod.fst).toList := by
  rw [map_key_sessions, map_key_sessions, filterMap_append]
  cases opened : opening event <;> simp [opened]

end Sessions

def OpenAt {Key : Type u} {Data : Type v} {Time : Type w}
    (opened : List (Session Key Data Time)) (number : Nat) (key : Key) : Prop :=
  ∃ session, opened[number]? = some session ∧ session.key = key ∧ session.closed = none

section Pass

variable {Event : Type x} {Key : Type u} {Data : Type v} {Time : Type w}
variable [DecidableEq Key]
variable {closing : Event → Option (Key × Time)} {event : Event}
variable {opened : List (Session Key Data Time)}

variable {number : Nat}

theorem openAt_pass_iff {key : Key} : OpenAt (opened.map (Session.pass closing event)) number key ↔
    OpenAt opened number key ∧ closedBy closing key event = none := by
  constructor
  · rintro ⟨passed, atNumber, rfl, isOpen⟩
    rw [getElem?_map, Option.map_eq_some_iff] at atNumber
    rcases atNumber with ⟨session, atNumber, rfl⟩
    rcases Option.or_eq_none_iff.1 isOpen with ⟨wasOpen, stays⟩
    exact ⟨⟨session, atNumber, rfl, wasOpen⟩, stays⟩
  · rintro ⟨⟨session, atNumber, rfl, isOpen⟩, stays⟩
    refine ⟨session.pass closing event, ?_, rfl, ?_⟩
    · rw [getElem?_map, atNumber, Option.map_some]
    · rw [Session.pass, isOpen, stays]
      rfl

omit [DecidableEq Key] in
theorem not_openAt_nil {key : Key} : ¬ OpenAt ([] : List (Session Key Data Time)) number key := by
  rintro ⟨session, atNumber, -⟩
  cases atNumber

omit [DecidableEq Key] in
theorem openAt_concat_iff {key other : Key} {data : Data} :
    OpenAt (opened ++ [⟨other, data, none⟩]) number key ↔
      OpenAt opened number key ∨ (number = opened.length ∧ other = key) := by
  constructor
  · rintro ⟨session, atNumber, isKey, isOpen⟩
    rcases Nat.lt_trichotomy number opened.length with less | rfl | greater
    · rw [getElem?_append_left less] at atNumber
      exact Or.inl ⟨session, atNumber, isKey, isOpen⟩
    · rw [getElem?_concat_length, Option.some.injEq] at atNumber
      rw [← atNumber] at isKey
      exact Or.inr ⟨rfl, isKey⟩
    · rw [getElem?_eq_none] at atNumber
      · cases atNumber
      · rw [length_append, length_singleton]
        exact greater
  · rintro (⟨session, atNumber, isKey, isOpen⟩ | ⟨rfl, rfl⟩)
    · refine ⟨session, ?_, isKey, isOpen⟩
      rw [List.getElem?_append_left (List.getElem?_eq_some_iff.1 atNumber).1]
      exact atNumber
    · exact ⟨_, getElem?_concat_length, rfl, rfl⟩

theorem map_pass_of_closed (noneOpen : ∀ number key, OpenAt opened number key →
    closedBy closing key event = none) : opened.map (Session.pass closing event) = opened := by
  have same : ∀ session ∈ opened, session.pass closing event = session := by
    intro session member
    rcases session with ⟨key, data, closed⟩
    cases closed with
    | some time => rfl
    | none =>
      rcases getElem?_of_mem member with ⟨number, atNumber⟩
      have stays := noneOpen number key ⟨_, atNumber, rfl, rfl⟩
      rw [Session.pass, stays]
      rfl
  rw [map_congr_left same, map_id']

theorem map_pass_of_open {key : Key} {time : Time} {session : Session Key Data Time}
    (distinct : (opened.map Session.key).Nodup) (closes : closing event = some (key, time))
    (atNumber : opened[number]? = some session) (isKey : session.key = key)
    (isOpen : session.closed = none) : opened.map (Session.pass closing event) =
      opened.set number { session with closed := some time } := by
  subst isKey
  rcases List.getElem?_eq_some_iff.1 atNumber with ⟨inRange, isSession⟩
  apply ext_getElem?
  intro index
  rw [getElem?_map, getElem?_set]
  by_cases same : number = index
  · subst same
    rw [if_pos rfl, if_pos inRange, atNumber, Option.map_some, Session.pass,
      closedBy, closes, isOpen]
    simp
  · rw [if_neg same]
    cases atIndex : opened[index]? with
    | none => rfl
    | some other =>
      have otherKey : session.key ≠ other.key := by
        intro sameKey
        apply same
        apply (getElem?_inj _ distinct).1
        · rw [getElem?_map, getElem?_map, atNumber, atIndex,
            Option.map_some, Option.map_some, sameKey]
        · rwa [length_map]
      have notClosed : closedBy closing other.key event = none := by
        rw [closedBy, closes]
        exact if_neg otherKey
      rw [Option.map_some, Session.pass, notClosed, Option.or_none]

omit [DecidableEq Key] in
theorem filterMap_closed_set (time : Time) {session : Session Key Data Time}
    (atNumber : opened[number]? = some session) (isOpen : session.closed = none) :
    ((opened.set number { session with closed := some time }).filterMap Session.closed).Perm
      (time :: opened.filterMap Session.closed) := by
  rcases List.getElem?_eq_some_iff.1 atNumber with ⟨inRange, isSession⟩
  have split : opened = opened.take number ++ session :: opened.drop (number + 1) := by
    rw [← isSession, getElem_cons_drop, take_append_drop]
  rw [set_eq_take_append_cons_drop, if_pos inRange]
  nth_rewrite 3 [split]
  rw [filterMap_append, filterMap_append, filterMap_cons, filterMap_cons, isOpen]
  exact perm_middle

end Pass

end SysAnalyzer.Foundation
