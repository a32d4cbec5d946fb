import Mathlib.Data.Option.Basic

/-!
# Maps with two and three keys

`DoubleMap` and `TripleMap` are maps of maps whose `Find` answers an invalid
value for keys that are not there.  An ordered map of the standard library is
the function that answers its entries.  `Erase` leaves an inner map behind even
when it is empty, which `Find` does not see.
-/

namespace SysAnalyzer.Base

/-- `std::map`, by what `find` answers. -/
abbrev StdMap (α β : Type*) := α → Option β

structure DoubleMap (α β γ : Type*) where
  invalidValue : γ
  internalMap : StdMap α (StdMap β γ)

/-- `TripleMap`; its inner maps are constructed with its own invalid value. -/
structure TripleMap (α β γ δ : Type*) where
  invalidValue : δ
  internalMap : StdMap α (DoubleMap β γ δ)
  uniform : ∀ first inner, internalMap first = some inner → inner.invalidValue = invalidValue

namespace DoubleMap

variable {α β γ : Type*} [DecidableEq α] [DecidableEq β]

def empty (invalidValue : γ) : DoubleMap α β γ := ⟨invalidValue, fun _ => none⟩

def insert (map : DoubleMap α β γ) (first : α) (second : β) (value : γ) : DoubleMap α β γ :=
  match map.internalMap first with
  | some inner =>
    { map with
      internalMap :=
        Function.update map.internalMap first
          (some (Function.update inner second (some value))) }
  | none =>
    { map with
      internalMap :=
        Function.update map.internalMap first
          (some (Function.update (fun _ => none) second (some value))) }

def find (map : DoubleMap α β γ) (first : α) (second : β) : γ :=
  match map.internalMap first with
  | some inner =>
    match inner second with
    | none => map.invalidValue
    | some value => value
  | none => map.invalidValue

/-- `Erase` of one entry. -/
def erase (map : DoubleMap α β γ) (first : α) (second : β) : DoubleMap α β γ :=
  match map.internalMap first with
  | some inner =>
    { map with
      internalMap :=
        Function.update map.internalMap first
          (some (Function.update inner second none)) }
  | none => map

omit [DecidableEq α] [DecidableEq β] in
@[simp]
theorem find_empty (invalidValue : γ) (first : α) (second : β) :
    (empty invalidValue : DoubleMap α β γ).find first second = invalidValue :=
  rfl

variable (map : DoubleMap α β γ)

@[simp]
theorem invalidValue_insert (first : α) (second : β) (value : γ) :
    (map.insert first second value).invalidValue = map.invalidValue := by
  unfold insert
  split <;> rfl

@[simp]
theorem invalidValue_erase (first : α) (second : β) :
    (map.erase first second).invalidValue = map.invalidValue := by
  unfold erase
  split <;> rfl

theorem find_insert (first other : α) (second another : β) (value : γ) :
    (map.insert first second value).find other another =
      if other = first ∧ another = second then value else map.find other another := by
  unfold insert find
  by_cases sameFirst : other = first
  · subst sameFirst
    by_cases sameSecond : another = second
    · subst sameSecond
      cases map.internalMap other with
      | none => simp
      | some inner => simp
    · cases map.internalMap other with
      | none => simp [sameSecond]
      | some inner => simp [sameSecond]
  · cases map.internalMap first with
    | none => simp [sameFirst]
    | some inner => simp [sameFirst]

theorem find_erase (first other : α) (second another : β) :
    (map.erase first second).find other another =
      if other = first ∧ another = second then map.invalidValue else map.find other another := by
  unfold erase find
  by_cases sameFirst : other = first
  · subst sameFirst
    by_cases sameSecond : another = second
    · subst sameSecond
      cases read : map.internalMap other with
      | none => simp [read]
      | some inner => simp
    · cases read : map.internalMap other with
      | none => simp [read]
      | some inner => simp [sameSecond]
  · cases map.internalMap first with
    | none => simp [sameFirst]
    | some inner => simp [sameFirst]

end DoubleMap

namespace TripleMap

variable {α β γ δ : Type*} [DecidableEq α] [DecidableEq β] [DecidableEq γ]

def empty (invalidValue : δ) : TripleMap α β γ δ :=
  ⟨invalidValue, fun _ => none, fun _ _ found => by cases found⟩

/-- Put an inner map with the same invalid value under a key. -/
def setInner (map : TripleMap α β γ δ) (first : α) (inner : DoubleMap β γ δ)
    (same : inner.invalidValue = map.invalidValue) : TripleMap α β γ δ where
  invalidValue := map.invalidValue
  internalMap := Function.update map.internalMap first (some inner)
  uniform := by
    intro other found
    by_cases isFirst : other = first
    · subst isFirst
      rw [Function.update_self, Option.some.injEq]
      rintro rfl
      exact same
    · rw [Function.update_of_ne isFirst]
      exact map.uniform other found

def insert (map : TripleMap α β γ δ) (first : α) (second : β) (third : γ)
    (value : δ) : TripleMap α β γ δ :=
  match found : map.internalMap first with
  | some inner =>
    map.setInner first (inner.insert second third value) (by simp [map.uniform first inner found])
  | none =>
    map.setInner first
      ((DoubleMap.empty map.invalidValue).insert second third value)
      (by simp [DoubleMap.empty])

def find (map : TripleMap α β γ δ) (first : α) (second : β) (third : γ) : δ :=
  match map.internalMap first with
  | some inner => inner.find second third
  | none => map.invalidValue

/-- `Erase` of one entry. -/
def erase (map : TripleMap α β γ δ) (first : α) (second : β) (third : γ) : TripleMap α β γ δ :=
  match found : map.internalMap first with
  | some inner =>
    map.setInner first (inner.erase second third) (by simp [map.uniform first inner found])
  | none => map

omit [DecidableEq α] [DecidableEq β] [DecidableEq γ] in
@[simp]
theorem find_empty (invalidValue : δ) (first : α) (second : β) (third : γ) :
    (empty invalidValue : TripleMap α β γ δ).find first second third = invalidValue :=
  rfl

variable (map : TripleMap α β γ δ)

omit [DecidableEq β] [DecidableEq γ] in
theorem find_setInner (first other : α) (inner : DoubleMap β γ δ)
    (same : inner.invalidValue = map.invalidValue) (second : β) (third : γ) :
    (map.setInner first inner same).find other second third =
      if other = first then inner.find second third else map.find other second third := by
  unfold find setInner
  by_cases isFirst : other = first
  · subst isFirst
    simp
  · simp [isFirst]

@[simp]
theorem invalidValue_insert (first : α) (second : β) (third : γ) (value : δ) :
    (map.insert first second third value).invalidValue = map.invalidValue := by
  unfold insert
  split <;> rfl

@[simp]
theorem invalidValue_erase (first : α) (second : β) (third : γ) :
    (map.erase first second third).invalidValue = map.invalidValue := by
  unfold erase
  split <;> rfl

theorem find_insert (first other : α) (second another : β) (third yetAnother : γ) (value : δ) :
    (map.insert first second third value).find other another yetAnother =
      if (other, another, yetAnother) = (first, second, third) then value
      else map.find other another yetAnother := by
  unfold insert
  split
  · next inner found =>
      rw [find_setInner, DoubleMap.find_insert]
      by_cases isFirst : other = first
      · subst isFirst
        simp [find, found]
      · simp [isFirst]
  · next found =>
      rw [find_setInner, DoubleMap.find_insert]
      by_cases isFirst : other = first
      · subst isFirst
        simp [find, found]
      · simp [isFirst]

theorem find_erase (first other : α) (second another : β) (third yetAnother : γ) :
    (map.erase first second third).find other another yetAnother =
      if (other, another, yetAnother) = (first, second, third) then map.invalidValue
      else map.find other another yetAnother := by
  unfold erase
  split
  · next inner found =>
      rw [find_setInner, DoubleMap.find_erase, map.uniform first inner found]
      by_cases isFirst : other = first
      · subst isFirst
        simp [find, found]
      · simp [isFirst]
  · next found =>
      by_cases isFirst : other = first
      · subst isFirst
        simp [find, found]
      · simp [isFirst]

end TripleMap

end SysAnalyzer.Base
