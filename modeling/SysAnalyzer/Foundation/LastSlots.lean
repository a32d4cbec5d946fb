import Mathlib.Data.Finset.Card

/-!
# Last values in slots

Values with keys arrive one after the other.  The last value of a key is kept in
a slot of its own; the value it replaces is moved to one area that all keys
share.  The two regions together hold the values of a key in their order.
-/

namespace SysAnalyzer.Foundation

open List Option

universe u v

variable {Key : Type u} {Value : Type v} [DecidableEq Key]

structure LastSlots (Key : Type u) (Value : Type v) where
  slots : Key → Option Value
  evicted : List Value

namespace LastSlots

/-- Nothing has arrived. -/
def empty : LastSlots Key Value := ⟨fun _ => none, []⟩

def put (key : Value → Key) (store : LastSlots Key Value) (value : Value) :
    LastSlots Key Value where
  slots := Function.update store.slots (key value) (some value)
  evicted := store.evicted ++ (store.slots (key value)).toList

variable (key : Value → Key)

def putAll (values : List Value) : LastSlots Key Value := values.foldl (put key) empty

variable (values : List Value)

theorem putAll_concat (value : Value) :
    putAll key (values ++ [value]) = put key (putAll key values) value := by
  simp [putAll]

def ofKey (values : List Value) (wanted : Key) : List Value :=
  values.filter fun value => key value = wanted

variable {wanted : Key}

variable {value : Value}

theorem ofKey_concat_of_eq (same : key value = wanted) :
    ofKey key (values ++ [value]) wanted = ofKey key values wanted ++ [value] := by
  simp [ofKey, same]

theorem ofKey_concat_of_ne (other : key value ≠ wanted) :
    ofKey key (values ++ [value]) wanted = ofKey key values wanted := by
  simp [ofKey, other]

variable (store : LastSlots Key Value)

@[simp]
theorem slots_put_self (value : Value) : (put key store value).slots (key value) = some value := by
  simp [put]

theorem slots_put_of_ne (other : key value ≠ wanted) :
    (put key store value).slots wanted = store.slots wanted := by
  simp [put, Ne.symm other]

theorem evicted_put (value : Value) :
    (put key store value).evicted = store.evicted ++ (store.slots (key value)).toList :=
  rfl

theorem ofKey_append (first second : List Value) (wanted : Key) :
    ofKey key (first ++ second) wanted = ofKey key first wanted ++ ofKey key second wanted := by
  simp [ofKey]

theorem slots_putAll (wanted : Key) :
    (putAll key values).slots wanted = (ofKey key values wanted).getLast? := by
  induction values using reverseRecOn with
  | nil => rfl
  | append_singleton values value induction =>
    rw [putAll_concat]
    by_cases same : key value = wanted
    · rw [ofKey_concat_of_eq key values same, ← same]
      simp
    · rw [ofKey_concat_of_ne key values same, slots_put_of_ne key _ same, induction]

theorem key_of_mem_slots {values : List Value}
    (inSlot : (putAll key values).slots wanted = some value) : key value = wanted := by
  rw [slots_putAll] at inSlot
  have member := mem_filter.1 (mem_of_getLast? inSlot)
  simpa using member.2

theorem ofKey_slot_self (wanted : Key) :
    ofKey key ((putAll key values).slots wanted).toList wanted =
      ((putAll key values).slots wanted).toList := by
  cases inSlot : (putAll key values).slots wanted with
  | none => rfl
  | some value => simp [ofKey, key_of_mem_slots key inSlot]

theorem ofKey_slot_of_ne {taken : Key} (other : taken ≠ wanted) :
    ofKey key ((putAll key values).slots taken).toList wanted = [] := by
  cases inSlot : (putAll key values).slots taken with
  | none => rfl
  | some value => simp [ofKey, key_of_mem_slots key inSlot, other]

theorem ofKey_evicted_append (wanted : Key) :
    ofKey key (putAll key values).evicted wanted ++ ((putAll key values).slots wanted).toList =
      ofKey key values wanted := by
  induction values using reverseRecOn with
  | nil => rfl
  | append_singleton values value induction =>
    rw [putAll_concat, evicted_put, ofKey_append]
    by_cases same : key value = wanted
    · subst same
      rw [ofKey_slot_self, induction, slots_put_self,
        ofKey_concat_of_eq key values rfl, toList_some]
    · rw [ofKey_slot_of_ne key values same, append_nil, slots_put_of_ne key _ same, induction,
        ofKey_concat_of_ne key values same]

theorem length_evicted_putAll :
    (putAll key values).evicted.length + (values.map key).toFinset.card = values.length := by
  induction values using reverseRecOn with
  | nil => rfl
  | append_singleton values value induction =>
    have keys : ((values ++ [value]).map key).toFinset =
      insert (key value) (values.map key).toFinset := by
      ext wanted
      simp
    rw [putAll_concat, evicted_put, keys, length_append,
      length_append, length_singleton, ← induction]
    cases inSlot : (putAll key values).slots (key value) with
    | none =>
      have isNew : key value ∉ (values.map key).toFinset := by
        rw [slots_putAll, getLast?_eq_none_iff, ofKey, filter_eq_nil_iff] at inSlot
        simpa using inSlot
      rw [Finset.card_insert_of_notMem isNew, toList_none, length_nil]
      omega
    | some old =>
      have isOld : key value ∈ (values.map key).toFinset := by
        have sameKey := key_of_mem_slots key inSlot
        rw [slots_putAll] at inSlot
        have member := (mem_filter.1 (mem_of_getLast? inSlot)).1
        rw [List.mem_toFinset, ← sameKey]
        exact mem_map_of_mem member
      rw [Finset.insert_eq_of_mem isOld, toList_some, length_singleton]
      omega

end LastSlots

end SysAnalyzer.Foundation
