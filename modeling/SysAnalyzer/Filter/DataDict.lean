import SysAnalyzer.Filter.ProcessFilter

/-!
# The dictionary of strings

Tables refer to names by their index in the dictionary.  `GetStringIndex` looks
a string up by its hash alone: of the strings with one hash the first one is
entered, and the others are given its index.  The dictionary is faithful to the
strings of a trace exactly when no two of them share a hash.
-/

namespace SysAnalyzer.Filter

open Foundation List Option Function
open Base

namespace DataDict

/-- `DataDict::GetStringIndexNoWrite`; `none` is `INVALID_UINT64`. -/
def getStringIndexNoWrite (hashFun : String → UInt64) (dict : DataDict)
    (str : String) : Option Nat :=
  dict.dataDictInnerMap (hashFun str)

def getDataFromDict (dict : DataDict) (id : Nat) : Option String := dict.dataDict[id]?

/-- A dictionary as it is constructed. -/
def empty : DataDict := ⟨[], fun _ => none⟩

end DataDict

/-- A dictionary with the indexes it has returned. -/
structure Interned where
  dict : DataDict
  returned : List (String × Nat)

namespace Interned

variable (hashFun : String → UInt64)

/-- One call of `GetStringIndex`. -/
def step (interned : Interned) (str : String) : Interned :=
  let answer := interned.dict.getStringIndex hashFun str
  ⟨answer.1, interned.returned ++ [(str, answer.2)]⟩

/-- The calls for a list of strings, on a dictionary as it is constructed. -/
def after (strs : List String) : Interned := run (step hashFun) ⟨.empty, []⟩ strs

/--
The entry at every returned index is the string it was returned for, and
different strings have different indexes.
-/
def Faithful (interned : Interned) : Prop :=
  (∀ entry ∈ interned.returned, interned.dict.getDataFromDict entry.2 = some entry.1) ∧
    ∀ first ∈ interned.returned, ∀ second ∈ interned.returned,
      first.1 ≠ second.1 → first.2 ≠ second.2

/-- What a dictionary knows after the calls for some strings. -/
structure Knows (strs : List String) (interned : Interned) : Prop where
  asked : interned.returned.map Prod.fst = strs
  kept : ∀ entry ∈ interned.returned,
    interned.dict.getStringIndexNoWrite hashFun entry.1 = some entry.2
  entered : ∀ hash index, interned.dict.dataDictInnerMap hash = some index → ∃ str ∈ strs,
    interned.dict.getDataFromDict index = some str ∧ hashFun str = hash

variable {hashFun}

theorem Knows.empty : Knows hashFun [] ⟨.empty, []⟩ where
  asked := rfl
  kept := by rintro _ ⟨⟩
  entered := by rintro _ _ ⟨⟩

variable {strs : List String}

theorem Knows.step {interned : Interned} (knows : Knows hashFun strs interned) (str : String) :
    Knows hashFun (strs ++ [str]) (interned.step hashFun str) := by
  rcases interned with ⟨⟨dataDict, innerMap⟩, returned⟩
  cases found : innerMap (hashFun str) with
  | some index =>
    have stepped : Interned.step hashFun ⟨⟨dataDict, innerMap⟩, returned⟩ str =
      ⟨⟨dataDict, innerMap⟩, returned ++ [(str, index)]⟩ := by
      simp [Interned.step, DataDict.getStringIndex, found]
    rw [stepped]
    constructor
    · simp [← knows.asked]
    · intro entry member
      rcases mem_append.1 member with earlier | last
      · exact knows.kept entry earlier
      · rw [mem_singleton] at last
        subst last
        exact found
    · intro hash other atHash
      rcases knows.entered hash other atHash with ⟨old, listed, there⟩
      exact ⟨old, mem_append_left _ listed, there⟩
  | none =>
    have stepped : Interned.step hashFun ⟨⟨dataDict, innerMap⟩, returned⟩ str =
      ⟨⟨dataDict ++ [str], Function.update innerMap (hashFun str) (some dataDict.length)⟩,
        returned ++ [(str, dataDict.length)]⟩ := by
      simp [Interned.step, DataDict.getStringIndex, found]
    rw [stepped]
    constructor
    · simp [← knows.asked]
    · intro entry member
      rcases mem_append.1 member with earlier | last
      · have keptEarlier : innerMap (hashFun entry.1) = some entry.2 :=
          knows.kept entry earlier
        have other : hashFun entry.1 ≠ hashFun str := by
          intro same
          rw [same, found] at keptEarlier
          cases keptEarlier
        simpa [DataDict.getStringIndexNoWrite, other] using keptEarlier
      · rw [mem_singleton] at last
        subst last
        simp [DataDict.getStringIndexNoWrite]
    · intro hash other atHash
      dsimp only at atHash
      by_cases same : hash = hashFun str
      · subst same
        rw [update_self] at atHash
        cases atHash
        exact ⟨str, by simp, by simp [DataDict.getDataFromDict], rfl⟩
      · rw [update_of_ne same] at atHash
        rcases knows.entered hash other atHash with
          ⟨old, listed, entry, hashed⟩
        have inside := (List.getElem?_eq_some_iff.1 entry).1
        refine ⟨old, mem_append_left _ listed, ?_, hashed⟩
        rw [DataDict.getDataFromDict, getElem?_append_left inside]
        exact entry

theorem knows_after (strs : List String) : Knows hashFun strs (after hashFun strs) := by
  induction strs using reverseRecOn with
  | nil => exact .empty
  | append_singleton earlier last induction =>
    have next := induction.step last
    rwa [after, run_append]

theorem Knows.exists_index {interned : Interned}
    (knows : Knows hashFun strs interned) {str : String} (listed : str ∈ strs) :
    ∃ index, (str, index) ∈ interned.returned := by
  rw [← knows.asked] at listed
  rcases mem_map.1 listed with ⟨⟨_, index⟩, member, rfl⟩
  exact ⟨index, member⟩

/--
The dictionary is faithful if and only if no two different strings that it was
asked for share a hash.
-/
theorem faithful_after_iff (hashFun : String → UInt64) (strs : List String) :
    (after hashFun strs).Faithful ↔ ∀ first ∈ strs, ∀ second ∈ strs,
      hashFun first = hashFun second → first = second := by
  have knows : Knows hashFun strs (after hashFun strs) := knows_after strs
  constructor
  · intro faithful first firstListed second secondListed sameHash
    rcases knows.exists_index firstListed with ⟨index, firstReturned⟩
    rcases knows.exists_index secondListed with ⟨other, secondReturned⟩
    have firstKept := knows.kept _ firstReturned
    have secondKept := knows.kept _ secondReturned
    -- Both strings are looked up by one hash, so they have one index.
    have sameIndex : index = other := by
      rw [DataDict.getStringIndexNoWrite, sameHash] at firstKept
      exact some.inj (firstKept.symm.trans secondKept)
    subst sameIndex
    have firstEntry := faithful.1 _ firstReturned
    have secondEntry := faithful.1 _ secondReturned
    exact some.inj (firstEntry.symm.trans secondEntry)
  · intro noCollision
    have entries : ∀ entry ∈ (after hashFun strs).returned,
      (after hashFun strs).dict.getDataFromDict entry.2 = some entry.1 := by
      intro entry member
      have listed : entry.1 ∈ strs := by
        rw [← knows.asked]
        exact mem_map_of_mem member
      rcases knows.entered _ _ (knows.kept entry member) with
        ⟨str, strListed, atIndex, sameHash⟩
      rw [atIndex, noCollision str strListed entry.1 listed sameHash]
    refine ⟨entries, ?_⟩
    intro first firstMember second secondMember different sameIndex
    apply different
    have firstEntry := entries first firstMember
    rw [sameIndex, entries second secondMember] at firstEntry
    exact (some.inj firstEntry).symm

/-- Two strings with one hash. -/
theorem not_faithful_collision : ¬ (after (fun _ => 0) ["sched", "binder"]).Faithful := by
  rintro ⟨entries, -⟩
  have second := entries ("binder", 0) (by decide)
  exact absurd second (by decide)

end Interned

end SysAnalyzer.Filter
