import Mathlib

/-!
# Ordered maps

An ordered map is the list of its entries with increasing keys.  An iterator is
the number of an entry, and the length of the list is the end; `upperBound` is
the number of the first entry with a larger key.  `insert` leaves a key alone
that is there already.
-/

namespace SysAnalyzer.Foundation

open List

universe u v

@[ext]
structure OrderedMap (Key : Type u) (Value : Type v) [LinearOrder Key] where
  entries : List (Key × Value)
  ordered : entries.Pairwise fun earlier later => earlier.1 < later.1

namespace OrderedMap

variable {Key : Type u} {Value : Type v} [LinearOrder Key]
variable (map : OrderedMap Key Value)

def empty : OrderedMap Key Value := ⟨[], .nil⟩

def single (key : Key) (value : Value) : OrderedMap Key Value :=
  ⟨[(key, value)], pairwise_singleton _ _⟩

def find? (key : Key) : Option Value :=
  (map.entries.find? fun entry => decide (entry.1 = key)).map Prod.snd

variable {key : Key}

theorem find?_eq_some_iff {value : Value} :
    map.find? key = some value ↔ (key, value) ∈ map.entries := by
  rcases map with ⟨entries, ordered⟩
  unfold find?
  dsimp only
  induction entries with
  | nil => simp
  | cons entry rest induction =>
    rcases entry with ⟨first, firstValue⟩
    rw [pairwise_cons] at ordered
    by_cases same : first = key
    · subst same
      have notInRest : (first, value) ∉ rest := fun inRest =>
        lt_irrefl first (ordered.1 (first, value) inRest)
      simp [notInRest, eq_comm]
    · have next := induction ordered.2
      simp [same, Ne.symm same, next]

theorem find?_eq_none_iff : map.find? key = none ↔ ∀ entry ∈ map.entries, entry.1 ≠ key := by
  simp [find?]

theorem value_eq_of_mem {first second : Value} (ofFirst : (key, first) ∈ map.entries)
    (ofSecond : (key, second) ∈ map.entries) : first = second := by
  rw [← find?_eq_some_iff] at ofFirst ofSecond
  exact Option.some.inj (ofFirst.symm.trans ofSecond)

/-! ## Changes -/

/-- `std::map::insert`: a key that is there keeps its value. -/
def insert (key : Key) (value : Value) : OrderedMap Key Value :=
  if present : ∃ entry ∈ map.entries, entry.1 = key then map
  else
    { entries :=
        map.entries.takeWhile (fun entry => decide (entry.1 < key)) ++
          (key, value) ::
            map.entries.dropWhile fun entry => decide (entry.1 < key)
      ordered := by
        have ordered := map.ordered
        rw [← takeWhile_append_dropWhile
          (p := fun entry : Key × Value => decide (entry.1 < key))
          (l := map.entries), pairwise_append] at ordered
        have smaller : ∀ entry ∈
          map.entries.takeWhile fun entry => decide (entry.1 < key),
          entry.1 < key := by
          intro entry member
          simpa using mem_takeWhile_imp member
        have larger : ∀ entry ∈
          map.entries.dropWhile fun entry => decide (entry.1 < key),
          key < entry.1 := by
          intro entry member
          have inMap : entry ∈ map.entries := dropWhile_sublist _ |>.mem member
          have different : entry.1 ≠ key := fun same => present ⟨entry, inMap, same⟩
          refine lt_of_le_of_ne ?_ (Ne.symm different)
          cases rest : map.entries.dropWhile
            fun entry => decide (entry.1 < key) with
          | nil => simp [rest] at member
          | cons head tail =>
            have stops :=
              head?_dropWhile_not
                (fun entry : Key × Value => decide (entry.1 < key))
                map.entries
            rw [rest] at stops member
            have headLarge : key ≤ head.1 := by simpa using stops
            rw [rest, pairwise_cons] at ordered
            rcases mem_cons.1 member with rfl | inTail
            · exact headLarge
            · exact headLarge.trans
                (le_of_lt (ordered.2.1.1 entry inTail))
        refine pairwise_append.2 ⟨ordered.1, ?_, ?_⟩
        · exact pairwise_cons.2 ⟨larger, ordered.2.1⟩
        · intro entry before other ofRest
          rcases mem_cons.1 ofRest with rfl | behind
          · exact smaller entry before
          · exact ordered.2.2 entry before other behind }

theorem insert_of_mem {old : Value} (value : Value)
    (present : (key, old) ∈ map.entries) : map.insert key value = map :=
  dif_pos ⟨(key, old), present, rfl⟩

theorem mem_insert_of_not_mem (value : Value)
    (absent : ∀ entry ∈ map.entries, entry.1 ≠ key) (entry : Key × Value) :
    entry ∈ (map.insert key value).entries ↔ entry = (key, value) ∨ entry ∈ map.entries := by
  have notPresent : ¬ ∃ entry ∈ map.entries, entry.1 = key := by
    rintro ⟨other, member, same⟩
    exact absent other member same
  unfold insert
  rw [dif_neg notPresent, mem_append, mem_cons, or_left_comm,
    ← mem_append, takeWhile_append_dropWhile]

theorem length_insert_of_not_mem (value : Value) (absent : ∀ entry ∈ map.entries, entry.1 ≠ key) :
    (map.insert key value).entries.length = map.entries.length + 1 := by
  have notPresent : ¬ ∃ entry ∈ map.entries, entry.1 = key := by
    rintro ⟨other, member, same⟩
    exact absent other member same
  have parts :=
    congrArg List.length (takeWhile_append_dropWhile
      (p := fun entry : Key × Value => decide (entry.1 < key))
      (l := map.entries))
  rw [length_append] at parts
  unfold insert
  rw [dif_neg notPresent, length_append, length_cons]
  omega

theorem find?_insert (key other : Key) (value : Value) :
    (map.insert key value).find? other = if other = key then some ((map.find? key).getD value)
      else map.find? other := by
  cases kept : map.find? key with
  | some old =>
    rw [map.insert_of_mem value (map.find?_eq_some_iff.1 kept)]
    by_cases same : other = key
    · rw [if_pos same, same, kept]
      rfl
    · rw [if_neg same]
  | none =>
    have absent := map.find?_eq_none_iff.1 kept
    have entries := map.mem_insert_of_not_mem value absent
    by_cases same : other = key
    · rw [if_pos same, same, find?_eq_some_iff, entries]
      exact Or.inl rfl
    · rw [if_neg same]
      ext found
      rw [find?_eq_some_iff, entries, find?_eq_some_iff]
      constructor
      · rintro (new | old)
        · exact absurd (congrArg Prod.fst new) same
        · exact old
      · exact Or.inr

@[simp]
theorem find?_single (key other : Key) (value : Value) :
    (single key value).find? other = if other = key then some value else none := by
  by_cases same : other = key
  · subst same
    simp [find?, single]
  · simp [find?, single, same, Ne.symm same]

def eraseWhere (select : Key → Bool) : OrderedMap Key Value :=
  ⟨map.entries.filter fun entry => !select entry.1, map.ordered.filter _⟩

variable {entry : Key × Value}

theorem mem_eraseWhere {select : Key → Bool} :
    entry ∈ (map.eraseWhere select).entries ↔ entry ∈ map.entries ∧ select entry.1 = false := by
  simp [eraseWhere]

def erase (key : Key) : OrderedMap Key Value := map.eraseWhere fun other => decide (other = key)

theorem mem_erase : entry ∈ (map.erase key).entries ↔ entry ∈ map.entries ∧ entry.1 ≠ key := by
  simp [erase, mem_eraseWhere]

theorem length_erase_of_mem {value : Value} (present : (key, value) ∈ map.entries) :
    (map.erase key).entries.length + 1 = map.entries.length := by
  have nodup : map.entries.Nodup := by
    refine map.ordered.imp ?_
    intro first second less same
    rw [same] at less
    exact lt_irrefl second.1 less
  have removed : (map.entries.filter fun entry => decide (entry.1 = key)).Perm [(key, value)] := by
    refine (perm_ext_iff_of_nodup (nodup.filter _) (by simp)).2 ?_
    rintro ⟨other, otherValue⟩
    simp only [mem_filter, decide_eq_true_eq, mem_singleton, Prod.mk.injEq]
    constructor
    · rintro ⟨member, rfl⟩
      exact ⟨rfl, map.value_eq_of_mem member present⟩
    · rintro ⟨rfl, rfl⟩
      exact ⟨present, rfl⟩
  have together := (filter_append_perm (fun entry => decide (entry.1 = key)) map.entries).length_eq
  rw [length_append, removed.length_eq, add_comm] at together
  exact together

/-- `operator[]=`: a key that is there gets the new value. -/
def assign (key : Key) (value : Value) : OrderedMap Key Value := (map.erase key).insert key value

theorem find?_erase (key other : Key) :
    (map.erase key).find? other = if other = key then none else map.find? other := by
  by_cases same : other = key
  · rw [if_pos same, find?_eq_none_iff]
    intro entry member isOther
    exact (map.mem_erase.1 member).2 (isOther.trans same)
  · rw [if_neg same]
    ext found
    rw [find?_eq_some_iff, mem_erase, find?_eq_some_iff]
    exact and_iff_left same

theorem find?_assign (key other : Key) (value : Value) :
    (map.assign key value).find? other = if other = key then some value else map.find? other := by
  rw [assign, find?_insert, find?_erase, find?_erase, if_pos rfl]
  by_cases same : other = key
  · rw [if_pos same, if_pos same]
    rfl
  · rw [if_neg same, if_neg same, if_neg same]

/-! ## Iterators -/

theorem lt_of_getElem? {earlier later : Nat} {first second : Key × Value}
    (less : earlier < later) (atFirst : map.entries[earlier]? = some first)
    (atSecond : map.entries[later]? = some second) : first.1 < second.1 := by
  rcases List.getElem?_eq_some_iff.1 atFirst with ⟨inFirst, rfl⟩
  rcases List.getElem?_eq_some_iff.1 atSecond with ⟨inSecond, rfl⟩
  exact pairwise_iff_getElem.1 map.ordered earlier later inFirst inSecond less

theorem le_of_getElem? {earlier later : Nat} {first second : Key × Value}
    (less : earlier ≤ later) (atFirst : map.entries[earlier]? = some first)
    (atSecond : map.entries[later]? = some second) : first.1 ≤ second.1 := by
  rcases Nat.lt_or_eq_of_le less with before | rfl
  · exact le_of_lt (map.lt_of_getElem? before atFirst atSecond)
  · rw [atFirst, Option.some.injEq] at atSecond
    rw [atSecond]

/-- `std::map::upper_bound`: the first entry with a larger key. -/
def upperBound (key : Key) : Nat :=
  (map.entries.takeWhile fun entry => decide (entry.1 ≤ key)).length

theorem upperBound_le_length (key : Key) : map.upperBound key ≤ map.entries.length :=
  (takeWhile_sublist _).length_le

theorem lt_upperBound_iff {index : Nat} (here : map.entries[index]? = some entry) :
    index < map.upperBound key ↔ entry.1 ≤ key := by
  rcases map with ⟨entries, ordered⟩
  unfold upperBound
  dsimp only at here ⊢
  induction entries generalizing index with
  | nil => cases here
  | cons first rest induction =>
    rw [pairwise_cons] at ordered
    by_cases upTo : first.1 ≤ key
    · rw [takeWhile_cons, if_pos (decide_eq_true upTo), length_cons]
      cases index with
      | zero =>
        cases here
        exact iff_of_true (Nat.succ_pos _) upTo
      | succ index =>
        rw [Nat.add_lt_add_iff_right]
        exact induction ordered.2 here
    · have notTaken : ¬ decide (first.1 ≤ key) = true := by
        simpa using upTo
      rw [takeWhile_cons, if_neg notTaken]
      refine iff_of_false (Nat.not_lt_zero index) fun isUpTo => upTo ?_
      cases index with
      | zero =>
        cases here
        exact isUpTo
      | succ index =>
        have member : entry ∈ rest := mem_of_getElem? here
        exact (le_of_lt (ordered.1 entry member)).trans isUpTo

/-- The entry before the upper bound, when there is one. -/
def lastUpTo (key : Key) : Option (Key × Value) :=
  if 0 < map.upperBound key then map.entries[map.upperBound key - 1]?
  else none

theorem lastUpTo_eq_some_iff : map.lastUpTo key = some entry ↔ entry ∈ map.entries ∧ entry.1 ≤ key ∧
    ∀ other ∈ map.entries, other.1 ≤ key → other.1 ≤ entry.1 := by
  have bounded := map.upperBound_le_length key
  unfold lastUpTo
  constructor
  · intro isLast
    split at isLast
    · next positive =>
        refine ⟨mem_of_getElem? isLast, (map.lt_upperBound_iff isLast).1 (by omega), ?_⟩
        intro other member upTo
        rcases getElem?_of_mem member with ⟨index, atOther⟩
        have before := (map.lt_upperBound_iff atOther).2 upTo
        exact map.le_of_getElem? (by omega) atOther isLast
    · cases isLast
  · rintro ⟨member, upTo, isLast⟩
    rcases getElem?_of_mem member with ⟨index, atEntry⟩
    have before := (map.lt_upperBound_iff atEntry).2 upTo
    have inRange : map.upperBound key - 1 < map.entries.length := by omega
    have atLast := getElem?_eq_getElem inRange
    have lastUpTo : map.entries[map.upperBound key - 1].1 ≤ key :=
      (map.lt_upperBound_iff atLast).1 (by omega)
    have upToEntry := isLast _ (getElem_mem inRange) lastUpTo
    have sameIndex : index = map.upperBound key - 1 := by
      by_contra different
      exact absurd (map.lt_of_getElem? (by omega) atEntry atLast) (not_lt_of_ge upToEntry)
    rw [if_pos (by omega), ← sameIndex, atEntry]

theorem lastUpTo_eq_none_iff : map.lastUpTo key = none ↔ ∀ entry ∈ map.entries, key < entry.1 := by
  have bounded := map.upperBound_le_length key
  unfold lastUpTo
  constructor
  · intro isNone entry member
    rcases getElem?_of_mem member with ⟨index, atEntry⟩
    by_contra upTo
    have before := (map.lt_upperBound_iff atEntry).2 (le_of_not_gt upTo)
    rw [if_pos (by omega), getElem?_eq_none_iff] at isNone
    omega
  · intro allLarger
    have zero : map.upperBound key = 0 := by
      by_contra positive
      have inRange : 0 < map.entries.length := by omega
      have atFirst := getElem?_eq_getElem inRange
      have upTo : map.entries[0].1 ≤ key :=
        (map.lt_upperBound_iff atFirst).1 (pos_of_ne_zero positive)
      exact absurd (allLarger _ (getElem_mem inRange)) (not_lt_of_ge upTo)
    rw [zero]
    rfl

def lastUpToOrFirst (key : Key) : Option (Key × Value) := map.entries[map.upperBound key - 1]?

/--
The entry is the last one with a key up to this one; when all keys are larger,
it is the one with the smallest key.
-/
theorem lastUpToOrFirst_spec (found : map.lastUpToOrFirst key = some entry) :
    entry ∈ map.entries ∧ ((entry.1 ≤ key ∧
      ∀ other ∈ map.entries, other.1 ≤ key → other.1 ≤ entry.1) ∨
      (key < entry.1 ∧ ∀ other ∈ map.entries, entry.1 ≤ other.1)) := by
  have member : entry ∈ map.entries := mem_of_getElem? found
  refine ⟨member, ?_⟩
  by_cases positive : 0 < map.upperBound key
  · have isLast : map.lastUpTo key = some entry := by
      rw [lastUpTo, if_pos positive]
      exact found
    exact Or.inl (map.lastUpTo_eq_some_iff.1 isLast).2
  · have isNone : map.lastUpTo key = none := by
      rw [lastUpTo, if_neg positive]
    have allLarger := map.lastUpTo_eq_none_iff.1 isNone
    refine Or.inr ⟨allLarger entry member, ?_⟩
    intro other inMap
    rcases getElem?_of_mem inMap with ⟨index, atOther⟩
    have isFirst : map.upperBound key - 1 ≤ index := by omega
    exact map.le_of_getElem? isFirst found atOther

theorem lastUpToOrFirst_isSome (key : Key) (nonempty : map.entries ≠ []) :
    ∃ entry, map.lastUpToOrFirst key = some entry := by
  have bounded := map.upperBound_le_length key
  have positive := length_pos_iff.2 nonempty
  exact ⟨_, getElem?_eq_getElem (by omega)⟩

/-- `std::map::lower_bound`: the first entry with a key from this one on. -/
def lowerBound (key : Key) : Nat := map.entries.findIdx fun entry => decide (key ≤ entry.1)

def firstFrom (key : Key) : Option (Key × Value) := map.entries[map.lowerBound key]?

theorem firstFrom_eq_none_iff :
    map.firstFrom key = none ↔ ∀ entry ∈ map.entries, entry.1 < key := by
  rw [firstFrom, lowerBound, ← find?_eq_getElem?_findIdx, find?_eq_none]
  simp

theorem firstFrom_eq_some_iff :
    map.firstFrom key = some entry ↔ entry ∈ map.entries ∧ key ≤ entry.1 ∧
      ∀ other ∈ map.entries, key ≤ other.1 → entry.1 ≤ other.1 := by
  rw [firstFrom, lowerBound, ← find?_eq_getElem?_findIdx, find?_eq_some_iff_append]
  constructor
  · rintro ⟨isFrom, before, after, split, smaller⟩
    have ordered := map.ordered
    rw [split, pairwise_append, pairwise_cons] at ordered
    have member : entry ∈ map.entries := by
      rw [split]
      simp
    refine ⟨member, of_decide_eq_true isFrom, ?_⟩
    intro other inMap fromKey
    rw [split, mem_append, mem_cons] at inMap
    rcases inMap with inBefore | rfl | inAfter
    · exact absurd fromKey (by simpa using smaller other inBefore)
    · exact le_rfl
    · exact le_of_lt (ordered.2.1.1 other inAfter)
  · rintro ⟨member, isFrom, isFirst⟩
    rcases append_of_mem member with ⟨before, after, split⟩
    have ordered := map.ordered
    rw [split, pairwise_append] at ordered
    refine ⟨decide_eq_true isFrom, before, after, split, ?_⟩
    intro other inBefore
    have less : other.1 < entry.1 := ordered.2.2 other inBefore entry mem_cons_self
    have inMap : other ∈ map.entries := by
      rw [split]
      exact mem_append_left _ inBefore
    have notFrom : ¬ key ≤ other.1 := fun fromKey =>
      absurd less (not_lt_of_ge (isFirst other inMap fromKey))
    simpa using notFrom

end OrderedMap

end SysAnalyzer.Foundation
