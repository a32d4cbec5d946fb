import SysAnalyzer.Base.TsCommon
import SysAnalyzer.Foundation.OrderedMap
import SysAnalyzer.Foundation.Run

/-!
# The symbols of the kernel

`RegisterFunc` enters the name of the function at an address, in the map of the
filter and, the first time, in the symbols table.  `GetFunc` takes an address
that is no start of a function to the map's lower bound, which is the function
behind it and not the one it lies in.
-/

namespace SysAnalyzer.Filter

open Foundation List

structure SymbolRow where
  funcName : UInt64
  addr : UInt64

/-- `SymbolsFilter` with the table it writes. -/
structure SymbolsFilter where
  symbolsMap : OrderedMap UInt64 UInt64
  symbolsData : List SymbolRow

namespace SymbolsFilter

def empty : SymbolsFilter := ⟨.empty, []⟩

/-- `RegisterFunc`: a row is inserted for a new address only. -/
def registerFunc (filter : SymbolsFilter) (addr funcNameDictIndex : UInt64) : SymbolsFilter :=
  match filter.symbolsMap.find? addr with
  | none =>
    { symbolsMap := filter.symbolsMap.insert addr funcNameDictIndex
      symbolsData := filter.symbolsData ++ [⟨funcNameDictIndex, addr⟩] }
  | some _ =>
    { filter with
      symbolsMap := filter.symbolsMap.assign addr funcNameDictIndex }

def getFunc (filter : SymbolsFilter) (addr : UInt64) : UInt64 :=
  match filter.symbolsMap.find? addr with
  | none =>
    match filter.symbolsMap.firstFrom addr with
    | none => invalidUint64
    | some lastAddr => lastAddr.2
  | some name => name

theorem find?_registerFunc (filter : SymbolsFilter) (addr other name : UInt64) :
    (filter.registerFunc addr name).symbolsMap.find? other =
      if other = addr then some name else filter.symbolsMap.find? other := by
  cases known : filter.symbolsMap.find? addr with
  | none => simp only [registerFunc, known, OrderedMap.find?_insert,
    Option.getD_none]
  | some old => simp only [registerFunc, known, OrderedMap.find?_assign]

theorem mem_symbolsData_registerFunc
    (filter : SymbolsFilter) (addr name : UInt64) (row : SymbolRow) :
    row ∈ (filter.registerFunc addr name).symbolsData ↔ row ∈ filter.symbolsData ∨
      (filter.symbolsMap.find? addr = none ∧ row = ⟨name, addr⟩) := by
  cases known : filter.symbolsMap.find? addr with
  | none => simp [registerFunc, known]
  | some old => simp [registerFunc, known]

/-- The calls of `RegisterFunc` on a filter as it is constructed. -/
def after (calls : List (UInt64 × UInt64)) : SymbolsFilter :=
  run (fun filter call => filter.registerFunc call.1 call.2) empty calls

def namesOf (calls : List (UInt64 × UInt64)) (addr : UInt64) : List UInt64 :=
  (calls.filter fun call => decide (call.1 = addr)).map Prod.snd

variable {name : UInt64}

theorem mem_namesOf {calls : List (UInt64 × UInt64)} {addr : UInt64} :
    name ∈ namesOf calls addr ↔ (addr, name) ∈ calls := by
  constructor
  · intro member
    rcases mem_map.1 member with ⟨⟨other, ofOther⟩, kept, rfl⟩
    rcases mem_filter.1 kept with ⟨inCalls, same⟩
    rw [← of_decide_eq_true same]
    exact inCalls
  · intro member
    exact mem_map.2 ⟨(addr, name), mem_filter.2 ⟨member, decide_eq_true rfl⟩, rfl⟩

theorem namesOf_concat (calls : List (UInt64 × UInt64)) (addr name other : UInt64) :
    namesOf (calls ++ [(addr, name)]) other = if other = addr then namesOf calls other ++ [name]
      else namesOf calls other := by
  by_cases same : other = addr
  · simp [namesOf, same]
  · simp [namesOf, same, Ne.symm same]

theorem namesOf_eq_nil_iff {calls : List (UInt64 × UInt64)} {addr : UInt64} :
    namesOf calls addr = [] ↔ ∀ call ∈ calls, call.1 ≠ addr := by
  simp [namesOf]

/--
The map has the last name of every registered address, the table the first.
-/
structure Records (calls : List (UInt64 × UInt64)) (filter : SymbolsFilter) :
    Prop where
  map : ∀ addr, filter.symbolsMap.find? addr = (namesOf calls addr).getLast?
  rows : ∀ row, row ∈ filter.symbolsData ↔ (namesOf calls row.addr).head? = some row.funcName

theorem Records.register {calls : List (UInt64 × UInt64)} {filter : SymbolsFilter}
    (records : Records calls filter) (addr name : UInt64) :
    Records (calls ++ [(addr, name)]) (filter.registerFunc addr name) where
  map other := by
    rw [find?_registerFunc, namesOf_concat, records.map]
    by_cases same : other = addr
    · rw [if_pos same, if_pos same, getLast?_concat]
    · rw [if_neg same, if_neg same]
  rows row := by
    rw [mem_symbolsData_registerFunc, namesOf_concat, records.rows,
      records.map, getLast?_eq_none_iff]
    rcases row with ⟨funcName, rowAddr⟩
    by_cases same : rowAddr = addr
    · subst same
      rw [if_pos rfl]
      cases namesOf calls rowAddr with
      | nil => simp [eq_comm]
      | cons first rest => simp
    · simp [same]

theorem after_records (calls : List (UInt64 × UInt64)) : Records calls (after calls) := by
  induction calls using reverseRecOn with
  | nil =>
    constructor
    · intro addr
      rfl
    · intro row
      exact iff_of_false (by simp [after, run, empty]) (by simp [namesOf])
  | append_singleton calls call induction =>
    rw [after, run_append]
    exact induction.register call.1 call.2

/-! ## Lookups -/

/--
The last name of the registered address that is nearest to this one among
those that come before it in an order, and `INVALID_UINT64` if none does.
-/
def NearestName (isBefore : UInt64 → UInt64 → Prop)
    (calls : List (UInt64 × UInt64)) (addr name : UInt64) : Prop :=
  (∃ nearest, (namesOf calls nearest).getLast? = some name ∧ isBefore nearest addr ∧
    ∀ call ∈ calls, isBefore call.1 addr → isBefore call.1 nearest) ∨
    ((∀ call ∈ calls, ¬ isBefore call.1 addr) ∧ name = invalidUint64)

/-- The name of the greatest registered address that is not above this one. -/
def IsName (calls : List (UInt64 × UInt64)) (addr name : UInt64) : Prop :=
  NearestName (· ≤ ·) calls addr name

/-- The name of the least registered address that is not below this one. -/
def IsNextName (calls : List (UInt64 × UInt64)) (addr name : UInt64) : Prop :=
  NearestName (· ≥ ·) calls addr name

theorem exists_call_of_getLast? {calls : List (UInt64 × UInt64)} {addr : UInt64}
    (isLast : (namesOf calls addr).getLast? = some name) : (addr, name) ∈ calls :=
  mem_namesOf.1 (mem_of_getLast? isLast)

theorem NearestName.unique {isBefore : UInt64 → UInt64 → Prop}
    (antisymmetric : ∀ first second, isBefore first second → isBefore second first → first = second)
    {calls : List (UInt64 × UInt64)} {addr first second : UInt64}
    (isFirst : NearestName isBefore calls addr first)
    (isSecond : NearestName isBefore calls addr second) : first = second := by
  rcases isFirst with ⟨one, named, before, nearest⟩ | ⟨noneBefore, rfl⟩
  · have oneCall := exists_call_of_getLast? named
    rcases isSecond with ⟨two, named', before', nearest'⟩ | ⟨noneBefore, -⟩
    · have twoCall := exists_call_of_getLast? named'
      have same : one = two := by
        apply antisymmetric
        · exact nearest' _ oneCall before
        · exact nearest _ twoCall before'
      rw [← same, named] at named'
      exact Option.some.inj named'
    · exact absurd before (noneBefore _ oneCall)
  · rcases isSecond with ⟨two, named', before', -⟩ | ⟨-, rfl⟩
    · exact absurd before' (noneBefore _ (exists_call_of_getLast? named'))
    · rfl

variable {calls : List (UInt64 × UInt64)} {addr : UInt64}

theorem getFunc_of_getLast? (isLast : (namesOf calls addr).getLast? = some name) :
    (after calls).getFunc addr = name := by
  have known := (after_records calls).map addr
  rw [isLast] at known
  simp only [getFunc, known]

theorem isName_getFunc (registered : ∃ call ∈ calls, call.1 = addr) :
    IsName calls addr ((after calls).getFunc addr) := by
  rcases registered with ⟨⟨here, name⟩, member, rfl⟩
  have named : namesOf calls here ≠ [] := ne_nil_of_mem (mem_namesOf.2 member)
  have isLast := getLast?_eq_getLast_of_ne_nil named
  rw [getFunc_of_getLast? isLast]
  exact Or.inl ⟨here, isLast, le_rfl, fun _ _ upTo => upTo⟩

theorem isNextName_getFunc (unknown : ∀ call ∈ calls, call.1 ≠ addr) :
    IsNextName calls addr ((after calls).getFunc addr) := by
  have records := after_records calls
  have missing := records.map addr
  rw [namesOf_eq_nil_iff.2 unknown, getLast?_nil] at missing
  have keyOf : ∀ call ∈ calls, ∃ entry ∈ (after calls).symbolsMap.entries, entry.1 = call.1 := by
    intro call member
    have named : namesOf calls call.1 ≠ [] := ne_nil_of_mem (mem_namesOf.2 member)
    have found := records.map call.1
    rw [getLast?_eq_getLast_of_ne_nil named, OrderedMap.find?_eq_some_iff] at found
    exact ⟨_, found, rfl⟩
  have callOf : ∀ entry ∈ (after calls).symbolsMap.entries,
    (namesOf calls entry.1).getLast? = some entry.2 := by
    intro entry member
    rw [← records.map, OrderedMap.find?_eq_some_iff]
    exact member
  cases found : (after calls).symbolsMap.firstFrom addr with
  | none =>
    have answer : (after calls).getFunc addr = invalidUint64 := by
      simp only [getFunc, missing, found]
    rw [OrderedMap.firstFrom_eq_none_iff] at found
    refine Or.inr ⟨?_, answer⟩
    intro call member
    rcases keyOf call member with ⟨entry, inMap, same⟩
    rw [← same]
    exact not_le_of_gt (found entry inMap)
  | some next =>
    have answer : (after calls).getFunc addr = next.2 := by simp only [getFunc, missing, found]
    rw [OrderedMap.firstFrom_eq_some_iff] at found
    rcases found with ⟨member, isFrom, isFirst⟩
    rw [answer]
    refine Or.inl ⟨next.1, callOf next member, isFrom, ?_⟩
    intro call inCalls fromAddr
    rcases keyOf call inCalls with ⟨entry, inMap, same⟩
    rw [← same] at fromAddr ⊢
    exact isFirst entry inMap fromAddr

/-- The answer for an address is its name, and the rows have the answers. -/
def LookupRight (calls : List (UInt64 × UInt64)) (addr : UInt64) : Prop :=
  IsName calls addr ((after calls).getFunc addr) ∧ ∀ row ∈ (after calls).symbolsData,
    row.funcName = (after calls).getFunc row.addr

theorem isName_getFunc_iff :
    IsName calls addr ((after calls).getFunc addr) ↔ (∃ call ∈ calls, call.1 = addr) ∨
      ∃ name, IsName calls addr name ∧ IsNextName calls addr name := by
  by_cases registered : ∃ call ∈ calls, call.1 = addr
  · exact iff_of_true (isName_getFunc registered) (Or.inl registered)
  · have unknown : ∀ call ∈ calls, call.1 ≠ addr := by
      intro call member same
      exact registered ⟨call, member, same⟩
    have isNext := isNextName_getFunc unknown
    constructor
    · intro isName
      exact Or.inr ⟨_, isName, isNext⟩
    · rintro (known | ⟨name, isName, isNextName⟩)
      · exact absurd known registered
      · rw [isNext.unique (fun _ _ up down => le_antisymm down up) isNextName]
        exact isName

theorem rows_answer_iff :
    (∀ row ∈ (after calls).symbolsData, row.funcName = (after calls).getFunc row.addr) ↔
      ∀ other, (namesOf calls other).head? = (namesOf calls other).getLast? := by
  have records := after_records calls
  constructor
  · intro answers other
    cases names : namesOf calls other with
    | nil => rfl
    | cons first rest =>
      have isFirst : (namesOf calls other).head? = some first := by rw [names, head?_cons]
      have isLast := getLast?_eq_getLast_of_ne_nil (ne_nil_of_mem (mem_of_head? isFirst))
      have answer := answers ⟨first, other⟩ ((records.rows _).2 isFirst)
      rw [getFunc_of_getLast? isLast] at answer
      rw [← names, isFirst, isLast, ← answer]
  · intro unchanged row member
    have isFirst := (records.rows row).1 member
    rw [unchanged] at isFirst
    exact (getFunc_of_getLast? isFirst).symm

/--
A lookup is right exactly when the address is registered, or the names of its
two neighbours are the same, and no address is given another name later.
-/
theorem lookupRight_iff (calls : List (UInt64 × UInt64)) (addr : UInt64) :
    LookupRight calls addr ↔ ((∃ call ∈ calls, call.1 = addr) ∨
      ∃ name, IsName calls addr name ∧ IsNextName calls addr name) ∧
      ∀ other, (namesOf calls other).head? = (namesOf calls other).getLast? :=
  and_congr isName_getFunc_iff rows_answer_iff

/-- An address inside the first of two functions is given the second one. -/
theorem not_lookupRight_between : ¬ LookupRight [(10, 1), (20, 2)] 15 := by
  rintro ⟨isName, -⟩
  have answer : (after [(10, 1), (20, 2)]).getFunc 15 = 2 := by decide
  rw [answer] at isName
  have nearest : ∀ call ∈ [((10 : UInt64), (1 : UInt64)), (20, 2)], call.1 ≤ 15 → call.1 ≤ 10 := by
    intro call member before
    rcases mem_pair.1 member with rfl | rfl
    · exact le_refl _
    · exact absurd before (by decide)
  have expected : IsName [(10, 1), (20, 2)] 15 1 := Or.inl ⟨10, by decide, by decide, nearest⟩
  have same := isName.unique (fun _ _ => le_antisymm) expected
  exact absurd same (by decide)

end SymbolsFilter

end SysAnalyzer.Filter
