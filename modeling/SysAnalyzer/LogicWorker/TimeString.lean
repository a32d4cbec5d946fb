import SysAnalyzer.LogicWorker.NativeCallTree

/-!
# Printed times

`getTimeString` takes the units of a time out of it one after the other.  The
minutes are taken from the whole time and not from what the hours have left, so
a time with hours and minutes has nothing left for its seconds and below.

Times are below `2 ^ 53`: there `Math.floor` of a quotient is the integer
quotient.
-/

namespace SysAnalyzer.LogicWorker

open List

inductive TimeUnit where
  | hour
  | minute
  | second
  | millisecond
  | microsecond
  | nanosecond
  deriving DecidableEq

namespace TimeUnit

def size : TimeUnit → Int
  | hour => 3600000000000
  | minute => 60000000000
  | second => 1000000000
  | millisecond => 1000000
  | microsecond => 1000
  | nanosecond => 1

/-- The text behind the number. -/
def label : TimeUnit → List Char
  | hour => ['h']
  | minute => ['m']
  | second => ['s']
  | millisecond => ['m', 's']
  | microsecond => ['μ', 's']
  | nanosecond => ['n', 's']

/-- A number of units stays below this; there is no bound on hours. -/
def limit : TimeUnit → Option Int
  | hour => none
  | minute | second => some 60
  | millisecond | microsecond | nanosecond => some 1000

end TimeUnit

/-- The units printed so far, and `currentNs`. -/
structure TimeRest where
  printed : List (Int × TimeUnit)
  currentNs : Int

/-- A unit is printed; its nanoseconds are those that it has in `source`. -/
def TimeRest.takeUnit (rest : TimeRest) (unit : TimeUnit) (source : Int) : TimeRest :=
  if rest.currentNs ≥ unit.size then
    { printed := rest.printed ++ [(rest.currentNs / unit.size, unit)]
      currentNs := rest.currentNs - source / unit.size * unit.size }
  else rest

def TimeRest.takeSeconds (rest : TimeRest) : List (Int × TimeUnit) :=
  let rest := rest.takeUnit .second rest.currentNs
  let rest := rest.takeUnit .millisecond rest.currentNs
  let rest := rest.takeUnit .microsecond rest.currentNs
  if rest.currentNs > 0 then rest.printed ++ [(rest.currentNs, .nanosecond)]
  else rest.printed

/-- The units that `getTimeString` prints. -/
def timeUnits (ns : Int) : List (Int × TimeUnit) :=
  let rest := TimeRest.takeUnit ⟨[], ns⟩ .hour ns
  let rest := rest.takeUnit .minute ns
  rest.takeSeconds

def unitText (part : Int × TimeUnit) : List Char :=
  (toString part.1).toList ++ part.2.label ++ [' ']

def getTimeString (ns : Int) : List Char :=
  let res := (timeUnits ns).flatMap unitText
  if res = [] then (toString ns).toList else res

def Utils.getTimeString (ns : Int) : List Char := LogicWorker.getTimeString ns

def InRange (part : Int × TimeUnit) : Prop := 0 ≤ part.1 ∧ ∀ limit ∈ part.2.limit, part.1 < limit

def nanoseconds (part : Int × TimeUnit) : Int := part.1 * part.2.size

structure Faithful (ns : Int) (printed : List (Int × TimeUnit)) : Prop where
  inRange : ∀ part ∈ printed, InRange part
  addsUp : (printed.map nanoseconds).sum = ns

/-- A time without hours, without minutes, or in whole minutes. -/
def Clear (ns : Int) : Prop :=
  ns < TimeUnit.hour.size ∨ ns % TimeUnit.hour.size < TimeUnit.minute.size ∨
    ns % TimeUnit.minute.size = 0

namespace TimeRest

variable (rest : TimeRest)

/-- What is printed and what is left. -/
def total : Int := (rest.printed.map nanoseconds).sum + rest.currentNs

variable (unit : TimeUnit)

theorem total_takeUnit : (rest.takeUnit unit rest.currentNs).total = rest.total := by
  rw [takeUnit]
  split_ifs
  · simp [total, nanoseconds]
  · rfl

theorem currentNs_takeUnit (notNegative : 0 ≤ rest.currentNs) :
    (rest.takeUnit unit rest.currentNs).currentNs = rest.currentNs % unit.size := by
  rw [takeUnit]
  split_ifs with enough
  · rw [Int.emod_def, Int.mul_comm]
  · exact (Int.emod_eq_of_lt notNegative (by omega)).symm

theorem size_pos : 0 < unit.size := by cases unit <;> decide

theorem takeUnit_of_negative (source : Int) (negative : rest.currentNs < 0) :
    rest.takeUnit unit source = rest := by
  have positive := size_pos unit
  rw [takeUnit, if_neg (by omega)]

theorem inRange_takeUnit {rest : TimeRest} (unit : TimeUnit) (source : Int)
    (inRange : ∀ part ∈ rest.printed, InRange part)
    (below : ∀ limit ∈ unit.limit, rest.currentNs < limit * unit.size) :
    ∀ part ∈ (rest.takeUnit unit source).printed, InRange part := by
  have positive := size_pos unit
  rw [takeUnit]
  split_ifs with enough
  · rw [forall_mem_append, forall_mem_singleton]
    refine ⟨inRange, Int.ediv_nonneg (by omega) (by omega), ?_⟩
    intro limit isLimit
    exact Int.ediv_lt_of_lt_mul positive (below limit isLimit)
  · exact inRange

theorem takeUnit_invariant {rest : TimeRest} (unit : TimeUnit) (notNegative : 0 ≤ rest.currentNs)
    (inRange : ∀ part ∈ rest.printed, InRange part)
    (below : ∀ limit ∈ unit.limit, rest.currentNs < limit * unit.size) :
    0 ≤ (rest.takeUnit unit rest.currentNs).currentNs ∧
      (rest.takeUnit unit rest.currentNs).currentNs < unit.size ∧
      ∀ part ∈ (rest.takeUnit unit rest.currentNs).printed, InRange part := by
  have positive := size_pos unit
  rw [currentNs_takeUnit _ _ notNegative]
  exact ⟨Int.emod_nonneg _ (by omega), Int.emod_lt_of_pos _ positive,
    inRange_takeUnit _ _ inRange below⟩

theorem faithful_takeSeconds {rest : TimeRest} (notNegative : 0 ≤ rest.currentNs)
    (below : rest.currentNs < TimeUnit.minute.size)
    (inRange : ∀ part ∈ rest.printed, InRange part) : Faithful rest.total rest.takeSeconds := by
  rcases takeUnit_invariant .second notNegative inRange
    (by rintro _ ⟨⟩; exact below) with ⟨notNegative₁, below₁, inRange₁⟩
  rcases takeUnit_invariant .millisecond notNegative₁ inRange₁
    (by rintro _ ⟨⟩; exact below₁) with ⟨notNegative₂, below₂, inRange₂⟩
  rcases takeUnit_invariant .microsecond notNegative₂ inRange₂
    (by rintro _ ⟨⟩; exact below₂) with ⟨notNegative₃, below₃, inRange₃⟩
  rw [← total_takeUnit rest .second, ← total_takeUnit _ .millisecond,
    ← total_takeUnit _ .microsecond]
  rw [takeSeconds]
  generalize takeUnit _ TimeUnit.microsecond _ = last at *
  split_ifs with more
  · constructor
    · rw [forall_mem_append, forall_mem_singleton]
      refine ⟨inRange₃, notNegative₃, ?_⟩
      rintro _ ⟨⟩
      exact below₃
    · simp [total, nanoseconds, TimeUnit.size]
  · refine ⟨inRange₃, ?_⟩
    rw [total]
    omega

theorem takeSeconds_of_negative {rest : TimeRest}
    (negative : rest.currentNs < 0) : rest.takeSeconds = rest.printed := by
  simp only [takeSeconds, takeUnit_of_negative _ _ _ negative]
  rw [if_neg (by omega)]

end TimeRest

theorem faithful_timeUnits_iff (ns : Nat) : Faithful ns (timeUnits ns) ↔ Clear ns := by
  have notNegative : 0 ≤ (ns : Int) := Int.natCast_nonneg ns
  rcases TimeRest.takeUnit_invariant .hour
    (show 0 ≤ TimeRest.currentNs ⟨[], ns⟩ from notNegative) (by simp) (by rintro _ ⟨⟩) with ⟨notNegative₁, below₁, inRange₁⟩
  have left := TimeRest.currentNs_takeUnit ⟨[], ns⟩ .hour notNegative
  have total := TimeRest.total_takeUnit ⟨[], ns⟩ .hour
  rw [timeUnits]
  dsimp only at *
  generalize TimeRest.takeUnit _ TimeUnit.hour _ = rest at *
  have inRange₂ := TimeRest.inRange_takeUnit .minute ns inRange₁
    (by rintro _ ⟨⟩; exact below₁)
  have wholeHours := Int.mul_ediv_add_emod ns TimeUnit.hour.size
  by_cases minutes : rest.currentNs < TimeUnit.minute.size
  · -- there are no minutes to take
    have same : rest.takeUnit .minute ns = rest := by rw [TimeRest.takeUnit, if_neg (by omega)]
    rw [same]
    refine iff_of_true ?_ (.inr (.inl (left ▸ minutes)))
    have faithful := TimeRest.faithful_takeSeconds notNegative₁ minutes inRange₁
    rwa [total, TimeRest.total, map_nil, sum_nil, Int.zero_add] at faithful
  by_cases hours : (ns : Int) < TimeUnit.hour.size
  · -- the minutes are taken from all that is left
    rw [Int.emod_eq_of_lt notNegative hours] at left
    rcases TimeRest.takeUnit_invariant .minute notNegative₁ inRange₁
      (by rintro _ ⟨⟩; exact below₁) with ⟨notNegative₂, below₂, -⟩
    have minutesTotal := TimeRest.total_takeUnit rest .minute
    rw [left] at notNegative₂ below₂ minutesTotal
    have faithful := TimeRest.faithful_takeSeconds notNegative₂ below₂ inRange₂
    rw [minutesTotal, total, TimeRest.total, map_nil, sum_nil, Int.zero_add]
      at faithful
    exact iff_of_true faithful (.inl hours)
  · -- the hours are taken a second time
    rw [TimeRest.total, TimeRest.total, map_nil, sum_nil] at total
    rw [Clear, or_iff_right hours, ← left, or_iff_right minutes]
    rw [TimeRest.takeUnit, if_pos (by omega)] at inRange₂ ⊢
    simp only [TimeUnit.size] at *
    rw [TimeRest.takeSeconds_of_negative (by dsimp only; omega)]
    have added : ((rest.printed ++ [(rest.currentNs / 60000000000,
      TimeUnit.minute)]).map nanoseconds).sum =
      (rest.printed.map nanoseconds).sum + rest.currentNs / 60000000000 * 60000000000 := by
      simp [nanoseconds, TimeUnit.size]
    constructor
    · rintro ⟨-, addsUp⟩
      rw [added] at addsUp
      omega
    · intro whole
      exact ⟨inRange₂, by rw [added]; omega⟩

theorem isDigit_of_mem_repr {number : Nat} {character : Char}
    (member : character ∈ (toString number).toList) : character.isDigit = true := by
  rw [Nat.toString_eq_repr, Nat.toList_repr] at member
  exact Nat.isDigit_of_mem_toDigits (by decide) (by decide) member

theorem takeWhile_isDigit (number : Nat) (unit : TimeUnit) :
    ((toString number).toList ++ unit.label).takeWhile Char.isDigit = (toString number).toList := by
  rw [takeWhile_append_of_pos fun _ => isDigit_of_mem_repr]
  cases unit <;> simp [TimeUnit.label]

theorem blank_not_mem (number : Nat) (unit : TimeUnit) :
    ' ' ∉ (toString number).toList ++ unit.label := by
  rw [mem_append, not_or]
  refine ⟨fun member => absurd (isDigit_of_mem_repr member) (by decide), ?_⟩
  cases unit <;> decide

theorem label_injective : Function.Injective TimeUnit.label := by
  intro unit other same
  cases unit <;> cases other <;> first | rfl | cases same

theorem unitText_inj {first second : Int × TimeUnit} {rest others : List Char}
    (ofFirst : 0 ≤ first.1) (ofSecond : 0 ≤ second.1)
    (same : unitText first ++ rest = unitText second ++ others) :
    first = second ∧ rest = others := by
  rcases first with ⟨number, unit⟩
  rcases second with ⟨other, otherUnit⟩
  lift number to Nat using ofFirst
  lift other to Nat using ofSecond
  simp only [unitText, append_assoc _ [' '], singleton_append] at same
  rcases parts_of_separator (blank_not_mem number unit)
    (blank_not_mem other otherUnit) same with ⟨parts, rests⟩
  have digits := congrArg (takeWhile Char.isDigit) parts
  rw [takeWhile_isDigit, takeWhile_isDigit] at digits
  rw [digits, append_cancel_left_eq] at parts
  rw [label_injective parts, Nat.repr_injective (String.toList_inj.1 digits)]
  exact ⟨rfl, rests⟩

theorem flatMap_unitText_inj {printed others : List (Int × TimeUnit)}
    (ofPrinted : ∀ part ∈ printed, 0 ≤ part.1) (ofOthers : ∀ part ∈ others, 0 ≤ part.1)
    (same : printed.flatMap unitText = others.flatMap unitText) : printed = others := by
  induction printed generalizing others with
  | nil =>
    cases others with
    | nil => rfl
    | cons other others => simp [unitText] at same
  | cons part printed induction =>
    cases others with
    | nil => simp [unitText] at same
    | cons other others =>
      rw [forall_mem_cons] at ofPrinted ofOthers
      rw [flatMap_cons, flatMap_cons] at same
      rcases unitText_inj ofPrinted.1 ofOthers.1 same with ⟨rfl, behind⟩
      rw [induction ofPrinted.2 ofOthers.2 behind]

theorem flatMap_unitText_ne (printed : List (Int × TimeUnit)) (number : Nat) :
    printed.flatMap unitText ≠ (toString number).toList := by
  intro same
  cases printed with
  | nil => exact Nat.repr_ne_empty (String.toList_inj.1 same.symm)
  | cons part printed =>
    have blank : ' ' ∈ (toString number).toList := by
      rw [← same, flatMap_cons, unitText]
      simp
    exact absurd (isDigit_of_mem_repr blank) (by decide)

theorem injOn_getTimeString : Set.InjOn (fun ns : Nat => getTimeString ns) {ns | Clear ns} := by
  intro ns clear other otherClear same
  have faithful := (faithful_timeUnits_iff ns).2 clear
  have otherFaithful := (faithful_timeUnits_iff other).2 otherClear
  simp only [getTimeString] at same
  split_ifs at same with none otherNone otherNone
  · exact Nat.repr_injective (String.toList_inj.1 same)
  · exact absurd same.symm (flatMap_unitText_ne _ ns)
  · exact absurd same (flatMap_unitText_ne _ other)
  · have units := flatMap_unitText_inj (fun part member => (faithful.inRange part member).1)
      (fun part member => (otherFaithful.inRange part member).1) same
    have sums := faithful.addsUp
    rw [units, otherFaithful.addsUp] at sums
    exact Int.ofNat_inj.1 sums.symm

/--
The units are in their range and add up to the time exactly for clear times; the
texts of clear times are different.
-/
theorem getTimeString_faithful_iff (ns : Nat) : (Faithful ns (timeUnits ns) ↔ Clear ns) ∧
    ∀ other : Nat, Clear ns ∧ Clear other ∧ (getTimeString ns = getTimeString other ∨
      Utils.getTimeString ns = Utils.getTimeString other) → ns = other := by
  refine ⟨faithful_timeUnits_iff ns, ?_⟩
  rintro other ⟨clear, otherClear, same | same⟩
  · exact injOn_getTimeString clear otherClear same
  · exact injOn_getTimeString clear otherClear same

theorem not_faithful_hourMinuteSecond : ¬ Faithful 3661000000000 (timeUnits 3661000000000) ∧
    getTimeString 3661000000000 = getTimeString 3660000000000 := by
  have longer : timeUnits 3661000000000 = [(1, .hour), (1, .minute)] := by decide
  have shorter : timeUnits 3660000000000 = [(1, .hour), (1, .minute)] := by decide
  constructor
  · exact fun faithful => absurd faithful.addsUp (by decide)
  · simp [getTimeString, longer, shorter, unitText]

end SysAnalyzer.LogicWorker
