import SysAnalyzer.Table.ConstraintText

/-!
# The constraints of a prepared statement

`BestIndex` hands a number and the text of the constraints to SQLite, which
passes both on to `xFilter` whenever the statement runs.  A table keeps the
constraints that it has decoded last with the number they came with, and
`xFilter` decodes its text only when the number is another one.

The number is counted in 16 bits and the kept number is 0 at first, so after
65536 plans a statement may carry the number of other constraints.
-/

namespace SysAnalyzer.Table

open Foundation List

/-- An entry of `sqlite3_index_info::aConstraint`. -/
structure IndexConstraint where
  iColumn : Int32
  op : UInt8
  usable : Bool

/-- What SQLite asks `BestIndex` about. -/
structure IndexInfo where
  aConstraint : List IndexConstraint
  aOrderBy : List FilterConstraints.OrderBy

/-- The two loops of `BestIndex`. -/
def IndexInfo.filterConstraints (idxInfo : IndexInfo) : FilterConstraints :=
  let usable :=
    idxInfo.aConstraint.zipIdx.foldl (fun fc entry =>
      if entry.1.usable then fc.addConstraint (Int32.ofNat entry.2) entry.1.iColumn entry.1.op
      else fc)
      {}
  idxInfo.aOrderBy.foldl (fun fc o => fc.addOrderBy o.iColumn o.desc) usable

/-- What a prepared statement keeps: `idxNum` and `idxStr`. -/
structure Plan where
  idxNum : Int32
  idxStr : List Char

def Plan.constraints (plan : Plan) : FilterConstraints :=
  FilterConstraints.fromString {} plan.idxStr

/-- The members of `TableBase` that plans and filters share. -/
structure StatementCache where
  bestIndexNum : UInt16 := 0
  cacheIdxNum : Int32 := 0
  cacheConstraint : FilterConstraints := {}

namespace StatementCache

/--
`BestIndex`.  `estimateFilterCost` is the table's own estimate, which may mark
constraints as supported.
-/
def bestIndex (estimateFilterCost : FilterConstraints → FilterConstraints)
    (idxInfo : IndexInfo) (cache : StatementCache) : StatementCache × Plan :=
  let bestIndexNum := cache.bestIndexNum + 1
  ({ cache with bestIndexNum := bestIndexNum }, ⟨Int32.ofNat bestIndexNum.toNat,
    (estimateFilterCost idxInfo.filterConstraints).toString⟩)

/-- `xFilter`, with the constraints that it hands to `Filter`. -/
def xFilter (plan : Plan) (cache : StatementCache) : StatementCache × FilterConstraints :=
  let cache :=
    if cache.cacheIdxNum ≠ plan.idxNum then
      { cache with
        cacheConstraint := cache.cacheConstraint.clear.fromString plan.idxStr
        cacheIdxNum := plan.idxNum }
    else cache
  (cache, cache.cacheConstraint)

end StatementCache

inductive TableCall where
  | bestIndex (idxInfo : IndexInfo)
  | xFilter (plan : Plan)

/-- A table with the plans it has returned and the constraints it has used. -/
structure TableCalls where
  cache : StatementCache := {}
  plans : List Plan := []
  used : List (Plan × FilterConstraints) := []

namespace TableCalls

variable (estimateFilterCost : FilterConstraints → FilterConstraints)

def step (calls : TableCalls) : TableCall → TableCalls
  | .bestIndex idxInfo =>
    let answer := calls.cache.bestIndex estimateFilterCost idxInfo
    { calls with
      cache := answer.1
      plans := calls.plans ++ [answer.2] }
  | .xFilter plan =>
    let answer := calls.cache.xFilter plan
    { calls with
      cache := answer.1
      used := calls.used ++ [(plan, answer.2)] }

def after (events : List TableCall) : TableCalls := run (step estimateFilterCost) {} events

/-- SQLite passes on the plans it was given. -/
def Allows (calls : TableCalls) : TableCall → Prop
  | .bestIndex _ => True
  | .xFilter plan => plan ∈ calls.plans

/-- Every filter used the constraints of its own plan. -/
def UsesOwn (calls : TableCalls) : Prop := ∀ entry ∈ calls.used, entry.2 = entry.1.constraints

end TableCalls

abbrev Decoded := Int32 × FilterConstraints

/-- Equal numbers stand for equal constraints. -/
def Agrees (earlier later : Decoded) : Prop := earlier.1 = later.1 → earlier.2 = later.2

def decodedPlans : List TableCall → List Decoded
  | [] => []
  | .bestIndex _ :: rest => decodedPlans rest
  | .xFilter plan :: rest => (plan.idxNum, plan.constraints) :: decodedPlans rest

/--
Of two filters in a row with one number, the texts stand for one list of
constraints; a first filter with the number 0 has no constraints.
-/
def NumbersTell (events : List TableCall) : Prop := ((0, {}) :: decodedPlans events).IsChain Agrees

namespace TableCalls

variable {estimateFilterCost : FilterConstraints → FilterConstraints}

theorem xFilter_eq (plan : Plan) (cache : StatementCache) :
    cache.xFilter plan = if cache.cacheIdxNum = plan.idxNum then (cache, cache.cacheConstraint) else
        ({ cache with
            cacheIdxNum := plan.idxNum
            cacheConstraint := plan.constraints },
          plan.constraints) := by
  unfold StatementCache.xFilter
  by_cases same : cache.cacheIdxNum = plan.idxNum
  · simp [same]
  · simp [same, Plan.constraints, FilterConstraints.clear]

theorem usesOwn_run_iff (calls : TableCalls) (events : List TableCall) :
    (run (step estimateFilterCost) calls events).UsesOwn ↔ calls.UsesOwn ∧
      ((calls.cache.cacheIdxNum, calls.cache.cacheConstraint) ::
        decodedPlans events).IsChain Agrees := by
  induction events generalizing calls with
  | nil => simp [decodedPlans]
  | cons event rest induction =>
    rw [run_cons, induction]
    cases event with
    | bestIndex idxInfo => exact Iff.rfl
    | xFilter plan =>
      have kept := xFilter_eq plan calls.cache
      have usesNext : (step estimateFilterCost calls (.xFilter plan)).UsesOwn ↔ calls.UsesOwn ∧
          (calls.cache.xFilter plan).2 = plan.constraints := by
        simp [UsesOwn, step, or_imp, forall_and]
      rw [usesNext, decodedPlans, isChain_cons_cons, and_assoc]
      apply and_congr_right
      intro _
      by_cases same : calls.cache.cacheIdxNum = plan.idxNum
      · rw [if_pos same] at kept
        -- What is kept has to be what the text says.
        simp only [step, kept, Agrees, same, true_imp_iff]
        apply and_congr_right
        intro keptIsOwn
        rw [keptIsOwn]
      · rw [if_neg same] at kept
        simp [step, kept, Agrees, same]

/--
Every filter uses the constraints of its own text if and only if the numbers of
the filters tell their constraints apart.
-/
theorem usesOwn_iff_numbersTell (events : List TableCall) :
    (after estimateFilterCost events).UsesOwn ↔ NumbersTell events := by
  have fresh : UsesOwn {} := by rintro entry ⟨⟩
  rw [after, usesOwn_run_iff]
  exact and_iff_right fresh

/-- What a sequence of calls asks `BestIndex` about. -/
def asked : List TableCall → List IndexInfo
  | [] => []
  | .bestIndex idxInfo :: rest => idxInfo :: asked rest
  | .xFilter _ :: rest => asked rest

variable (estimateFilterCost) in
/-- The answer to a question that comes behind `earlier` others. -/
def planOf (idxInfo : IndexInfo) (earlier : ℕ) : Plan where
  idxNum := Int32.ofNat (UInt16.ofNat (earlier + 1)).toNat
  idxStr := (estimateFilterCost idxInfo.filterConstraints).toString

theorem plans_run {calls : TableCalls} {earlier : ℕ}
    (counted : calls.cache.bestIndexNum = UInt16.ofNat earlier) (events : List TableCall) :
    (run (step estimateFilterCost) calls events).plans = calls.plans ++
      ((asked events).zipIdx earlier).map fun entry =>
        planOf estimateFilterCost entry.1 entry.2 := by
  induction events generalizing calls earlier with
  | nil => simp [asked]
  | cons event rest induction =>
    rw [run_cons]
    cases event with
    | bestIndex idxInfo =>
      have next : calls.cache.bestIndexNum + 1 = UInt16.ofNat (earlier + 1) := by
        rw [counted, UInt16.ofNat_add]
        rfl
      have countedNext : (step estimateFilterCost calls (.bestIndex idxInfo)).cache.bestIndexNum =
        UInt16.ofNat (earlier + 1) :=
        next
      rw [induction countedNext]
      simp [step, StatementCache.bestIndex, next, asked, planOf, zipIdx_cons]
    | xFilter plan =>
      have countedNext : (step estimateFilterCost calls (.xFilter plan)).cache.bestIndexNum =
        UInt16.ofNat earlier := by
        rw [← counted]
        simp only [step, xFilter_eq]
        split <;> rfl
      exact induction countedNext

theorem plans_after (events : List TableCall) :
    (after estimateFilterCost events).plans = (asked events).zipIdx.map fun entry =>
      planOf estimateFilterCost entry.1 entry.2 :=
  plans_run rfl events

def plannedOften : List TableCall :=
  replicate (2 ^ 16) (.bestIndex ⟨[⟨0, 2, true⟩], []⟩) ++
    [.xFilter (planOf id ⟨[⟨0, 2, true⟩], []⟩ (2 ^ 16 - 1))]

theorem asked_replicate (count : ℕ) (idxInfo : IndexInfo) (rest : List TableCall) :
    asked (replicate count (.bestIndex idxInfo) ++ rest) =
      replicate count idxInfo ++ asked rest := by
  induction count with
  | zero => rfl
  | succ count induction =>
    rw [replicate_succ, cons_append, asked, induction]
    rfl

theorem decodedPlans_replicate (count : ℕ) (idxInfo : IndexInfo) (rest : List TableCall) :
    decodedPlans (replicate count (.bestIndex idxInfo) ++ rest) = decodedPlans rest := by
  induction count with
  | zero => rfl
  | succ count induction => exact induction

theorem allows_replicate (count : ℕ) (idxInfo : IndexInfo) (calls : TableCalls) :
    EachStep (step estimateFilterCost) Allows calls
      (replicate count (.bestIndex idxInfo)) := by
  induction count generalizing calls with
  | zero => trivial
  | succ count induction => exact ⟨trivial, induction _⟩

theorem planOf_mem_plans_replicate
    {earlier count : ℕ} (last : earlier + 1 = count) (idxInfo : IndexInfo) :
    planOf estimateFilterCost idxInfo earlier ∈ (after estimateFilterCost
      (replicate count (.bestIndex idxInfo))).plans := by
  have questions := asked_replicate count idxInfo []
  rw [append_nil] at questions
  rw [plans_after, questions, asked, append_nil, mem_map]
  refine ⟨(idxInfo, earlier), mem_zipIdx_iff_getElem?.2 ?_, rfl⟩
  rw [getElem?_replicate, if_pos (by omega)]

/-- The last plan has the number 0, for which no constraints are kept. -/
theorem not_usesOwn_plannedOften :
    EachStep (step id) Allows {} plannedOften ∧ ¬ (after id plannedOften).UsesOwn := by
  constructor
  · rw [plannedOften, eachStep_append]
    refine ⟨allows_replicate _ _ _, ?_, trivial⟩
    exact planOf_mem_plans_replicate (by omega) _
  · intro usesOwn
    have tell := (usesOwn_run_iff {} plannedOften).1 usesOwn
    rw [plannedOften, decodedPlans_replicate] at tell
    have kept := (isChain_cons_cons.1 tell.2).1
    exact absurd (kept (by decide)) (by decide)

end TableCalls

end SysAnalyzer.Table
