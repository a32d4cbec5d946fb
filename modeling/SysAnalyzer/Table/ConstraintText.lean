import SysAnalyzer.Foundation.Strtol

/-!
# The text of a constraint list

`BestIndex` hands the constraints it was given to `xFilter` as a text: the
letter `C` and the number of constraints, a column and an operator for each,
the letter `O` and the number of ORDER BY terms, a column and a direction for
each, all of them separated by single blanks.  `fromString` reads the text with
`strtol`.  A count is read into 32 bits with a sign, so a text is read back when
neither list has 2^31 entries or more.

The assertions of `FromString` and `GetColAndOp` are compiled out of a release
build and have no effect.
-/

namespace SysAnalyzer.Table

open Foundation List
open Foundation.Json (decimal)

namespace FilterConstraints

structure Constraint where
  idxInaConstraint : Int32
  col : Int32
  op : UInt8
  isSupport : Bool := false
  deriving DecidableEq

/-- `sqlite3_index_orderby`. -/
structure OrderBy where
  iColumn : Int32
  desc : UInt8
  deriving DecidableEq

end FilterConstraints

structure FilterConstraints where
  constraints : List FilterConstraints.Constraint := []
  orderBys : List FilterConstraints.OrderBy := []
  deriving DecidableEq

namespace FilterConstraints

def addConstraint (fc : FilterConstraints) (idx col : Int32) (op : UInt8)
    (isSupport : Bool := false) : FilterConstraints :=
  { fc with constraints := fc.constraints ++ [⟨idx, col, op, isSupport⟩] }

def addOrderBy (fc : FilterConstraints) (col : Int32) (desc : UInt8) : FilterConstraints :=
  { fc with orderBys := fc.orderBys ++ [⟨col, desc⟩] }

def clear (_ : FilterConstraints) : FilterConstraints := {}

/-- A column and a byte behind it, as both loops of `ToString` write them. -/
def pairText (col : Int32) (byte : UInt8) : List Char :=
  ' ' :: (decimal col.toInt ++ ' ' :: decimal byte.toNat)

def toString (fc : FilterConstraints) : List Char :=
  'C' :: (decimal fc.constraints.length ++ ((fc.constraints.flatMap fun c => pairText c.col c.op) ++
    (' ' :: 'O' :: (decimal fc.orderBys.length ++
      fc.orderBys.flatMap fun o => pairText o.iColumn o.desc))))

/-- Where the scanner stands, and the column and byte it has read last. -/
structure Scan where
  pNext : List Char
  col : Int32
  op : UInt8

def getColAndOp (scan : Scan) : Scan :=
  let first := strtol scan.pNext
  if first.erange then ⟨first.endptr, Int32.ofInt first.value, scan.op⟩
  else
    let second := strtol first.endptr
    ⟨second.endptr, Int32.ofInt first.value, UInt8.ofInt second.value⟩

/-- The loop over the constraints: `i` of them are read, `remaining` are not. -/
def readConstraints (i : ℕ) : ℕ → Scan → FilterConstraints → Scan × FilterConstraints
  | 0, scan, fc => (scan, fc)
  | remaining + 1, scan, fc =>
    let scan := getColAndOp scan
    readConstraints (i + 1) remaining scan (fc.addConstraint (Int32.ofNat i) scan.col scan.op)

def readOrderBys : ℕ → Scan → FilterConstraints → FilterConstraints
  | 0, _, fc => fc
  | remaining + 1, scan, fc =>
    let scan := getColAndOp scan
    readOrderBys remaining scan (fc.addOrderBy scan.col scan.op)

/-- How often a loop runs up to a count that was cast to `int32_t`. -/
def countOf (value : ℤ) : ℕ := (Int32.ofInt value).toInt.toNat

def fromString (fc : FilterConstraints) (idxStr : List Char) : FilterConstraints :=
  let count := strtol (idxStr.drop 1)
  if count.erange then fc
  else
    let read := readConstraints 0 (countOf count.value) ⟨count.endptr, 0, 0⟩ fc
    -- The blank and the letter `O` are stepped over.
    let count := strtol (read.1.pNext.drop 2)
    if count.erange then read.2
    else readOrderBys (countOf count.value) { read.1 with pNext := count.endptr } read.2

theorem endsNumber_nil : EndsNumber [] := by rintro _ ⟨⟩

theorem endsNumber_blank (rest : List Char) : EndsNumber (' ' :: rest) := by
  rintro _ ⟨⟩
  decide

theorem strtol_small {spaces : List Char} (blank : ∀ character ∈ spaces, isSpace character = true)
    {value : ℤ} (lower : -2 ^ 31 ≤ value) (upper : value < 2 ^ 31)
    {rest : List Char} (ends : EndsNumber rest) :
    strtol (spaces ++ (decimal value ++ rest)) = ⟨value, rest, false⟩ := by
  rw [strtol_decimal blank value ends, strtolRange_of_mem (by omega) (by omega)]

theorem endsNumber_pairs {α : Type} (column : α → Int32) (byte : α → UInt8) (entries : List α)
    {rest : List Char} (ends : EndsNumber rest) :
    EndsNumber ((entries.flatMap fun entry => pairText (column entry) (byte entry)) ++ rest) := by
  cases entries with
  | nil => exact ends
  | cons entry others => exact endsNumber_blank _

theorem getColAndOp_pairText
    (col : Int32) (byte : UInt8) {rest : List Char} (ends : EndsNumber rest)
    (lastCol : Int32) (lastOp : UInt8) :
    getColAndOp ⟨pairText col byte ++ rest, lastCol, lastOp⟩ = ⟨rest, col, byte⟩ := by
  have blank : ∀ character ∈ [' '], isSpace character = true := by simp [isSpace]
  have first : strtol (pairText col byte ++ rest) =
    ⟨col.toInt, ' ' :: (decimal byte.toNat ++ rest), false⟩ := by
    have read :=
      strtol_small blank col.le_toInt col.toInt_lt (endsNumber_blank (decimal byte.toNat ++ rest))
    simpa [pairText] using read
  have second : strtol (' ' :: (decimal byte.toNat ++ rest)) = ⟨byte.toNat, rest, false⟩ := by
    have lower : (-2 ^ 31 : ℤ) ≤ byte.toNat := by omega
    have upper : (byte.toNat : ℤ) < 2 ^ 31 := by
      have small := byte.toNat_lt
      omega
    exact strtol_small blank lower upper ends
  have back : UInt8.ofInt byte.toNat = byte := by
    rw [UInt8.ofInt, ← UInt8.toNat_inj, UInt8.toNat_ofNat']
    have small := byte.toNat_lt
    omega
  simp [getColAndOp, first, second, back]

def numbered (start : ℕ) (constraints : List Constraint) : List Constraint :=
  constraints.mapIdx fun place c => ⟨Int32.ofNat (start + place), c.col, c.op, false⟩

theorem numbered_cons (start : ℕ) (c : Constraint) (rest : List Constraint) :
    numbered start (c :: rest) =
      ⟨Int32.ofNat start, c.col, c.op, false⟩ :: numbered (start + 1) rest := by
  simp [numbered, mapIdx_cons, add_right_comm, add_assoc]

theorem readConstraints_pairs
    (constraints : List Constraint) {rest : List Char} (ends : EndsNumber rest)
    (i : ℕ) (lastCol : Int32) (lastOp : UInt8) (fc : FilterConstraints) :
    ∃ scan : Scan, scan.pNext = rest ∧ readConstraints i constraints.length
      ⟨(constraints.flatMap fun c => pairText c.col c.op) ++ rest, lastCol, lastOp⟩ fc =
      (scan, { fc with constraints := fc.constraints ++ numbered i constraints }) := by
  induction constraints generalizing i lastCol lastOp fc with
  | nil => exact ⟨⟨rest, lastCol, lastOp⟩, rfl, by simp [readConstraints, numbered]⟩
  | cons c others induction =>
    have behind := endsNumber_pairs Constraint.col Constraint.op others ends
    rcases induction (i + 1) c.col c.op (fc.addConstraint (Int32.ofNat i) c.col c.op) with
      ⟨scan, atRest, read⟩
    refine ⟨scan, atRest, ?_⟩
    rw [flatMap_cons, append_assoc, length_cons,
      readConstraints, getColAndOp_pairText c.col c.op behind]
    dsimp only
    rw [read, numbered_cons]
    simp [addConstraint]

theorem readOrderBys_pairs (orderBys : List OrderBy) (lastCol : Int32) (lastOp : UInt8)
    (fc : FilterConstraints) : readOrderBys orderBys.length
      ⟨orderBys.flatMap fun o => pairText o.iColumn o.desc, lastCol, lastOp⟩ fc =
      { fc with orderBys := fc.orderBys ++ orderBys } := by
  induction orderBys generalizing lastCol lastOp fc with
  | nil => simp [readOrderBys]
  | cons o others induction =>
    have behind := endsNumber_pairs OrderBy.iColumn OrderBy.desc others endsNumber_nil
    rw [append_nil] at behind
    rw [flatMap_cons, length_cons, readOrderBys, getColAndOp_pairText o.iColumn o.desc behind]
    dsimp only
    rw [induction]
    simp [addOrderBy]

theorem countOf_of_lt {count : ℕ} (small : count < 2 ^ 31) : countOf count = count := by
  unfold countOf
  rw [Int32.toInt_ofInt_of_le (by omega) (by omega)]
  rfl

/--
The text of a constraint list is read back: the same columns and operators with
constraint `i` numbered `i`, and the same ORDER BY terms.
-/
def RoundTrips (fc : FilterConstraints) : Prop :=
  ∀ cleared : FilterConstraints, cleared.clear.fromString fc.toString =
    ⟨numbered 0 fc.constraints, fc.orderBys⟩

/-- Lists that a 32-bit count with a sign can announce are read back. -/
theorem roundTrips_of_lt {fc : FilterConstraints} (fewConstraints : fc.constraints.length < 2 ^ 31)
    (fewOrderBys : fc.orderBys.length < 2 ^ 31) : RoundTrips fc := by
  intro cleared
  let orderText : List Char := fc.orderBys.flatMap fun o => pairText o.iColumn o.desc
  let behind : List Char := ' ' :: 'O' :: (decimal fc.orderBys.length ++ orderText)
  have noBlank : ∀ character ∈ ([] : List Char), isSpace character = true := by simp
  have countRead : strtol (fc.toString.drop 1) = ⟨fc.constraints.length,
    (fc.constraints.flatMap fun c => pairText c.col c.op) ++ behind,
    false⟩ :=
    strtol_small noBlank (by omega) (by omega)
      (endsNumber_pairs Constraint.col Constraint.op fc.constraints (endsNumber_blank _))
  have orderCountRead : strtol (behind.drop 2) = ⟨fc.orderBys.length, orderText, false⟩ := by
    have ends := endsNumber_pairs OrderBy.iColumn OrderBy.desc fc.orderBys endsNumber_nil
    rw [append_nil] at ends
    exact strtol_small noBlank (by omega) (by omega) ends
  rcases @readConstraints_pairs fc.constraints behind (endsNumber_blank _) 0 0 0 cleared.clear with
    ⟨scan, atRest, read⟩
  unfold fromString
  simp only [countRead, countOf_of_lt fewConstraints, read, atRest,
    orderCountRead, countOf_of_lt fewOrderBys]
  rw [readOrderBys_pairs]
  simp [clear]

theorem roundTrips_two : RoundTrips ⟨[⟨4, -1, 2, true⟩, ⟨7, 3, 32, false⟩], [⟨3, 1⟩]⟩ :=
  roundTrips_of_lt (by decide) (by decide)

theorem countOf_lt (value : ℤ) : countOf value < 2 ^ 31 := by
  have upper := (Int32.ofInt value).toInt_lt
  unfold countOf
  omega

theorem length_readConstraints (i remaining : ℕ) (scan : Scan) (fc : FilterConstraints) :
    (readConstraints i remaining scan fc).2.constraints.length =
      fc.constraints.length + remaining := by
  induction remaining generalizing i scan fc with
  | zero => rfl
  | succ remaining induction =>
    rw [readConstraints, induction]
    simp [addConstraint, add_comm, add_left_comm]

theorem constraints_readOrderBys (remaining : ℕ) (scan : Scan) (fc : FilterConstraints) :
    (readOrderBys remaining scan fc).constraints = fc.constraints := by
  induction remaining generalizing scan fc with
  | zero => rfl
  | succ remaining induction =>
    rw [readOrderBys, induction]
    rfl

theorem length_fromString_lt (cleared : FilterConstraints) (idxStr : List Char) :
    (cleared.clear.fromString idxStr).constraints.length < 2 ^ 31 := by
  have few := countOf_lt (strtol (idxStr.drop 1)).value
  unfold fromString
  dsimp only
  split_ifs
  · simp [clear]
  · simpa [length_readConstraints, clear] using few
  · simpa [constraints_readOrderBys, length_readConstraints, clear] using few

theorem not_roundTrips_of_le {fc : FilterConstraints} (many : 2 ^ 31 ≤ fc.constraints.length) :
    ¬ RoundTrips fc := by
  intro roundTrips
  have few := length_fromString_lt {} fc.toString
  rw [roundTrips {}, numbered, length_mapIdx] at few
  exact not_lt.2 many few

/-- 2^31 constraints are not read back. -/
theorem not_roundTrips_many : ¬ RoundTrips ⟨replicate (2 ^ 31) ⟨0, 0, 2, false⟩, []⟩ :=
  not_roundTrips_of_le (le_of_eq length_replicate.symm)

end FilterConstraints

end SysAnalyzer.Table
