import Mathlib

/-!
# Constraints and operands of a virtual table

A virtual table receives a list of constraints `column op operand` and an
ORDER BY list.  The operators are SQLite's; the ones no table of this
repository filters on are kept as `other`.

SQLite itself is outside the repository.  An operand is therefore what its
accessors return: the storage class, the integer and the text conversion, and
the way SQLite orders an integer cell against it.  The one law the tables rely
on is that an INTEGER operand is ordered by its value.
-/

namespace SysAnalyzer.Table

scoped instance neZero32 : NeZero (2 ^ 32) := ⟨by decide⟩

scoped instance neZero64 : NeZero (2 ^ 64) := ⟨by decide⟩

/-- Operators of `sqlite3_index_info.aConstraint`. -/
inductive ConstraintOp where
  | eq
  | gt
  | le
  | lt
  | ge
  | ne
  | isNot
  | isNotNull
  | isNull
  | other (code : UInt8)
  deriving DecidableEq

/-- Result of `sqlite3_value_type`. -/
inductive SqliteType where
  | integer
  | float
  | text
  | blob
  | null
  deriving DecidableEq

/--
An operand, seen through SQLite's accessors.  `order cell` is SQLite's
comparison of the integer `cell` with the operand, read left to right.
-/
structure SqliteValue where
  type : SqliteType
  int64 : Int
  text : Option String
  order : Int → Ordering
  order_integer : type = .integer → ∀ cell, order cell = compare cell int64

/-- The INTEGER operand `value`. -/
def SqliteValue.ofInt (value : Int) : SqliteValue where
  type := .integer
  int64 := value
  text := some (toString value)
  order := fun cell => compare cell value
  order_integer := fun _ _ => rfl

def SqliteValue.null : SqliteValue where
  type := .null
  int64 := 0
  text := none
  order := fun _ => .gt
  order_integer := by
    intro isInteger
    cases isInteger

/-- Two's complement narrowing to `int32_t`. -/
def wrapInt32 (value : Int) : Int := value.bmod (2 ^ 32)

theorem wrapInt32_of_mem {value : Int} (lower : -2 ^ 31 ≤ value) (upper : value < 2 ^ 31) :
    wrapInt32 value = value := by
  rw [wrapInt32, Int.bmod_def]
  omega

theorem wrapInt32_bounds (value : Int) : -2 ^ 31 ≤ wrapInt32 value ∧ wrapInt32 value < 2 ^ 31 := by
  rw [wrapInt32, Int.bmod_def]
  omega

/-- `static_cast` of a signed integer to an unsigned type of `width` bits. -/
def toUnsigned (width : Nat) (value : Int) : Fin (2 ^ width) :=
  ⟨(value % 2 ^ width).toNat, by
    have positive : (0 : Int) < 2 ^ width := by positivity
    have lower := Int.emod_nonneg value positive.ne'
    have upper := Int.emod_lt_of_pos value positive
    have cast : ((2 ^ width : Nat) : Int) = 2 ^ width := by push_cast; rfl
    omega⟩

theorem toUnsigned_of_mem {width : Nat} {value : Int}
    (lower : 0 ≤ value) (upper : value < 2 ^ width) :
    ((toUnsigned width value).val : Int) = value := by
  simp only [toUnsigned]
  rw [Int.emod_eq_of_lt lower upper]
  omega

theorem top_val (width : Nat) : (((⊤ : Fin (2 ^ width)).val : Nat) : Int) = 2 ^ width - 1 := by
  have positive : 0 < 2 ^ width := by positivity
  have cast : ((2 ^ width : Nat) : Int) = 2 ^ width := by push_cast; rfl
  have largest : (⟨2 ^ width - 1, by omega⟩ : Fin (2 ^ width)) ≤ ⊤ := le_top
  rw [Fin.le_def] at largest
  have small := (⊤ : Fin (2 ^ width)).isLt
  simp only at largest
  omega

theorem val_eq_top_iff {width : Nat} (cell : Fin (2 ^ width)) :
    (cell.val : Int) = 2 ^ width - 1 ↔ cell = ⊤ := by
  rw [← top_val width]
  constructor
  · intro equal
    exact Fin.ext (by exact_mod_cast equal)
  · rintro rfl
    rfl

/-- `static_cast<uint32_t>(sqlite3_value_int(argv))`. -/
def operand32 (argv : SqliteValue) : Fin (2 ^ 32) := toUnsigned 32 (wrapInt32 argv.int64)

/-- `static_cast<uint64_t>(sqlite3_value_int64(argv))`. -/
def operand64 (argv : SqliteValue) : Fin (2 ^ 64) := toUnsigned 64 argv.int64

theorem operand32_of_mem {argv : SqliteValue} (lower : 0 ≤ argv.int64)
    (upper : argv.int64 < 2 ^ 32) : ((operand32 argv).val : Int) = argv.int64 := by
  simp only [operand32, toUnsigned, wrapInt32, Int.bmod_def]
  omega

theorem operand64_of_mem {argv : SqliteValue} (lower : 0 ≤ argv.int64)
    (upper : argv.int64 < 2 ^ 63) : ((operand64 argv).val : Int) = argv.int64 :=
  toUnsigned_of_mem lower (by omega)

/-- One usable constraint, over the columns `Column` of a table. -/
structure Constraint (Column : Type) where
  col : Column
  op : ConstraintOp
  isSupport : Bool := false

structure OrderBy (Column : Type) where
  iColumn : Column
  desc : Bool

/-- A constraint together with the operand `xFilter` receives for it. -/
abbrev Bound (Column : Type) := Constraint Column × SqliteValue

/--
Truth of `cell op value` for a stored integer cell.  `null` is the stored
number that stands for NULL in the cell's column, if the column has one.

A comparison reads the stored number.  The operators the tables never filter
on are decided by SQLite alone and constrain nothing here.
-/
def Holds (null : Option Int) (op : ConstraintOp) (value : SqliteValue) (cell : Int) : Prop :=
  match op with
  | .eq => value.type ≠ .null ∧ value.order cell = .eq
  | .gt => value.type ≠ .null ∧ value.order cell = .gt
  | .le => value.type ≠ .null ∧ value.order cell ≠ .gt
  | .lt => value.type ≠ .null ∧ value.order cell = .lt
  | .ge => value.type ≠ .null ∧ value.order cell ≠ .lt
  | .ne => value.type ≠ .null ∧ value.order cell ≠ .eq
  | .isNot =>
    (value.type = .null ∧ null ≠ some cell) ∨ (value.type ≠ .null ∧ value.order cell ≠ .eq)
  | .isNotNull => null ≠ some cell
  | .isNull => null = some cell
  | .other _ => True

instance (null : Option Int) (op : ConstraintOp) (value : SqliteValue)
    (cell : Int) : Decidable (Holds null op value cell) :=
  match op with
  | .eq => inferInstanceAs (Decidable (_ ∧ _))
  | .gt => inferInstanceAs (Decidable (_ ∧ _))
  | .le => inferInstanceAs (Decidable (_ ∧ _))
  | .lt => inferInstanceAs (Decidable (_ ∧ _))
  | .ge => inferInstanceAs (Decidable (_ ∧ _))
  | .ne => inferInstanceAs (Decidable (_ ∧ _))
  | .isNot => inferInstanceAs (Decidable ((_ ∧ _) ∨ (_ ∧ _)))
  | .isNotNull => inferInstanceAs (Decidable (_ ≠ _))
  | .isNull => inferInstanceAs (Decidable (_ = _))
  | .other _ => inferInstanceAs (Decidable True)

/--
Truth of `cell op value` for a cell as SQLite sees it, `none` being NULL.  The
operators the tables never filter on are SQLite's own and given by `other`.
-/
def holdsCell (other : UInt8 → SqliteValue → Option Int → Bool)
    (op : ConstraintOp) (value : SqliteValue) (cell : Option Int) : Bool :=
  match op, cell with
  | .other code, cell => other code value cell
  | .isNull, none => true
  | .isNot, none => value.type ≠ .null
  | _, none => false
  | op, some number => Holds none op value number

section Integer

variable {null : Option Int} {value : SqliteValue} {cell : Int}

section

variable (isInteger : value.type = .integer)
include isInteger

theorem holds_eq_iff : Holds null .eq value cell ↔ cell = value.int64 := by
  simp [Holds, isInteger, value.order_integer isInteger]

theorem holds_gt_iff : Holds null .gt value cell ↔ value.int64 < cell := by
  simp [Holds, isInteger, value.order_integer isInteger, compare_gt_iff_gt]

theorem holds_le_iff : Holds null .le value cell ↔ cell ≤ value.int64 := by
  simp [Holds, isInteger, value.order_integer isInteger, compare_gt_iff_gt]

theorem holds_lt_iff : Holds null .lt value cell ↔ cell < value.int64 := by
  simp [Holds, isInteger, value.order_integer isInteger, compare_lt_iff_lt]

theorem holds_ge_iff : Holds null .ge value cell ↔ value.int64 ≤ cell := by
  simp [Holds, isInteger, value.order_integer isInteger, compare_lt_iff_lt]

theorem holds_ne_iff : Holds null .ne value cell ↔ cell ≠ value.int64 := by
  simp [Holds, isInteger, value.order_integer isInteger]

end

end Integer

end SysAnalyzer.Table
