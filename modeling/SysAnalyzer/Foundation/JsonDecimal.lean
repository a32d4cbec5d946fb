import SysAnalyzer.Foundation.Json

/-!
# Integers in JSON texts

The decimal notation of an integer is read back as the double nearest to it.
-/

namespace SysAnalyzer.Foundation.Json

open List

def decimalDigits (value : Nat) : List Nat :=
  if value = 0 then [0] else (Nat.digits 10 value).reverse

def decimal (value : ℤ) : List Char :=
  (if value < 0 then ['-'] else []) ++
    (decimalDigits value.natAbs).map fun digit => Char.ofNat (0x30 + digit)

def digitUnit (digit : Nat) : UInt16 := UInt16.ofNat (0x30 + digit)

theorem decimalDigits_lt {value digit : Nat}
    (member : digit ∈ decimalDigits value) : digit < 10 := by
  unfold decimalDigits at member
  split_ifs at member
  · simp only [mem_singleton] at member
    omega
  · exact Nat.digits_lt_base (by omega) (mem_reverse.1 member)

theorem decimalDigits_ne_nil (value : Nat) : decimalDigits value ≠ [] := by
  unfold decimalDigits
  split_ifs with zero
  · simp
  · simp [Nat.digits_eq_nil_iff_eq_zero, zero]

theorem decimalDigits_head {value : Nat} (zero : (decimalDigits value).head? = some 0) :
    (decimalDigits value).length = 1 := by
  unfold decimalDigits at *
  split_ifs at * with isZero
  · rfl
  · rw [head?_reverse] at zero
    have nonzero := Nat.getLast_digit_ne_zero 10 isZero
    have nonempty : Nat.digits 10 value ≠ [] := by
      simpa [Nat.digits_eq_nil_iff_eq_zero] using isZero
    rw [getLast?_eq_some_getLast nonempty] at zero
    exact absurd (Option.some.inj zero) nonzero

theorem utf16Point_digit {digit : Nat} (small : digit < 10) :
    utf16Point (Char.ofNat (0x30 + digit)).toNat = [digitUnit digit] := by
  interval_cases digit <;> decide

theorem utf16_decimal (value : ℤ) : utf16 (decimal value) = (if value < 0 then [0x2D] else []) ++
    (decimalDigits value.natAbs).map digitUnit := by
  have digits (list : List Nat) (small : ∀ digit ∈ list, digit < 10) :
    utf16 (list.map fun digit => Char.ofNat (0x30 + digit)) = list.map digitUnit := by
    induction list with
    | nil => rfl
    | cons digit rest induction =>
      have here := utf16Point_digit (small digit (by simp))
      have later := induction fun digit member => small digit (by simp [member])
      rw [map_cons, utf16_cons, here, later]
      rfl
  have sign : utf16 (if value < 0 then ['-'] else []) = if value < 0 then [0x2D] else [] := by
    split <;> decide
  rw [decimal, utf16_append, sign, digits _ (fun _ => decimalDigits_lt)]

theorem isDigit_digitUnit {digit : Nat} (small : digit < 10) :
    isDigit (digitUnit digit) = true := by
  interval_cases digit <;> decide

theorem digitUnit_toNat {digit : Nat} (small : digit < 10) :
    (digitUnit digit).toNat - 0x30 = digit := by
  interval_cases digit <;> decide

theorem digitsValue_decimalDigits (value : Nat) :
    digitsValue ((decimalDigits value).map digitUnit) = value := by
  have values : (((decimalDigits value).map digitUnit).reverse.map
    fun unit => unit.toNat - 0x30) = (decimalDigits value).reverse := by
    rw [map_reverse, map_map]
    congr 1
    refine (map_congr_left ?_).trans (map_id _)
    intro digit member
    exact digitUnit_toNat (decimalDigits_lt member)
  rw [digitsValue, values]
  unfold decimalDigits
  split_ifs with zero
  · simp [zero]
  · rw [reverse_reverse, Nat.ofDigits_digits]

theorem decimalUnits_head {value : Nat}
    (zero : ((decimalDigits value).map digitUnit).head? = some 0x30) :
    ((decimalDigits value).map digitUnit).length = 1 := by
  rw [head?_map, Option.map_eq_some_iff] at zero
  rcases zero with ⟨digit, first, unit⟩
  have small := decimalDigits_lt (mem_of_mem_head? first)
  have isZero : digit = 0 := by
    have back := digitUnit_toNat small
    rw [unit] at back
    exact back.symm
  rw [length_map]
  exact decimalDigits_head (isZero ▸ first)

theorem isDigit_of_mem_decimalUnits {value : Nat} {unit : UInt16}
    (member : unit ∈ (decimalDigits value).map digitUnit) : isDigit unit = true := by
  rcases mem_map.1 member with ⟨digit, listed, rfl⟩
  exact isDigit_digitUnit (decimalDigits_lt listed)

theorem signOf_decimal (value : ℤ) : signOf (utf16 (decimal value)) =
    (decide (value < 0), (decimalDigits value.natAbs).map digitUnit) := by
  rw [utf16_decimal]
  by_cases negative : value < 0
  · simp [negative, signOf]
  · simp only [negative, if_false, nil_append, decide_false]
    cases units : (decimalDigits value.natAbs).map digitUnit with
    | nil => rfl
    | cons first rest =>
      have digit : isDigit first = true := isDigit_of_mem_decimalUnits (by rw [units]; simp)
      unfold signOf
      split
      · next equation =>
          simp only [List.cons.injEq] at equation
          rw [equation.1] at digit
          exact absurd digit (by decide)
      · rfl

theorem numberOf_decimal (value : ℤ) : numberOf (utf16 (decimal value)) = some (value : ℚ) := by
  have sign := signOf_decimal value
  have size := digitsValue_decimalDigits value.natAbs
  have leading := @decimalUnits_head value.natAbs
  have allDigits := @isDigit_of_mem_decimalUnits value.natAbs
  have nonempty : (decimalDigits value.natAbs).map digitUnit ≠ [] := by
    simpa using decimalDigits_ne_nil value.natAbs
  generalize (decimalDigits value.natAbs).map digitUnit = digits at *
  have whole : digits.takeWhile isDigit = digits :=
    takeWhile_eq_self_iff.2 fun _ member => allDigits member
  have behind : digits.dropWhile isDigit = [] :=
    dropWhile_eq_nil_iff.2 fun _ member => allDigits member
  have wellFormed : ¬ (digits = [] ∨ (digits.head? = some 0x30 ∧ digits.length ≠ 1)) := by
    rintro (empty | ⟨zero, long⟩)
    · exact nonempty empty
    · exact long (leading zero)
  have signed : (if decide (value < 0) = true then -(value.natAbs : ℚ) else value.natAbs) =
    value := by
    rw [Nat.cast_natAbs]
    by_cases negative : value < 0
    · simp [negative, abs_of_neg negative]
    · simp [negative, abs_of_nonneg (not_lt.1 negative)]
  simp only [numberOf, sign, whole, behind, wellFormed, if_false]
  simpa [fractionOf, exponentOf, size] using signed

section

variable {value : ℤ} {unit : UInt16} (member : unit ∈ utf16 (decimal value))
include member

theorem wordUnits_decimal : isDigit unit = true ∨ unit = 0x2D := by
  rw [utf16_decimal, mem_append] at member
  rcases member with sign | digit
  · split_ifs at sign
    · exact Or.inr (mem_singleton.1 sign)
    · exact absurd sign not_mem_nil
  · exact Or.inl (isDigit_of_mem_decimalUnits digit)

theorem isWordUnit_decimal : isWordUnit unit = true := by
  rcases wordUnits_decimal member with digit | rfl
  · simp [isWordUnit, digit]
  · decide

end

theorem decimal_ne_nil (value : ℤ) : utf16 (decimal value) ≠ [] := by
  rw [utf16_decimal]
  simp [decimalDigits_ne_nil]

theorem wordToken_decimal (value : ℤ) :
    wordToken (utf16 (decimal value)) = some (.number (Number.ofRat value)) := by
  have notName {unit : UInt16} {rest : UnitString} (letter : isDigit unit = false ∧ unit ≠ 0x2D) :
    utf16 (decimal value) ≠ unit :: rest := by
    intro equation
    have units : isDigit unit = true ∨ unit = 0x2D := wordUnits_decimal (by rw [equation]; simp)
    simp [letter] at units
  rw [wordToken, if_neg (notName (by decide)), if_neg (notName (by decide)),
    if_neg (notName (by decide)), numberOf_decimal, Option.map_some]

end SysAnalyzer.Foundation.Json
