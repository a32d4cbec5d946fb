import SysAnalyzer.Foundation.JsonDecimal
import SysAnalyzer.Foundation.ParseInt

/-!
# `strtol` and `std::to_string`

`strtol` with base 10 reads the number at the front of a C string: white space
is skipped, one sign may follow, and the digits end the number.  It reports
where it stopped, which is the front again when there are no digits, and
whether the number was out of the range of `long`.  A number written by
`std::to_string` is read back, wherever it stands in front of something that
does not go on with a digit.
-/

namespace SysAnalyzer.Foundation

open List

open Json (decimal decimalDigits decimalDigits_lt decimalDigits_ne_nil)

/-- What `strtol` returns, with `*endptr` and whether `errno` is `ERANGE`. -/
structure StrtolResult where
  value : ℤ
  endptr : List Char
  erange : Bool

def isSpace (character : Char) : Bool :=
  character == ' ' || decide (9 ≤ character.toNat ∧ character.toNat ≤ 13)

/-- The number is kept within the range of a 64-bit `long`. -/
def strtolRange (value : ℤ) (endptr : List Char) : StrtolResult :=
  if value < -2 ^ 63 then ⟨-2 ^ 63, endptr, true⟩
  else if 2 ^ 63 ≤ value then ⟨2 ^ 63 - 1, endptr, true⟩
  else ⟨value, endptr, false⟩

/-- The digits behind the sign; `nptr` is where the text begins. -/
def strtolDigits (nptr : List Char) (negative : Bool) (characters : List Char) : StrtolResult :=
  let digits := characters.takeWhile Char.isDigit
  if digits.isEmpty then ⟨0, nptr, false⟩
  else
    strtolRange (if negative then -(decimalValue digits) else decimalValue digits)
      (characters.dropWhile Char.isDigit)

/-- `strtol(nptr, endptr, 10)`. -/
def strtol (nptr : List Char) : StrtolResult :=
  match nptr.dropWhile isSpace with
  | '-' :: characters => strtolDigits nptr true characters
  | '+' :: characters => strtolDigits nptr false characters
  | characters => strtolDigits nptr false characters

/-- Nothing that a number could go on with. -/
def EndsNumber (rest : List Char) : Prop :=
  ∀ character, rest.head? = some character → character.isDigit = false

/-! ## The digits of a number -/

def digitChar (digit : ℕ) : Char := Char.ofNat (0x30 + digit)

theorem isDigit_digitChar {digit : ℕ} (small : digit < 10) : (digitChar digit).isDigit = true := by
  interval_cases digit <;> decide

theorem digitChar_toNat {digit : ℕ} (small : digit < 10) :
    (digitChar digit).toNat - 48 = digit := by
  interval_cases digit <;> decide

def digitChars (value : ℕ) : List Char := (decimalDigits value).map digitChar

theorem decimal_eq (value : ℤ) :
    decimal value = (if value < 0 then ['-'] else []) ++ digitChars value.natAbs :=
  rfl

theorem digitChars_ne_nil (value : ℕ) : digitChars value ≠ [] := by
  simp [digitChars, decimalDigits_ne_nil]

theorem isDigit_of_mem_digitChars {value : ℕ} {character : Char}
    (member : character ∈ digitChars value) : character.isDigit = true := by
  rcases mem_map.1 member with ⟨digit, listed, rfl⟩
  exact isDigit_digitChar (decimalDigits_lt listed)

theorem decimalValue_digitChars (value : ℕ) : decimalValue (digitChars value) = value := by
  have digits (list : List ℕ) (small : ∀ digit ∈ list, digit < 10) :
    decimalValue (list.reverse.map digitChar) = Nat.ofDigits 10 list := by
    unfold decimalValue
    rw [map_reverse, foldl_reverse, foldr_map]
    induction list with
    | nil => rfl
    | cons digit rest induction =>
      have here := digitChar_toNat (small digit (by simp))
      have later := induction fun other member => small other (by simp [member])
      rw [foldr_cons, later, here, Nat.ofDigits_cons]
      simp [add_comm, mul_comm]
  unfold digitChars decimalDigits
  by_cases zero : value = 0
  · subst zero
    rfl
  · rw [if_neg zero, digits _ fun _ => Nat.digits_lt_base (by omega), Nat.ofDigits_digits]

variable {rest : List Char}

theorem takeWhile_digitChars (value : ℕ) (ends : EndsNumber rest) :
    (digitChars value ++ rest).takeWhile Char.isDigit = digitChars value := by
  rw [takeWhile_append_of_pos fun _ => isDigit_of_mem_digitChars]
  cases rest with
  | nil => simp
  | cons first tail => simp [ends first rfl]

theorem dropWhile_digitChars (value : ℕ) (ends : EndsNumber rest) :
    (digitChars value ++ rest).dropWhile Char.isDigit = rest := by
  rw [dropWhile_append_of_pos fun _ => isDigit_of_mem_digitChars]
  cases rest with
  | nil => rfl
  | cons first tail => simp [ends first rfl]

theorem digitChars_append_inj {first second : ℕ} {other : List Char}
    (ends : EndsNumber rest) (otherEnds : EndsNumber other)
    (same : digitChars first ++ rest = digitChars second ++ other) :
    first = second ∧ rest = other := by
  have digits := congrArg (takeWhile Char.isDigit) same
  have behind := congrArg (dropWhile Char.isDigit) same
  rw [takeWhile_digitChars _ ends, takeWhile_digitChars _ otherEnds] at digits
  rw [dropWhile_digitChars _ ends, dropWhile_digitChars _ otherEnds] at behind
  constructor
  · rw [← decimalValue_digitChars first, digits, decimalValue_digitChars]
  · exact behind

theorem strtolDigits_digitChars (nptr : List Char) (negative : Bool) (value : ℕ)
    (ends : EndsNumber rest) : strtolDigits nptr negative (digitChars value ++ rest) =
      strtolRange (if negative then -(value : ℤ) else value) rest := by
  unfold strtolDigits
  rw [takeWhile_digitChars value ends, dropWhile_digitChars value ends]
  simp [digitChars_ne_nil, decimalValue_digitChars]

theorem not_space_or_sign {character : Char} (digit : character.isDigit = true) :
    isSpace character = false ∧ character ≠ '-' ∧ character ≠ '+' := by
  refine ⟨?_, ?_, ?_⟩
  · simp only [Char.isDigit, Bool.and_eq_true, decide_eq_true_eq] at digit
    rw [isSpace, Bool.or_eq_false_iff, beq_eq_false_iff_ne, decide_eq_false_iff_not]
    have lower : 48 ≤ character.toNat := digit.1
    constructor
    · rintro rfl
      exact absurd lower (by decide)
    · omega
  · rintro rfl
    exact absurd digit (by decide)
  · rintro rfl
    exact absurd digit (by decide)

theorem strtol_decimal {spaces : List Char} (blank : ∀ character ∈ spaces, isSpace character = true)
    (value : ℤ) (ends : EndsNumber rest) :
    strtol (spaces ++ (decimal value ++ rest)) = strtolRange value rest := by
  unfold strtol
  rw [dropWhile_append_of_pos blank, decimal_eq]
  by_cases negative : value < 0
  · have size : -(value.natAbs : ℤ) = value := by omega
    rw [if_pos negative, append_assoc]
    have minus : isSpace '-' = false := by decide
    simp only [cons_append, nil_append, dropWhile_cons, minus, Bool.false_eq_true, if_false]
    rw [strtolDigits_digitChars _ true _ ends, if_pos rfl, size]
  · have size : (value.natAbs : ℤ) = value := by omega
    rw [if_neg negative, nil_append]
    have read := strtolDigits_digitChars
      (spaces ++ (digitChars value.natAbs ++ rest)) false value.natAbs ends
    have nonempty := digitChars_ne_nil value.natAbs
    have allDigits := @isDigit_of_mem_digitChars value.natAbs
    cases characters : digitChars value.natAbs with
    | nil => exact absurd characters nonempty
    | cons first tail =>
      have firstDigit : first.isDigit = true := allDigits (by rw [characters]; simp)
      rcases not_space_or_sign firstDigit with ⟨notSpace, notMinus, notPlus⟩
      rw [characters] at read
      simp only [cons_append, dropWhile_cons, notSpace]
      split
      · next equation => exact absurd (List.cons.inj equation).1 notMinus
      · next equation => exact absurd (List.cons.inj equation).1 notPlus
      · simpa [size] using read

theorem strtolRange_of_mem {value : ℤ} (lower : -2 ^ 63 ≤ value)
    (upper : value < 2 ^ 63) (endptr : List Char) :
    strtolRange value endptr = ⟨value, endptr, false⟩ := by
  unfold strtolRange
  rw [if_neg (by omega), if_neg (by omega)]

end SysAnalyzer.Foundation
