import SysAnalyzer.Base.StringToNumerical

/-!
# Numerals and their values

`StrToInt` is to read back what `number` wrote and to refuse what is no numeral.
It looks at the end pointer alone: a value that does not fit the type is cut to
it, and blanks, a sign and whatever stands behind a NUL are accepted.
-/

namespace SysAnalyzer.Base

open Foundation List

inductive IntegerRadixType where
  | dec
  | hex

def IntegerRadixType.radix : IntegerRadixType → Nat
  | dec => 10
  | hex => 16

/-- The unsigned types that `StrToInt` is for. -/
inductive UnsignedType where
  | uint32
  | uint64

def UnsignedType.bits : UnsignedType → Nat
  | uint32 => 32
  | uint64 => 64

def radixDigits (radix value : Nat) : List Nat :=
  if value = 0 then [0] else (Nat.digits radix value).reverse

def number (value : UInt64) (base : IntegerRadixType) : List Char :=
  (radixDigits base.radix value.toNat).map Nat.digitChar

/-- Digits, and nothing else. -/
def IsNumeral (radix : Nat) (str : List Char) : Prop :=
  str ≠ [] ∧ ∀ character ∈ str, isRadixDigit radix character = true

/-- What is left of a text behind blanks and a sign. -/
def unsignedPart (text : List Char) : List Char :=
  match text.dropWhile isSpace with
  | '-' :: characters => characters
  | '+' :: characters => characters
  | characters => characters

def cStr (str : List Char) : List Char := str.takeWhile (· ≠ '\x00')

/-- A string that `StrToInt` takes for a number exactly if it is one. -/
def ReadRight (str : List Char) : Prop :=
  IsNumeral 10 str ∨ str = [] ∨ cStr str ≠ [] ∧ ¬ IsNumeral 10 (unsignedPart (cStr str))

theorem hexDigit_digitChar {digit : Nat} (small : digit < 16) :
    hexDigit (Nat.digitChar digit) = some digit := by
  interval_cases digit <;> rfl

theorem isRadixDigit_digitChar {radix digit : Nat} (small : digit < radix)
    (hexadecimal : radix ≤ 16) : isRadixDigit radix (Nat.digitChar digit) = true := by
  rw [isRadixDigit, hexDigit_digitChar (by omega)]
  exact decide_eq_true small

variable {radix : Nat}

theorem radixDigits_lt (binary : 1 < radix) {value digit : Nat}
    (member : digit ∈ radixDigits radix value) : digit < radix := by
  rw [radixDigits] at member
  split_ifs at member
  · rw [mem_singleton] at member
    omega
  · exact Nat.digits_lt_base binary (mem_reverse.1 member)

theorem radixDigits_ne_nil (radix value : Nat) : radixDigits radix value ≠ [] := by
  rw [radixDigits]
  split_ifs with zero
  · exact cons_ne_nil 0 []
  · rwa [ne_eq, reverse_eq_nil_iff, Nat.digits_eq_nil_iff_eq_zero]

theorem radixValue_digitChars (hexadecimal : radix ≤ 16) {digits : List Nat}
    (small : ∀ digit ∈ digits, digit < radix) :
    radixValue radix (digits.reverse.map Nat.digitChar) = Nat.ofDigits radix digits := by
  rw [radixValue, map_reverse, foldl_reverse, foldr_map]
  induction digits with
  | nil => rfl
  | cons digit rest induction =>
    rw [forall_mem_cons] at small
    rw [foldr_cons, induction small.2, hexDigit_digitChar (by omega),
      Nat.ofDigits_cons, mul_comm, add_comm]
    rfl

theorem radixValue_radixDigits (binary : 1 < radix) (hexadecimal : radix ≤ 16) (value : Nat) :
    radixValue radix ((radixDigits radix value).map Nat.digitChar) = value := by
  rw [radixDigits]
  split_ifs with zero
  · rw [zero, map_singleton, radixValue, foldl_cons, foldl_nil, zero_mul]
    rfl
  · rw [radixValue_digitChars hexadecimal fun _ => Nat.digits_lt_base binary, Nat.ofDigits_digits]

variable {str : List Char} {nptr : List Char} {negative : Bool}

theorem strtoullDigits_of_numeral (numeral : IsNumeral radix str) :
    strtoullDigits radix nptr false str = ⟨if 2 ^ 64 ≤ radixValue radix str then 2 ^ 64 - 1
      else radixValue radix str, []⟩ := by
  have whole : str.takeWhile (isRadixDigit radix) = str := takeWhile_eq_self_iff.2 numeral.2
  have behind : str.dropWhile (isRadixDigit radix) = [] := dropWhile_eq_nil_iff.2 numeral.2
  rw [strtoullDigits]
  simp only [whole, behind, List.isEmpty_iff, numeral.1]
  split_ifs <;> first | rfl | contradiction

theorem endptr_strtoullDigits : (strtoullDigits radix nptr negative str).endptr =
    if str.takeWhile (isRadixDigit radix) = [] then nptr
    else str.dropWhile (isRadixDigit radix) := by
  simp only [strtoullDigits, List.isEmpty_iff]
  split_ifs <;> rfl

theorem endptr_strtoullDigits_eq_nil_iff (text : nptr ≠ []) :
    (strtoullDigits radix nptr negative str).endptr = [] ↔ IsNumeral radix str := by
  rw [endptr_strtoullDigits, IsNumeral, ← dropWhile_eq_nil_iff]
  split_ifs with none
  · refine iff_of_false text fun numeral => numeral.1 ?_
    have parts := @takeWhile_append_dropWhile _ (isRadixDigit radix) str
    rw [none, numeral.2] at parts
    exact parts.symm
  · refine (and_iff_right ?_).symm
    rintro rfl
    exact none rfl

theorem strtoullPrefix_dec (str : List Char) :
    strtoullPrefix 10 nptr negative str = strtoullDigits 10 nptr negative str := by
  unfold strtoullPrefix
  split
  · rw [if_neg]
    rintro ⟨hex, -⟩
    cases hex
  · rfl

theorem exists_strtoull_eq (radix : Nat) (nptr : List Char) :
    ∃ negative, strtoull radix nptr = strtoullPrefix radix nptr negative (unsignedPart nptr) := by
  unfold strtoull unsignedPart
  split
  · exact ⟨true, by simp_all⟩
  · exact ⟨false, by simp_all⟩
  · exact ⟨false, by simp_all⟩

theorem endptr_strtoull_eq_nil_iff (text : nptr ≠ []) :
    (strtoull 10 nptr).endptr = [] ↔ IsNumeral 10 (unsignedPart nptr) := by
  rcases exists_strtoull_eq 10 nptr with ⟨negative, isRead⟩
  rw [isRead, strtoullPrefix_dec, endptr_strtoullDigits_eq_nil_iff text]

theorem strToInt_eq_none_iff (bits : Nat) (str : List Char) : strToInt bits 10 str = none ↔
    str = [] ∨ cStr str ≠ [] ∧ ¬ IsNumeral 10 (unsignedPart (cStr str)) := by
  rw [strToInt, ← cStr]
  dsimp only
  by_cases empty : str = []
  · simp [empty]
  rw [if_neg empty, or_iff_right empty]
  by_cases text : cStr str = []
  · -- nothing is read, and the end is where the string begins
    have nothing : (strtoull 10 []).endptr = [] := rfl
    simp [text, nothing]
  · rw [← endptr_strtoull_eq_nil_iff text, and_iff_right text]
    split_ifs with read <;> simp [read]

theorem digitChar_plain {digit : Nat} (small : digit < 16) :
    isSpace (Nat.digitChar digit) = false ∧ Nat.digitChar digit ≠ '-' ∧
      Nat.digitChar digit ≠ '+' ∧ Nat.digitChar digit ≠ 'x' ∧
      Nat.digitChar digit ≠ 'X' ∧ Nat.digitChar digit ≠ '\x00' := by
  interval_cases digit <;> decide

variable {digits : List Nat}

theorem strtoull_digitChars (radix : Nat) (isNumber : digits ≠ []) (hexadecimal : ∀ digit ∈ digits, digit < 16) :
    strtoull radix (digits.map Nat.digitChar) =
      strtoullDigits radix (digits.map Nat.digitChar) false (digits.map Nat.digitChar) := by
  cases digits with
  | nil => exact absurd rfl isNumber
  | cons first digits =>
    rw [forall_mem_cons] at hexadecimal
    rcases digitChar_plain hexadecimal.1 with ⟨space, minus, plus, -⟩
    rw [map_cons, strtoull, dropWhile_cons_of_neg (by rw [space]; decide)]
    split
    · rename_i signed
      exact absurd (cons.inj signed).1 minus
    · rename_i signed
      exact absurd (cons.inj signed).1 plus
    · unfold strtoullPrefix
      split
      · rename_i mark _ _ marked
        rw [if_neg]
        rintro ⟨-, isMark, -⟩
        have member : mark ∈ digits.map Nat.digitChar := by
          rw [(cons.inj marked).2]
          exact mem_cons_self
        rcases mem_map.1 member with ⟨digit, inside, rfl⟩
        have plain := digitChar_plain (hexadecimal.2 digit inside)
        exact isMark.elim plain.2.2.2.1 plain.2.2.2.2.1
      · rfl

theorem cStr_digitChars (hexadecimal : ∀ digit ∈ digits, digit < 16) :
    cStr (digits.map Nat.digitChar) = digits.map Nat.digitChar := by
  rw [cStr, takeWhile_eq_self_iff, forall_mem_map]
  intro digit member
  exact decide_eq_true (digitChar_plain (hexadecimal digit member)).2.2.2.2.2

theorem radix_bounds (base : IntegerRadixType) : 1 < base.radix ∧ base.radix ≤ 16 := by
  cases base <;> decide

theorem strToInt_number (bits : Nat) (value : UInt64) (base : IntegerRadixType) :
    strToInt bits base.radix (number value base) = some (value.toNat % 2 ^ bits) := by
  rcases radix_bounds base with ⟨binary, hexadecimal⟩
  have small (digit) (member : digit ∈ radixDigits base.radix value.toNat) : digit < base.radix :=
    radixDigits_lt binary member
  have isNumber := radixDigits_ne_nil base.radix value.toNat
  have below : ∀ digit ∈ radixDigits base.radix value.toNat, digit < 16 :=
    fun digit member => (small digit member).trans_le hexadecimal
  have numeral : IsNumeral base.radix (number value base) := by
    refine ⟨mt map_eq_nil_iff.1 isNumber, forall_mem_map.2 ?_⟩
    exact fun digit member => isRadixDigit_digitChar (small digit member) hexadecimal
  have text := cStr_digitChars below
  have isRead := strtoull_digitChars base.radix isNumber below
  rw [strToInt, if_neg numeral.1, ← cStr]
  rw [← number] at text isRead
  rw [text, isRead, strtoullDigits_of_numeral numeral, number,
    radixValue_radixDigits binary hexadecimal,
    if_neg (not_le.2 value.toNat_lt)]
  rfl

/--
A value is read back or refused exactly if it fits the type; a string that is
no numeral is refused exactly if it is empty, or if its part before the first
NUL is no numeral behind blanks and a sign.
-/
theorem strToInt_exact_iff (type : UnsignedType) :
    (∀ value base, strToInt type.bits base.radix (number value base) =
      (if value.toNat < 2 ^ type.bits then some value.toNat else none) ↔
      value.toNat < 2 ^ type.bits) ∧
    ∀ str, (¬ IsNumeral 10 str → strToInt type.bits 10 str = none) ↔ ReadRight str := by
  constructor
  · intro value base
    rw [strToInt_number]
    split_ifs with fits
    · exact iff_of_true (by rw [Nat.mod_eq_of_lt fits]) fits
    · exact iff_of_false nofun fits
  · intro str
    rw [strToInt_eq_none_iff, ReadRight]
    tauto

/-- What does not fit is cut, and blanks and a sign are accepted. -/
theorem not_exact_uint32 :
    strToInt 32 10 (number 4294967296 .dec) = some 0 ∧ ¬ IsNumeral 10 " -1".toList ∧
      strToInt 32 10 " -1".toList = some 4294967295 := by
  refine ⟨?_, ?_, ?_⟩
  · rw [show (10 : Nat) = IntegerRadixType.dec.radix from rfl, strToInt_number]
    rfl
  · exact fun numeral => absurd (numeral.2 ' ' (by decide)) (by decide)
  · decide

end SysAnalyzer.Base
