import SysAnalyzer.Foundation.Strtol

/-!
# Numerals

`base::StrToInt` takes a string for a number when `strtoul` or `strtoull` reads
it to its end, that is, to the first NUL in it.
-/

namespace SysAnalyzer.Base

open Foundation

/-- What `strtoul` and `strtoull` return: a 64-bit value and `*endptr`. -/
structure StrtoullResult where
  value : Nat
  endptr : List Char

def isRadixDigit (radix : Nat) (character : Char) : Bool :=
  match Foundation.hexDigit character with
  | some digit => digit < radix
  | none => false

def radixValue (radix : Nat) (digits : List Char) : Nat :=
  digits.foldl (fun value digit => value * radix + (Foundation.hexDigit digit).getD 0) 0

/-- The digits behind the sign; `nptr` is where the text begins. -/
def strtoullDigits (radix : Nat) (nptr : List Char) (negative : Bool)
    (characters : List Char) : StrtoullResult :=
  let digits := characters.takeWhile (isRadixDigit radix)
  if digits.isEmpty then ⟨0, nptr⟩
  else
    let rest := characters.dropWhile (isRadixDigit radix)
    let value := radixValue radix digits
    if 2 ^ 64 ≤ value then ⟨2 ^ 64 - 1, rest⟩
    else ⟨if negative then (2 ^ 64 - value) % 2 ^ 64 else value, rest⟩

/-- The part behind the sign; a hexadecimal number may have `0x` before it. -/
def strtoullPrefix (radix : Nat) (nptr : List Char) (negative : Bool)
    (characters : List Char) : StrtoullResult :=
  match characters with
  | '0' :: mark :: digit :: rest =>
    if radix = 16 ∧ (mark = 'x' ∨ mark = 'X') ∧ isRadixDigit radix digit then
      strtoullDigits radix nptr negative (digit :: rest)
    else strtoullDigits radix nptr negative characters
  | _ => strtoullDigits radix nptr negative characters

/-- `strtoul(nptr, endptr, radix)` and `strtoull`, where `unsigned long` has 64
bits. -/
def strtoull (radix : Nat) (nptr : List Char) : StrtoullResult :=
  match nptr.dropWhile isSpace with
  | '-' :: characters => strtoullPrefix radix nptr true characters
  | '+' :: characters => strtoullPrefix radix nptr false characters
  | characters => strtoullPrefix radix nptr false characters

/-- `base::StrToInt<T>` for an unsigned `T` of the given width. -/
def strToInt (bits radix : Nat) (str : List Char) : Option Nat :=
  if str = [] then none
  else
    let read := strtoull radix (str.takeWhile (· ≠ '\x00'))
    if read.endptr = [] then some (read.value % 2 ^ bits) else none

example : strToInt 32 10 "4294967297".toList = some 1 := by decide

end SysAnalyzer.Base
