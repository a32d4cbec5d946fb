import SysAnalyzer.Foundation.Double

/-!
# `parseInt`

The decimal integer at the front of a text, as `parseInt(text, 10)` reads it:
white space before it is skipped, and what follows the digits is not read.  The
result is a double, or not a number where there are no digits.  Where no base is
given, an integer may also be hexadecimal, behind `0x`.
-/

namespace SysAnalyzer.Foundation

def isWhiteSpace (character : Char) : Bool :=
  let point := character.toNat
  decide (9 ≤ point ∧ point ≤ 13) || point == 0x20 || point == 0xA0 ||
    point == 0x1680 || decide (0x2000 ≤ point ∧ point ≤ 0x200A) ||
    point == 0x2028 || point == 0x2029 || point == 0x202F ||
    point == 0x205F || point == 0x3000 || point == 0xFEFF

def decimalValue (digits : List Char) : Nat :=
  digits.foldl (fun value digit => value * 10 + (digit.toNat - 48)) 0

/-- The digits at the front of a text without a sign. -/
def parseDigits (negative : Bool) (characters : List Char) : Option Number :=
  let digits := characters.takeWhile Char.isDigit
  if digits.isEmpty then none
  else some <| Number.ofRat <| if negative then -(decimalValue digits : ℚ) else decimalValue digits

/-- `parseInt(text, 10)`, `none` for not a number. -/
def parseInt (text : String) : Option Number :=
  match text.toList.dropWhile isWhiteSpace with
  | '-' :: characters => parseDigits true characters
  | '+' :: characters => parseDigits false characters
  | characters => parseDigits false characters

def hexDigit (character : Char) : Option Nat :=
  let point := character.toNat
  if character.isDigit then some (point - 48)
  else if 97 ≤ point ∧ point ≤ 102 then some (point - 87)
  else if 65 ≤ point ∧ point ≤ 70 then some (point - 55)
  else none

def hexValue (digits : List Char) : Nat :=
  digits.foldl (fun value digit => value * 16 + (hexDigit digit).getD 0) 0

/-- The digits at the front of a text without a sign and a base. -/
def parseAnyDigits (negative : Bool) (characters : List Char) : Option Number :=
  match characters with
  | '0' :: 'x' :: rest | '0' :: 'X' :: rest =>
    let digits := rest.takeWhile fun character => (hexDigit character).isSome
    if digits.isEmpty then none
    else some <| Number.ofRat <| if negative then -(hexValue digits : ℚ) else hexValue digits
  | _ => parseDigits negative characters

/-- `parseInt(text)`, `none` for not a number. -/
def parseIntAnyBase (text : String) : Option Number :=
  match text.toList.dropWhile isWhiteSpace with
  | '-' :: characters => parseAnyDigits true characters
  | '+' :: characters => parseAnyDigits false characters
  | characters => parseAnyDigits false characters

end SysAnalyzer.Foundation
