import SysAnalyzer.Base.StringToNumerical
import SysAnalyzer.Foundation.ByteSearch

/-!
# Trace markers

A marker is a letter for its phase, a process id and, behind bars, what the
phase needs: `B|1298|name`, `E|1298`, `C|1298|name value`.
`PrintEventParser::GetTracePoint` takes it apart by positions, which it computes
from the lengths of the parts.

Where the source reads a character or makes a string of a part, the model says
whether it lies inside the marker; a difference of sizes must not be negative.
The model has no value when one of these goes wrong.
-/

namespace SysAnalyzer.Parser.PrintEventParser

open Foundation

abbrev Bytes := List UInt8

def ascii (text : String) : Bytes := text.toList.map fun character => UInt8.ofNat character.toNat

inductive ParseResult where
  | parseError
  | parseSuccess
  deriving DecidableEq

/-- `TracePoint`; of `funcPrefixId_` the string that is entered for it. -/
structure TracePoint where
  phase : UInt8 := 0
  tgid : Nat := 0
  name : Bytes := []
  value : Nat := 0
  categoryGroup : Bytes := []
  chainId : Bytes := []
  spanId : Bytes := []
  parentSpanId : Bytes := []
  flag : Bytes := []
  args : Bytes := []
  funcPrefixId : Option Bytes := none
  funcPrefix : Bytes := []
  funcArgs : Bytes := []

def maxPointLength : Nat := 2

def pointLength : Nat := 1

def bar : UInt8 := 0x7C

def newline : UInt8 := 0x0A

def isDigit (byte : UInt8) : Bool := 0x30 ≤ byte && byte ≤ 0x39

/-- `StrToInt` of a string of bytes. -/
def strToInt (bits : Nat) (text : Bytes) : Option Nat :=
  Base.strToInt bits 10 (text.map fun byte => Char.ofNat byte.toNat)

/-- A difference of sizes that must not be negative. -/
def minus? (size part : Nat) : Option Nat := if part ≤ size then some (size - part) else none

/-- `find` of one character from a position on. -/
def findFrom (byte : UInt8) (text : Bytes) (position : Nat) : Option Nat :=
  (find [byte] (text.drop position)).map (position + ·)

/-- When a part is inside a string: its start, its length and the size. -/
abbrev Inside := Nat → Nat → Nat → Bool

def charactersInside : Inside := fun start length size => length = 0 || start + length ≤ size

/-- The part begins and ends in the string. -/
def spanInside : Inside := fun start length size => start + length ≤ size

def part? (inside : Inside) (text : Bytes) (start length : Nat) : Option Bytes :=
  if inside start length text.length then some ((text.drop start).take length)
  else none

def checkTracePoint (pointStr : Bytes) : Option ParseResult :=
  if pointStr.length = 0 then some .parseError
  else if (ascii "trace_event_clock_sync").isPrefixOf pointStr then some .parseError
  else if pointStr.head? ∉ (ascii "BECSF").map some then some .parseError
  else if pointStr.head? ≠ some 0x45 ∧ pointStr.length = 1 then some .parseError
  else if maxPointLength ≤ pointStr.length then
    (pointStr[1]?).map fun second =>
      if second ≠ bar ∧ second ≠ newline then .parseError else .parseSuccess
  else some .parseSuccess

/-- The loop of `GetThreadGroupId`: the length, and whether no other character
than a digit came first. -/
def threadGroupIdLoop (pointStr : Bytes) :
    (remaining : Nat) → (index length : Nat) → Option (Nat × Bool)
  | 0, _, length => some (length, true)
  | remaining + 1, index, length =>
    (pointStr[index]?).bind fun character =>
      if character = bar ∨ character = newline then some (length, true)
      else if ¬ isDigit character then some (length, false)
      else threadGroupIdLoop pointStr remaining (index + 1) (length + 1)

/-- The loop of `GetNameLength`. -/
def nameLengthLoop (pointStr : Bytes) (nameIndex : Nat) :
    (remaining : Nat) → (index namelength : Nat) → Option Nat
  | 0, _, namelength => some namelength
  | remaining + 1, index, namelength =>
    (pointStr[index]?).bind fun character =>
      if character = bar then some (index - nameIndex)
      else
        nameLengthLoop pointStr nameIndex remaining (index + 1)
          (if character = 0x20 then index - nameIndex else namelength)

def getNameLength (pointStr : Bytes) (nameIndex : Nat) : Option Nat :=
  nameLengthLoop pointStr nameIndex (pointStr.length - nameIndex) nameIndex 0

/-- The length of a value up to the next bar, or else to the end. -/
def wholeValueLength (pointStr : Bytes) (valueIndex : Nat) : Option Nat :=
  match findFrom bar pointStr valueIndex with
  | some valuePipe => minus? valuePipe valueIndex
  | none => minus? pointStr.length valueIndex

def getValueLength (pointStr : Bytes) (valueIndex : Nat) : Option Nat :=
  (wholeValueLength pointStr valueIndex).bind fun valueLen =>
    if valueLen = 0 then some 0
    else
      (pointStr[valueIndex + valueLen - pointLength]?).map fun last =>
        if last = newline then valueLen - 1 else valueLen

section Reading

variable (inside : Inside)

/-- `PrintEventParser::GetThreadGroupId`: the id and the length of its text. -/
def getThreadGroupId (pointStr : Bytes) : Option (Nat × Nat) := do
  let (length, digits) ←
    threadGroupIdLoop pointStr (pointStr.length - maxPointLength) maxPointLength 0
  if digits then
    let str ← part? inside pointStr maxPointLength length
    return ((strToInt 32 str).getD 0, length) else return (0, length)

def getPointNameForBegin (pointStr : Bytes) (tGidlength : Nat) : Option Bytes := do
  let index := maxPointLength + tGidlength + pointLength
  let behind ← minus? pointStr.length index
  let length ← minus? behind (if pointStr.getLast? = some newline then 1 else 0)
  let name ← part? inside pointStr index length
  return name.rdropWhile (· = 0x20)

/-- What `std::regex_match` finds for `distributeMatcher` in a name. -/
abbrev DistributeMatcher := Bytes → Option (Bytes × Bytes × Bytes × Bytes × Bytes × Bytes)

def handlerB (distributeMatcher : DistributeMatcher) (pointStr : Bytes)
    (outPoint : TracePoint) (tGidlength : Nat) : Option (ParseResult × TracePoint) := do
  let name ← getPointNameForBegin inside pointStr tGidlength
  let named := { outPoint with name }
  if name = [] then return (.parseError, named) else if find (ascii "$#") name = none then
    match findFrom 0x20 name 0 with
    | some space =>
      return (.parseSuccess, { named with
        funcPrefix := name.take space
        funcPrefixId := some (name.take space)
        funcArgs := name.drop (space + 1) })
    | none => return (.parseSuccess, { named with funcPrefixId := some name })
  else
    match distributeMatcher name with
    | some (chainId, spanId, parentSpanId, flag, name, args) =>
      return (.parseSuccess, { named with chainId, spanId, parentSpanId, flag, name, args })
    | none => return (.parseSuccess, named)

def handlerCSF (pointStr : Bytes) (outPoint : TracePoint) (tGidlength : Nat) :
    Option (ParseResult × TracePoint) := do
  let nameIndex := maxPointLength + tGidlength + pointLength
  let namelength ← getNameLength pointStr nameIndex
  if namelength = 0 then return (.parseError, outPoint)
  let name ← part? inside pointStr nameIndex namelength
  let named := { outPoint with name }
  let valueIndex := nameIndex + namelength + pointLength
  let valueLen ← getValueLength pointStr valueIndex
  if valueLen = 0 then return (.parseError, named)
  let valueStr ← part? inside pointStr valueIndex valueLen
  match strToInt 64 valueStr with
  | none => return (.parseError, named)
  | some value =>
    let valued := { named with value }
    match findFrom bar pointStr valueIndex with
    | none => return (.parseSuccess, valued)
    | some valuePipe =>
      let behind ← minus? pointStr.length valuePipe
      let groupLen ← minus? behind pointLength
      if groupLen = 0 then return (.parseError, valued)
      let last ← pointStr[pointStr.length - pointLength]?
      let categoryGroup ←
        part? inside pointStr (valuePipe + 1) (if last = newline then groupLen - 1 else groupLen)
      return (.parseSuccess, { valued with categoryGroup })

def getTracePoint (distributeMatcher : DistributeMatcher) (pointStr : Bytes) :
    Option (ParseResult × TracePoint) := do
  let checked ← checkTracePoint pointStr
  if checked = .parseError then return (.parseError, {})
  let phase ← pointStr.head?
  let (tgid, tGidlength) ← getThreadGroupId inside pointStr
  let outPoint : TracePoint := { phase, tgid }
  if phase = 0x42 then handlerB inside distributeMatcher pointStr outPoint tGidlength
  else if phase = 0x45 then return (.parseSuccess, outPoint) else
    handlerCSF inside pointStr outPoint tGidlength

end Reading

end SysAnalyzer.Parser.PrintEventParser
