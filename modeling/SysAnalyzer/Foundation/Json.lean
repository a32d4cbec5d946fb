import SysAnalyzer.Foundation.Double
import SysAnalyzer.Foundation.Run
import SysAnalyzer.Foundation.TextDecoder

/-!
# JSON texts

A JSON reader over UTF-16 strings in two machines: one reads code units into
tokens, the other reads tokens into values with a stack of open containers.
Both take one input at a time, so a text is read by `runPartial` and the rules
for runs apply to it.

A number is the double nearest to its literal.
-/

namespace SysAnalyzer.Foundation

open List

/-- A JSON value; members of an object stand in the order of the text. -/
inductive Json where
  | null
  | boolean (value : Bool)
  | number (value : Number)
  | string (value : UnitString)
  | array (elements : List Json)
  | object (members : List (UnitString × Json))

namespace Json

/-! ## Tokens -/

inductive Token where
  | openBrace
  | closeBrace
  | openBracket
  | closeBracket
  | colon
  | comma
  | null
  | boolean (value : Bool)
  | number (value : Number)
  | string (value : UnitString)
  deriving DecidableEq

def isDigit (unit : UInt16) : Bool := 0x30 ≤ unit && unit ≤ 0x39

/-- Units that a name or a number literal is made of. -/
def isWordUnit (unit : UInt16) : Bool :=
  isDigit unit || (0x41 ≤ unit && unit ≤ 0x5A) || (0x61 ≤ unit && unit ≤ 0x7A) ||
    unit = 0x2B || unit = 0x2D || unit = 0x2E

def isSpace (unit : UInt16) : Bool := unit = 0x20 || unit = 0x09 || unit = 0x0A || unit = 0x0D

def mark (unit : UInt16) : Option Token :=
  if unit = 0x7B then some .openBrace
  else if unit = 0x7D then some .closeBrace
  else if unit = 0x5B then some .openBracket
  else if unit = 0x5D then some .closeBracket
  else if unit = 0x3A then some .colon
  else if unit = 0x2C then some .comma
  else none

def digitsValue (digits : UnitString) : Nat :=
  Nat.ofDigits 10 (digits.reverse.map fun digit => digit.toNat - 0x30)

/-- `-`, or nothing. -/
def signOf (word : UnitString) : Bool × UnitString :=
  match word with
  | 0x2D :: rest => (true, rest)
  | rest => (false, rest)

/-- The digits behind a decimal point, if there is one. -/
def fractionOf (word : UnitString) : Option (UnitString × UnitString) :=
  match word with
  | 0x2E :: rest =>
    if rest.takeWhile isDigit = [] then none
    else some (rest.takeWhile isDigit, rest.dropWhile isDigit)
  | rest => some ([], rest)

def exponentOf (word : UnitString) : Option ℤ :=
  match word with
  | [] => some 0
  | mark :: rest =>
    if mark = 0x65 ∨ mark = 0x45 then
      let (negative, digits) :=
        match rest with
        | 0x2B :: digits => (false, digits)
        | digits => signOf digits
      if digits ≠ [] ∧ digits.all isDigit then
        some (if negative then -(digitsValue digits : ℤ) else digitsValue digits)
      else none
    else none

def numberOf (word : UnitString) : Option ℚ :=
  let (negative, rest) := signOf word
  let whole := rest.takeWhile isDigit
  if whole = [] ∨ (whole.head? = some 0x30 ∧ whole.length ≠ 1) then none
  else
    (fractionOf (rest.dropWhile isDigit)).bind fun (fraction, rest) =>
      (exponentOf rest).map fun (exponent : ℤ) =>
        let size : ℚ := digitsValue (whole ++ fraction) * 10 ^ (exponent - fraction.length)
        if negative then -size else size

def wordToken (word : UnitString) : Option Token :=
  if word = [0x6E, 0x75, 0x6C, 0x6C] then some .null
  else if word = [0x74, 0x72, 0x75, 0x65] then some (.boolean true)
  else if word = [0x66, 0x61, 0x6C, 0x73, 0x65] then some (.boolean false)
  else (numberOf word).map fun value => .number (Number.ofRat value)

def simpleEscape (unit : UInt16) : Option UInt16 :=
  if unit = 0x22 ∨ unit = 0x5C ∨ unit = 0x2F then some unit
  else if unit = 0x62 then some 0x08
  else if unit = 0x66 then some 0x0C
  else if unit = 0x6E then some 0x0A
  else if unit = 0x72 then some 0x0D
  else if unit = 0x74 then some 0x09
  else none

def hexDigit (unit : UInt16) : Option Nat :=
  if isDigit unit then some (unit.toNat - 0x30)
  else if 0x41 ≤ unit ∧ unit ≤ 0x46 then some (unit.toNat - 0x37)
  else if 0x61 ≤ unit ∧ unit ≤ 0x66 then some (unit.toNat - 0x57)
  else none

/-- Where the token reader stands. -/
inductive Place where
  | between
  | word (read : UnitString)
  | string (read : UnitString)
  | escape (read : UnitString)
  | unicode (read : UnitString) (digits : List Nat)

/-- The token reader: the tokens read so far and its place. -/
structure Reader where
  tokens : List Token
  place : Place

namespace Reader

def between (tokens : List Token) (unit : UInt16) : Option Reader :=
  if isSpace unit then some ⟨tokens, .between⟩
  else if unit = 0x22 then some ⟨tokens, .string []⟩
  else if isWordUnit unit then some ⟨tokens, .word [unit]⟩
  else (mark unit).map fun token => ⟨tokens ++ [token], .between⟩

def step (reader : Reader) (unit : UInt16) : Option Reader :=
  match reader.place with
  | .between => between reader.tokens unit
  | .word read =>
    if isWordUnit unit then some ⟨reader.tokens, .word (read ++ [unit])⟩
    else (wordToken read).bind fun token => between (reader.tokens ++ [token]) unit
  | .string read =>
    if unit = 0x22 then some ⟨reader.tokens ++ [.string read], .between⟩
    else if unit < 0x20 then none
    else if unit = 0x5C then some ⟨reader.tokens, .escape read⟩
    else some ⟨reader.tokens, .string (read ++ [unit])⟩
  | .escape read =>
    if unit = 0x75 then some ⟨reader.tokens, .unicode read []⟩
    else
      (simpleEscape unit).map fun escaped => ⟨reader.tokens, .string (read ++ [escaped])⟩
  | .unicode read digits =>
    (hexDigit unit).map fun digit =>
      if digits.length = 3 then
        ⟨reader.tokens, .string
          (read ++ [UInt16.ofNat (Nat.ofDigits 16 (digit :: digits.reverse))])⟩
      else ⟨reader.tokens, .unicode read (digits ++ [digit])⟩

def finish (reader : Reader) : Option (List Token) :=
  match reader.place with
  | .between => some reader.tokens
  | .word read => (wordToken read).map fun token => reader.tokens ++ [token]
  | _ => none

end Reader

def tokens (text : UnitString) : Option (List Token) :=
  (runPartial Reader.step ⟨[], .between⟩ text).bind Reader.finish

/-- A container whose end has not been read. -/
inductive Frame where
  /-- An array and the elements read. -/
  | array (elements : List Json)
  /-- An object and the members read. -/
  | object (members : List (UnitString × Json))
  /-- An object that waits for the value of a key. -/
  | member (members : List (UnitString × Json)) (key : UnitString)

/-- What the value reader waits for. -/
inductive Expect where
  | value
  | firstElement
  | key
  | firstKey
  | colon
  /-- A value has been read: a comma or the end of its container. -/
  | next (value : Json)

/-- The value reader: the open containers, innermost first. -/
structure Parser where
  expect : Expect
  frames : List Frame

namespace Parser

def begin (frames : List Frame) (token : Token) : Option Parser :=
  match token with
  | .null => some ⟨.next .null, frames⟩
  | .boolean value => some ⟨.next (.boolean value), frames⟩
  | .number value => some ⟨.next (.number value), frames⟩
  | .string value => some ⟨.next (.string value), frames⟩
  | .openBracket => some ⟨.firstElement, .array [] :: frames⟩
  | .openBrace => some ⟨.firstKey, .object [] :: frames⟩
  | _ => none

def beginKey (frames : List Frame) (token : Token) : Option Parser :=
  match token, frames with
  | .string key, .object members :: outer => some ⟨.colon, .member members key :: outer⟩
  | _, _ => none

def continueWith (value : Json) (frames : List Frame) (token : Token) : Option Parser :=
  match token, frames with
  | .comma, .array elements :: outer => some ⟨.value, .array (elements ++ [value]) :: outer⟩
  | .comma, .member members key :: outer =>
    some ⟨.key, .object (members ++ [(key, value)]) :: outer⟩
  | .closeBracket, .array elements :: outer => some ⟨.next (.array (elements ++ [value])), outer⟩
  | .closeBrace, .member members key :: outer =>
    some ⟨.next (.object (members ++ [(key, value)])), outer⟩
  | _, _ => none

def step (parser : Parser) (token : Token) : Option Parser :=
  match parser.expect with
  | .value => begin parser.frames token
  | .firstElement =>
    match token, parser.frames with
    | .closeBracket, _ :: outer => some ⟨.next (.array []), outer⟩
    | _, _ => begin parser.frames token
  | .key => beginKey parser.frames token
  | .firstKey =>
    match token, parser.frames with
    | .closeBrace, _ :: outer => some ⟨.next (.object []), outer⟩
    | _, _ => beginKey parser.frames token
  | .colon => if token = .colon then some ⟨.value, parser.frames⟩ else none
  | .next value => continueWith value parser.frames token

/-- The value at the end of the tokens, with every container closed. -/
def finish (parser : Parser) : Option Json :=
  match parser with
  | ⟨.next value, []⟩ => some value
  | _ => none

end Parser

def value (tokens : List Token) : Option Json :=
  (runPartial Parser.step ⟨.value, []⟩ tokens).bind Parser.finish

/-- `JSON.parse`; `none` is its `SyntaxError`. -/
def parse (text : UnitString) : Option Json := (tokens text).bind value

mutual

def toTokens : Json → List Token
  | .null => [.null]
  | .boolean value => [.boolean value]
  | .number value => [.number value]
  | .string value => [.string value]
  | .array elements => .openBracket :: elementTokens elements ++ [.closeBracket]
  | .object members => .openBrace :: memberTokens members ++ [.closeBrace]

def elementTokens : List Json → List Token
  | [] => []
  | [element] => toTokens element
  | element :: next :: rest => toTokens element ++ .comma :: elementTokens (next :: rest)

def memberTokens : List (UnitString × Json) → List Token
  | [] => []
  | [(key, member)] => .string key :: .colon :: toTokens member
  | (key, member) :: next :: rest =>
    .string key :: .colon :: toTokens member ++ .comma :: memberTokens (next :: rest)

end

theorem run_firstElement (element : Json) (frames : List Frame) (rest : List Token) :
    runPartial Parser.step ⟨.firstElement, frames⟩ (toTokens element ++ rest) =
      runPartial Parser.step ⟨.value, frames⟩ (toTokens element ++ rest) := by
  cases element <;> cases frames <;> rfl

theorem elementTokens_cons (element : Json) (others : List Json) :
    ∃ rest, elementTokens (element :: others) = toTokens element ++ rest := by
  cases others with
  | nil => exact ⟨[], by simp [elementTokens]⟩
  | cons next rest => exact ⟨_, by rw [elementTokens]⟩

theorem run_firstKey (member : UnitString × Json) (others : List (UnitString × Json))
    (frames : List Frame) (rest : List Token) :
    runPartial Parser.step ⟨.firstKey, frames⟩ (memberTokens (member :: others) ++ rest) =
      runPartial Parser.step ⟨.key, frames⟩ (memberTokens (member :: others) ++ rest) := by
  cases others <;> cases frames <;> rfl

mutual

theorem run_toTokens (tree : Json) (frames : List Frame) (rest : List Token) :
    runPartial Parser.step ⟨.value, frames⟩ (toTokens tree ++ rest) =
      runPartial Parser.step ⟨.next tree, frames⟩ rest := by
  cases tree with
  | null => rfl
  | boolean value => rfl
  | number value => rfl
  | string value => rfl
  | array elements =>
    cases elements with
    | nil => rfl
    | cons element others =>
      have inside := run_elementTokens element others [] frames rest
      rcases elementTokens_cons element others with ⟨behind, split⟩
      rw [split, append_assoc, ← run_firstElement, ← append_assoc, ← split] at inside
      simpa [toTokens, runPartial, Parser.step, Parser.begin] using inside
  | object members =>
    cases members with
    | nil => rfl
    | cons member others =>
      have inside := run_memberTokens member others [] frames rest
      rw [← run_firstKey] at inside
      simpa [toTokens, runPartial, Parser.step, Parser.begin] using inside
termination_by sizeOf tree

theorem run_elementTokens (element : Json) (others before : List Json)
    (frames : List Frame) (rest : List Token) :
    runPartial Parser.step ⟨.value, .array before :: frames⟩
      (elementTokens (element :: others) ++ .closeBracket :: rest) =
      runPartial Parser.step ⟨.next (.array (before ++ element :: others)), frames⟩ rest := by
  cases others with
  | nil =>
    rw [elementTokens, run_toTokens element]
    rfl
  | cons next others =>
    have later := run_elementTokens next others (before ++ [element]) frames rest
    rw [elementTokens, append_assoc, run_toTokens element]
    simpa [runPartial, Parser.step, Parser.continueWith] using later
termination_by sizeOf (element :: others)

theorem run_memberTokens (member : UnitString × Json) (others before : List (UnitString × Json))
    (frames : List Frame) (rest : List Token) :
    runPartial Parser.step ⟨.key, .object before :: frames⟩
      (memberTokens (member :: others) ++ .closeBrace :: rest) =
      runPartial Parser.step ⟨.next (.object (before ++ member :: others)), frames⟩ rest := by
  rcases member with ⟨key, element⟩
  cases others with
  | nil =>
    have inside := run_toTokens element (.member before key :: frames) (.closeBrace :: rest)
    simpa [memberTokens, runPartial, Parser.step, Parser.beginKey, Parser.continueWith] using inside
  | cons next others =>
    have inside :=
      run_toTokens element (.member before key :: frames)
        (.comma :: (memberTokens (next :: others) ++ .closeBrace :: rest))
    have later := run_memberTokens next others (before ++ [(key, element)]) frames rest
    simp only [runPartial, Parser.step, Parser.continueWith] at inside
    simpa [memberTokens, runPartial, Parser.step, Parser.beginKey, later]
      using inside
termination_by sizeOf (member :: others)

end

theorem value_toTokens (tree : Json) : value (toTokens tree) = some tree := by
  have whole := run_toTokens tree [] []
  rw [append_nil] at whole
  rw [value, whole]
  rfl

/-! ## Reading strings and words -/

namespace Reader

def Outside (reader : Reader) : Prop :=
  match reader.place with
  | .between => True
  | .word _ => True
  | _ => False

/-- A unit that stands for itself inside a string. -/
def Plain (unit : UInt16) : Prop := unit ≠ 0x22 ∧ unit ≠ 0x5C ∧ ¬ unit < 0x20

variable {unit : UInt16}

section

variable (tokens : List Token)
include tokens

theorem step_string_plain (read : UnitString) (plain : Plain unit) :
    step ⟨tokens, .string read⟩ unit = some ⟨tokens, .string (read ++ [unit])⟩ := by
  simp [step, plain.1, plain.2.1, plain.2.2]

theorem run_string_plain (read text rest : UnitString) (plain : ∀ unit ∈ text, Plain unit) :
    runPartial step ⟨tokens, .string read⟩ (text ++ rest) =
      runPartial step ⟨tokens, .string (read ++ text)⟩ rest := by
  induction text generalizing read with
  | nil => simp
  | cons unit text induction =>
    have here := plain unit (by simp)
    have later : ∀ unit ∈ text, Plain unit := fun unit member => plain unit (by simp [member])
    simp [runPartial, step_string_plain tokens read here, induction _ later]

theorem run_string_backslash (read rest : UnitString) :
    runPartial step ⟨tokens, .string read⟩ (0x5C :: 0x5C :: rest) =
      runPartial step ⟨tokens, .string (read ++ [0x5C])⟩ rest :=
  rfl

theorem between_word (word : isWordUnit unit = true) :
    between tokens unit = some ⟨tokens, .word [unit]⟩ := by
  have noSpace : isSpace unit = false := by
    by_contra space
    simp only [isSpace, Bool.not_eq_false, Bool.or_eq_true, decide_eq_true_eq] at space
    rcases space with ((rfl | rfl) | rfl) | rfl <;> exact absurd word (by decide)
  have noQuote : unit ≠ 0x22 := by
    rintro rfl
    exact absurd word (by decide)
  simp [between, noSpace, noQuote, word]

theorem run_word {word : UnitString} {token : Token} (rest : UnitString)
    (units : ∀ unit ∈ word, isWordUnit unit = true)
    (read : wordToken word = some token) (nonempty : word ≠ []) (ends : isWordUnit unit = false) :
    runPartial step ⟨tokens, .between⟩ (word ++ unit :: rest) =
      runPartial step ⟨tokens ++ [token], .between⟩ (unit :: rest) := by
  have collect (before later : UnitString) (laterUnits : ∀ unit ∈ later, isWordUnit unit = true) :
    runPartial step ⟨tokens, .word before⟩ (later ++ unit :: rest) =
      runPartial step ⟨tokens, .word (before ++ later)⟩ (unit :: rest) := by
    induction later generalizing before with
    | nil => simp
    | cons next later induction =>
      have here := laterUnits next (by simp)
      have others : ∀ unit ∈ later, isWordUnit unit = true :=
        fun unit member => laterUnits unit (by simp [member])
      simp [runPartial, step, here, induction _ others]
  cases word with
  | nil => exact absurd rfl nonempty
  | cons first later =>
    have here := units first (by simp)
    have others : ∀ unit ∈ later, isWordUnit unit = true :=
      fun unit member => units unit (by simp [member])
    have begun : step ⟨tokens, .between⟩ first = some ⟨tokens, .word [first]⟩ :=
      between_word tokens here
    have ended : step ⟨tokens, .word (first :: later)⟩ unit =
      step ⟨tokens ++ [token], .between⟩ unit := by
      simp [step, ends, read]
    simp only [cons_append, runPartial, begun]
    rw [collect [first] later others]
    simp only [singleton_append, runPartial, ended]

end

variable {reader : Reader}

section

variable (outside : reader.Outside)
include outside

theorem step_outside (unit : UInt16) : reader.step unit = none ∨ (isWordUnit unit = true ∧
    ∃ next, reader.step unit = some next ∧ next.Outside) ∨
    ∃ tokens, reader.step unit = between tokens unit := by
  rcases reader with ⟨tokens, place⟩
  cases place with
  | between => exact Or.inr (Or.inr ⟨tokens, rfl⟩)
  | word read =>
    by_cases word : isWordUnit unit = true
    · refine Or.inr (Or.inl ⟨word, ⟨tokens, .word (read ++ [unit])⟩, ?_, trivial⟩)
      simp [step, word]
    · cases meaning : wordToken read with
      | none => exact Or.inl (by simp [step, word, meaning])
      | some token => exact Or.inr (Or.inr ⟨tokens ++ [token], by simp [step, word, meaning]⟩)
  | string read => exact outside.elim
  | escape read => exact outside.elim
  | unicode read digits => exact outside.elim

theorem step_outside_backslash : reader.step 0x5C = none := by
  rcases step_outside outside 0x5C with refused | ⟨word, -⟩ | ⟨tokens, read⟩
  · exact refused
  · exact absurd word (by decide)
  · rw [read]
    rfl

theorem step_outside_quote :
    reader.step 0x22 = none ∨ ∃ tokens, reader.step 0x22 = some ⟨tokens, .string []⟩ := by
  rcases step_outside outside 0x22 with refused | ⟨word, -⟩ | ⟨tokens, read⟩
  · exact Or.inl refused
  · exact absurd word (by decide)
  · exact Or.inr ⟨tokens, read⟩

theorem outside_of_step {next : Reader}
    (noQuote : unit ≠ 0x22) (stepped : reader.step unit = some next) : next.Outside := by
  rcases step_outside outside unit with
    refused | ⟨-, other, reached, kept⟩ | ⟨tokens, read⟩
  · rw [refused] at stepped
    cases stepped
  · rw [reached] at stepped
    cases stepped
    exact kept
  · rw [read] at stepped
    unfold between at stepped
    split_ifs at stepped
    · cases stepped
      trivial
    · cases stepped
      trivial
    · rcases Option.map_eq_some_iff.1 stepped with ⟨token, -, rfl⟩
      trivial

end

def Refuses (reader : Reader) (text : UnitString) : Prop :=
  (runPartial step reader text).bind finish = none

theorem refuses_cons_of_none (refused : reader.step unit = none)
    (rest : UnitString) : reader.Refuses (unit :: rest) := by
  simp [Refuses, runPartial, refused]

theorem refuses_cons_iff {next : Reader}
    (stepped : reader.step unit = some next) (rest : UnitString) :
    reader.Refuses (unit :: rest) ↔ next.Refuses rest := by
  simp [Refuses, runPartial, stepped]

end Reader

end Json

end SysAnalyzer.Foundation
