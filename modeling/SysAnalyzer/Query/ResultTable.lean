import SysAnalyzer.Foundation.JsonDecimal
import SysAnalyzer.Query.SearchDatabase

/-!
# Result tables

The tables a query of the interface answers: distinct plain column names, and
cells that are NULL, small integers or text.  Their statement is what SQLite
answers for them, and the bytes `SearchDatabase` writes for it are the UTF-8
bytes of one text.
-/

namespace SysAnalyzer.Query

open Foundation List

/-- A cell; an integer is small enough to be a double, a text holds no NUL. -/
inductive Cell where
  | null
  | integer (value : ℤ) (exact : value.natAbs < 2 ^ 53)
  | text (characters : List Char)
    (terminated : ∀ character ∈ characters, character.toNat ≠ 0)

/-- A printable ASCII character other than the quote, the backslash and the bar. -/
def PlainCharacter (character : Char) : Prop :=
  0x20 ≤ character.toNat ∧ character.toNat ≤ 0x7E ∧
    character ≠ '"' ∧ character ≠ '\\' ∧ character ≠ '|'

/--
A result table.  `__proto__` is the one plain name that is not the name of a
field of its own on a JavaScript object.
-/
structure ResultTable where
  columns : List (List Char)
  rows : List (List Cell)
  plain : ∀ name ∈ columns, ∀ character ∈ name, PlainCharacter character
  ownFields : "__proto__".toList ∉ columns
  distinct : columns.Nodup
  width : ∀ row ∈ rows, row.length = columns.length
  rows_of_noColumns : columns = [] → rows = []

def Cell.column : Cell → Column
  | .null => ⟨none, false⟩
  | .integer value _ => ⟨some (utf8 (Json.decimal value)), false⟩
  | .text characters _ => ⟨some (utf8 characters), true⟩

def ResultTable.statement (table : ResultTable) : Statement where
  columnNames := table.columns.map utf8
  rows := table.rows.map (·.map Cell.column)
  width := by
    intro row member
    rcases mem_map.1 member with ⟨cells, listed, rfl⟩
    simp [table.width cells listed]
  rows_of_noColumns := by
    intro noColumns
    rw [map_eq_nil_iff] at noColumns ⊢
    exact table.rows_of_noColumns noColumns

/-- A text in quotes, with quotes and backslashes escaped. -/
def quoted (characters : List Char) : List Char :=
  '"' :: characters.flatMap (fun character =>
    if character = '\\' ∨ character = '"' then ['\\', character]
    else [character]) ++ ['"']

theorem cString_utf8 {characters : List Char}
    (terminated : ∀ character ∈ characters, character.toNat ≠ 0) :
    cString (utf8 characters) = utf8 characters := by
  refine takeWhile_eq_self_iff.2 ?_
  intro byte member
  rcases mem_flatMap.1 member with ⟨character, listed, encoded⟩
  have nonzero := terminated character listed
  rw [bne_iff_ne, ne_eq, ← UInt8.toNat_inj]
  by_cases ascii : character.toNat < 0x80
  · rw [utf8EncodeChar_ascii ascii, mem_singleton] at encoded
    rw [encoded, UInt8.toNat_ofNat', UInt8.toNat_zero]
    omega
  · have wide := le_of_mem_utf8EncodeChar (not_lt.1 ascii) encoded
    rw [UInt8.toNat_zero]
    omega

theorem escape_utf8EncodeChar (character : Char) : (String.utf8EncodeChar character).flatMap
    (fun byte => if byte = 0x5C ∨ byte = 0x22 then [0x5C, byte] else [byte]) =
    utf8 (if character = '\\' ∨ character = '"' then ['\\', character] else [character]) := by
  by_cases special : character = '\\' ∨ character = '"'
  · rcases special with rfl | rfl <;> decide
  · have unescaped : ∀ byte ∈ String.utf8EncodeChar character, ¬ (byte = 0x5C ∨ byte = 0x22) := by
      intro byte encoded
      by_cases ascii : character.toNat < 0x80
      · rw [utf8EncodeChar_ascii ascii, mem_singleton] at encoded
        rw [encoded, ← UInt8.toNat_inj, ← UInt8.toNat_inj, UInt8.toNat_ofNat']
        rw [← Char.toNat_inj, ← Char.toNat_inj] at special
        change ¬ (character.toNat = 0x5C ∨ character.toNat = 0x22) at special
        change ¬ (character.toNat % 256 = 0x5C ∨ character.toNat % 256 = 0x22)
        omega
      · have wide := le_of_mem_utf8EncodeChar (not_lt.1 ascii) encoded
        rintro (rfl | rfl)
        · exact absurd wide (by decide)
        · exact absurd wide (by decide)
    rw [if_neg special, utf8_cons, utf8_nil, append_nil]
    refine Eq.trans (flatMap_congr fun byte encoded => ?_) (flatMap_singleton' _)
    exact if_neg (unescaped byte encoded)

theorem formatString_utf8 {characters : List Char}
    (terminated : ∀ character ∈ characters, character.toNat ≠ 0) :
    formatString (utf8 characters) = utf8 (quoted characters) := by
  have escaped : (utf8 characters).flatMap (fun byte =>
    if byte = 0x5C ∨ byte = 0x22 then [0x5C, byte] else [byte]) =
    utf8 (characters.flatMap fun character =>
      if character = '\\' ∨ character = '"' then ['\\', character]
      else [character]) := by
    simp only [utf8, flatMap_assoc]
    refine flatMap_congr fun character _ => ?_
    exact escape_utf8EncodeChar character
  have quote : literal "\"" = String.utf8EncodeChar '"' := by decide
  rw [formatString, cString_utf8 terminated, escaped, quote, quoted]
  simp

def Cell.characters : Cell → List Char
  | .null => "null".toList
  | .integer value _ => Json.decimal value
  | .text characters _ => quoted characters

theorem decimal_terminated (value : ℤ) : ∀ character ∈ Json.decimal value, character.toNat ≠ 0 := by
  intro character member
  rcases mem_append.1 member with sign | digit
  · split_ifs at sign
    · rw [mem_singleton.1 sign]
      decide
    · exact absurd sign not_mem_nil
  · rcases mem_map.1 digit with ⟨value, listed, rfl⟩
    have small := Json.decimalDigits_lt listed
    interval_cases value <;> decide

theorem columnText_column (cell : Cell) : columnText cell.column = utf8 cell.characters := by
  cases cell with
  | null => rfl
  | integer value exact =>
    simp [Cell.column, columnText, Cell.characters, cString_utf8 (decimal_terminated value)]
  | text characters terminated =>
    simp [Cell.column, columnText, Cell.characters, formatString_utf8 terminated]

def rowCharacters (row : List Cell) : List Char :=
  '[' :: [','].intercalate (row.map Cell.characters) ++ [']']

def okLine : List Char := "ok\r\n".toList

def columnsHead : List Char := "\x7b\"columns\":[".toList

/-- The text between the column names and the rows. -/
def valuesHead : List Char := "],\"values\":[".toList

/-- The text behind the rows. -/
def tableEnd : List Char := "]\x7d".toList

def lineEnd : List Char := "\r\n".toList

def ResultTable.characters (table : ResultTable) : List Char :=
  columnsHead ++ [','].intercalate (table.columns.map fun name => '"' :: name ++ ['"']) ++
    valuesHead ++
    [','].intercalate (table.rows.map rowCharacters) ++
    tableEnd

theorem utf8_intercalate (texts : List (List Char)) :
    utf8 ([','].intercalate texts) = [0x2C].intercalate (texts.map utf8) := by
  have comma : String.utf8EncodeChar ',' = [0x2C] := by decide
  induction texts with
  | nil => rfl
  | cons text rest induction =>
    cases rest with
    | nil => simp [intercalate]
    | cons next others =>
      simp only [intercalate, map_cons, intersperse,
        flatten_cons, utf8_append] at induction ⊢
      simp [induction, comma]

theorem rowText_utf8 (row : List Cell) :
    rowText (row.map Cell.column) = utf8 (rowCharacters row) := by
  have texts : (row.map Cell.column).map columnText = (row.map Cell.characters).map utf8 := by
    simp [columnText_column]
  have opening : literal "[" = String.utf8EncodeChar '[' := by decide
  have closing : literal "]" = String.utf8EncodeChar ']' := by decide
  rw [rowText, texts, ← utf8_intercalate, opening, closing, rowCharacters]
  simp

theorem headerText_utf8 (columns : List (List Char)) :
    headerText (columns.map utf8) = utf8 (okLine ++ (columnsHead ++
      [','].intercalate (columns.map fun name => '"' :: name ++ ['"'])) ++ valuesHead) := by
  have names : (columns.map utf8).map (fun name => literal "\"" ++ name ++ literal "\"") =
    (columns.map fun name => '"' :: name ++ ['"']).map utf8 := by
    have quote : literal "\"" = String.utf8EncodeChar '"' := by decide
    simp [quote]
  rw [headerText, names, ← utf8_intercalate, utf8_append, utf8_append,
    utf8_append, ← append_assoc]
  rfl

theorem searchDatabase_statement (table : ResultTable) (columns : table.columns ≠ []) :
    searchDatabase (.ok table.statement) = some (utf8 (okLine ++ table.characters ++ lineEnd)) := by
  have named : table.statement.columnNames ≠ [] := by simpa [ResultTable.statement] using columns
  have rows : (table.rows.map (·.map Cell.column)).map rowText =
    (table.rows.map rowCharacters).map utf8 := by
    simp [rowText_utf8]
  have tail : literal "]\x7d\r\n" = utf8 tableEnd ++ utf8 lineEnd := by decide
  rw [searchDatabase_eq _ named, tail]
  change some (headerText (table.columns.map utf8) ++ [0x2C].intercalate
    ((table.rows.map (·.map Cell.column)).map rowText) ++ _) = _
  rw [headerText_utf8, rows, ← utf8_intercalate]
  simp only [ResultTable.characters, utf8_append, append_assoc]

end SysAnalyzer.Query
