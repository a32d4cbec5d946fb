import SysAnalyzer.Foundation.JsonReading
import SysAnalyzer.Query.BoundedSearch
import SysAnalyzer.Query.RoundTrip

/-!
# Which bounded outputs are whole objects

The text that is written up to the end of the last row is an object whose
`values` are all the rows.  A text that is closed before a row that does not fit
still has the comma behind the row before it, unless no row was written.
-/

namespace SysAnalyzer.Query

open Foundation List

/-! ## Result tables -/

/--
A cell: NULL, the text SQLite makes of an integer or a float, a text without NUL
or the bytes of a blob.
-/
inductive QueryCell where
  | null
  | number (printed : List Char)
  | text (characters : List Char)
    (terminated : ∀ character ∈ characters, character.toNat ≠ 0)
  | blob (content : Bytes)

def QueryCell.column : QueryCell → Column
  | .null => ⟨none, false⟩
  | .number printed => ⟨some (utf8 printed), false⟩
  | .text characters _ => ⟨some (utf8 characters), true⟩
  | .blob content => ⟨some content, false⟩

/-- The result of a statement with columns. -/
structure QueryTable where
  columns : List (List Char)
  rows : List (List QueryCell)
  columns_ne : columns ≠ []
  width : ∀ row ∈ rows, row.length = columns.length

namespace QueryTable

def statement (table : QueryTable) : Statement where
  columnNames := table.columns.map utf8
  rows := table.rows.map (·.map QueryCell.column)
  width := by
    intro row member
    rcases mem_map.1 member with ⟨cells, listed, rfl⟩
    simp [table.width cells listed]
  rows_of_noColumns := fun none => absurd (map_eq_nil_iff.1 none) table.columns_ne

end QueryTable

def QueryCell.Value : QueryCell → Json → Prop
  | .null, value => value = .null
  | .number printed, value =>
    (∀ unit ∈ utf16 printed, Json.isWordUnit unit = true) ∧ ∃ number,
      Json.wordToken (utf16 printed) = some (.number number) ∧ value = .number number
  | .text characters _, value => value = .string (utf16 characters)
  | .blob _, _ => False

def RowValue (row : List QueryCell) (value : Json) : Prop :=
  ∃ cells, List.Forall₂ QueryCell.Value row cells ∧ value = .array cells

/-- `values`. -/
def valuesKey : UnitString := units "values"

def memberOf (key : UnitString) (members : List (UnitString × Json)) : Option Json :=
  (members.reverse.find? fun member => decide (member.1 = key)).map (·.2)

/-- The whole text of the result has room in the buffer, with its terminator. -/
def QueryTable.Fits (table : QueryTable) (outLen : Int) : Prop :=
  (table.statement.wholeText.length : Int) < outLen

/--
The bytes in front of the position are `ok`, a line end and an object whose
values are the first rows, and all of them when they fit.
-/
structure ValidOutput
    (table : QueryTable) (outLen : Int) (out : Bytes) : Prop where
  bounded : (out.length : Int) ≤ outLen
  ok : literal "ok\r\n" <+: out
  object : ∃ members values shown,
    Json.parse (TextDecoder.decode (out.drop 4)) = some (.object members) ∧
      memberOf valuesKey members = some (.array values) ∧
      shown <+: table.rows ∧
      List.Forall₂ RowValue shown values ∧
      (table.Fits outLen → shown = table.rows)

def AnswersValid (table : QueryTable) (outLen : Int) : Prop :=
  ∃ answer, searchDatabaseOut (.ok table.statement) outLen = some answer ∧
    ∀ out, answer = some out → ValidOutput table outLen out

section Reading

open Json Json.Reader

variable {reader : Reader} {all : List Token} {rest : UnitString}

theorem finish_inside {read : UnitString} (inside : reader.content? = some read) :
    reader.finish = none := by
  rcases reader with ⟨tokens, place⟩
  cases place with
  | between => cases inside
  | word word => cases inside
  | string string => rfl
  | escape string => rfl
  | unicode string digits => rfl

def separatorTokens : List Token := [.closeBracket, .comma, .string valuesKey, .colon, .openBracket]

theorem reads_valuesHead_iff :
    reader.Reads (utf16 valuesHead ++ rest) all ↔ ∃ tokens, reader.finish = some tokens ∧
      Reads ⟨tokens ++ separatorTokens, .between⟩ rest all := by
  have separator : utf16 valuesHead = 0x5D :: 0x2C :: 0x22 :: (valuesKey ++
    [0x22, 0x3A, 0x5B]) := by
    decide
  have bracket : mark 0x5D = some .closeBracket := rfl
  rw [separator]
  cases place : reader.content? with
  | none =>
    have stepped := step_mark_outside place bracket
    cases finished : reader.finish with
    | none =>
      rw [finished] at stepped
      simp [not_reads_cons stepped]
    | some tokens =>
      rw [finished, Option.map_some] at stepped
      have run : runPartial step ⟨tokens ++ [.closeBracket], .between⟩
        (0x2C :: 0x22 :: (valuesKey ++ [0x22, 0x3A, 0x5B])) =
          some ⟨tokens ++ [.closeBracket] ++ [.comma] ++
            [.string valuesKey] ++ [.colon] ++ [.openBracket],
            .between⟩ := by
        rfl
      rw [cons_append, reads_cons_iff stepped, reads_append_iff, run]
      simp [separatorTokens]
  | some read =>
    rw [finish_inside place]
    simp only [reduceCtorEq, false_and, exists_false, iff_false]
    intro reads
    rcases step_of_reads reads with ⟨next, stepped, later⟩
    have same := step_mark_inside place bracket stepped
    subst same
    have refused : runPartial step ⟨reader.tokens, .string (read ++ [0x5D])⟩
      (0x2C :: 0x22 :: (valuesKey ++ [0x22])) = none := by
      rfl
    have split : (0x2C :: 0x22 :: (valuesKey ++ [0x22, 0x3A, 0x5B])) ++ rest =
      (0x2C :: 0x22 :: (valuesKey ++ [0x22])) ++ (0x3A :: 0x5B :: rest) := by
      simp
    change Reads _ ((0x2C :: 0x22 :: (valuesKey ++ [0x22, 0x3A, 0x5B])) ++ rest) all at later
    rw [split, reads_append_iff, refused] at later
    simp at later

theorem reads_columnsEnd_iff :
    reader.Reads [0x5D, 0x7D] all ↔ ∃ tokens, reader.finish = some tokens ∧
      all = tokens ++ [.closeBracket, .closeBrace] := by
  have bracket : mark 0x5D = some .closeBracket := rfl
  have brace : mark 0x7D = some .closeBrace := rfl
  cases place : reader.content? with
  | none =>
    have stepped := step_mark_outside place bracket
    cases finished : reader.finish with
    | none =>
      rw [finished] at stepped
      simp [not_reads_cons stepped]
    | some tokens =>
      rw [finished, Option.map_some] at stepped
      rw [reads_cons_iff stepped, reads_mark_iff brace]
      simp [Reads, runPartial, Reader.finish, eq_comm]
  | some read =>
    rw [finish_inside place]
    simp only [reduceCtorEq, false_and, exists_false, iff_false]
    intro reads
    rcases step_of_reads reads with ⟨next, stepped, later⟩
    have same := step_mark_inside place bracket stepped
    subst same
    cases later

theorem tokens_of_trailingComma (reads : reader.Reads [0x2C, 0x5D, 0x7D, 0x0D, 0x0A] all) :
    ∃ tokens, all = tokens ++ [.comma, .closeBracket, .closeBrace] := by
  have comma : mark 0x2C = some .comma := rfl
  rcases step_of_reads reads with ⟨next, stepped, later⟩
  cases place : reader.content? with
  | none =>
    have ended := step_mark_outside place comma
    rw [stepped] at ended
    rcases Option.map_eq_some_iff.1 ended.symm with ⟨tokens, -, rfl⟩
    refine ⟨tokens, ?_⟩
    have read : Reads ⟨tokens ++ [.comma], .between⟩ [0x5D, 0x7D, 0x0D, 0x0A] all ↔
      tokens ++ [.comma] ++ [.closeBracket] ++ [.closeBrace] = all := by
      rw [reads_mark_iff (show mark 0x5D = some .closeBracket by rfl),
        reads_mark_iff (show mark 0x7D = some .closeBrace by rfl)]
      exact Option.some_inj
    rw [← read.1 later]
    simp
  | some read =>
    have same := step_mark_inside place comma stepped
    subst same
    cases later

end Reading

section Values

open Json

theorem value_trailingComma (tokens : List Token) :
    Json.value (tokens ++ [.comma, .closeBracket, .closeBrace]) = none := by
  rw [Json.value, runPartial_append]
  cases runPartial Parser.step ⟨.value, []⟩ tokens with
  | none => rfl
  | some parser =>
    rcases parser with ⟨expect, frames⟩
    have refused : runPartial Parser.step ⟨expect, frames⟩
      [.comma, .closeBracket, .closeBrace] = none := by
      cases expect with
      | value => rfl
      | firstElement => cases frames <;> rfl
      | key => rfl
      | firstKey => cases frames <;> rfl
      | colon => rfl
      | next value =>
        cases frames with
        | nil => rfl
        | cons frame outer => cases frame <;> rfl
    rw [Option.bind_some, refused]
    rfl

theorem next_of_closeBracket
    {parser next : Parser} (stepped : parser.step .closeBracket = some next) :
    ∃ value, next.expect = .next value := by
  rcases parser with ⟨expect, frames⟩
  cases expect with
  | value => cases stepped
  | firstElement =>
    cases frames with
    | nil => cases stepped
    | cons frame outer =>
      cases stepped
      exact ⟨_, rfl⟩
  | key => cases stepped
  | firstKey => cases frames <;> cases stepped
  | colon => cases stepped
  | next value =>
    cases frames with
    | nil => cases stepped
    | cons frame outer =>
      cases frame <;> cases stepped
      exact ⟨_, rfl⟩

theorem run_arrayElements (values : List Json) (frames : List Frame) (rest : List Token) :
    runPartial Parser.step ⟨.firstElement, .array [] :: frames⟩
      (elementTokens values ++ .closeBracket :: rest) =
      runPartial Parser.step ⟨.next (.array values), frames⟩ rest := by
  cases values with
  | nil => rfl
  | cons element others =>
    have inside := run_elementTokens element others [] frames rest
    rcases elementTokens_cons element others with ⟨behind, split⟩
    rw [split, append_assoc] at inside ⊢
    rw [run_firstElement, inside]
    rfl

/--
The value of columns and rows: when what stands in front of the separator is an
object once it is closed, the rows are its last member.
-/
theorem value_separated_iff (tokens : List Token) (values : List Json) (tree : Json) :
    Json.value (tokens ++ separatorTokens ++
      (elementTokens values ++ [.closeBracket]) ++ [.closeBrace]) = some tree ↔
      ∃ members, Json.value (tokens ++ [.closeBracket, .closeBrace]) = some (.object members) ∧
        tree = .object (members ++ [(valuesKey, .array values)]) := by
  have whole : tokens ++ separatorTokens ++
    (elementTokens values ++ [.closeBracket]) ++ [.closeBrace] = (tokens ++ [.closeBracket]) ++
      (.comma :: .string valuesKey :: .colon :: .openBracket ::
        (elementTokens values ++ .closeBracket :: [.closeBrace])) := by
    simp [separatorTokens]
  have columns : tokens ++ [.closeBracket, .closeBrace] =
    (tokens ++ [.closeBracket]) ++ [.closeBrace] := by
    simp
  rw [whole, columns, Json.value, Json.value,
    runPartial_append _ _ (tokens ++ [Token.closeBracket]),
    runPartial_append _ _ (tokens ++ [Token.closeBracket])]
  cases reached : runPartial Parser.step ⟨.value, []⟩ (tokens ++ [.closeBracket]) with
  | none => simp
  | some parser =>
    have isNext : ∃ value, parser.expect = .next value := by
      rw [runPartial_append, Option.bind_eq_some_iff] at reached
      rcases reached with ⟨before, -, last⟩
      simp only [runPartial] at last
      cases stepped : before.step .closeBracket with
      | none =>
        rw [stepped] at last
        cases last
      | some next =>
        rw [stepped] at last
        cases last
        exact next_of_closeBracket stepped
    rcases parser with ⟨expect, frames⟩
    rcases isNext with ⟨value, rfl⟩
    rw [Option.bind_some, Option.bind_some]
    cases frames with
    | nil => simp [runPartial, Parser.step, Parser.continueWith]
    | cons frame outer =>
      cases frame with
      | array elements => simp [runPartial, Parser.step, Parser.continueWith, Parser.begin]
      | object members => simp [runPartial, Parser.step, Parser.continueWith]
      | member members key =>
        have opened : runPartial Parser.step ⟨.next value, .member members key :: outer⟩
          (.comma :: .string valuesKey :: .colon :: .openBracket ::
            (elementTokens values ++ .closeBracket :: [.closeBrace])) =
            runPartial Parser.step ⟨.firstElement, .array [] ::
              .member (members ++ [(key, value)]) valuesKey :: outer⟩
              (elementTokens values ++ .closeBracket :: [.closeBrace]) :=
          rfl
        rw [opened, run_arrayElements]
        cases outer with
        | nil =>
          have closed : ((runPartial Parser.step ⟨.next value, [.member members key]⟩
            [.closeBrace]).bind Parser.finish) = some (.object (members ++ [(key, value)])) :=
            rfl
          have ended : ((runPartial Parser.step ⟨.next (.array values),
            [.member (members ++ [(key, value)]) valuesKey]⟩
            [.closeBrace]).bind Parser.finish) = some (.object (members ++ [(key, value)] ++
              [(valuesKey, .array values)])) :=
            rfl
          rw [closed, ended]
          simp [eq_comm]
        | cons frame outer => simp [runPartial, Parser.step, Parser.continueWith, Parser.finish]

end Values

/-- A text without control characters. -/
def QueryCell.Printable : QueryCell → Prop
  | .text characters _ => ∀ character ∈ characters, 0x20 ≤ character.toNat
  | _ => True

/-- The units written for a cell; those of a blob are left open. -/
def QueryCell.units : QueryCell → UnitString
  | .null => [0x6E, 0x75, 0x6C, 0x6C]
  | .number printed => utf16 printed
  | .text characters _ => 0x22 :: (escapeUnits (utf16 characters) ++ [0x22])
  | .blob _ => []

def rowUnits (row : List QueryCell) : UnitString :=
  0x5B :: ([0x2C].intercalate (row.map QueryCell.units) ++ [0x5D])

section Rows

open Json Json.Reader

variable {before all : List Token} {rest : UnitString}

theorem reads_escapeUnits_iff
    (before : List Token) (read text rest : UnitString) (all : List Token) :
    Reads ⟨before, .string read⟩ (escapeUnits text ++ 0x22 :: rest) all ↔
      (∀ unit ∈ text, ¬ unit < 0x20) ∧
        Reads ⟨before ++ [.string (read ++ text)], .between⟩ rest all := by
  induction text generalizing read with
  | nil =>
    have closed : step ⟨before, .string read⟩ 0x22 =
      some ⟨before ++ [.string read], .between⟩ := rfl
    simpa [escapeUnits] using reads_cons_iff closed
  | cons unit text induction =>
    have later := induction (read ++ [unit])
    rw [append_assoc, singleton_append] at later
    have split : escapeUnits (unit :: text) = escapeUnits [unit] ++ escapeUnits text := by
      simp [escapeUnits]
    rw [split, forall_mem_cons, and_assoc, ← later, append_assoc]
    by_cases special : unit = 0x5C ∨ unit = 0x22
    · have printable : ¬ unit < 0x20 := by
        rcases special with rfl | rfl <;> decide
      have escaped : escapeUnits [unit] = [0x5C, unit] := by simp [escapeUnits, special]
      have opened : step ⟨before, .string read⟩ 0x5C = some ⟨before, .escape read⟩ := rfl
      have taken : step ⟨before, .escape read⟩ unit = some ⟨before, .string (read ++ [unit])⟩ := by
        rcases special with rfl | rfl <;> rfl
      rw [escaped, cons_append, reads_cons_iff opened,
        cons_append, reads_cons_iff taken, nil_append]
      simp [printable]
    · have alone : escapeUnits [unit] = [unit] := by
        simp [escapeUnits, special]
      rw [alone, singleton_append]
      rw [not_or] at special
      by_cases control : unit < 0x20
      · have refused : step ⟨before, .string read⟩ unit = none := by
          simp [step, special.2, control]
        simp [control, not_reads_cons refused]
      · have plain : Plain unit := ⟨special.2, special.1, control⟩
        rw [reads_cons_iff (step_string_plain before read plain)]
        simp [control]

theorem reads_cell_iff {cell : QueryCell} {value : Json} (valued : cell.Value value)
    {unit : UInt16} {token : Token} (isMark : mark unit = some token) :
    Reads ⟨before, .between⟩ (cell.units ++ unit :: rest) all ↔ cell.Printable ∧
      Reads ⟨before ++ toTokens value, .between⟩ (unit :: rest) all := by
  have ends : isWordUnit unit = false := (mark_facts isMark).1
  cases cell with
  | null =>
    subst valued
    refine Iff.trans ?_ (and_iff_right trivial).symm
    refine reads_word_iff ?_ rfl (cons_ne_nil _ _) ends
    intro unit member
    simp only [QueryCell.units, mem_cons, not_mem_nil, or_false]
      at member
    rcases member with rfl | rfl | rfl | rfl <;> rfl
  | number printed =>
    rcases valued with ⟨wordUnits, number, meaning, rfl⟩
    refine Iff.trans ?_ (and_iff_right trivial).symm
    refine reads_word_iff wordUnits meaning ?_ ends
    intro empty
    have nothing : utf16 printed = [] := empty
    rw [nothing] at meaning
    cases meaning
  | text characters terminated =>
    subst valued
    have opened : step ⟨before, .between⟩ 0x22 = some ⟨before, .string []⟩ := rfl
    have inside := reads_escapeUnits_iff before [] (utf16 characters) (unit :: rest) all
    rw [printable_utf16_iff, nil_append] at inside
    rw [QueryCell.units, cons_append, reads_cons_iff opened, append_assoc]
    exact inside
  | blob content => exact valued.elim

theorem reads_row_iff {row : List QueryCell} {value : Json} (valued : RowValue row value)
    {unit : UInt16} :
    Reads ⟨before, .between⟩ (rowUnits row ++ unit :: rest) all ↔ (∀ cell ∈ row, cell.Printable) ∧
      Reads ⟨before ++ toTokens value, .between⟩ (unit :: rest) all := by
  rcases valued with ⟨cells, values, rfl⟩
  have inside : Reads ⟨before ++ [.openBracket], .between⟩
    ([0x2C].intercalate (row.map QueryCell.units) ++ 0x5D :: unit :: rest) all ↔
      (∀ cell ∈ row, cell.Printable) ∧ Reads ⟨before ++ [.openBracket] ++
        (elementTokens cells ++ [.closeBracket]), .between⟩
        (unit :: rest) all := by
    refine reads_elements_iff (fun _ => True) (fun _ _ _ => trivial) ?_ values _ trivial _
    intro cell value valued before rest unit token isMark _
    exact reads_cell_iff valued isMark
  rw [rowUnits, cons_append, append_assoc, singleton_append,
    reads_mark_iff (show mark 0x5B = some .openBracket by rfl), inside]
  simp [toTokens]

theorem reads_rows_iff {rows : List (List QueryCell)} {values : List Json}
    (valued : List.Forall₂ RowValue rows values) (before : List Token) :
    Reads ⟨before, .between⟩ ([0x2C].intercalate (rows.map rowUnits) ++ 0x5D :: rest) all ↔
      (∀ row ∈ rows, ∀ cell ∈ row, cell.Printable) ∧
        Reads ⟨before ++ (elementTokens values ++ [.closeBracket]), .between⟩ rest all := by
  refine reads_elements_iff (fun _ => True) (fun _ _ _ => trivial) ?_ valued before trivial rest
  intro row value valued before rest unit token _ _
  exact reads_row_iff valued

end Rows

theorem exists_forall₂_iff {Item Value : Type} {Related : Item → Value → Prop} {items : List Item} :
    (∃ values, List.Forall₂ Related items values) ↔
      ∀ item ∈ items, ∃ value, Related item value := by
  induction items with
  | nil => simp
  | cons item rest induction =>
    rw [forall_mem_cons, ← induction]
    simp only [forall₂_cons_left_iff]
    constructor
    · rintro ⟨_, value, values, related, others, rfl⟩
      exact ⟨⟨value, related⟩, values, others⟩
    · rintro ⟨⟨value, related⟩, values, others⟩
      exact ⟨_, value, values, related, others, rfl⟩

/-- The characters written for a cell; those of a blob are left open. -/
def QueryCell.written : QueryCell → List Char
  | .null => "null".toList
  | .number printed => printed
  | .text characters _ => quoted characters
  | .blob _ => []

def rowWritten (row : List QueryCell) : List Char :=
  '[' :: [','].intercalate (row.map QueryCell.written) ++ [']']

/-- The columns, without the end of their array. -/
def columnsWritten (columns : List (List Char)) : List Char :=
  columnsHead ++ [','].intercalate (columns.map fun name => '"' :: name ++ ['"'])

def objectText (columns : List (List Char)) (rows : List (List QueryCell)) : List Char :=
  columnsWritten columns ++ valuesHead ++
    [','].intercalate (rows.map rowWritten) ++ tableEnd ++ lineEnd

theorem columnText_written {cell : QueryCell} {value : Json} (valued : cell.Value value) :
    columnText cell.column = utf8 cell.written := by
  cases cell with
  | null => decide
  | number printed =>
    have terminated : ∀ character ∈ printed, character.toNat ≠ 0 := by
      intro character member zero
      have listed : (0 : UInt16) ∈ utf16 printed :=
        (mem_utf16_iff (by decide)).2 ⟨character, member, zero⟩
      exact absurd (valued.1 0 listed) (by decide)
    simp [QueryCell.column, columnText, QueryCell.written, cString_utf8 terminated]
  | text characters terminated =>
    simp [QueryCell.column, columnText, QueryCell.written, formatString_utf8 terminated]
  | blob content => exact valued.elim

theorem utf16_cellWritten (cell : QueryCell) : utf16 cell.written = cell.units := by
  cases cell with
  | null => decide
  | number printed => rfl
  | text characters terminated => exact utf16_quoted characters
  | blob content => rfl

theorem rowText_written {row : List QueryCell} {value : Json} (valued : RowValue row value) :
    rowText (row.map QueryCell.column) = utf8 (rowWritten row) := by
  rcases valued with ⟨cells, values, rfl⟩
  have texts : (row.map QueryCell.column).map columnText =
    (row.map QueryCell.written).map utf8 := by
    rw [map_map, map_map]
    refine map_congr_left fun cell member => ?_
    rcases exists_forall₂_iff.1 ⟨cells, values⟩ cell member with
      ⟨value, valued⟩
    exact columnText_written valued
  have opening : literal "[" = String.utf8EncodeChar '[' := by decide
  have closing : literal "]" = String.utf8EncodeChar ']' := by decide
  rw [rowText, texts, ← utf8_intercalate, opening, closing, rowWritten]
  simp

theorem utf16_rowWritten (row : List QueryCell) : utf16 (rowWritten row) = rowUnits row := by
  have opening : utf16Point 0x5B = [0x5B] := by decide
  have closing : utf16Point 0x5D = [0x5D] := by decide
  have cells : (row.map QueryCell.written).map utf16 = row.map QueryCell.units := by
    rw [map_map]
    exact map_congr_left fun cell _ => utf16_cellWritten cell
  simp [rowWritten, rowUnits, utf16_intercalate, cells, opening, closing]

variable {values : List Json}

theorem bytes_objectText (columns : List (List Char)) {rows : List (List QueryCell)}
    (valued : List.Forall₂ RowValue rows values) :
    headerText (columns.map utf8) ++ [0x2C].intercalate
      ((rows.map (·.map QueryCell.column)).map rowText) ++ closing =
      utf8 (okLine ++ objectText columns rows) := by
  have texts : (rows.map (·.map QueryCell.column)).map rowText =
    (rows.map rowWritten).map utf8 := by
    rw [map_map, map_map]
    refine map_congr_left fun row member => ?_
    rcases exists_forall₂_iff.1 ⟨values, valued⟩ row member with
      ⟨value, valued⟩
    exact rowText_written valued
  have ending : closing = utf8 tableEnd ++ utf8 lineEnd := by decide
  rw [headerText_utf8, texts, ← utf8_intercalate, ending, objectText, columnsWritten]
  simp only [utf8_append, append_assoc]

theorem decode_objectText (columns : List (List Char)) (rows : List (List QueryCell)) :
    TextDecoder.decode ((utf8 (okLine ++ objectText columns rows)).drop 4) =
      utf16 (objectText columns rows) := by
  have line : (utf8 okLine).length = 4 := by decide
  have head : (objectText columns rows).head? = some '{' := rfl
  have noMark :
    (objectText columns rows).head?.map Char.toNat ≠ some 0xFEFF := by
    rw [head]
    decide
  rw [utf8_append, ← line, drop_left, TextDecoder.decode_utf8 noMark]

/-! ## When the answer is valid -/

/-- The column names make an object once their array and it are closed. -/
def ColumnsWellFormed (columns : List (List Char)) : Prop :=
  ∃ members,
    Json.parse (utf16 (columnsWritten columns) ++ [0x5D, 0x7D]) =
      some (.object members)

/-- Numbers are literals, there is no blob, and texts are printable. -/
def RowsReadable (rows : List (List QueryCell)) : Prop :=
  ∀ row ∈ rows, ∀ cell ∈ row, (∃ value, cell.Value value) ∧ cell.Printable

theorem parse_objectText_iff (columns : List (List Char)) {rows : List (List QueryCell)}
    (valued : List.Forall₂ RowValue rows values) (tree : Json) :
    Json.parse (utf16 (objectText columns rows)) = some tree ↔
      (∀ row ∈ rows, ∀ cell ∈ row, cell.Printable) ∧ ∃ members,
        Json.parse (utf16 (columnsWritten columns) ++ [0x5D, 0x7D]) = some (.object members) ∧
          tree = .object (members ++ [(valuesKey, .array values)]) := by
  have units :
    utf16 (objectText columns rows) =
      utf16 (columnsWritten columns) ++ (utf16 valuesHead ++
        ([0x2C].intercalate (rows.map rowUnits) ++
          0x5D :: [0x7D, 0x0D, 0x0A])) := by
    have ending : utf16 tableEnd ++ utf16 lineEnd = [0x5D, 0x7D, 0x0D, 0x0A] := by decide
    have texts : (rows.map rowWritten).map utf16 = rows.map rowUnits := by
      rw [map_map]
      exact map_congr_left fun row _ => utf16_rowWritten row
    rw [objectText, utf16_append, utf16_append, utf16_append, utf16_append,
      utf16_intercalate, texts, append_assoc, append_assoc,
      append_assoc, ending]
  have closed (tokens all : List Json.Token) :
    Json.Reader.Reads ⟨tokens, .between⟩ [0x7D, 0x0D, 0x0A] all ↔
      all = tokens ++ [.closeBrace] := by
    have read :
      Json.Reader.Reads ⟨tokens, .between⟩ [0x7D, 0x0D, 0x0A] all ↔
        tokens ++ [.closeBrace] = all := by
      rw [Json.Reader.reads_mark_iff
        (show Json.mark 0x7D = some .closeBrace by rfl)]
      exact Option.some_inj
    rw [read, eq_comm]
  have whole (all : List Json.Token) :=
    Json.Reader.reads_append_iff ⟨[], .between⟩
      (utf16 (columnsWritten columns))
      (utf16 valuesHead ++
        ([0x2C].intercalate (rows.map rowUnits) ++ 0x5D :: [0x7D, 0x0D, 0x0A]))
      all
  have front (all : List Json.Token) :=
    Json.Reader.reads_append_iff ⟨[], .between⟩
      (utf16 (columnsWritten columns)) [0x5D, 0x7D] all
  simp only [reads_valuesHead_iff, reads_rows_iff valued, closed] at whole
  simp only [reads_columnsEnd_iff] at front
  rw [units, Json.parse, Json.parse, Option.bind_eq_some_iff]
  simp only [Option.bind_eq_some_iff, Json.Reader.tokens_eq_some_iff, whole,
    front]
  constructor
  · rintro ⟨all, ⟨middle, read, tokens, finished, printable, rfl⟩, value⟩
    rcases (value_separated_iff tokens values tree).1 value with
      ⟨members, columnsValue, same⟩
    exact
      ⟨printable, members,
        ⟨_, ⟨middle, read, tokens, finished, rfl⟩, columnsValue⟩, same⟩
  · rintro ⟨printable, members,
      ⟨_, ⟨middle, read, tokens, finished, rfl⟩, columnsValue⟩, same⟩
    exact
      ⟨_, ⟨middle, read, tokens, finished, printable, rfl⟩,
        (value_separated_iff tokens values tree).2
          ⟨members, columnsValue, same⟩⟩

theorem memberOf_concat (key : UnitString) (members : List (UnitString × Json)) (value : Json) :
    memberOf key (members ++ [(key, value)]) = some value := by
  simp [memberOf]

variable {table : QueryTable} {outLen : Int}

theorem wholeText_objectText (valued : List.Forall₂ RowValue table.rows values) :
    table.statement.wholeText = utf8 (okLine ++ objectText table.columns table.rows) :=
  bytes_objectText table.columns valued

theorem emptyText_objectText (table : QueryTable) :
    table.statement.emptyText = utf8 (okLine ++ objectText table.columns []) := by
  rw [← bytes_objectText table.columns List.Forall₂.nil,
    Statement.emptyText]
  simp [QueryTable.statement]

theorem ok_prefix (text : List Char) : literal "ok\r\n" <+: utf8 (okLine ++ text) := by
  rw [utf8_append, show utf8 okLine = literal "ok\r\n" by rfl]
  exact prefix_append _ _

theorem object_iff (table : QueryTable) {rows : List (List QueryCell)}
    (valued : List.Forall₂ RowValue rows values) (members : List (UnitString × Json)) :
    Json.parse (TextDecoder.decode ((utf8 (okLine ++ objectText table.columns rows)).drop 4)) =
      some (.object members) ↔ (∀ row ∈ rows, ∀ cell ∈ row, cell.Printable) ∧ ∃ front,
        Json.parse (utf16 (columnsWritten table.columns) ++ [0x5D, 0x7D]) = some (.object front) ∧
          members = front ++ [(valuesKey, .array values)] := by
  rw [decode_objectText, parse_objectText_iff table.columns valued]
  simp only [Json.object.injEq]

theorem validOutput_wholeText_iff (fits : table.Fits outLen) :
    ValidOutput table outLen table.statement.wholeText ↔
      ColumnsWellFormed table.columns ∧ RowsReadable table.rows := by
  constructor
  · intro valid
    rcases valid.object with
      ⟨members, values, shown, parsed, -, -, valued, all⟩
    obtain rfl := all fits
    rw [wholeText_objectText valued, object_iff table valued] at parsed
    rcases parsed with ⟨printable, front, columns, -⟩
    refine ⟨⟨front, columns⟩, fun row member cell listed => ⟨?_, ?_⟩⟩
    · rcases exists_forall₂_iff.1 ⟨values, valued⟩ row member with
        ⟨_, cells, cellValues, -⟩
      exact exists_forall₂_iff.1 ⟨cells, cellValues⟩ cell listed
    · exact printable row member cell listed
  · rintro ⟨⟨front, columns⟩, readable⟩
    have rowValues : ∀ row ∈ table.rows, ∃ value, RowValue row value := by
      intro row member
      rcases exists_forall₂_iff.2 fun cell listed =>
        (readable row member cell listed).1 with ⟨cells, cellValues⟩
      exact ⟨_, cells, cellValues, rfl⟩
    rcases exists_forall₂_iff.2 rowValues with ⟨values, valued⟩
    refine ⟨le_of_lt fits, ?_, front ++ [(valuesKey, .array values)], values,
      table.rows, ?_, memberOf_concat _ _ _, prefix_rfl, valued,
      fun _ => rfl⟩
    · rw [wholeText_objectText valued]
      exact ok_prefix _
    · rw [wholeText_objectText valued, object_iff table valued]
      exact
        ⟨fun row member cell listed => (readable row member cell listed).2,
          front, columns, rfl⟩

theorem validOutput_emptyText_iff (room : (table.statement.emptyText.length : Int) < outLen)
    (some_ : table.rows ≠ []) : ValidOutput table outLen table.statement.emptyText ↔
      ColumnsWellFormed table.columns ∧ ¬ table.Fits outLen := by
  have object := fun members => object_iff table List.Forall₂.nil members
  rw [← emptyText_objectText] at object
  constructor
  · intro valid
    rcases valid.object with
      ⟨members, values, shown, parsed, isValues, -, valued, all⟩
    rcases (object members).1 parsed with ⟨-, front, columns, rfl⟩
    refine ⟨⟨front, columns⟩, fun fits => some_ ?_⟩
    rw [memberOf_concat, Option.some.injEq, Json.array.injEq] at isValues
    rw [← all fits]
    rw [← isValues] at valued
    exact forall₂_nil_right_iff.1 valued
  · rintro ⟨⟨front, columns⟩, long⟩
    refine ⟨le_of_lt room, ?_, front ++ [(valuesKey, .array [])], [], [],
      (object _).2 ⟨by simp, front, columns, rfl⟩, memberOf_concat _ _ _,
      nil_prefix, List.Forall₂.nil, fun fits => absurd fits long⟩
    rw [emptyText_objectText]
    exact ok_prefix _

theorem not_validOutput_trailingComma (written : Bytes) : ¬ ValidOutput table outLen
    (headerText table.statement.columnNames ++ written ++ literal "," ++ closing) := by
  intro valid
  rcases valid.object with ⟨members, values, shown, parsed, -⟩
  have line : (literal "ok\r\n").length = 4 := by decide
  have header :
    literal "ok\r\n" <+: headerText table.statement.columnNames := by
    rw [headerText, append_assoc, append_assoc]
    exact prefix_append _ _
  rcases header with ⟨rest, header⟩
  have dropped :
    (headerText table.statement.columnNames ++ written ++ literal "," ++
      closing).drop 4 =
      (rest ++ written) ++ [0x2C, 0x5D, 0x7D, 0x0D, 0x0A] := by
    have ending :
      literal "," ++ closing = [0x2C, 0x5D, 0x7D, 0x0D, 0x0A] := by
      decide
    rw [← header, ← ending, ← line]
    simp only [append_assoc, drop_left]
  rcases TextDecoder.decode_append_ascii (rest ++ written)
    (cons_ne_nil 0x2C [0x5D, 0x7D, 0x0D, 0x0A]) (by simp) with
    ⟨front, decoded⟩
  rw [dropped, decoded, Json.parse_eq_some_iff,
    Json.Reader.reads_append_iff] at parsed
  rcases parsed with ⟨middle, -, reads⟩
  rcases tokens_of_trailingComma reads with ⟨tokens, ends⟩
  have value := Json.value_toTokens (.object members)
  rw [ends, value_trailingComma] at value
  cases value

/--
What is answered is valid exactly when there is no room for a text without
rows, or the columns are well formed and either all rows are written, with one
byte to spare, and readable, or not even the first row is written and the whole
result does not fit.
-/
theorem answersValid_iff (table : QueryTable) (outLen : Int) : AnswersValid table outLen ↔
    ((table.statement.emptyText.length : Int) < outLen → ColumnsWellFormed table.columns ∧
      (((table.rows = [] ∨ (table.statement.wholeText.length : Int) + 1 < outLen) ∧
        RowsReadable table.rows) ∨ ∃ row rest, table.rows = row :: rest ∧
          outLen ≤ (table.statement.emptyText.length : Int) +
            (rowText (row.map QueryCell.column)).length + 1 ∧ ¬ table.Fits outLen)) := by
  have columns : table.statement.columnNames ≠ [] :=
    fun none => table.columns_ne (map_eq_nil_iff.1 none)
  have noRows : table.statement.rows = [] ↔ table.rows = [] := map_eq_nil_iff
  have answered {answer : Option Bytes}
    (answers : searchDatabaseOut (.ok table.statement) outLen = some answer) :
    AnswersValid table outLen ↔
      ∀ out, answer = some out → ValidOutput table outLen out := by
    simp [AnswersValid, answers]
  by_cases room : (table.statement.emptyText.length : Int) < outLen
  · rw [forall_prop_of_true room]
    by_cases whole :
      table.rows = [] ∨ (table.statement.wholeText.length : Int) + 1 < outLen
    · have fits : table.Fits outLen := by
        rcases whole with none | short
        · have same : table.statement.wholeText = table.statement.emptyText := by
            simp [Statement.wholeText, Statement.emptyText, noRows.2 none]
          rw [QueryTable.Fits, same]
          exact room
        · unfold QueryTable.Fits
          omega
      have answers :=
        searchDatabaseOut_whole columns room
          (whole.imp_left noRows.2)
      rw [answered answers]
      simp only [Option.some.injEq, forall_eq',
        validOutput_wholeText_iff fits]
      simp [whole, fits]
    · rw [not_or] at whole
      rcases exists_cons_of_ne_nil whole.1 with ⟨row, rest, isRows⟩
      have isMapped :
        table.statement.rows =
          row.map QueryCell.column :: rest.map (·.map QueryCell.column) := by
        simp [QueryTable.statement, isRows]
      by_cases cut :
        outLen ≤ (table.statement.emptyText.length : Int) +
          (rowText (row.map QueryCell.column)).length + 1
      · have answers := searchDatabaseOut_empty columns room isMapped cut
        rw [answered answers]
        simp only [Option.some.injEq, forall_eq',
          validOutput_emptyText_iff room whole.1]
        simp [isRows, whole.2, cut]
      · have answers :=
          searchDatabaseOut_cut columns isMapped (by omega) whole.2
        rcases answers with ⟨written, answers⟩
        rw [answered answers]
        have never :
          ¬ ∀ out,
            some (headerText table.statement.columnNames ++ written ++
              literal "," ++ closing) = some out →
              ValidOutput table outLen out :=
          fun all => not_validOutput_trailingComma written (all _ rfl)
        refine iff_of_false never ?_
        rintro ⟨-, ⟨isWhole, -⟩ | ⟨other, others, same, short, -⟩⟩
        · exact (isWhole.elim whole.1 whole.2)
        · rw [isRows] at same
          cases same
          exact cut short
  · rw [answered (searchDatabaseOut_none columns room)]
    simp [room]

/-- The rows 1 and 2 of a column `a`. -/
def twoRows : QueryTable where
  columns := [['a']]
  rows := [[.number ['1']], [.number ['2']]]
  columns_ne := cons_ne_nil _ _
  width := by simp

/-- There is room for the first row only, and the comma behind it stays. -/
theorem not_answersValid_twoRows : ¬ AnswersValid twoRows 42 := by
  rintro ⟨answer, answers, valid⟩
  have columns : twoRows.statement.columnNames ≠ [] := by decide
  have rows :
    twoRows.statement.rows =
      [QueryCell.column (.number ['1'])] ::
        [[QueryCell.column (.number ['2'])]] := rfl
  have room :
    (twoRows.statement.emptyText.length : Int) +
      (rowText [QueryCell.column (.number ['1'])]).length + 1 < 42 := by
    decide
  have long : ¬ (twoRows.statement.wholeText.length : Int) + 1 < 42 := by decide
  rcases searchDatabaseOut_cut columns rows room long with ⟨written, cut⟩
  rw [cut, Option.some.injEq] at answers
  exact not_validOutput_trailingComma written (valid _ answers.symm)

end SysAnalyzer.Query
