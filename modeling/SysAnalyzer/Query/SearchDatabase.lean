import SysAnalyzer.Foundation.Run
import Mathlib

/-!
# Query results on the wire

`TraceDataDB::SearchDatabase` runs a statement and writes its result table as
one JSON text behind an `ok` line.  The overload with a callback writes the
same text, but hands it over in pieces: after each row the buffer is flushed
once it holds `ONCE_MAX_MB` bytes.

Both write a comma after every row and take the last one back at the end.  The
overload with a callback takes it back from its buffer, which is empty when the
last row was the one that filled it.
-/

namespace SysAnalyzer.Query

open Foundation List Option

/-- The bytes of a `std::string`. -/
abbrev Bytes := List UInt8

def literal (text : String) : Bytes := text.toList.flatMap String.utf8EncodeChar

/--
What SQLite answers for one column of the current row: the text of
`sqlite3_column_text`, `none` for its null pointer, and whether
`sqlite3_column_type` is `SQLITE_TEXT`.
-/
structure Column where
  text : Option Bytes
  isText : Bool

/--
A prepared statement: the column names and the rows its steps will answer.
SQLite answers every row with all of its columns, and no row without one.
-/
structure Statement where
  columnNames : List Bytes
  rows : List (List Column)
  width : ∀ row ∈ rows, row.length = columnNames.length
  rows_of_noColumns : columnNames = [] → rows = []

/-- `std::string::pop_back`; on an empty string it is undefined. -/
def popBack (text : Bytes) : Option Bytes := if text = [] then none else some text.dropLast

@[simp]
theorem popBack_concat (text : Bytes) (last : UInt8) : popBack (text ++ [last]) = some text := by
  simp [popBack]

/-- The bytes a `const char*` stands for: those before its terminator. -/
def cString (text : Bytes) : Bytes := text.takeWhile (· != 0)

/-- `FormatString`: the text in quotes, with quotes and backslashes escaped. -/
def formatString (text : Bytes) : Bytes :=
  literal "\"" ++ (cString text).flatMap (fun byte =>
    if byte = 0x5C ∨ byte = 0x22 then [0x5C, byte] else [byte]) ++
    literal "\""

/-- What `GetRowString` appends for one column, the comma included. -/
def columnString (column : Column) : Bytes :=
  match column.text with
  | none => literal "null,"
  | some text => (if column.isText then formatString text else cString text) ++ literal ","

def getRowString (row : List Column) : Option Bytes :=
  (popBack (row.foldl (fun text column => text ++ columnString column)
    (literal "["))).map (· ++ literal "]")

/-- The header of a result: the `ok` line and the column names. -/
def headerString (columnNames : List Bytes) : Option Bytes :=
  (popBack (columnNames.foldl (fun text name => text ++ literal "\"" ++ name ++ literal "\",")
    (literal "ok\r\n" ++ literal "\x7b\"columns\":["))).map
    (· ++ literal "],\"values\":[")

/-- The end of a result: the last comma is taken back when there was a row. -/
def finish (hasRow : Bool) (text : Bytes) : Option Bytes :=
  (if hasRow then popBack text else some text).map (· ++ literal "]\x7d\r\n")

/-- One turn of the row loop of `SearchDatabase`. -/
def appendRow (text : Bytes) (row : List Column) : Option Bytes :=
  (getRowString row).map (fun rowText => text ++ (rowText ++ literal ","))

/--
`TraceDataDB::SearchDatabase(sql)`; the argument is what `sqlite3_prepare_v2`
made of the query, its error code when it failed.
-/
def searchDatabase (prepared : Except Int Statement) : Option Bytes :=
  match prepared with
  | .error _ => some []
  | .ok statement =>
    if statement.columnNames = [] then some []
    else
      (headerString statement.columnNames).bind fun header =>
        (runPartial appendRow header statement.rows).bind fun text =>
          finish (!statement.rows.isEmpty) text

/-- The second argument of a `ResultCallBack`. -/
inductive SendFlag where
  | sendContinue
  | sendFinish

def onceMaxMB : Nat := 1024 * 1024 * 4

/-- The callback's calls so far and the buffer `res`. -/
structure Delivery where
  calls : List (Bytes × SendFlag)
  res : Bytes

namespace Delivery

/-- One turn of the row loop of the overload with a callback. -/
def deliverRow (delivery : Delivery) (row : List Column) : Option Delivery :=
  (appendRow delivery.res row).map fun text =>
    if onceMaxMB ≤ text.length then ⟨delivery.calls ++ [(text, .sendContinue)], []⟩
    else ⟨delivery.calls, text⟩

end Delivery

def sqliteOk : Int := 0

/--
`TraceDataDB::SearchDatabase(sql, resultCallBack)` with a callable callback: the
returned code and the calls made.
-/
def searchDatabaseCallBack (prepared : Except Int Statement) :
    Option (Int × List (Bytes × SendFlag)) :=
  match prepared with
  | .error code => some (code, [(literal "false\r\n", .sendFinish)])
  | .ok statement =>
    if statement.columnNames = [] then some (sqliteOk, [(literal "ok\r\n", .sendFinish)])
    else
      (headerString statement.columnNames).bind fun header =>
        (runPartial Delivery.deliverRow ⟨[], header⟩ statement.rows).bind fun delivery =>
          (finish (!statement.rows.isEmpty) delivery.res).map fun text =>
            (sqliteOk, delivery.calls ++ [(text, .sendFinish)])

/-! ## The text of a row and of the header -/

theorem popBack_flatMap {Item : Type} (write : Item → Bytes) (start : Bytes)
    (item : Item) (items : List Item) :
    popBack (start ++ (item :: items).flatMap (fun item => write item ++ [0x2C])) =
      some (start ++ [0x2C].intercalate ((item :: items).map write)) := by
  induction items generalizing start item with
  | nil =>
    simp only [flatMap_cons, flatMap_nil, append_nil, ← append_assoc, popBack_concat]
    simp
  | cons next rest induction =>
    have step := induction (start ++ (write item ++ [0x2C])) next
    rw [flatMap_cons, ← append_assoc, step]
    simp [intercalate]

theorem popBack_foldl {Item : Type} (write : Item → Bytes) (start : Bytes)
    (item : Item) (items : List Item) :
    popBack ((item :: items).foldl (fun text item => text ++ (write item ++ [0x2C])) start) =
      some (start ++ [0x2C].intercalate ((item :: items).map write)) := by
  rw [foldl_append_eq_append, ← flatMap_def, popBack_flatMap]

def columnText (column : Column) : Bytes :=
  match column.text with
  | none => literal "null"
  | some text => if column.isText then formatString text else cString text

theorem columnString_eq (column : Column) : columnString column = columnText column ++ [0x2C] := by
  have comma : literal "," = [0x2C] := by decide
  have null : literal "null," = literal "null" ++ [0x2C] := by decide
  cases text : column.text with
  | none => simp [columnString, columnText, text, null]
  | some bytes => simp [columnString, columnText, text, comma]

def rowText (row : List Column) : Bytes :=
  literal "[" ++ [0x2C].intercalate (row.map columnText) ++ literal "]"

variable {row : List Column}

theorem getRowString_eq (columns : row ≠ []) : getRowString row = some (rowText row) := by
  cases row with
  | nil => exact absurd rfl columns
  | cons column rest =>
    simp only [getRowString, columnString_eq, popBack_foldl, rowText, map_some, append_assoc]

def headerText (columnNames : List Bytes) : Bytes :=
  literal "ok\r\n" ++ literal "\x7b\"columns\":[" ++ [0x2C].intercalate
    (columnNames.map fun name => literal "\"" ++ name ++ literal "\"") ++
    literal "],\"values\":["

theorem headerString_eq {columnNames : List Bytes} (columns : columnNames ≠ []) :
    headerString columnNames = some (headerText columnNames) := by
  have comma : literal "\"," = literal "\"" ++ [0x2C] := by decide
  cases columnNames with
  | nil => exact absurd rfl columns
  | cons name rest =>
    have joined :=
      popBack_foldl (fun name => literal "\"" ++ name ++ literal "\"")
        (literal "ok\r\n" ++ literal "\x7b\"columns\":[") name rest
    simp only [headerString, comma, headerText]
    simp only [append_assoc] at joined ⊢
    rw [joined]
    simp

def rowChunk (row : List Column) : Bytes := rowText row ++ literal ","

theorem appendRow_eq (columns : row ≠ []) (text : Bytes) :
    appendRow text row = some (text ++ rowChunk row) := by
  simp [appendRow, getRowString_eq columns, rowChunk]

variable (statement : Statement)

theorem Statement.row_ne_nil (member : row ∈ statement.rows) : row ≠ [] := by
  intro empty
  have size := statement.width row member
  rw [empty, length_nil] at size
  rw [statement.rows_of_noColumns (length_eq_zero_iff.1 size.symm)] at member
  exact not_mem_nil member

theorem runPartial_appendRow (rows : List (List Column)) (columns : ∀ row ∈ rows, row ≠ [])
    (text : Bytes) : runPartial appendRow text rows = some (text ++ rows.flatMap rowChunk) := by
  induction rows generalizing text with
  | nil => simp [runPartial]
  | cons row rest induction =>
    have here : row ≠ [] := columns row (by simp)
    have later : ∀ row ∈ rest, row ≠ [] := fun row member => columns row (by simp [member])
    simp [runPartial, appendRow_eq here, induction later]

theorem finish_rows (text : Bytes) (rows : List (List Column)) :
    finish (!rows.isEmpty) (text ++ rows.flatMap rowChunk) =
      some (text ++ [0x2C].intercalate (rows.map rowText) ++ literal "]\x7d\r\n") := by
  have chunk : rowChunk = fun row => rowText row ++ [0x2C] := by
    have comma : literal "," = [0x2C] := by decide
    ext row : 1
    rw [rowChunk, comma]
  cases rows with
  | nil => simp [finish]
  | cons row rest =>
    simp only [isEmpty_cons, Bool.not_false, finish, if_true, chunk, popBack_flatMap, map_some]

theorem searchDatabase_eq (columns : statement.columnNames ≠ []) :
    searchDatabase (.ok statement) = some (headerText statement.columnNames ++
      [0x2C].intercalate (statement.rows.map rowText) ++ literal "]\x7d\r\n") := by
  simp only [searchDatabase, columns, if_false, headerString_eq columns, bind_some,
    runPartial_appendRow statement.rows (fun _ => statement.row_ne_nil),
    finish_rows]

/-! ## The chunks -/

namespace Delivery

/-- Everything handed over or still to be. -/
def text (delivery : Delivery) : Bytes := delivery.calls.flatMap Prod.fst ++ delivery.res

/-- `deliverRow` on a row SQLite can answer. -/
def deliver (delivery : Delivery) (row : List Column) : Delivery :=
  if onceMaxMB ≤ (delivery.res ++ rowChunk row).length then
    ⟨delivery.calls ++ [(delivery.res ++ rowChunk row, .sendContinue)], []⟩
  else ⟨delivery.calls, delivery.res ++ rowChunk row⟩

theorem deliverRow_eq {row : List Column} (columns : row ≠ []) (delivery : Delivery) :
    delivery.deliverRow row = some (delivery.deliver row) := by
  simp [deliverRow, appendRow_eq columns, deliver]

theorem runPartial_deliverRow (rows : List (List Column)) (columns : ∀ row ∈ rows, row ≠ [])
    (delivery : Delivery) :
    runPartial deliverRow delivery rows = some (run deliver delivery rows) := by
  induction rows generalizing delivery with
  | nil => rfl
  | cons row rest induction =>
    have here : row ≠ [] := columns row (by simp)
    have later : ∀ row ∈ rest, row ≠ [] := fun row member => columns row (by simp [member])
    simp [runPartial, deliverRow_eq here, induction later]

theorem text_deliver (delivery : Delivery) (row : List Column) :
    (delivery.deliver row).text = delivery.text ++ rowChunk row := by
  unfold deliver
  split <;> simp [text]

theorem text_run (delivery : Delivery) (rows : List (List Column)) :
    (run deliver delivery rows).text = delivery.text ++ rows.flatMap rowChunk := by
  induction rows generalizing delivery with
  | nil => simp
  | cons row rest induction => simp [induction, text_deliver]

def pendingAfter (pending size : Nat) : Nat :=
  if onceMaxMB ≤ pending + size then 0 else pending + size

theorem res_length_run (delivery : Delivery) (rows : List (List Column)) :
    (run deliver delivery rows).res.length = run pendingAfter delivery.res.length
      (rows.map fun row => (rowChunk row).length) := by
  rw [← run_map]
  induction rows generalizing delivery with
  | nil => rfl
  | cons row rest induction =>
    simp only [run_cons, induction]
    congr 1
    unfold deliver pendingAfter
    simp only [length_append]
    split <;> simp

end Delivery

/--
The last row fills the buffer: packing the rows behind the header into buffers
of `ONCE_MAX_MB` bytes leaves nothing pending at the end.
-/
def FlushesLastRow (statement : Statement) : Prop :=
  statement.rows ≠ [] ∧ run Delivery.pendingAfter (headerText statement.columnNames).length
    (statement.rows.map fun row => (rowChunk row).length) = 0

theorem res_length_eq_pending :
    (run Delivery.deliver ⟨[], headerText statement.columnNames⟩ statement.rows).res.length =
      run Delivery.pendingAfter (headerText statement.columnNames).length
        (statement.rows.map fun row => (rowChunk row).length) :=
  Delivery.res_length_run _ _

theorem finish_append {hasRow : Bool} {text : Bytes} (pending : hasRow = true → text ≠ [])
    (sent : Bytes) : finish hasRow (sent ++ text) = (finish hasRow text).map (sent ++ ·) := by
  cases hasRow with
  | false => simp [finish]
  | true =>
    have nonempty : text ≠ [] := pending rfl
    simp [finish, popBack, nonempty, dropLast_append_of_ne_nil]

theorem searchDatabaseCallBack_eq (columns : statement.columnNames ≠ []) :
    searchDatabaseCallBack (.ok statement) =
      let delivery := run Delivery.deliver ⟨[], headerText statement.columnNames⟩ statement.rows
      (finish (!statement.rows.isEmpty) delivery.res).map fun text =>
        (sqliteOk, delivery.calls ++ [(text, .sendFinish)]) := by
  simp only [searchDatabaseCallBack, columns, if_false, headerString_eq columns, bind_some,
    Delivery.runPartial_deliverRow statement.rows (fun _ => statement.row_ne_nil)]

theorem searchDatabaseCallBack_eq_none
    {statement : Statement} (columns : statement.columnNames ≠ [])
    (flushed : FlushesLastRow statement) : searchDatabaseCallBack (.ok statement) = none := by
  rcases flushed with ⟨rows, empty⟩
  rw [← res_length_eq_pending, length_eq_zero_iff] at empty
  simp [searchDatabaseCallBack_eq statement columns, empty, finish, popBack, rows]

theorem searchDatabaseCallBack_eq_whole
    {statement : Statement} (columns : statement.columnNames ≠ [])
    (pending : ¬ FlushesLastRow statement) :
    ∃ calls, searchDatabaseCallBack (.ok statement) = some (sqliteOk, calls) ∧
      searchDatabase (.ok statement) = some (calls.flatMap Prod.fst) := by
  generalize reached : run Delivery.deliver ⟨[], headerText statement.columnNames⟩
    statement.rows = delivery
  have unflushed : (!statement.rows.isEmpty) = true → delivery.res ≠ [] := by
    intro hasRow empty
    apply pending
    refine ⟨by simpa using hasRow, ?_⟩
    rw [← res_length_eq_pending, reached, empty, length_nil]
  have whole : searchDatabase (.ok statement) = (finish (!statement.rows.isEmpty) delivery.res).map
    (delivery.calls.flatMap Prod.fst ++ ·) := by
    have delivered := Delivery.text_run ⟨[], headerText statement.columnNames⟩ statement.rows
    rw [reached] at delivered
    rw [← finish_append unflushed]
    change _ = finish _ delivery.text
    rw [delivered]
    simp [searchDatabase_eq statement columns, Delivery.text, finish_rows]
  cases finished : finish (!statement.rows.isEmpty) delivery.res with
  | none =>
    rw [searchDatabase_eq statement columns, finished] at whole
    exact absurd whole (by simp)
  | some text =>
    refine ⟨delivery.calls ++ [(text, .sendFinish)], ?_, ?_⟩
    · simp only [searchDatabaseCallBack_eq statement columns, reached, finished, map_some]
    · rw [whole, finished]
      simp

/--
Chunked delivery hands over the whole result exactly when the last row leaves
bytes in the buffer.
-/
theorem searchDatabaseCallBack_whole_iff
    (statement : Statement) (columns : statement.columnNames ≠ []) :
    (∃ calls, searchDatabaseCallBack (.ok statement) = some (sqliteOk, calls) ∧
      searchDatabase (.ok statement) = some (calls.flatMap Prod.fst)) ↔
      ¬ FlushesLastRow statement := by
  constructor
  · rintro ⟨calls, called, -⟩ flushed
    rw [searchDatabaseCallBack_eq_none columns flushed] at called
    exact absurd called (by simp)
  · exact searchDatabaseCallBack_eq_whole columns

/-- One column `a` and one row, a text of the given number of letters. -/
def oneText (size : Nat) : Statement where
  columnNames := [literal "a"]
  rows := [[⟨some (replicate size 0x61), true⟩]]
  width := by simp
  rows_of_noColumns := by simp

theorem rowChunk_oneText (size : Nat) :
    (rowChunk [⟨some (replicate size 0x61), true⟩]).length = size + 5 := by
  have quote : (literal "\"").length = 1 := by decide
  have comma : (literal ",").length = 1 := by decide
  have opening : (literal "[").length = 1 := by decide
  have closing : (literal "]").length = 1 := by decide
  simp [rowChunk, rowText, columnText, formatString, cString, quote, comma, opening, closing]
  omega

/-- A row that fills the buffer, which is sent before the second row. -/
def twoTexts : Statement where
  columnNames := [literal "a"]
  rows := (oneText onceMaxMB).rows ++ (oneText 3).rows
  width := by simp [oneText]
  rows_of_noColumns := by simp

theorem searchDatabaseCallBack_whole_twoTexts :
    ∃ calls, searchDatabaseCallBack (.ok twoTexts) = some (sqliteOk, calls) ∧
      searchDatabase (.ok twoTexts) = some (calls.flatMap Prod.fst) := by
  refine (searchDatabaseCallBack_whole_iff twoTexts (by decide)).2 ?_
  have header : (headerText [literal "a"]).length = 31 := by decide
  rintro ⟨-, empty⟩
  simp only [twoTexts, oneText, cons_append, nil_append, map_cons, map_nil, run_cons, run_nil,
    rowChunk_oneText, header, Delivery.pendingAfter, onceMaxMB] at empty
  exact absurd empty (by decide)

/-- A last row that fills the buffer leaves no byte to take back. -/
theorem searchDatabaseCallBack_undefined_oneText :
    ¬ ∃ calls, searchDatabaseCallBack (.ok (oneText onceMaxMB)) = some (sqliteOk, calls) ∧
      searchDatabase (.ok (oneText onceMaxMB)) = some (calls.flatMap Prod.fst) := by
  have flushed : FlushesLastRow (oneText onceMaxMB) := by
    refine ⟨by simp [oneText], ?_⟩
    simp only [oneText, map_cons, map_nil, run_cons, run_nil,
      rowChunk_oneText, Delivery.pendingAfter]
    rw [if_pos (by omega)]
  rintro ⟨calls, called, -⟩
  rw [searchDatabaseCallBack_eq_none (by simp [oneText]) flushed] at called
  exact absurd called (by simp)

end SysAnalyzer.Query
