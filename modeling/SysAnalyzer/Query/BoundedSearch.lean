import SysAnalyzer.Query.SearchDatabase

/-!
# Query results in a buffer

The overload of `TraceDataDB::SearchDatabase` with a buffer writes the text of
the result as long as it fits.  A row is written with a comma behind it; when
the next one does not fit, the text is closed at once, and otherwise the last
comma is taken back before it is closed.

`snprintf_s` writes a text when there is room for it and its terminator.  The
bytes written are those in front of `pos`, and moving `pos` back drops the last.
-/

namespace SysAnalyzer.Query

open Foundation List Option

/-- A piece is written behind the text, or `snprintf_s` answers less than 0. -/
def snprintfS (outLen : Int) (text piece : Bytes) : Option Bytes :=
  if (text.length : Int) + piece.length < outLen then some (text ++ piece)
  else none

/-- `"]}\r\n"`. -/
def closing : Bytes := literal "]\x7d\r\n"

/-- What is written in front of the rows of a statement with columns. -/
def headerOut (outLen : Int) (text : Bytes) (columnNames : List Bytes) : Option Bytes :=
  (snprintfS outLen text (literal "\x7b\"columns\":[")).bind fun head =>
    (runPartial (fun text name =>
      snprintfS outLen text (literal "\"" ++ name ++ literal "\","))
      head columnNames).bind fun names => snprintfS outLen names.dropLast (literal "],\"values\":[")

/--
The loop over the rows and what follows it: a negative code or the bytes
written.  Only a row without columns makes the outer value undefined.
-/
def rowLoop (outLen : Int) :
    (text : Bytes) → (hasRow : Bool) → List (List Column) → Option (Option Bytes)
  | text, hasRow, [] => some (snprintfS outLen (if hasRow then text.dropLast else text) closing)
  | text, _, row :: rest =>
    (getRowString row).bind fun rowString =>
      if outLen ≤ (text.length : Int) + rowString.length + 5 then
        some (snprintfS outLen text closing)
      else
        match snprintfS outLen text (rowString ++ literal ",") with
        | none => some none
        | some next => rowLoop outLen next true rest

/--
`TraceDataDB::SearchDatabase(sql, out, outLen)`: a negative code or the bytes in
front of the position that is returned.
-/
def searchDatabaseOut (prepared : Except Int Statement) (outLen : Int) : Option (Option Bytes) :=
  match prepared with
  | .error _ => some none
  | .ok statement =>
    match snprintfS outLen [] (literal "ok\r\n") with
    | none => some none
    | some ok =>
      if statement.columnNames = [] then some (some ok)
      else
        match headerOut outLen ok statement.columnNames with
        | none => some none
        | some header => rowLoop outLen header false statement.rows

theorem snprintfS_eq (outLen : Int) (text piece : Bytes) : snprintfS outLen text piece =
    if ((text ++ piece).length : Int) < outLen then some (text ++ piece) else none := by
  rw [snprintfS, length_append, Nat.cast_add]

theorem runPartial_snprintfS {Item : Type} (write : Item → Bytes) {outLen : Int} {text : Bytes}
    (fits : (text.length : Int) < outLen) (items : List Item) :
    runPartial (fun text item => snprintfS outLen text (write item)) text items =
      if ((text ++ items.flatMap write).length : Int) < outLen then
        some (text ++ items.flatMap write) else none := by
  induction items generalizing text with
  | nil => simp [runPartial, fits]
  | cons item rest induction =>
    have joined : text ++ (item :: rest).flatMap write =
      (text ++ write item) ++ rest.flatMap write := by
      simp
    rw [joined, runPartial]
    by_cases room : (text.length : Int) + (write item).length < outLen
    · have first : ((text ++ write item).length : Int) < outLen := by
        rw [length_append]
        omega
      rw [snprintfS, if_pos room]
      exact induction first
    · have long : ¬ (((text ++ write item) ++ rest.flatMap write).length : Int) < outLen := by
        simp only [length_append]
        omega
      rw [snprintfS, if_neg room, if_neg long]

theorem length_of_popBack {text shorter : Bytes} (popped : popBack text = some shorter) :
    text.dropLast = shorter ∧ text.length = shorter.length + 1 := by
  unfold popBack at popped
  split_ifs at popped with empty
  cases popped
  have positive := length_pos_of_ne_nil empty
  refine ⟨rfl, ?_⟩
  rw [length_dropLast]
  omega

theorem headerOut_eq {columnNames : List Bytes} (columns : columnNames ≠ []) (outLen : Int) :
    headerOut outLen (literal "ok\r\n") columnNames =
      if ((headerText columnNames).length : Int) < outLen then some (headerText columnNames)
      else none := by
  rcases exists_cons_of_ne_nil columns with ⟨name, rest, rfl⟩
  have comma (name : Bytes) : literal "\"" ++ name ++ literal "\"," =
    literal "\"" ++ name ++ literal "\"" ++ [0x2C] := by
    rw [show literal "\"," = literal "\"" ++ [0x2C] by decide,
      ← append_assoc]
  have popped :=
    length_of_popBack (popBack_flatMap (fun name => literal "\"" ++ name ++ literal "\"")
      (literal "ok\r\n" ++ literal "\x7b\"columns\":[") name rest)
  generalize names : [0x2C].intercalate
    ((name :: rest).map fun name => literal "\"" ++ name ++ literal "\"") =
    joined at popped
  have headLength : (literal "ok\r\n" ++ literal "\x7b\"columns\":[").length = 16 := by decide
  have middleLength : (literal "],\"values\":[").length = 12 := by decide
  have header : headerText (name :: rest) =
    literal "ok\r\n" ++ literal "\x7b\"columns\":[" ++ joined ++ literal "],\"values\":[" := by
    rw [headerText, names]
  have total : (headerText (name :: rest)).length = 16 + joined.length + 12 := by
    rw [header, length_append, length_append, headLength, middleLength]
  have first : snprintfS outLen (literal "ok\r\n") (literal "\x7b\"columns\":[") =
    if (16 : Int) < outLen then some (literal "ok\r\n" ++ literal "\x7b\"columns\":[")
    else none := by
    rw [snprintfS_eq, headLength]
    rfl
  rw [headerOut, first]
  by_cases head : (16 : Int) < outLen
  · rw [if_pos head, bind_some]
    simp only [comma]
    rw [runPartial_snprintfS _ (by rw [headLength]; exact head)]
    generalize literal "ok\r\n" ++ literal "\x7b\"columns\":[" ++ (name :: rest).flatMap
      (fun name => literal "\"" ++ name ++ literal "\"" ++ [0x2C]) =
      flat at popped ⊢
    have longer : flat.length = 16 + joined.length + 1 := by
      rw [popped.2, length_append, headLength]
    by_cases fits : (flat.length : Int) < outLen
    · rw [if_pos fits, bind_some, popped.1, snprintfS_eq, header]
    · rw [if_neg fits, bind_none, if_neg (by omega)]
  · rw [if_neg head, bind_none, if_neg (by omega)]

variable {outLen : Int} {text : Bytes} {hasRow : Bool}
  {rows : List (List Column)}

theorem length_rowChunk (row : List Column) : (rowChunk row).length = (rowText row).length + 1 := by
  rw [rowChunk, length_append, show (literal ",").length = 1 by decide]

variable {row : List Column}

theorem rowLoop_fits (columns : row ≠ [])
    (fits : ((text ++ rowChunk row).length : Int) + 4 < outLen) :
    rowLoop outLen text hasRow (row :: rows) = rowLoop outLen (text ++ rowChunk row) true rows := by
  rw [length_append, length_rowChunk] at fits
  rw [rowLoop, getRowString_eq columns, bind_some,
    if_neg (by omega), snprintfS_eq, ← rowChunk, length_append,
    length_rowChunk, if_pos (by omega)]

theorem rowLoop_cut (columns : row ≠ [])
    (long : ¬ ((text ++ rowChunk row).length : Int) + 4 < outLen) :
    rowLoop outLen text hasRow (row :: rows) = some (snprintfS outLen text closing) := by
  rw [length_append, length_rowChunk] at long
  rw [rowLoop, getRowString_eq columns, bind_some, if_pos (by omega)]

theorem rowLoop_all (columns : ∀ row ∈ rows, row ≠ []) (some_ : rows ≠ [])
    (fits : ((text ++ rows.flatMap rowChunk).length : Int) + 4 < outLen) :
    rowLoop outLen text hasRow rows =
      some (snprintfS outLen (text ++ rows.flatMap rowChunk).dropLast closing) := by
  induction rows generalizing text hasRow with
  | nil => exact absurd rfl some_
  | cons row rest induction =>
    have joined : text ++ (row :: rest).flatMap rowChunk =
      (text ++ rowChunk row) ++ rest.flatMap rowChunk := by
      rw [flatMap_cons, append_assoc]
    rw [joined] at fits ⊢
    have first : ((text ++ rowChunk row).length : Int) + 4 < outLen := by
      rw [length_append] at fits
      omega
    rw [rowLoop_fits (columns row (by simp)) first]
    cases rest with
    | nil => simp [rowLoop]
    | cons next others =>
      exact induction (fun row member => columns row (by simp [member]))
        (cons_ne_nil next others) fits

theorem rowLoop_some_cut (hasRow : Bool) (columns : ∀ row ∈ rows, row ≠ []) (some_ : rows ≠ [])
    (long : ¬ ((text ++ rows.flatMap rowChunk).length : Int) + 4 < outLen) :
    ∃ written, written <+: rows ∧ rowLoop outLen text hasRow rows =
      some (snprintfS outLen (text ++ written.flatMap rowChunk) closing) ∧
      (written = [] ∨ ((text ++ written.flatMap rowChunk).length : Int) + 4 < outLen) := by
  induction rows generalizing text hasRow with
  | nil => exact absurd rfl some_
  | cons row rest induction =>
    have here := columns row (by simp)
    by_cases first : ((text ++ rowChunk row).length : Int) + 4 < outLen
    · rw [rowLoop_fits here first]
      have joined (others : List (List Column)) : text ++ (row :: others).flatMap rowChunk =
        (text ++ rowChunk row) ++ others.flatMap rowChunk := by
        rw [flatMap_cons, append_assoc]
      rw [joined] at long
      have later : rest ≠ [] := by
        rintro rfl
        exact long (by simpa using first)
      rcases induction true (fun row member => columns row (by simp [member])) later long with
        ⟨written, shown, looped, room⟩
      refine ⟨row :: written, (cons_prefix_cons).2 ⟨rfl, shown⟩, ?_, ?_⟩
      · rw [looped, joined]
      · rw [joined]
        rcases room with rfl | room
        · exact Or.inr (by simpa using first)
        · exact Or.inr room
    · refine ⟨[], nil_prefix, ?_, Or.inl rfl⟩
      rw [rowLoop_cut here first, flatMap_nil, append_nil]

def Statement.emptyText (statement : Statement) : Bytes :=
  headerText statement.columnNames ++ closing

def Statement.wholeText (statement : Statement) : Bytes :=
  headerText statement.columnNames ++ [0x2C].intercalate (statement.rows.map rowText) ++ closing

variable {statement : Statement}

theorem length_emptyText :
    statement.emptyText.length = (headerText statement.columnNames).length + 4 := by
  rw [Statement.emptyText, length_append, show closing.length = 4 by decide]

theorem dropLast_rows (header : Bytes) (some_ : rows ≠ []) :
    (header ++ rows.flatMap rowChunk).dropLast = header ++ [0x2C].intercalate (rows.map rowText) ∧
      (header ++ rows.flatMap rowChunk).length =
        (header ++ [0x2C].intercalate (rows.map rowText)).length + 1 := by
  rcases exists_cons_of_ne_nil some_ with ⟨row, rest, rfl⟩
  have chunk : rowChunk = fun row => rowText row ++ [0x2C] := by
    have comma : literal "," = [0x2C] := by decide
    ext row : 1
    rw [rowChunk, comma]
  rw [chunk]
  exact length_of_popBack (popBack_flatMap rowText header row rest)

theorem length_wholeText (some_ : statement.rows ≠ []) :
    (headerText statement.columnNames ++ statement.rows.flatMap rowChunk).length + 4 =
      statement.wholeText.length + 1 := by
  have closed : statement.wholeText.length = (headerText statement.columnNames ++
    [0x2C].intercalate (statement.rows.map rowText)).length + 4 := by
    rw [Statement.wholeText, length_append, show closing.length = 4 by decide]
  rw [closed, (dropLast_rows (headerText statement.columnNames) some_).2]

section

variable (columns : statement.columnNames ≠ [])
include columns

theorem searchDatabaseOut_eq (room : ((headerText statement.columnNames).length : Int) < outLen) :
    searchDatabaseOut (.ok statement) outLen =
      rowLoop outLen (headerText statement.columnNames) false statement.rows := by
  have long : 4 ≤ (headerText statement.columnNames).length := by
    simp only [headerText, length_append, show (literal "ok\r\n").length = 4 by decide]
    omega
  have ok : snprintfS outLen [] (literal "ok\r\n") = some (literal "ok\r\n") := by
    rw [snprintfS_eq, nil_append, show (literal "ok\r\n").length = 4 by decide, if_pos (by omega)]
  simp only [searchDatabaseOut, ok, columns, if_false, headerOut_eq columns outLen, if_pos room]

theorem searchDatabaseOut_none (long : ¬ (statement.emptyText.length : Int) < outLen) :
    searchDatabaseOut (.ok statement) outLen = some none := by
  rw [length_emptyText] at long
  by_cases room : ((headerText statement.columnNames).length : Int) < outLen
  · have closed (text : Bytes) (same : text = headerText statement.columnNames) :
      snprintfS outLen text closing = none := by
      rw [snprintfS_eq, length_append, same, show closing.length = 4 by decide, if_neg (by omega)]
    rw [searchDatabaseOut_eq columns room]
    cases rows : statement.rows with
    | nil => simp [rowLoop, closed _ rfl]
    | cons row rest =>
      have here : row ≠ [] := statement.row_ne_nil (by rw [rows]; exact mem_cons_self)
      have cut : ¬ ((headerText statement.columnNames ++ rowChunk row).length :
        Int) + 4 < outLen := by
        rw [length_append]
        omega
      rw [rowLoop_cut here cut, closed _ rfl]
  · have header := headerOut_eq columns outLen
    rw [if_neg room] at header
    simp only [searchDatabaseOut]
    cases ok : snprintfS outLen [] (literal "ok\r\n") with
    | none => rfl
    | some text =>
      have isOk : text = literal "ok\r\n" := by
        rw [snprintfS_eq] at ok
        split_ifs at ok
        cases ok
        rfl
      subst isOk
      simp only [columns, if_false, header]

theorem searchDatabaseOut_whole (room : (statement.emptyText.length : Int) < outLen)
    (fits : statement.rows = [] ∨ (statement.wholeText.length : Int) + 1 < outLen) :
    searchDatabaseOut (.ok statement) outLen = some (some statement.wholeText) := by
  have header := room
  rw [length_emptyText] at header
  rw [searchDatabaseOut_eq columns (by omega)]
  by_cases none : statement.rows = []
  · have same : statement.wholeText = statement.emptyText := by
      simp [Statement.wholeText, Statement.emptyText, none]
    rw [none, rowLoop, snprintfS_eq, same]
    simp only [Bool.false_eq_true, if_false]
    rw [← Statement.emptyText, if_pos room]
  · have length := length_wholeText none
    have short := fits.resolve_left none
    have all : ((headerText statement.columnNames ++
      statement.rows.flatMap rowChunk).length : Int) + 4 < outLen := by
      omega
    rw [rowLoop_all (fun _ => statement.row_ne_nil) none all,
      (dropLast_rows _ none).1, snprintfS_eq, ← Statement.wholeText,
      if_pos (by omega)]

variable {rest : List (List Column)}

theorem searchDatabaseOut_empty (room : (statement.emptyText.length : Int) < outLen)
    (rows : statement.rows = row :: rest)
    (cut : outLen ≤ (statement.emptyText.length : Int) + (rowText row).length + 1) :
    searchDatabaseOut (.ok statement) outLen = some (some statement.emptyText) := by
  have lengths := room
  rw [length_emptyText] at lengths cut
  have here : row ≠ [] := statement.row_ne_nil (by rw [rows]; exact mem_cons_self)
  have long : ¬ ((headerText statement.columnNames ++ rowChunk row).length : Int) + 4 < outLen := by
    rw [length_append, length_rowChunk]
    omega
  rw [searchDatabaseOut_eq columns (by omega), rows, rowLoop_cut here long,
    snprintfS_eq, ← Statement.emptyText, if_pos room]

theorem searchDatabaseOut_cut (rows : statement.rows = row :: rest)
    (room : (statement.emptyText.length : Int) + (rowText row).length + 1 <
      outLen) (long : ¬ (statement.wholeText.length : Int) + 1 < outLen) :
    ∃ written, searchDatabaseOut (.ok statement) outLen =
      some (some (headerText statement.columnNames ++ written ++ literal "," ++ closing)) := by
  have lengths := room
  rw [length_emptyText] at lengths
  have some_ : statement.rows ≠ [] := by
    rw [rows]
    exact cons_ne_nil row rest
  have whole := length_wholeText some_
  have here : row ≠ [] := statement.row_ne_nil (by rw [rows]; exact mem_cons_self)
  have first : ((headerText statement.columnNames ++ rowChunk row).length : Int) + 4 < outLen := by
    rw [length_append, length_rowChunk]
    omega
  have joined (others : List (List Column)) :
    headerText statement.columnNames ++ (row :: others).flatMap rowChunk =
      (headerText statement.columnNames ++ rowChunk row) ++ others.flatMap rowChunk := by
    rw [flatMap_cons, append_assoc]
  have longer : ¬ (((headerText statement.columnNames ++ rowChunk row) ++
    rest.flatMap rowChunk).length : Int) + 4 < outLen := by
    rw [rows, joined] at whole
    omega
  have later : rest ≠ [] := by
    rintro rfl
    exact longer (by simpa using first)
  have columnsLater : ∀ other ∈ rest, other ≠ [] := by
    intro other member
    exact statement.row_ne_nil (by rw [rows]; exact mem_cons_of_mem _ member)
  rcases rowLoop_some_cut true columnsLater later longer with
    ⟨written, -, looped, fits⟩
  have short : (((headerText statement.columnNames ++ rowChunk row) ++
    written.flatMap rowChunk).length : Int) + 4 < outLen := by
    rcases fits with rfl | fits
    · simpa using first
    · exact fits
  have comma : ∃ front, rowChunk row ++ written.flatMap rowChunk = front ++ literal "," := by
    rcases eq_nil_or_concat written with rfl | ⟨others, last, rfl⟩
    · exact ⟨rowText row, by simp [rowChunk]⟩
    · exact ⟨rowChunk row ++ others.flatMap rowChunk ++ rowText last, by simp [rowChunk]⟩
  rcases comma with ⟨front, ends⟩
  refine ⟨front, ?_⟩
  rw [searchDatabaseOut_eq columns (by omega), rows, rowLoop_fits here first,
    looped, snprintfS_eq, length_append,
    show closing.length = 4 by decide, if_pos (by omega),
    append_assoc (headerText _) (rowChunk row), ends,
    append_assoc (headerText _) front]

end

end SysAnalyzer.Query
