import SysAnalyzer.Query.ResultText

/-!
# Query results in the interface

The bytes of a result table are followed from `SearchDatabase` through
`convertJSON`.  Every step of the way works on the pieces of the table's text,
so the outcome is known for every table: an exception when a text holds a
quote, and otherwise the table with its texts changed by the rewritings.

A table comes back as it was exactly when no text holds a quote, a backslash, a
bar or a control character.
-/

namespace SysAnalyzer.Query

open Foundation List Function

/-! ## The pieces of a table -/

/-- Contents with commas between them and `close` behind the last one. -/
def closeWith (close : UInt16) : List Content → List Piece
  | [] => [⟨.nothing, close⟩]
  | [content] => [⟨content, close⟩]
  | content :: next :: rest => ⟨content, 0x2C⟩ :: closeWith close (next :: rest)

def Cell.content (change : UnitString → UnitString) : Cell → Content
  | .null => .word (units "null")
  | .integer value _ => .word (utf16 (Json.decimal value))
  | .text characters _ => .text (change (utf16 characters))

def rowPieces (change : UnitString → UnitString) (row : List Cell) : List Piece :=
  ⟨.nothing, 0x5B⟩ :: closeWith 0x5D (row.map (Cell.content change))

def rowsPieces (change : UnitString → UnitString) : List (List Cell) → List Piece
  | [] => [⟨.nothing, 0x5D⟩]
  | [row] => rowPieces change row ++ [⟨.nothing, 0x5D⟩]
  | row :: next :: rest =>
    rowPieces change row ++ ⟨.nothing, 0x2C⟩ :: rowsPieces change (next :: rest)

def ResultTable.names (table : ResultTable) : List Content :=
  table.columns.map fun name => .text (utf16 name)

def ResultTable.pieces (change : UnitString → UnitString) (table : ResultTable) : List Piece :=
  [⟨.nothing, 0x7B⟩, ⟨.text (units "columns"), 0x3A⟩, ⟨.nothing, 0x5B⟩] ++
    closeWith 0x5D table.names ++
    [⟨.nothing, 0x2C⟩, ⟨.text (units "values"), 0x3A⟩, ⟨.nothing, 0x5B⟩] ++
    rowsPieces change table.rows ++
    [⟨.nothing, 0x7D⟩]

variable {holds : Content → Prop}

theorem forall_closeWith (nothing : holds .nothing) (close : UInt16) (contents : List Content) :
    (∀ piece ∈ closeWith close contents, holds piece.content) ↔
      ∀ content ∈ contents, holds content := by
  induction contents with
  | nil => simpa [closeWith] using nothing
  | cons content rest induction =>
    cases rest with
    | nil => simp [closeWith]
    | cons next others => simp only [closeWith, forall_mem_cons, induction]

theorem forall_rowPieces (nothing : holds .nothing)
    (change : UnitString → UnitString) (row : List Cell) :
    (∀ piece ∈ rowPieces change row, holds piece.content) ↔
      ∀ cell ∈ row, holds (cell.content change) := by
  simp [rowPieces, forall_closeWith nothing, nothing]

theorem forall_rowsPieces (nothing : holds .nothing)
    (change : UnitString → UnitString) (rows : List (List Cell)) :
    (∀ piece ∈ rowsPieces change rows, holds piece.content) ↔
      ∀ row ∈ rows, ∀ cell ∈ row, holds (cell.content change) := by
  induction rows with
  | nil => simpa [rowsPieces] using nothing
  | cons row rest induction =>
    cases rest with
    | nil => simp [rowsPieces, or_imp, forall_and, forall_rowPieces nothing, nothing]
    | cons next others =>
      simp only [rowsPieces, forall_mem_append, forall_mem_cons,
        forall_rowPieces nothing, nothing, true_and] at induction ⊢
      rw [induction]

theorem forall_pieces (nothing : holds .nothing) (columnsKey : holds (.text (units "columns")))
    (valuesKey : holds (.text (units "values")))
    (change : UnitString → UnitString) (table : ResultTable) :
    (∀ piece ∈ table.pieces change, holds piece.content) ↔ (∀ name ∈ table.names, holds name) ∧
      ∀ row ∈ table.rows, ∀ cell ∈ row, holds (cell.content change) := by
  simp only [ResultTable.pieces, forall_mem_append, forall_mem_cons,
    forall_closeWith nothing, forall_rowsPieces nothing, nothing, columnsKey,
    valuesKey, not_mem_nil, false_imp_iff, implies_true, and_true, true_and]

theorem mark_closeWith
    {close : UInt16} (mark : (Json.mark close).isSome) (contents : List Content) :
    ∀ piece ∈ closeWith close contents, (Json.mark piece.mark).isSome := by
  have comma : (Json.mark 0x2C).isSome := by decide
  induction contents with
  | nil => simpa [closeWith] using mark
  | cons content rest induction =>
    cases rest with
    | nil => simpa [closeWith] using mark
    | cons next others => simpa [closeWith, comma] using induction

theorem mark_rowsPieces (change : UnitString → UnitString) (rows : List (List Cell)) :
    ∀ piece ∈ rowsPieces change rows, (Json.mark piece.mark).isSome := by
  have comma : (Json.mark 0x2C).isSome := by decide
  have opening : (Json.mark 0x5B).isSome := by decide
  have closing : (Json.mark 0x5D).isSome := by decide
  have rowMarks (row : List Cell) :
    ∀ piece ∈ rowPieces change row, (Json.mark piece.mark).isSome := by
    simpa [rowPieces, opening] using mark_closeWith closing _
  induction rows with
  | nil => simpa [rowsPieces] using closing
  | cons row rest induction =>
    cases rest with
    | nil =>
      simp only [rowsPieces, forall_mem_append, forall_mem_singleton]
      exact ⟨rowMarks row, closing⟩
    | cons next others =>
      simp only [rowsPieces, forall_mem_append, forall_mem_cons]
      exact ⟨rowMarks row, comma, induction⟩

theorem units_null : units "null" = [0x6E, 0x75, 0x6C, 0x6C] := by decide

theorem regular_content (change : UnitString → UnitString) (cell : Cell) :
    (cell.content change).Regular := by
  cases cell with
  | null =>
    rw [Cell.content, units_null]
    exact ⟨by decide, by simp [Json.isWordUnit], rfl⟩
  | integer value exact =>
    exact ⟨Json.decimal_ne_nil value, fun _ => Json.isWordUnit_decimal,
      by rw [Json.wordToken_decimal]; rfl⟩
  | text characters terminated => trivial

theorem regular_pieces (change : UnitString → UnitString) (table : ResultTable) :
    ∀ piece ∈ table.pieces change, piece.Regular := by
  have contents : ∀ piece ∈ table.pieces change, piece.content.Regular := by
    refine (forall_pieces trivial trivial trivial change table).2 ⟨?_, ?_⟩
    · intro name member
      rcases mem_map.1 member with ⟨characters, -, rfl⟩
      trivial
    · exact fun row _ cell _ => regular_content change cell
  have marks : ∀ piece ∈ table.pieces change, (Json.mark piece.mark).isSome := by
    have closing : (Json.mark 0x5D).isSome := by decide
    simp only [ResultTable.pieces, forall_mem_append]
    refine ⟨⟨⟨⟨by decide, mark_closeWith closing _⟩, by decide⟩,
      mark_rowsPieces change _⟩, by decide⟩
  exact fun piece member => ⟨marks piece member, contents piece member⟩

theorem intercalate_cons_cons
    {Item : Type} (separator first second : List Item) (rest : List (List Item)) :
    separator.intercalate (first :: second :: rest) =
      first ++ separator ++ separator.intercalate (second :: rest) := by
  simp [intercalate]

theorem units_closeWith
    (write : UnitString → UnitString) (close : UInt16) (contents : List Content) :
    (closeWith close contents).flatMap (Piece.units write) =
      [0x2C].intercalate (contents.map (Content.units write)) ++ [close] := by
  induction contents with
  | nil => rfl
  | cons content rest induction =>
    cases rest with
    | nil => simp [closeWith, Piece.units]
    | cons next others =>
      simp only [map_cons] at induction
      simp only [closeWith, flatMap_cons, induction, map_cons,
        intercalate_cons_cons, Piece.units, append_assoc]

theorem units_rowsPieces (write change : UnitString → UnitString) (rows : List (List Cell)) :
    (rowsPieces change rows).flatMap (Piece.units write) = [0x2C].intercalate
      (rows.map fun row => (rowPieces change row).flatMap (Piece.units write)) ++ [0x5D] := by
  induction rows with
  | nil => rfl
  | cons row rest induction =>
    cases rest with
    | nil => simp [rowsPieces, Piece.units, Content.units]
    | cons next others =>
      simp only [map_cons] at induction
      simp only [rowsPieces, flatMap_append, flatMap_cons,
        induction, map_cons, intercalate_cons_cons, append_assoc]
      rfl

theorem utf16_intercalate (texts : List (List Char)) :
    utf16 ([','].intercalate texts) = [0x2C].intercalate (texts.map utf16) := by
  have comma : utf16 [','] = [0x2C] := by decide
  induction texts with
  | nil => rfl
  | cons text rest induction =>
    cases rest with
    | nil => simp [intercalate]
    | cons next others =>
      simp only [map_cons] at induction
      simp only [intercalate_cons_cons, utf16_append, comma, induction, map_cons]

theorem utf16_escape (characters : List Char) : utf16 (characters.flatMap fun character =>
    if character = '\\' ∨ character = '"' then ['\\', character] else [character]) =
    escapeUnits (utf16 characters) := by
  have single (character : Char) : utf16
    (if character = '\\' ∨ character = '"' then ['\\', character] else [character]) =
      escapeUnits (utf16Point character.toNat) := by
    by_cases special : character = '\\' ∨ character = '"'
    · rcases special with rfl | rfl <;> decide
    · have unescaped : ∀ unit ∈ utf16Point character.toNat, ¬ (unit = 0x5C ∨ unit = 0x22) := by
        intro unit member isSpecial
        rw [← Char.toNat_inj, ← Char.toNat_inj] at special
        change ¬ (character.toNat = 0x5C ∨ character.toNat = 0x22) at special
        have listed : unit ∈ utf16 [character] := by simpa using member
        rcases isSpecial with rfl | rfl
        · rw [mem_utf16_iff (by decide)] at listed
          exact special (Or.inl (by simpa using listed))
        · rw [mem_utf16_iff (by decide)] at listed
          exact special (Or.inr (by simpa using listed))
      rw [if_neg special, utf16_cons, utf16_nil, append_nil, escapeUnits]
      refine Eq.symm (Eq.trans (flatMap_congr fun unit member => ?_)
        (flatMap_singleton' _))
      exact if_neg (unescaped unit member)
  induction characters with
  | nil => rfl
  | cons character rest induction =>
    rw [flatMap_cons, utf16_append, single, induction, utf16_cons,
      escapeUnits, escapeUnits, escapeUnits, flatMap_append]

theorem utf16_quoted (characters : List Char) :
    utf16 (quoted characters) = (Content.text (utf16 characters)).units escapeUnits := by
  have quote : utf16Point '"'.toNat = [0x22] := by decide
  rw [quoted, cons_append, utf16_cons, utf16_append, utf16_escape, utf16_cons, utf16_nil, quote]
  rfl

theorem utf16_cell (cell : Cell) : utf16 cell.characters = (cell.content id).units escapeUnits := by
  cases cell with
  | null => rfl
  | integer value exact => rfl
  | text characters terminated => exact utf16_quoted characters

theorem utf16_name {name : List Char} (plain : ∀ character ∈ name, PlainCharacter character) :
    utf16 ('"' :: name ++ ['"']) = (Content.text (utf16 name)).units escapeUnits := by
  rw [← utf16_quoted, quoted]
  congr 3
  refine Eq.symm (Eq.trans (flatMap_congr fun character member => ?_) (flatMap_singleton' _))
  have isPlain := plain character member
  exact if_neg (by simp [isPlain.2.2.1, isPlain.2.2.2.1])

theorem utf16_row (row : List Cell) :
    utf16 (rowCharacters row) = (rowPieces id row).flatMap (Piece.units escapeUnits) := by
  have opening : utf16Point '['.toNat = [0x5B] := by decide
  have closing : utf16 [']'] = [0x5D] := by decide
  have cells : (row.map Cell.characters).map utf16 =
    (row.map (Cell.content id)).map (Content.units escapeUnits) := by
    simp [utf16_cell]
  rw [rowCharacters, rowPieces, flatMap_cons, units_closeWith, ← cells,
    cons_append, utf16_cons, utf16_append, utf16_intercalate, opening,
    closing]
  rfl

variable (table : ResultTable)

theorem utf16_characters :
    utf16 table.characters = (table.pieces id).flatMap (Piece.units escapeUnits) := by
  have names : (table.columns.map fun name => '"' :: name ++ ['"']).map utf16 =
    table.names.map (Content.units escapeUnits) := by
    rw [ResultTable.names, map_map, map_map]
    exact map_congr_left fun name member => utf16_name (table.plain name member)
  have rows : (table.rows.map rowCharacters).map utf16 = table.rows.map fun row =>
    (rowPieces id row).flatMap (Piece.units escapeUnits) := by
    simp [utf16_row]
  have head : utf16 columnsHead = [⟨.nothing, 0x7B⟩, ⟨.text (units "columns"), 0x3A⟩,
    ⟨.nothing, 0x5B⟩].flatMap (Piece.units escapeUnits) := by
    decide
  have middle : utf16 valuesHead = [0x5D] ++ [⟨.nothing, 0x2C⟩, ⟨.text (units "values"), 0x3A⟩,
    ⟨.nothing, 0x5B⟩].flatMap (Piece.units escapeUnits) := by
    decide
  have last : utf16 tableEnd = [0x5D] ++ [⟨.nothing, 0x7D⟩].flatMap (Piece.units escapeUnits) := by
    decide
  rw [ResultTable.characters, utf16_append, utf16_append, utf16_append,
    utf16_append, utf16_intercalate, utf16_intercalate, names, rows, head,
    middle, last, ResultTable.pieces, flatMap_append, flatMap_append,
    flatMap_append, flatMap_append, units_closeWith, units_rowsPieces]
  simp only [append_assoc]

theorem mapText_closeWith
    (change : UnitString → UnitString) (close : UInt16) (contents : List Content) :
    (closeWith close contents).map (Piece.mapText change) =
      closeWith close (contents.map (Content.mapText change)) := by
  induction contents with
  | nil => rfl
  | cons content rest induction =>
    cases rest with
    | nil => rfl
    | cons next others =>
      simp only [map_cons] at induction
      simp only [closeWith, map_cons, induction, Piece.mapText]

variable (again : UnitString → UnitString)

theorem mapText_content (change : UnitString → UnitString) (cell : Cell) :
    (cell.content change).mapText again = cell.content (again ∘ change) := by
  cases cell <;> rfl

theorem mapText_rowPieces (change : UnitString → UnitString) (row : List Cell) :
    (rowPieces change row).map (Piece.mapText again) = rowPieces (again ∘ change) row := by
  have contents : (row.map (Cell.content change)).map (Content.mapText again) =
    row.map (Cell.content (again ∘ change)) := by
    simp [mapText_content]
  rw [rowPieces, map_cons, mapText_closeWith, contents]
  rfl

theorem mapText_rowsPieces (change : UnitString → UnitString) (rows : List (List Cell)) :
    (rowsPieces change rows).map (Piece.mapText again) = rowsPieces (again ∘ change) rows := by
  induction rows with
  | nil => rfl
  | cons row rest induction =>
    cases rest with
    | nil =>
      rw [rowsPieces, map_append, mapText_rowPieces]
      rfl
    | cons next others =>
      rw [rowsPieces, map_append, map_cons, mapText_rowPieces, induction]
      rfl

theorem neutral_of_plain {character : Char} (plain : PlainCharacter character) :
    Neutral (UInt16.ofNat character.toNat) := by
  rcases plain with ⟨low, high, quote, slash, bar⟩
  rw [ne_eq, ← Char.toNat_inj] at quote slash bar
  change ¬ character.toNat = 0x22 at quote
  change ¬ character.toNat = 0x5C at slash
  change ¬ character.toNat = 0x7C at bar
  have value : (UInt16.ofNat character.toNat).toNat = character.toNat := by
    rw [UInt16.toNat_ofNat']
    omega
  generalize UInt16.ofNat character.toNat = unit at value
  rw [← value] at low high quote slash bar
  refine ⟨?_, ?_, ?_, ?_⟩
  · rintro rfl
    exact quote rfl
  · rintro rfl
    exact slash rfl
  · by_contra removed
    simp only [isRemoved, Bool.not_eq_false, Bool.or_eq_true, decide_eq_true_eq] at removed
    rcases removed with ((rfl | rfl) | rfl) | rfl
    · exact absurd low (by decide)
    · exact bar rfl
    · exact absurd low (by decide)
    · exact absurd low (by decide)
  · exact ⟨UInt16.le_iff_toNat_le.2 low, UInt16.le_iff_toNat_le.2 high⟩

theorem neutral_name {table : ResultTable} {name : List Char} (member : name ∈ table.columns) :
    ∀ unit ∈ utf16 name, Neutral unit := by
  have plain := table.plain name member
  have ascii : ∀ character ∈ name, character.toNat < 0x80 := by
    intro character listed
    have bound := (plain character listed).2.1
    omega
  rw [utf16_ascii ascii]
  intro unit listed
  rcases mem_map.1 listed with ⟨character, inName, rfl⟩
  exact neutral_of_plain (plain character inName)

theorem neutral_key {key : UnitString} (isKey : key = units "columns" ∨ key = units "values") :
    ∀ unit ∈ key, Neutral unit := by
  have columns : units "columns" = [0x63, 0x6F, 0x6C, 0x75, 0x6D, 0x6E, 0x73] := by decide
  have values : units "values" = [0x76, 0x61, 0x6C, 0x75, 0x65, 0x73] := by decide
  intro unit member
  apply neutral_of_word
  rcases isKey with rfl | rfl
  · rw [columns] at member
    simp only [mem_cons, not_mem_nil, or_false] at member
    rcases member with rfl | rfl | rfl | rfl | rfl | rfl | rfl <;> decide
  · rw [values] at member
    simp only [mem_cons, not_mem_nil, or_false] at member
    rcases member with rfl | rfl | rfl | rfl | rfl | rfl <;> decide

theorem mapText_pieces {again : UnitString → UnitString}
    (fixes : ∀ text, (∀ unit ∈ text, Neutral unit) → again text = text)
    (change : UnitString → UnitString) (table : ResultTable) :
    (table.pieces change).map (Piece.mapText again) = table.pieces (again ∘ change) := by
  have names : table.names.map (Content.mapText again) = table.names := by
    rw [ResultTable.names, map_map]
    refine map_congr_left fun name member => ?_
    simp [Content.mapText, fixes _ (neutral_name member)]
  have columnsKey := fixes _ (neutral_key (Or.inl rfl))
  have valuesKey := fixes _ (neutral_key (Or.inr rfl))
  simp only [ResultTable.pieces, map_append, mapText_closeWith, names,
    mapText_rowsPieces, map_cons, map_nil, Piece.mapText,
    Content.mapText, columnsKey, valuesKey]

variable {change : UnitString → UnitString}

theorem rewrite_pieces {rewrite write written : UnitString → UnitString}
    (empty : rewrite [] = []) (append : ∀ first second,
      rewrite (first ++ second) = rewrite first ++ rewrite second)
    (piecewise : ∀ piece : Piece, piece.Regular →
      rewrite (piece.units write) = (piece.mapText change).units written)
    {pieces : List Piece} (regular : ∀ piece ∈ pieces, piece.Regular) :
    rewrite (pieces.flatMap (Piece.units write)) =
      (pieces.map (Piece.mapText change)).flatMap (Piece.units written) := by
  induction pieces with
  | nil => exact empty
  | cons piece rest induction =>
    rw [flatMap_cons, append, piecewise piece (regular piece (by simp)),
      induction fun piece member => regular piece (by simp [member])]
    rfl

theorem translateJsonString_table : translateJsonString (utf16 table.characters ++ [0x0D, 0x0A]) =
    (table.pieces removeSeparators).flatMap (Piece.units writtenUnits) := by
  have lineBreak : translateJsonString [0x0D, 0x0A] = [] := by decide
  have fixes (text : UnitString) (neutral : ∀ unit ∈ text, Neutral unit) :
    removeSeparators text = text :=
    filter_eq_self.2 fun unit member => by simp [(neutral unit member).kept]
  rw [translateJsonString_append, lineBreak, append_nil, utf16_characters,
    rewrite_pieces rfl translateJsonString_append
      (fun _ => translateJsonString_piece) (regular_pieces id table),
    mapText_pieces fixes]
  rfl

theorem replaceUnprintable_table (change : UnitString → UnitString) (table : ResultTable) :
    replaceUnprintable ((table.pieces change).flatMap (Piece.units writtenUnits)) =
      (table.pieces (replaceUnprintable ∘ change)).flatMap (Piece.units writtenUnits) := by
  have fixes (text : UnitString) (neutral : ∀ unit ∈ text, Neutral unit) :
    replaceUnprintable text = text :=
    replaceUnprintable_printable fun unit member => (neutral unit member).printable
  rw [rewrite_pieces rfl replaceUnprintable_append
    (fun _ => replaceUnprintable_piece) (regular_pieces change table),
    mapText_pieces fixes]

/-! ## Parsing a table -/

def Cell.json (change : UnitString → UnitString) : Cell → Json
  | .null => .null
  | .integer value _ => .number (.finite value)
  | .text characters _ => .string (change (utf16 characters))

def rowJson (change : UnitString → UnitString) (row : List Cell) : Json :=
  .array (row.map (Cell.json change))

def ResultTable.json (change : UnitString → UnitString) (table : ResultTable) : Json :=
  .object [(units "columns", .array (table.columns.map fun name => .string (utf16 name))),
    (units "values", .array (table.rows.map (rowJson change)))]

theorem tokens_closeWith {Item : Type} (content : Item → Content) (json : Item → Json)
    (items : List Item)
    (agree : ∀ item ∈ items, (content item).tokens = Json.toTokens (json item)) :
    (closeWith 0x5D (items.map content)).flatMap Piece.tokens =
      Json.elementTokens (items.map json) ++ [.closeBracket] := by
  have comma : (Json.mark 0x2C).toList = [.comma] := by decide
  induction items with
  | nil => rfl
  | cons item rest induction =>
    have here := agree item (by simp)
    have later := induction fun item member => agree item (by simp [member])
    cases rest with
    | nil =>
      simp only [map_cons, map_nil, closeWith,
        flatMap_singleton, Piece.tokens, here, Json.elementTokens]
      rfl
    | cons next others =>
      simp only [map_cons] at later ⊢
      simp only [closeWith, flatMap_cons, later, Piece.tokens, here,
        comma, Json.elementTokens, append_assoc, cons_append,
        nil_append]

theorem tokens_content (change : UnitString → UnitString) (cell : Cell) :
    (cell.content change).tokens = Json.toTokens (cell.json (doubleBackslashes ∘ change)) := by
  cases cell with
  | null =>
    rw [Cell.content, units_null]
    rfl
  | integer value exact =>
    rw [Cell.content, Content.tokens, Json.wordToken_decimal, Number.ofRat_intCast exact]
    rfl
  | text characters terminated => rfl

theorem tokens_rowPieces (change : UnitString → UnitString) (row : List Cell) :
    (rowPieces change row).flatMap Piece.tokens =
      Json.toTokens (rowJson (doubleBackslashes ∘ change) row) := by
  rw [rowPieces, flatMap_cons, tokens_closeWith (Cell.content change)
    (Cell.json (doubleBackslashes ∘ change)) row
    (fun cell _ => tokens_content change cell), rowJson, Json.toTokens]
  rfl

theorem tokens_rowsPieces (change : UnitString → UnitString) (rows : List (List Cell)) :
    (rowsPieces change rows).flatMap Piece.tokens =
      Json.elementTokens (rows.map (rowJson (doubleBackslashes ∘ change))) ++ [.closeBracket] := by
  have comma : Piece.tokens ⟨.nothing, 0x2C⟩ = [.comma] := by decide
  induction rows with
  | nil => rfl
  | cons row rest induction =>
    cases rest with
    | nil =>
      rw [rowsPieces, flatMap_append, tokens_rowPieces, map_cons, map_nil, Json.elementTokens]
      rfl
    | cons next others =>
      rw [rowsPieces, flatMap_append, flatMap_cons, tokens_rowPieces, induction, comma]
      simp only [map_cons, Json.elementTokens, append_assoc, cons_append, nil_append]

theorem tokens_table (change : UnitString → UnitString) (table : ResultTable) :
    (table.pieces change).flatMap Piece.tokens =
      Json.toTokens (table.json (doubleBackslashes ∘ change)) := by
  have undoubled {text : UnitString} (neutral : ∀ unit ∈ text, Neutral unit) :
    doubleBackslashes text = text :=
    (flatMap_congr fun unit member =>
      if_neg (neutral unit member).noBackslash).trans (flatMap_singleton' _)
  have columnsKey := undoubled (neutral_key (Or.inl rfl))
  have valuesKey := undoubled (neutral_key (Or.inr rfl))
  have names := tokens_closeWith (fun name : List Char => Content.text (utf16 name))
    (fun name => Json.string (utf16 name)) table.columns
    (fun name member => by
      rw [Content.tokens, undoubled (neutral_name member)]
      rfl)
  simp only [ResultTable.pieces, flatMap_append, ResultTable.names, names,
    tokens_rowsPieces, ResultTable.json, Json.toTokens, Json.memberTokens]
  simp only [flatMap_cons, flatMap_nil, Piece.tokens, Content.tokens, columnsKey, valuesKey]
  simp [Json.mark]

def ResultTable.IsClean (change : UnitString → UnitString) (table : ResultTable) : Prop :=
  ∀ row ∈ table.rows, ∀ cell ∈ row, (cell.content change).IsClean

theorem isClean_pieces_iff (change : UnitString → UnitString) (table : ResultTable) :
    (∀ piece ∈ table.pieces change, piece.content.IsClean) ↔ table.IsClean change := by
  have clean {text : UnitString} (neutral : ∀ unit ∈ text, Neutral unit) :
    Clean text := fun unit member =>
    ⟨(neutral unit member).noQuote, UInt16.not_lt.2 (neutral unit member).printable.1⟩
  rw [forall_pieces trivial (clean (neutral_key (Or.inl rfl))) (clean (neutral_key (Or.inr rfl)))]
  refine and_iff_right ?_
  intro name member
  rcases mem_map.1 member with ⟨characters, listed, rfl⟩
  exact clean (neutral_name listed)

theorem parse_of_isClean {table : ResultTable} (clean : table.IsClean change) :
    Json.parse ((table.pieces change).flatMap (Piece.units writtenUnits)) =
      some (table.json (doubleBackslashes ∘ change)) := by
  rw [Json.parse, tokens_pieces (regular_pieces change table)
    ((isClean_pieces_iff change table).2 clean),
    Option.bind_some, tokens_table, Json.value_toTokens]

theorem parse_of_not_isClean {table : ResultTable} (dirty : ¬ table.IsClean change) :
    Json.parse ((table.pieces change).flatMap (Piece.units writtenUnits)) = none := by
  rw [← isClean_pieces_iff] at dirty
  simp only [not_forall] at dirty
  rcases dirty with ⟨piece, member, notClean⟩
  rw [Json.parse, tokens_pieces_eq_none (regular_pieces change table)
    ⟨piece, member, notClean⟩, Option.bind_none]

/-- One object per row, its fields the cells of the row, their texts changed. -/
def ResultTable.objects (change : UnitString → UnitString) (table : ResultTable) : List JsObject :=
  table.rows.map fun row =>
    (table.columns.map utf16).zip (row.map fun cell => some (cell.json change))

theorem mapM_map_of_some {Item Input Output : Type} (read : Input → Option Output)
    (write : Item → Input) (result : Item → Output)
    (reads : ∀ item, read (write item) = some (result item)) (items : List Item) :
    (items.map write).mapM read = some (items.map result) := by
  induction items with
  | nil => rfl
  | cons item rest induction => simp [mapM_cons, reads, induction]

theorem tableOf_json (change : UnitString → UnitString) (table : ResultTable) :
    tableOf (table.json change) = some (table.columns.map utf16,
      table.rows.map fun row => row.map (Cell.json change)) := by
  have names : (table.columns.map fun name => Json.string (utf16 name)).mapM asString =
    some (table.columns.map utf16) :=
    mapM_map_of_some asString _ _ (fun _ => rfl) table.columns
  have rows : (table.rows.map (rowJson change)).mapM asArray =
    some (table.rows.map fun row => row.map (Cell.json change)) :=
    mapM_map_of_some asArray _ _ (fun _ => rfl) table.rows
  have differ : units "values" ≠ units "columns" := by decide
  simp [tableOf, ResultTable.json, property, differ, asArray, names, rows]

theorem foldl_setField {names : List UnitString} (distinct : names.Nodup)
    (own : units "__proto__" ∉ names) (row : List Json) (start : Nat)
    (width : row.length = start + names.length)
    (object : JsObject) (fresh : ∀ name ∈ names, name ∉ object.map Prod.fst) :
    (names.zipIdx start).foldl
      (fun object (name, index) => setField object name row[index]?) object =
      object ++ names.zip ((row.drop start).map some) := by
  induction names generalizing start object with
  | nil => simp
  | cons name rest induction =>
    have inside : start < row.length := by
      rw [width, length_cons]
      omega
    have assigned : setField object name row[start]? = object ++ [(name, row[start]?)] := by
      have notProto : name ≠ units "__proto__" := by
        rintro rfl
        exact own (by simp)
      simp only [setField, notProto, if_false, fresh name (by simp)]
    have later :=
      induction (nodup_cons.1 distinct).2 (fun member => own (by simp [member])) (start + 1)
        (by rw [width, length_cons]; omega)
        (object ++ [(name, row[start]?)])
        (by
          intro other member
          have notThis : other ≠ name := by
            rintro rfl
            exact (nodup_cons.1 distinct).1 member
          simpa [notThis] using fresh other (by simp [member]))
    simp only [zipIdx_cons, foldl_cons, assigned, later]
    rw [drop_eq_getElem_cons inside, map_cons, zip_cons_cons, getElem?_eq_getElem inside]
    simp

theorem rowObject_eq {names : List UnitString} (distinct : names.Nodup)
    (own : units "__proto__" ∉ names) {row : List Json} (width : row.length = names.length) :
    rowObject names row = names.zip (row.map some) := by
  have whole := foldl_setField distinct own row 0 (by simpa using width) [] (by simp)
  simpa [rowObject] using whole

theorem utf16_injective_ascii {first second : List Char}
    (firstAscii : ∀ character ∈ first, character.toNat < 0x80)
    (secondAscii : ∀ character ∈ second, character.toNat < 0x80)
    (same : utf16 first = utf16 second) : first = second := by
  have back {text : List Char} (ascii : ∀ character ∈ text, character.toNat < 0x80) :
    (utf16 text).map (fun unit => Char.ofNat unit.toNat) = text := by
    rw [utf16_ascii ascii, map_map]
    refine (map_congr_left fun character member => ?_).trans (map_id _)
    have small := ascii character member
    have value : (UInt16.ofNat character.toNat).toNat = character.toNat := by
      rw [UInt16.toNat_ofNat']
      omega
    simp only [comp_apply, value, Char.ofNat_toNat, id_eq]
  rw [← back firstAscii, same, back secondAscii]

theorem ResultTable.ascii {name : List Char} (member : name ∈ table.columns) :
    ∀ character ∈ name, character.toNat < 0x80 := by
  intro character listed
  have bound := (table.plain name member character listed).2.1
  omega

variable (irregular : Json → Except JsError (List JsObject))

theorem tableObjects_json (change : UnitString → UnitString) (table : ResultTable) :
    tableObjects irregular (table.json change) = .ok (table.objects change) := by
  have distinct : (table.columns.map utf16).Nodup := by
    refine List.Nodup.map_on ?_ table.distinct
    intro first firstMember second secondMember same
    exact utf16_injective_ascii (table.ascii firstMember) (table.ascii secondMember) same
  have own : units "__proto__" ∉ table.columns.map utf16 := by
    intro member
    rcases mem_map.1 member with ⟨name, listed, same⟩
    have protoAscii : ∀ character ∈ "__proto__".toList, character.toNat < 0x80 := by simp
    have isProto := utf16_injective_ascii (table.ascii listed) protoAscii same
    exact table.ownFields (isProto ▸ listed)
  rw [tableObjects, tableOf_json, ResultTable.objects]
  simp only [map_map]
  congr 1
  refine map_congr_left fun row member => ?_
  have width : (row.map (Cell.json change)).length = (table.columns.map utf16).length := by
    simp [table.width row member]
  rw [comp_apply, rowObject_eq distinct own width, map_map]
  rfl

/-! ## What comes back -/

theorem behindFirstLine_decode :
    behindFirstLine (TextDecoder.decode (utf8 (okLine ++ table.characters ++ lineEnd))) =
      utf16 table.characters ++ [0x0D, 0x0A] := by
  have noMark : (okLine ++ table.characters ++ lineEnd).head?.map Char.toNat ≠ some 0xFEFF := by
    rw [append_assoc, head?_append]
    exact (by decide : (okLine.head?.map Char.toNat) ≠ some 0xFEFF)
  have line : utf16 okLine = [0x6F, 0x6B, 0x0D, 0x0A] := by decide
  have ending : utf16 lineEnd = [0x0D, 0x0A] := by decide
  rw [TextDecoder.decode_utf8 noMark, utf16_append, utf16_append, line, ending, append_assoc]
  rfl

theorem convertJSON_table (table : ResultTable) :
    convertJSON irregular (.inl (utf8 (okLine ++ table.characters ++ lineEnd))) = match Json.parse
      ((table.pieces removeSeparators).flatMap (Piece.units writtenUnits)) with
      | some parsed => tableObjects irregular parsed
      | none =>
        match Json.parse ((table.pieces (replaceUnprintable ∘ removeSeparators)).flatMap
          (Piece.units writtenUnits)) with
        | some parsed => tableObjects irregular parsed
        | none => .error .syntaxError := by
  have nonempty : utf16 table.characters ++ [0x0D, 0x0A] ≠ [] := by simp
  simp only [convertJSON, behindFirstLine_decode, translateJsonString_table,
    replaceUnprintable_table]
  exact if_neg nonempty

/-- What `convertJSON` answers for the bytes of a table. -/
inductive Answer (table : ResultTable) :
    Except JsError (List JsObject) → Prop where
  /-- No text holds a quote or a control character that is not removed. -/
  | parsed (clean : table.IsClean removeSeparators) :
    Answer table (.ok (table.objects (doubleBackslashes ∘ removeSeparators)))
  /-- Control characters, and all others that are not printable, become `?`. -/
  | replaced (dirty : ¬ table.IsClean removeSeparators)
    (clean : table.IsClean (replaceUnprintable ∘ removeSeparators)) :
    Answer table (.ok (table.objects (doubleBackslashes ∘ replaceUnprintable ∘ removeSeparators)))
  /-- Some text holds a quote. -/
  | refused (dirty : ¬ table.IsClean removeSeparators)
    (still : ¬ table.IsClean (replaceUnprintable ∘ removeSeparators)) :
    Answer table (.error .syntaxError)

theorem answer_convertJSON (table : ResultTable) :
    Answer table (convertJSON irregular (.inl (utf8 (okLine ++ table.characters ++ lineEnd)))) := by
  rw [convertJSON_table]
  by_cases clean : table.IsClean removeSeparators
  · rw [parse_of_isClean clean]
    simp only [tableObjects_json]
    exact .parsed clean
  · rw [parse_of_not_isClean clean]
    by_cases replaced : table.IsClean (replaceUnprintable ∘ removeSeparators)
    · rw [parse_of_isClean replaced]
      simp only [tableObjects_json]
      exact .replaced clean replaced
    · rw [parse_of_not_isClean replaced]
      exact .refused clean replaced

theorem objects_eq_iff (change : UnitString → UnitString) (table : ResultTable) :
    table.objects change = table.objects id ↔
      ∀ row ∈ table.rows, ∀ cell ∈ row, cell.json change = cell.json id := by
  have fields (given : UnitString → UnitString) {row : List Cell} (member : row ∈ table.rows) :
    ((table.columns.map utf16).zip (row.map fun cell => some (cell.json given))).map Prod.snd =
      row.map fun cell => some (cell.json given) := by
    apply map_snd_zip
    simp [table.width row member]
  unfold ResultTable.objects
  rw [map_eq_map_iff]
  refine forall₂_congr fun row member => ?_
  constructor
  · intro same
    have values := congrArg (map Prod.snd) same
    rw [fields change member, fields id member, map_eq_map_iff] at values
    exact fun cell listed => Option.some.inj (values cell listed)
  · intro same
    have values : (row.map fun cell => some (cell.json change)) =
      row.map fun cell => some (cell.json id) :=
      map_congr_left fun cell listed => congrArg some (same cell listed)
    rw [values]

theorem mem_of_mem_doubleBackslashes {text : UnitString} {unit : UInt16}
    (member : unit ∈ doubleBackslashes text) : unit ∈ text := by
  rcases mem_flatMap.1 member with ⟨other, listed, inside⟩
  split_ifs at inside with slash
  · rw [slash] at listed
    simp only [mem_cons, not_mem_nil, or_false, or_self] at inside
    rwa [inside]
  · rwa [mem_singleton.1 inside]

theorem length_doubleBackslashes (text : UnitString) :
    (doubleBackslashes text).length = text.length + text.count 0x5C := by
  induction text with
  | nil => rfl
  | cons unit rest induction =>
    have split : doubleBackslashes (unit :: rest) =
      (if unit = 0x5C then [0x5C, 0x5C] else [unit]) ++ doubleBackslashes rest := by
      simp [doubleBackslashes]
    rw [split, length_append, induction]
    by_cases slash : unit = 0x5C
    · simp [slash]
      omega
    · simp [slash]
      omega

theorem doubleBackslashes_removeSeparators_eq_iff (text : UnitString) :
    doubleBackslashes (removeSeparators text) = text ↔
      ∀ unit ∈ text, isRemoved unit = false ∧ unit ≠ 0x5C := by
  constructor
  · intro same
    have kept : ∀ unit ∈ text, isRemoved unit = false := by
      intro unit member
      rw [← same] at member
      have listed := mem_of_mem_doubleBackslashes member
      simpa using (mem_filter.1 listed).2
    have whole : removeSeparators text = text :=
      filter_eq_self.2 fun unit member => by simp [kept unit member]
    rw [whole] at same
    have size := congrArg List.length same
    rw [length_doubleBackslashes] at size
    have none : text.count 0x5C = 0 := by omega
    intro unit member
    refine ⟨kept unit member, ?_⟩
    rintro rfl
    exact count_eq_zero.1 none member
  · intro kept
    have whole : removeSeparators text = text :=
      filter_eq_self.2 fun unit member => by simp [(kept unit member).1]
    rw [whole, doubleBackslashes]
    exact (flatMap_congr fun unit member => if_neg (kept unit member).2).trans
      (flatMap_singleton' _)

def HarmlessUnit (unit : UInt16) : Prop := unit ≠ 0x22 ∧ unit ≠ 0x5C ∧ unit ≠ 0x7C ∧ ¬ unit < 0x20

/-- A cell whose text holds no quote, backslash, bar or control character. -/
def Cell.Harmless : Cell → Prop
  | .text characters _ =>
    ∀ character ∈ characters, character ≠ '"' ∧ character ≠ '\\' ∧ character ≠ '|' ∧
      0x20 ≤ character.toNat
  | _ => True

theorem isRemoved_eq_false_of_harmless {unit : UInt16} (harmless : HarmlessUnit unit) :
    isRemoved unit = false := by
  rcases harmless with ⟨-, -, bar, control⟩
  by_contra removed
  simp only [isRemoved, Bool.not_eq_false, Bool.or_eq_true, decide_eq_true_eq] at removed
  rcases removed with ((rfl | rfl) | rfl) | rfl
  · exact control (by decide)
  · exact bar rfl
  · exact control (by decide)
  · exact control (by decide)

theorem harmless_of_kept {unit : UInt16} (kept : isRemoved unit = false ∧ unit ≠ 0x5C)
    (clean : unit ≠ 0x22 ∧ ¬ unit < 0x20) : HarmlessUnit unit := by
  refine ⟨clean.1, kept.2, ?_, clean.2⟩
  rintro rfl
  exact absurd kept.1 (by decide)

theorem forall_harmlessUnit_iff (characters : List Char) :
    (∀ unit ∈ utf16 characters, HarmlessUnit unit) ↔ ∀ character ∈ characters,
      character ≠ '"' ∧ character ≠ '\\' ∧ character ≠ '|' ∧ 0x20 ≤ character.toNat := by
  constructor
  · intro units character member
    have notUnit (unit : UInt16) (basic : unit.toNat < 0xD800) (harmful : ¬ HarmlessUnit unit) :
      character.toNat ≠ unit.toNat := fun same =>
      harmful (units unit ((mem_utf16_iff basic).2 ⟨character, member, same⟩))
    refine ⟨?_, ?_, ?_, ?_⟩
    · rintro rfl
      exact notUnit 0x22 (by decide) (by simp [HarmlessUnit]) rfl
    · rintro rfl
      exact notUnit 0x5C (by decide) (by simp [HarmlessUnit]) rfl
    · rintro rfl
      exact notUnit 0x7C (by decide) (by simp [HarmlessUnit]) rfl
    · by_contra control
      have value : (UInt16.ofNat character.toNat).toNat = character.toNat := by
        rw [UInt16.toNat_ofNat']
        omega
      have small : UInt16.ofNat character.toNat < 0x20 := by
        rw [UInt16.lt_iff_toNat_lt, value]
        exact not_le.1 control
      refine notUnit _ (by rw [value]; omega) ?_ value.symm
      exact fun harmless => harmless.2.2.2 small
  · intro all unit member
    have source (basic : unit.toNat < 0xD800) := (mem_utf16_iff basic).1 member
    refine ⟨?_, ?_, ?_, ?_⟩
    · rintro rfl
      rcases source (by decide) with ⟨character, listed, same⟩
      exact (all character listed).1 (Char.toNat_inj.1 same)
    · rintro rfl
      rcases source (by decide) with ⟨character, listed, same⟩
      exact (all character listed).2.1 (Char.toNat_inj.1 same)
    · rintro rfl
      rcases source (by decide) with ⟨character, listed, same⟩
      exact (all character listed).2.2.1 (Char.toNat_inj.1 same)
    · intro control
      have small : unit.toNat < 0x20 := UInt16.lt_iff_toNat_lt.1 control
      rcases source (by omega) with ⟨character, listed, same⟩
      have bound := (all character listed).2.2.2
      omega

theorem Cell.harmless_iff (cell : Cell) : cell.Harmless ↔ (cell.content removeSeparators).IsClean ∧
    cell.json (doubleBackslashes ∘ removeSeparators) = cell.json id := by
  cases cell with
  | null => exact ⟨fun _ => ⟨trivial, rfl⟩, fun _ => trivial⟩
  | integer value exact => exact ⟨fun _ => ⟨trivial, rfl⟩, fun _ => trivial⟩
  | text characters terminated =>
    rw [Cell.Harmless, ← forall_harmlessUnit_iff]
    simp only [Cell.json, Cell.content, Json.string.injEq,
      comp_apply, id_eq, doubleBackslashes_removeSeparators_eq_iff]
    constructor
    · intro harmless
      refine ⟨?_, ?_⟩
      · intro unit member
        have here := harmless unit (mem_of_mem_filter member)
        exact ⟨here.1, here.2.2.2⟩
      · intro unit member
        have here := harmless unit member
        exact ⟨isRemoved_eq_false_of_harmless here, here.2.1⟩
    · rintro ⟨clean, kept⟩ unit member
      have listed : unit ∈ removeSeparators (utf16 characters) :=
        mem_filter.2 ⟨member, by simp [(kept unit member).1]⟩
      exact harmless_of_kept (kept unit member) (clean unit listed)

theorem Cell.isClean_of_replaced {cell : Cell}
    (clean : (cell.content (replaceUnprintable ∘ removeSeparators)).IsClean)
    (same : cell.json (doubleBackslashes ∘ replaceUnprintable ∘ removeSeparators) =
      cell.json id) : (cell.content removeSeparators).IsClean := by
  cases cell with
  | null => trivial
  | integer value exact => trivial
  | text characters terminated =>
    simp only [Cell.json, Json.string.injEq, comp_apply, id_eq] at same
    intro unit member
    have listed : unit ∈ utf16 characters := mem_of_mem_filter member
    rw [← same] at listed
    exact clean unit (mem_of_mem_doubleBackslashes listed)

/--
Query results survive the trip to the interface exactly when no text of the
table holds a quote, a backslash, a bar or a control character.
-/
theorem convertJSON_searchDatabase_iff
    (irregular : Json → Except JsError (List JsObject)) (table : ResultTable) :
    (∃ bytes, searchDatabase (.ok table.statement) = some bytes ∧
      convertJSON irregular (.inl bytes) = .ok (table.objects id)) ↔
      ∀ row ∈ table.rows, ∀ cell ∈ row, cell.Harmless := by
  by_cases columns : table.columns = []
  · have rows := table.rows_of_noColumns columns
    have empty : searchDatabase (.ok table.statement) = some [] := by
      simp [searchDatabase, ResultTable.statement, columns]
    simp only [rows, not_mem_nil, false_imp_iff, implies_true, iff_true]
    refine ⟨[], empty, ?_⟩
    simp only [ResultTable.objects, rows, map_nil]
    rfl
  · simp only [searchDatabase_statement table columns, Option.some.injEq, exists_eq_left']
    simp only [Cell.harmless_iff, forall_and, ← objects_eq_iff]
    have answer := answer_convertJSON irregular table
    generalize convertJSON irregular _ = result at answer
    cases answer with
    | parsed clean =>
      rw [Except.ok.injEq, objects_eq_iff]
      exact (and_iff_right clean).symm
    | replaced dirty clean =>
      rw [Except.ok.injEq, objects_eq_iff]
      refine iff_of_false ?_ (fun both => dirty both.1)
      intro same
      apply dirty
      intro row rowMember cell member
      exact Cell.isClean_of_replaced (clean row rowMember cell member)
        (same row rowMember cell member)
    | refused dirty => exact iff_of_false (by simp) (fun both => dirty both.1)

/-- One column `a` and one row, the text `"`. -/
def quoteTable : ResultTable where
  columns := ["a".toList]
  rows := [[.text ['"'] (by simp)]]
  plain := by simp [PlainCharacter]
  ownFields := by decide
  distinct := by decide
  width := by simp
  rows_of_noColumns := by simp

theorem quoteTable_not_isClean (kept : change [0x22] = [0x22]) : ¬ quoteTable.IsClean change := by
  intro clean
  have inside := clean _ (mem_singleton.2 rfl) _ (mem_singleton.2 rfl)
  have quote : utf16 ['"'] = [0x22] := by decide
  simp only [Cell.content, Content.IsClean, quote, kept] at inside
  exact (inside 0x22 (by simp)).1 rfl

/-- A quote in a text makes `convertJSON` throw. -/
theorem convertJSON_throws_on_quote :
    ¬ ∃ irregular bytes, searchDatabase (.ok quoteTable.statement) = some bytes ∧
      convertJSON irregular (.inl bytes) = .ok (quoteTable.objects id) := by
  rintro ⟨irregular, bytes, sent, received⟩
  have answer := answer_convertJSON irregular quoteTable
  rw [searchDatabase_statement quoteTable (by simp [quoteTable]), Option.some.injEq] at sent
  rw [sent, received] at answer
  cases answer with
  | parsed clean => exact quoteTable_not_isClean (by decide) clean
  | replaced dirty clean => exact quoteTable_not_isClean (by decide) clean

end SysAnalyzer.Query
