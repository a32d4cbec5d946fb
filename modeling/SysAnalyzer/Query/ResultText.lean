import SysAnalyzer.Query.ConvertJson

/-!
# The text of a result, piece by piece

The text of a table is a sequence of pieces, each a structural character with
the name, number or string that stands before it.  Rewriting and parsing both
work through the pieces: rewriting changes the strings only, and the token
reader takes one piece after the other.

A string that holds a quote or a control character stops the reader.  Behind the
quote it stands outside a string where a string is, and inside one where none
is, so no later quote can set it right again.
-/

namespace SysAnalyzer.Query

open Foundation List Option

/-- What stands before a structural character. -/
inductive Content where
  | nothing
  | word (units : UnitString)
  | text (units : UnitString)

structure Piece where
  content : Content
  mark : UInt16

/-- The escapes `FormatString` writes, on code units. -/
def escapeUnits (text : UnitString) : UnitString :=
  text.flatMap fun unit => if unit = 0x5C ∨ unit = 0x22 then [0x5C, unit] else [unit]

/-- The escapes once `translateJsonString` has doubled their backslashes. -/
def writtenUnit (unit : UInt16) : UnitString :=
  if unit = 0x5C then [0x5C, 0x5C, 0x5C, 0x5C]
  else if unit = 0x22 then [0x5C, 0x5C, 0x22]
  else [unit]

def writtenUnits (text : UnitString) : UnitString := text.flatMap writtenUnit

theorem doubleBackslashes_escapeUnits (text : UnitString) :
    doubleBackslashes (escapeUnits text) = writtenUnits text := by
  simp only [doubleBackslashes, escapeUnits, writtenUnits, flatMap_assoc]
  refine flatMap_congr fun unit _ => ?_
  by_cases slash : unit = 0x5C
  · subst slash
    rfl
  · by_cases quote : unit = 0x22
    · subst quote
      rfl
    · simp [writtenUnit, slash, quote]

namespace Content

/-- The units of a content, a text written by `write` and put in quotes. -/
def units (write : UnitString → UnitString) : Content → UnitString
  | .nothing => []
  | .word name => name
  | .text string => 0x22 :: (write string ++ [0x22])

def mapText (change : UnitString → UnitString) : Content → Content
  | .text string => .text (change string)
  | content => content

/-- A content the token reader can take, as far as it is a word. -/
def Regular : Content → Prop
  | .word name =>
    name ≠ [] ∧ (∀ unit ∈ name, Json.isWordUnit unit = true) ∧ (Json.wordToken name).isSome
  | _ => True

end Content

namespace Piece

def units (write : UnitString → UnitString) (piece : Piece) : UnitString :=
  piece.content.units write ++ [piece.mark]

def mapText (change : UnitString → UnitString) (piece : Piece) : Piece :=
  ⟨piece.content.mapText change, piece.mark⟩

def Regular (piece : Piece) : Prop := (Json.mark piece.mark).isSome ∧ piece.content.Regular

theorem units_word (write : UnitString → UnitString) (word : UnitString) (mark : UInt16) :
    units write ⟨.word word, mark⟩ = word ++ [mark] :=
  rfl

theorem units_text (write : UnitString → UnitString) (text : UnitString) (mark : UInt16) :
    units write ⟨.text text, mark⟩ = 0x22 :: (write text ++ [0x22, mark]) := by
  simp [units, Content.units]

end Piece

/-- A unit that no rewriting touches and that is neither quote nor backslash. -/
structure Neutral (unit : UInt16) : Prop where
  noQuote : unit ≠ 0x22
  noBackslash : unit ≠ 0x5C
  kept : isRemoved unit = false
  printable : 0x20 ≤ unit ∧ unit ≤ 0x7E

variable {unit : UInt16}

theorem mark_cases (mark : (Json.mark unit).isSome) :
    unit = 0x7B ∨ unit = 0x7D ∨ unit = 0x5B ∨ unit = 0x5D ∨ unit = 0x3A ∨ unit = 0x2C := by
  unfold Json.mark at mark
  split_ifs at mark with brace endBrace bracket endBracket colon comma
  · exact Or.inl brace
  · exact Or.inr (Or.inl endBrace)
  · exact Or.inr (Or.inr (Or.inl bracket))
  · exact Or.inr (Or.inr (Or.inr (Or.inl endBracket)))
  · exact Or.inr (Or.inr (Or.inr (Or.inr (Or.inl colon))))
  · exact Or.inr (Or.inr (Or.inr (Or.inr (Or.inr comma))))
  · exact absurd mark (by simp)

theorem neutral_of_mark (mark : (Json.mark unit).isSome) : Neutral unit := by
  rcases mark_cases mark with rfl | rfl | rfl | rfl | rfl | rfl <;>
    exact ⟨by decide, by decide, by decide, by decide⟩

theorem neutral_of_word (word : Json.isWordUnit unit = true) : Neutral unit := by
  have printable : 0x20 ≤ unit ∧ unit ≤ 0x7E := by
    simp only [Json.isWordUnit, Json.isDigit, Bool.or_eq_true, Bool.and_eq_true,
      decide_eq_true_eq, UInt16.le_iff_toNat_le, ← UInt16.toNat_inj,
      UInt16.reduceToNat] at word ⊢
    omega
  refine ⟨?_, ?_, ?_, printable⟩
  · rintro rfl
    exact absurd word (by decide)
  · rintro rfl
    exact absurd word (by decide)
  · by_contra removed
    simp only [isRemoved, Bool.not_eq_false, Bool.or_eq_true, decide_eq_true_eq] at removed
    rcases removed with ((rfl | rfl) | rfl) | rfl <;> exact absurd word (by decide)

theorem plain_of_neutral (neutral : Neutral unit) : Json.Reader.Plain unit :=
  ⟨neutral.noQuote, neutral.noBackslash, UInt16.not_lt.2 neutral.printable.1⟩

variable (first : UnitString)

theorem removeSeparators_append (second : UnitString) :
    removeSeparators (first ++ second) = removeSeparators first ++ removeSeparators second := by
  simp [removeSeparators]

theorem doubleBackslashes_append (second : UnitString) :
    doubleBackslashes (first ++ second) = doubleBackslashes first ++ doubleBackslashes second := by
  simp [doubleBackslashes]

theorem translateJsonString_append (second : UnitString) : translateJsonString (first ++ second) =
    translateJsonString first ++ translateJsonString second := by
  simp [translateJsonString, removeSeparators_append, doubleBackslashes_append]

theorem translateJsonString_neutral {text : UnitString} (neutral : ∀ unit ∈ text, Neutral unit) :
    translateJsonString text = text := by
  have kept : removeSeparators text = text :=
    filter_eq_self.2 fun unit member => by simp [(neutral unit member).kept]
  rw [translateJsonString, kept, doubleBackslashes]
  refine Eq.trans (flatMap_congr fun unit member => ?_) (flatMap_singleton' _)
  exact if_neg (neutral unit member).noBackslash

theorem removeSeparators_escapeUnits (text : UnitString) :
    removeSeparators (escapeUnits text) = escapeUnits (removeSeparators text) := by
  induction text with
  | nil => rfl
  | cons unit rest induction =>
    have split : escapeUnits (unit :: rest) = escapeUnits [unit] ++ escapeUnits rest := by
      simp [escapeUnits]
    have here : removeSeparators (escapeUnits [unit]) = escapeUnits (removeSeparators [unit]) := by
      by_cases special : unit = 0x5C ∨ unit = 0x22
      · rcases special with rfl | rfl <;> decide
      · by_cases removed : isRemoved unit = true
        · simp [escapeUnits, special, removeSeparators, removed]
        · simp [escapeUnits, special, removeSeparators, removed]
    have joined : removeSeparators (unit :: rest) =
      removeSeparators [unit] ++ removeSeparators rest :=
      removeSeparators_append [unit] rest
    rw [split, removeSeparators_append, here, induction, joined, escapeUnits,
      escapeUnits, escapeUnits, flatMap_append]

variable {piece : Piece}

theorem translateJsonString_piece (regular : piece.Regular) :
    translateJsonString (piece.units escapeUnits) =
      (piece.mapText removeSeparators).units writtenUnits := by
  rcases piece with ⟨content, mark⟩
  have markNeutral : Neutral mark := neutral_of_mark regular.1
  cases content with
  | nothing =>
    refine translateJsonString_neutral fun unit member => ?_
    rw [mem_singleton.1 member]
    exact markNeutral
  | word word =>
    refine translateJsonString_neutral fun unit member => ?_
    rcases mem_append.1 member with inWord | isMark
    · exact neutral_of_word (regular.2.2.1 unit inWord)
    · rw [mem_singleton.1 isMark]
      exact markNeutral
  | text text =>
    have quote : translateJsonString [0x22] = [0x22] := by decide
    have ending : translateJsonString [0x22, mark] = [0x22, mark] := by
      change translateJsonString ([0x22] ++ [mark]) = _
      rw [translateJsonString_append, quote,
        translateJsonString_neutral (by simpa using markNeutral)]
      rfl
    have inside : translateJsonString (escapeUnits text) =
      writtenUnits (removeSeparators text) := by
      rw [translateJsonString, removeSeparators_escapeUnits, doubleBackslashes_escapeUnits]
    rw [Piece.units_text, Piece.mapText, Content.mapText, Piece.units_text]
    change translateJsonString ([0x22] ++ (escapeUnits text ++ [0x22, mark])) = _
    rw [translateJsonString_append, translateJsonString_append, quote, inside, ending]
    rfl

theorem replaceUnprintable_append (second : UnitString) : replaceUnprintable (first ++ second) =
    replaceUnprintable first ++ replaceUnprintable second := by
  simp [replaceUnprintable]

theorem replaceUnprintable_printable {text : UnitString}
    (printable : ∀ unit ∈ text, 0x20 ≤ unit ∧ unit ≤ 0x7E) : replaceUnprintable text = text := by
  refine (map_congr_left fun unit member => ?_).trans (map_id _)
  exact if_pos (printable unit member)

theorem replaceUnprintable_writtenUnits (text : UnitString) :
    replaceUnprintable (writtenUnits text) = writtenUnits (replaceUnprintable text) := by
  simp only [replaceUnprintable, writtenUnits, map_flatMap, flatMap_map]
  refine flatMap_congr fun unit _ => ?_
  by_cases slash : unit = 0x5C
  · subst slash
    decide
  · by_cases quote : unit = 0x22
    · subst quote
      decide
    · by_cases printable : 0x20 ≤ unit ∧ unit ≤ 0x7E
      · simp [writtenUnit, slash, quote, printable]
      · simp [writtenUnit, slash, quote, if_neg printable]

theorem replaceUnprintable_piece (regular : piece.Regular) :
    replaceUnprintable (piece.units writtenUnits) =
      (piece.mapText replaceUnprintable).units writtenUnits := by
  rcases piece with ⟨content, mark⟩
  have markPrintable := (neutral_of_mark regular.1).printable
  cases content with
  | nothing =>
    refine replaceUnprintable_printable fun unit member => ?_
    rw [mem_singleton.1 member]
    exact markPrintable
  | word word =>
    refine replaceUnprintable_printable fun unit member => ?_
    rcases mem_append.1 member with inWord | isMark
    · exact (neutral_of_word (regular.2.2.1 unit inWord)).printable
    · rw [mem_singleton.1 isMark]
      exact markPrintable
  | text text =>
    have quote : replaceUnprintable [0x22] = [0x22] := by decide
    have ending : replaceUnprintable [0x22, mark] = [0x22, mark] := by
      refine replaceUnprintable_printable fun unit member => ?_
      rcases mem_pair.1 member with rfl | rfl
      · decide
      · exact markPrintable
    rw [Piece.units_text, Piece.mapText, Content.mapText, Piece.units_text]
    change replaceUnprintable ([0x22] ++ (writtenUnits text ++ [0x22, mark])) = _
    rw [replaceUnprintable_append, replaceUnprintable_append, quote,
      replaceUnprintable_writtenUnits, ending]
    rfl

/-- A text without quotes and control characters. -/
def Clean (text : UnitString) : Prop := ∀ unit ∈ text, unit ≠ 0x22 ∧ ¬ unit < 0x20

namespace Content

/-- The text, if there is one, is clean. -/
def IsClean : Content → Prop
  | .text string => Clean string
  | _ => True

/-- The tokens of a content; a backslash of a text comes back as two. -/
def tokens : Content → List Json.Token
  | .nothing => []
  | .word name => (Json.wordToken name).toList
  | .text string => [.string (doubleBackslashes string)]

end Content

def Piece.tokens (piece : Piece) : List Json.Token :=
  piece.content.tokens ++ (Json.mark piece.mark).toList

theorem isWordUnit_of_mark (mark : (Json.mark unit).isSome) : Json.isWordUnit unit = false := by
  rcases mark_cases mark with rfl | rfl | rfl | rfl | rfl | rfl <;> decide

open Json in
theorem run_mark (before : List Token) (mark : (Json.mark unit).isSome) (rest : UnitString) :
    runPartial Reader.step ⟨before, .between⟩ (unit :: rest) = runPartial Reader.step
      ⟨before ++ (Json.mark unit).toList, .between⟩ rest := by
  rcases isSome_iff_exists.1 mark with ⟨token, isToken⟩
  have noWord : isWordUnit unit = false := isWordUnit_of_mark mark
  have noSpace : isSpace unit = false := by
    rcases mark_cases mark with rfl | rfl | rfl | rfl | rfl | rfl <;> decide
  have stepped : Reader.step ⟨before, .between⟩ unit = some ⟨before ++ [token], .between⟩ := by
    simp [Reader.step, Reader.between, noWord, noSpace, isToken, (neutral_of_mark mark).noQuote]
  simp [runPartial, stepped, isToken]

open Json in
theorem run_writtenUnits (before : List Token) (read text rest : UnitString) (clean : Clean text) :
    runPartial Reader.step ⟨before, .string read⟩ (writtenUnits text ++ rest) =
      runPartial Reader.step ⟨before, .string (read ++ doubleBackslashes text)⟩ rest := by
  induction text generalizing read with
  | nil => simp [writtenUnits, doubleBackslashes]
  | cons unit text induction =>
    have here := clean unit (by simp)
    have later := induction (read ++ if unit = 0x5C then [0x5C, 0x5C] else [unit])
      fun unit member => clean unit (by simp [member])
    have joined : doubleBackslashes (unit :: text) =
      (if unit = 0x5C then [0x5C, 0x5C] else [unit]) ++ doubleBackslashes text := by
      simp [doubleBackslashes]
    have split : writtenUnits (unit :: text) = writtenUnit unit ++ writtenUnits text := by
      simp [writtenUnits]
    rw [split, joined, ← append_assoc read, ← later, append_assoc]
    by_cases slash : unit = 0x5C
    · subst slash
      change runPartial _ _ (0x5C :: 0x5C :: 0x5C :: 0x5C :: _) = _
      rw [Reader.run_string_backslash, Reader.run_string_backslash]
      simp
    · rw [if_neg slash, writtenUnit, if_neg slash, if_neg here.1]
      refine Reader.run_string_plain before read [unit] _ ?_
      intro other member
      rw [mem_singleton.1 member]
      exact ⟨here.1, slash, here.2⟩

open Json in
theorem run_piece (before : List Token) (regular : piece.Regular)
    (clean : piece.content.IsClean) (rest : UnitString) :
    runPartial Reader.step ⟨before, .between⟩ (piece.units writtenUnits ++ rest) =
      runPartial Reader.step ⟨before ++ piece.tokens, .between⟩ rest := by
  rcases piece with ⟨content, mark⟩
  have isMark : (Json.mark mark).isSome := regular.1
  cases content with
  | nothing => exact run_mark before isMark rest
  | word word =>
    rcases isSome_iff_exists.1 regular.2.2.2 with ⟨token, isToken⟩
    have read :=
      Reader.run_word before rest regular.2.2.1 isToken regular.2.1 (isWordUnit_of_mark isMark)
    simp only [Piece.units_word, Piece.tokens, Content.tokens, isToken,
      append_assoc, singleton_append, toList_some]
    rw [read, run_mark _ isMark]
    simp
  | text text =>
    have inside := run_writtenUnits before [] text (0x22 :: mark :: rest) clean
    have closed := run_mark (before ++ [.string (doubleBackslashes text)]) isMark rest
    simp only [Piece.units_text, Piece.tokens, Content.tokens,
      cons_append, append_assoc, nil_append] at inside ⊢
    change runPartial Reader.step ⟨before, .string []⟩ _ = _
    rw [inside]
    change runPartial Reader.step ⟨before ++ [.string (doubleBackslashes text)], .between⟩
      (mark :: rest) = _
    rw [closed]
    simp

variable {pieces : List Piece}

open Json in
theorem tokens_pieces (regular : ∀ piece ∈ pieces, piece.Regular)
    (clean : ∀ piece ∈ pieces, piece.content.IsClean) :
    Json.tokens (pieces.flatMap (Piece.units writtenUnits)) =
      some (pieces.flatMap Piece.tokens) := by
  have run (before : List Token) : runPartial Reader.step ⟨before, .between⟩
    (pieces.flatMap (Piece.units writtenUnits)) =
      some ⟨before ++ pieces.flatMap Piece.tokens, .between⟩ := by
    induction pieces generalizing before with
    | nil => simp [runPartial]
    | cons piece rest induction =>
      rw [flatMap_cons, run_piece before (regular piece (by simp)) (clean piece (by simp)),
        induction (fun piece member => regular piece (by simp [member]))
          (fun piece member => clean piece (by simp [member]))]
      simp
  simp [Json.tokens, run, Reader.finish]

open Json in
/--
Outside a string, where a text is written, the reader fails or meets the closing
quote of the text and takes it for an opening one.
-/
theorem refuses_writtenUnits_outside
    {reader : Reader} (outside : reader.Outside) (text : UnitString) {rest : UnitString}
    (inside : ∀ before read, Reader.Refuses ⟨before, .string read⟩ rest) :
    reader.Refuses (writtenUnits text ++ 0x22 :: rest) := by
  induction text generalizing reader with
  | nil =>
    rcases Reader.step_outside_quote outside with refused | ⟨before, opened⟩
    · exact Reader.refuses_cons_of_none refused rest
    · exact (Reader.refuses_cons_iff opened rest).2 (inside before [])
  | cons unit text induction =>
    have split : writtenUnits (unit :: text) = writtenUnit unit ++ writtenUnits text := by
      simp [writtenUnits]
    have refused := Reader.step_outside_backslash outside
    rw [split, append_assoc]
    by_cases slash : unit = 0x5C
    · subst slash
      exact Reader.refuses_cons_of_none refused _
    · by_cases quote : unit = 0x22
      · subst quote
        exact Reader.refuses_cons_of_none refused _
      · rw [writtenUnit, if_neg slash, if_neg quote, singleton_append]
        cases stepped : reader.step unit with
        | none => exact Reader.refuses_cons_of_none stepped _
        | some next =>
          rw [Reader.refuses_cons_iff stepped]
          exact induction (Reader.outside_of_step outside quote stepped)

open Json in
theorem refuses_pieces_inside (regular : ∀ piece ∈ pieces, piece.Regular)
    (before : List Token) (read : UnitString) :
    Reader.Refuses ⟨before, .string read⟩ (pieces.flatMap (Piece.units writtenUnits)) := by
  induction pieces generalizing before read with
  | nil => rfl
  | cons piece rest induction =>
    rcases piece with ⟨content, mark⟩
    have here := regular ⟨content, mark⟩ (by simp)
    have later := induction fun piece member => regular piece (by simp [member])
    have markPlain : Reader.Plain mark := plain_of_neutral (neutral_of_mark here.1)
    have behindMark (before : List Token) (read : UnitString) :
      Reader.Refuses ⟨before, .string read⟩ (mark :: rest.flatMap (Piece.units writtenUnits)) :=
      (Reader.refuses_cons_iff (Reader.step_string_plain before read markPlain) _).2
        (later before (read ++ [mark]))
    rw [flatMap_cons]
    cases content with
    | nothing => exact behindMark before read
    | word word =>
      have wordPlain : ∀ unit ∈ word, Reader.Plain unit :=
        fun unit member => plain_of_neutral (neutral_of_word (here.2.2.1 unit member))
      simp only [Piece.units_word, append_assoc, singleton_append,
        Reader.Refuses, Reader.run_string_plain before read word _ wordPlain]
      exact behindMark before (read ++ word)
    | text text =>
      have closed : Reader.step ⟨before, .string read⟩ 0x22 =
        some ⟨before ++ [.string read], .between⟩ := rfl
      simp only [Piece.units_text, cons_append, append_assoc, nil_append]
      have outside : Reader.Outside ⟨before ++ [.string read], .between⟩ := trivial
      rw [Reader.refuses_cons_iff closed]
      exact refuses_writtenUnits_outside outside text behindMark

open Json in
theorem refuses_writtenUnits {text rest : UnitString} (dirty : ¬ Clean text)
    (inside : ∀ before read, Reader.Refuses ⟨before, .string read⟩ rest)
    (before : List Token) (read : UnitString) :
    Reader.Refuses ⟨before, .string read⟩ (writtenUnits text ++ 0x22 :: rest) := by
  induction text generalizing read with
  | nil => exact absurd (by simp [Clean]) dirty
  | cons unit text induction =>
    have split : writtenUnits (unit :: text) = writtenUnit unit ++ writtenUnits text := by
      simp [writtenUnits]
    rw [split, append_assoc]
    by_cases quote : unit = 0x22
    · -- the doubled backslash is one character, so this quote closes the string
      subst quote
      have outside : Reader.Outside ⟨before ++ [.string (read ++ [0x5C])], .between⟩ := trivial
      exact refuses_writtenUnits_outside outside text inside
    · by_cases control : unit < 0x20
      · have slash : unit ≠ 0x5C := by
          rintro rfl
          exact absurd control (by decide)
        have refused : Reader.step ⟨before, .string read⟩ unit = none := by
          simp [Reader.step, quote, control]
        rw [writtenUnit, if_neg slash, if_neg quote, singleton_append]
        exact Reader.refuses_cons_of_none refused _
      · have later : ¬ Clean text := by
          intro clean
          apply dirty
          intro other member
          rcases mem_cons.1 member with rfl | inText
          · exact ⟨quote, control⟩
          · exact clean other inText
        have clean : Clean [unit] := by simpa [Clean] using And.intro quote control
        have taken := run_writtenUnits before read [unit] (writtenUnits text ++ 0x22 :: rest) clean
        have single : writtenUnits [unit] = writtenUnit unit := by simp [writtenUnits]
        rw [single] at taken
        rw [Reader.Refuses, taken]
        exact induction later _

open Json in
theorem tokens_pieces_eq_none (regular : ∀ piece ∈ pieces, piece.Regular)
    (dirty : ∃ piece ∈ pieces, ¬ piece.content.IsClean) :
    Json.tokens (pieces.flatMap (Piece.units writtenUnits)) = none := by
  have refused (before : List Token) : Reader.Refuses ⟨before, .between⟩
    (pieces.flatMap (Piece.units writtenUnits)) := by
    induction pieces generalizing before with
    | nil => simp at dirty
    | cons piece rest induction =>
      have here := regular piece (by simp)
      have later : ∀ piece ∈ rest, piece.Regular :=
        fun piece member => regular piece (by simp [member])
      rw [flatMap_cons]
      by_cases clean : piece.content.IsClean
      · have others : ∃ piece ∈ rest, ¬ piece.content.IsClean := by
          rcases dirty with ⟨other, member, notClean⟩
          rcases mem_cons.1 member with rfl | inRest
          · exact absurd clean notClean
          · exact ⟨other, inRest, notClean⟩
        rw [Reader.Refuses, run_piece before here clean]
        exact induction later others _
      · rcases piece with ⟨content, mark⟩
        have markPlain := plain_of_neutral (neutral_of_mark here.1)
        cases content with
        | nothing => exact absurd trivial clean
        | word word => exact absurd trivial clean
        | text text =>
          have opened : Reader.step ⟨before, .between⟩ 0x22 = some ⟨before, .string []⟩ := rfl
          simp only [Piece.units_text, cons_append, append_assoc, nil_append]
          rw [Reader.refuses_cons_iff opened]
          refine refuses_writtenUnits clean (fun before read => ?_) before []
          rw [Reader.refuses_cons_iff (Reader.step_string_plain before read markPlain)]
          exact refuses_pieces_inside later before _
  exact refused []

end SysAnalyzer.Query
