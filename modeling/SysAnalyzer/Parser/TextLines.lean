import SysAnalyzer.Parser.TextSegments

/-!
# Which lines are handed over

What is handed over depends on the chunks in one way only: a newline that stands
at the beginning of the buffer is not counted, so the numbers of the lines behind
it are too small.  The lines themselves are those a newline ends; the text behind
the last newline is never handed over.
-/

namespace SysAnalyzer.Parser.TextSegments

open Foundation List Option

def NoneHanded (lines : List Bytes) : Prop := ∀ raw ∈ lines, isHanded (bufferLine raw) = false

instance decidableNoneHanded (lines : List Bytes) : Decidable (NoneHanded lines) :=
  decidableBAll _ lines

theorem noneHanded_append (first second : List Bytes) :
    NoneHanded (first ++ second) ↔ NoneHanded first ∧ NoneHanded second := by
  simp [NoneHanded, or_imp, forall_and]

theorem isHanded_nil : isHanded (bufferLine []) = false := by decide

theorem noneHanded_nil_cons (lines : List Bytes) : NoneHanded ([] :: lines) ↔ NoneHanded lines := by
  simp [NoneHanded, isHanded_nil]

theorem noneHanded_iff_filter (lines : List Bytes) :
    NoneHanded lines ↔ (lines.map bufferLine).filter isHanded = [] := by
  simp [NoneHanded, filter_eq_nil_iff]

theorem numberedLine_eq_nil_iff (seq : Nat) (raw : Bytes) :
    numberedLine seq raw = [] ↔ isHanded (bufferLine raw) = false := by
  unfold numberedLine
  split <;> simp_all

theorem numberedLines_append (seq : Nat) (first second : List Bytes) :
    numberedLines seq (first ++ second) =
      numberedLines seq first ++ numberedLines (seq + first.length) second := by
  induction first generalizing seq with
  | nil => simp [numberedLines]
  | cons raw rest induction =>
    simp only [cons_append, numberedLines, induction, length_cons, append_assoc]
    rw [Nat.add_assoc, Nat.add_comm 1]

theorem numberedLines_eq_nil_iff (seq : Nat) (lines : List Bytes) :
    numberedLines seq lines = [] ↔ NoneHanded lines := by
  induction lines generalizing seq with
  | nil => simp [numberedLines, NoneHanded]
  | cons raw rest induction =>
    rw [numberedLines, append_eq_nil_iff, numberedLine_eq_nil_iff, induction]
    simp [NoneHanded]

theorem map_fst_numberedLines (seq : Nat) (lines : List Bytes) :
    (numberedLines seq lines).map Prod.fst = (lines.map bufferLine).filter isHanded := by
  induction lines generalizing seq with
  | nil => rfl
  | cons raw rest induction =>
    rw [numberedLines, map_append, induction, map_cons, filter_cons]
    unfold numberedLine
    split <;> simp

/-- The first list is the second without some of its empty lines. -/
inductive Thinned : List Bytes → List Bytes → Prop where
  | nil : Thinned [] []
  | keep (raw : Bytes) {few lines : List Bytes} :
    Thinned few lines → Thinned (raw :: few) (raw :: lines)
  | skip {few lines : List Bytes} :
    Thinned few lines → Thinned few ([] :: lines)

namespace Thinned

theorem refl (lines : List Bytes) : Thinned lines lines := by
  induction lines with
  | nil => exact .nil
  | cons raw rest induction => exact .keep raw induction

variable {few lines : List Bytes}

theorem append {moreFew moreLines : List Bytes}
    (first : Thinned few lines) (second : Thinned moreFew moreLines) :
    Thinned (few ++ moreFew) (lines ++ moreLines) := by
  induction first with
  | nil => exact second
  | keep raw rest induction => exact .keep raw induction
  | skip rest induction => exact .skip induction

section

variable (thinned : Thinned few lines)
include thinned

theorem handed_eq :
    (few.map bufferLine).filter isHanded = (lines.map bufferLine).filter isHanded := by
  induction thinned with
  | nil => rfl
  | keep raw rest induction => simp [filter_cons, induction]
  | skip rest induction => simp [isHanded_nil, induction]

theorem filter_eq : few.filter (· ≠ []) = lines.filter (· ≠ []) := by
  induction thinned with
  | nil => rfl
  | keep raw rest induction => simp only [filter_cons, induction]
  | skip rest induction => simpa using induction

theorem noneHanded_iff : NoneHanded few ↔ NoneHanded lines := by
  rw [noneHanded_iff_filter, noneHanded_iff_filter, thinned.handed_eq]

theorem numberedLines_eq_iff_of_lt {seq number : Nat} (behind : seq < number) :
    numberedLines seq few = numberedLines number lines ↔ NoneHanded lines := by
  constructor
  · intro same
    induction thinned generalizing seq number with
    | nil => simp [NoneHanded]
    | keep raw rest induction =>
      simp only [numberedLines, numberedLine] at same
      by_cases handed : isHanded (bufferLine raw) = true
      · simp only [handed, if_true, singleton_append, List.cons.injEq,
          Prod.mk.injEq, true_and] at same
        omega
      · simp only [handed] at same
        have later := induction (Nat.succ_lt_succ behind) same
        simpa [NoneHanded, handed] using later
    | skip rest induction =>
      simp only [numberedLines, numberedLine, isHanded_nil] at same
      rw [noneHanded_nil_cons]
      exact induction (Nat.lt_succ_of_lt behind) same
  · intro none
    rw [(numberedLines_eq_nil_iff number lines).2 none,
      (numberedLines_eq_nil_iff seq few).2 (thinned.noneHanded_iff.2 none)]

end

end Thinned

/-! ## The lines that are counted -/

/-- The lines ended in the chunks, a part of the first of them being there. -/
def endedFrom (tail : Bytes) (chunks : List Bytes) : List Bytes :=
  (Lines.split newline (tail ++ chunks.flatten)).ended

/-- What the reader keeps after a chunk. -/
def keptTail (tail chunk : Bytes) : Bytes := (Lines.split newline (tail ++ chunk)).tail

/-- The lines the loop counts over several chunks. -/
def countedFrom : Bytes → List Bytes → List Bytes
  | _, [] => []
  | tail, chunk :: rest =>
    BytraceParser.countedLines (Lines.split newline (tail ++ chunk)).ended ++
      countedFrom (keptTail tail chunk) rest

/-- Behind a newline at the beginning of the buffer no line is handed over. -/
def CountsFrom (tail : Bytes) (chunks : List Bytes) : Prop :=
  ∀ before chunk after, chunks = before ++ chunk :: after →
    Lines.kept newline tail before = [] → chunk.head? = some newline →
      NoneHanded (endedFrom [] (chunk :: after))

/--
No chunk that begins where a line does begins with a newline, unless no line is
handed over from there on.
-/
def CountsEveryLine (chunks : List Bytes) : Prop :=
  ∀ before chunk after, chunks = before ++ chunk :: after →
    (Lines.split newline before.flatten).tail = [] →
      chunk.head? = some newline → NoneHanded (endedFrom [] (chunk :: after))

theorem countsFrom_nil_iff (chunks : List Bytes) :
    CountsFrom [] chunks ↔ CountsEveryLine chunks := by
  have keeps (before : List Bytes) : Lines.kept newline [] before =
    (Lines.split newline before.flatten).tail := by
    rw [Lines.kept_eq newline (by rfl), nil_append]
  simp only [CountsFrom, CountsEveryLine, keeps]

theorem endedFrom_cons (tail chunk : Bytes) (rest : List Bytes) :
    endedFrom tail (chunk :: rest) = (Lines.split newline (tail ++ chunk)).ended ++
      endedFrom (keptTail tail chunk) rest := by
  rw [endedFrom, flatten_cons, ← append_assoc, Lines.split_append]
  rfl

theorem countsFrom_cons (tail chunk : Bytes) (rest : List Bytes) :
    CountsFrom tail (chunk :: rest) ↔ (tail = [] → chunk.head? = some newline →
      NoneHanded (endedFrom [] (chunk :: rest))) ∧ CountsFrom (keptTail tail chunk) rest := by
  constructor
  · intro counts
    constructor
    · intro empty begins
      exact counts [] chunk rest rfl (by simp [Lines.kept, empty]) begins
    · intro before next after split keeps begins
      exact counts (chunk :: before) next after (by rw [split]; rfl) keeps begins
  · rintro ⟨here, later⟩ before next after split keeps begins
    cases before with
    | nil =>
      rcases List.cons.inj split with ⟨rfl, rfl⟩
      exact here keeps begins
    | cons first before =>
      rcases List.cons.inj split with ⟨rfl, rfl⟩
      exact later before next after rfl keeps begins

theorem countsFrom_of_noneHanded {tail : Bytes} {chunks : List Bytes}
    (none : NoneHanded (endedFrom tail chunks)) : CountsFrom tail chunks := by
  induction chunks generalizing tail with
  | nil =>
    intro before chunk after split
    exact absurd split (by simp)
  | cons chunk rest induction =>
    rw [countsFrom_cons]
    constructor
    · rintro rfl -
      exact none
    · rw [endedFrom_cons, noneHanded_append] at none
      exact induction none.2

theorem thinned_countedLines (ended : List Bytes) :
    Thinned (BytraceParser.countedLines ended) ended := by
  unfold BytraceParser.countedLines
  split
  · exact .skip (.refl _)
  · exact .refl _

theorem thinned_countedFrom (tail : Bytes) (chunks : List Bytes)
    (unended : Lines.split newline tail = ⟨[], tail⟩) :
    Thinned (countedFrom tail chunks) (endedFrom tail chunks) := by
  induction chunks generalizing tail with
  | nil =>
    rw [endedFrom, flatten_nil, append_nil, unended]
    exact .nil
  | cons chunk rest induction =>
    rw [endedFrom_cons, countedFrom]
    exact (thinned_countedLines _).append (induction _ (Lines.split_tail newline _))

theorem begins_iff {tail : Bytes} (unended : Lines.split newline tail = ⟨[], tail⟩)
    (chunk : Bytes) : (∃ others, (Lines.split newline (tail ++ chunk)).ended = [] :: others) ↔
      tail = [] ∧ chunk.head? = some newline := by
  rw [Lines.ended_eq_nil_cons_iff]
  cases tail with
  | nil => simp
  | cons byte rest =>
    have other : byte ≠ newline := by
      rintro rfl
      simp at unended
    simp [other]

theorem numberedLines_countedFrom_iff (seq : Nat) (tail : Bytes) (chunks : List Bytes)
    (unended : Lines.split newline tail = ⟨[], tail⟩) :
    numberedLines seq (countedFrom tail chunks) = numberedLines seq (endedFrom tail chunks) ↔
      CountsFrom tail chunks := by
  induction chunks generalizing seq tail with
  | nil =>
    have counts : CountsFrom tail [] := by
      intro before chunk after split
      exact absurd split (by simp)
    rw [endedFrom, flatten_nil, append_nil, unended]
    simp [countedFrom, counts]
  | cons chunk rest induction =>
    have keeps := Lines.split_tail newline (tail ++ chunk)
    have later := induction (seq + (Lines.split newline (tail ++ chunk)).ended.length)
      (keptTail tail chunk) keeps
    have begins := begins_iff unended chunk
    rw [countsFrom_cons, countedFrom, endedFrom_cons]
    cases ended : (Lines.split newline (tail ++ chunk)).ended with
    | nil =>
      simp only [ended, reduceCtorEq, exists_const, false_iff, not_and]
        at begins
      rw [ended, length_nil, Nat.add_zero] at later
      simp only [BytraceParser.countedLines, nil_append, later]
      exact (and_iff_right fun empty first => absurd first (begins empty)).symm
    | cons line others =>
      by_cases skipped : line = []
      · subst skipped
        have begun := begins.1 ⟨others, ended⟩
        have whole : endedFrom [] (chunk :: rest) =
          [] :: (others ++ endedFrom (keptTail tail chunk) rest) := by
          have parts := endedFrom_cons tail chunk rest
          rw [ended, cons_append] at parts
          exact (congrArg (endedFrom · (chunk :: rest)) begun.1).symm.trans parts
        have thinned : Thinned (others ++ countedFrom (keptTail tail chunk) rest)
          (others ++ endedFrom (keptTail tail chunk) rest) :=
          (Thinned.refl others).append (thinned_countedFrom _ _ keeps)
        have shifted := thinned.numberedLines_eq_iff_of_lt (Nat.lt_succ_self seq)
        simp only [BytraceParser.countedLines, cons_append,
          numberedLines, numberedLine, isHanded_nil]
        simp only [Bool.false_eq_true, if_false, nil_append]
        rw [shifted, whole, noneHanded_nil_cons]
        constructor
        · intro none
          refine ⟨fun _ _ => none, countsFrom_of_noneHanded ?_⟩
          exact ((noneHanded_append _ _).1 none).2
        · rintro ⟨none, -⟩
          exact none begun.1 begun.2
      · have counted : BytraceParser.countedLines (line :: others) = line :: others := by
          cases line with
          | nil => exact absurd rfl skipped
          | cons byte bytes => rfl
        have notBegun : tail = [] → ¬ chunk.head? = some newline := by
          intro empty first
          rcases begins.2 ⟨empty, first⟩ with ⟨some, same⟩
          rw [ended] at same
          exact skipped (List.cons.inj same).1
        rw [counted, numberedLines_append, numberedLines_append,
          append_cancel_left_eq, ← ended, later]
        exact (and_iff_right fun empty first => absurd first (notBegun empty)).symm

/-! ## What the parser does with the lines -/

def lineCalls (parser : LineParser) (numbered : List (Bytes × Nat)) : List Call :=
  numbered.map fun line => .line parser line.1 line.2

theorem handedLines_lineCalls (parser : LineParser) (numbered : List (Bytes × Nat)) :
    handedLines (lineCalls parser numbered) = numbered := by
  simp [handedLines, lineCalls, filterMap_map]

namespace BytraceParser

/-- What the parser is after some lines of a text that is not HTML. -/
structure Advanced (parser next : BytraceParser) (raws : List Bytes) : Prop where
  plain : next.isHtmlTrace = false
  lineParser : next.lineParser = parser.lineParser
  seq : next.seq = parser.seq + raws.length
  calls : next.calls = parser.calls ++ lineCalls parser.lineParser (numberedLines parser.seq raws)
  first : next.isFirstLine = (parser.isFirstLine && raws.isEmpty)

variable {next : BytraceParser}

theorem Advanced.trans {parser middle : BytraceParser} {raws more : List Bytes}
    (before : Advanced parser middle raws) (after : Advanced middle next more) :
    Advanced parser next (raws ++ more) where
  plain := after.plain
  lineParser := after.lineParser.trans before.lineParser
  seq := by rw [after.seq, before.seq, length_append, Nat.add_assoc]
  calls := by
    rw [after.calls, before.calls, before.lineParser, before.seq,
      numberedLines_append, lineCalls, lineCalls, lineCalls, map_append,
      append_assoc]
  first := by
    rw [after.first, before.first]
    cases raws <;> simp

theorem Advanced.buffered {parser : BytraceParser} {raws : List Bytes}
    (advanced : Advanced parser next raws) (buffer rest : Bytes) :
    Advanced { parser with packagesBuffer := buffer } { next with packagesBuffer := rest } raws :=
  ⟨advanced.plain, advanced.lineParser, advanced.seq, advanced.calls, advanced.first⟩

variable (parser : BytraceParser)

theorem advanced_handLine (raw : Bytes) (plain : parser.isHtmlTrace = false)
    (handed : next = { parser with isFirstLine := false }.handLine (bufferLine raw)) :
    Advanced parser { next with seq := next.seq + 1 } [raw] := by
  have number : numberedLines parser.seq [raw] = numberedLine parser.seq raw := by
    simp [numberedLines]
  unfold handLine at handed
  by_cases comment : isTraceComment (bufferLine raw) = true
  · have unhanded : numberedLine parser.seq raw = [] := by
      simp [numberedLine, isHanded, comment]
    rw [unhanded] at number
    rw [if_pos comment] at handed
    subst handed
    exact ⟨plain, rfl, rfl, by simp [number, lineCalls], by simp⟩
  · rw [if_neg comment] at handed
    by_cases empty : bufferLine raw = []
    · have unhanded : numberedLine parser.seq raw = [] := by
        simp [numberedLine, isHanded, empty]
      rw [unhanded] at number
      rw [if_pos empty] at handed
      subst handed
      exact ⟨plain, rfl, rfl, by simp [number, lineCalls], by simp⟩
    · have listed : numberedLine parser.seq raw = [(bufferLine raw, parser.seq)] := by
        simp [numberedLine, isHanded, comment, empty]
      rw [listed] at number
      rw [if_neg empty] at handed
      subst handed
      refine ⟨plain, rfl, rfl, ?_, by simp⟩
      rw [number]
      rfl

theorem advanced_nextLine (raw : Bytes) (plain : parser.isHtmlTrace = false)
    (text : parser.isFirstLine = true → TextSegments.isHtmlTrace (bufferLine raw) = false) :
    Advanced parser (parser.nextLine raw) [raw] := by
  have noPage : (parser.isFirstLine && TextSegments.isHtmlTrace (bufferLine raw)) = false := by
    cases first : parser.isFirstLine with
    | false => rfl
    | true => exact text first
  apply advanced_handLine parser raw plain
  simp [takeLine, noPage, plain]

theorem advanced_run (raws : List Bytes) (plain : parser.isHtmlTrace = false)
    (text : parser.isFirstLine = true → ∀ raw, raws.head? = some raw →
      TextSegments.isHtmlTrace (bufferLine raw) = false) :
    Advanced parser (run nextLine parser raws) raws := by
  induction raws generalizing parser with
  | nil => exact ⟨plain, rfl, by simp, by simp [numberedLines, lineCalls], by simp⟩
  | cons raw rest induction =>
    have step := advanced_nextLine parser raw plain fun first => text first raw rfl
    have later :=
      induction (parser.nextLine raw) step.plain fun first => by
        rw [step.first] at first
        simp at first
    exact step.trans later

theorem advanced_parseTraceDataSegment (chunk : Bytes)
    (plain : parser.isHtmlTrace = false) (text : parser.isFirstLine = true → ∀ raw, (countedLines
      (Lines.split newline (parser.packagesBuffer ++ chunk)).ended).head? = some raw →
      TextSegments.isHtmlTrace (bufferLine raw) = false) :
    Advanced parser (parser.parseTraceDataSegment chunk) (countedLines
      (Lines.split newline (parser.packagesBuffer ++ chunk)).ended) :=
  (advanced_run parser _ plain text).buffered parser.packagesBuffer _

theorem advanced_chunks (chunks : List Bytes)
    (plain : parser.isHtmlTrace = false) (text : parser.isFirstLine = true →
      ∀ raw, (countedFrom parser.packagesBuffer chunks).head? = some raw →
        TextSegments.isHtmlTrace (bufferLine raw) = false) :
    Advanced parser (run parseTraceDataSegment parser chunks)
      (countedFrom parser.packagesBuffer chunks) := by
  induction chunks generalizing parser with
  | nil => exact ⟨plain, rfl, by simp [countedFrom],
    by simp [countedFrom, numberedLines, lineCalls], by simp [countedFrom]⟩
  | cons chunk rest induction =>
    have step := advanced_parseTraceDataSegment parser chunk plain
      fun first raw head => text first raw (by
        rw [countedFrom, head?_append, head, some_or])
    have later :=
      induction (parser.parseTraceDataSegment chunk) step.plain fun first raw head => by
        rw [step.first, Bool.and_eq_true, List.isEmpty_iff] at first
        apply text first.1 raw
        rw [countedFrom, first.2, nil_append]
        exact head
    exact step.trans later

end BytraceParser

theorem CutText.first_notHtml (cut : CutText) {raw : Bytes}
    (first : (countedFrom [] cut.chunks).head? = some raw) :
    isHtmlTrace (bufferLine raw) = false := by
  by_cases empty : raw = []
  · rw [empty]
    decide
  · apply cut.notHtml
    have thinned := thinned_countedFrom [] cut.chunks rfl
    rw [← head?_filter]
    have kept := thinned.filter_eq
    rw [endedFrom, nil_append] at kept
    rw [← kept]
    cases counted : countedFrom [] cut.chunks with
    | nil =>
      rw [counted] at first
      cases first
    | cons line others =>
      rw [counted, head?_cons, some.injEq] at first
      simp [first, empty]

theorem calls_eq (fileType : TraceFileType) (cut : CutText) :
    (run BytraceParser.parseTraceDataSegment (.new fileType) cut.chunks).calls =
      lineCalls (BytraceParser.new fileType).lineParser
        (numberedLines 1 (countedFrom [] cut.chunks)) := by
  have advanced :=
    BytraceParser.advanced_chunks (.new fileType) cut.chunks rfl
      fun _ raw first => cut.first_notHtml first
  exact advanced.calls

/-- The lines handed to `ParseHilogDataItem` with their numbers. -/
def hilogLines (cut : CutText) : List (Bytes × Nat) :=
  handedLines (run BytraceParser.parseTraceDataSegment (.new .hilog) cut.chunks).calls

theorem numberedLines_allLines (text : Bytes) :
    numberedLines 1 (allLines text) = numberedLines 1 (Lines.split newline text).ended ++
      numberedLine (1 + (Lines.split newline text).ended.length)
        (Lines.split newline text).tail := by
  rw [allLines, numberedLines_append, numberedLines, numberedLines, append_nil]

/--
The lines that newlines end are handed over with their numbers exactly when
every one of them is counted.  Where the text behind the last newline is to be
a line as well, it must also be none that is handed over.
-/
theorem hilogLines_eq_iff (cut : CutText) :
    (hilogLines cut = numberedLines 1 (Lines.split newline cut.text).ended ↔
      CountsEveryLine cut.chunks) ∧
      (hilogLines cut = numberedLines 1 (allLines cut.text) ↔ CountsEveryLine cut.chunks ∧
        isHanded (bufferLine (Lines.split newline cut.text).tail) = false) := by
  have handed : hilogLines cut = numberedLines 1 (countedFrom [] cut.chunks) := by
    rw [hilogLines, calls_eq, handedLines_lineCalls]
  have ended : (Lines.split newline cut.text).ended = endedFrom [] cut.chunks := by
    rw [endedFrom, nil_append, CutText.text]
  have thinned := thinned_countedFrom [] cut.chunks rfl
  have counts : hilogLines cut = numberedLines 1 (Lines.split newline cut.text).ended ↔
    CountsEveryLine cut.chunks := by
    rw [handed, ended, numberedLines_countedFrom_iff 1 [] cut.chunks rfl, countsFrom_nil_iff]
  refine ⟨counts, ?_⟩
  rw [numberedLines_allLines]
  constructor
  · intro same
    have sizes := congrArg (fun lines => (lines.map Prod.fst).length) same
    simp only [handed, map_append, map_fst_numberedLines,
      thinned.handed_eq, ended, length_append, length_map] at sizes
    have unhanded : numberedLine (1 + (Lines.split newline cut.text).ended.length)
      (Lines.split newline cut.text).tail = [] := by
      rw [← length_eq_zero_iff, ended]
      omega
    rw [unhanded, append_nil] at same
    exact ⟨counts.1 same, (numberedLine_eq_nil_iff _ _).1 unhanded⟩
  · rintro ⟨counted, unhanded⟩
    rw [(numberedLine_eq_nil_iff _ _).2 unhanded, append_nil]
    exact counts.2 counted

def emptyLineCut : CutText where
  chunks := [ascii "08-05 10:00:00.1 1 2 I t: a\n", ascii "\n08-05 10:00:00.2 1 2 I t: b\n"]
  notHtml := by
    intro raw found
    have first : (Lines.split newline [ascii "08-05 10:00:00.1 1 2 I t: a\n",
      ascii "\n08-05 10:00:00.2 1 2 I t: b\n"].flatten).ended.find? (· ≠ []) =
        some (ascii "08-05 10:00:00.1 1 2 I t: a") := by
      decide
    rw [first, some.injEq] at found
    rw [← found]
    decide

/-- The third line is handed over as the second. -/
theorem hilogLines_emptyLineCut :
    hilogLines emptyLineCut ≠ numberedLines 1 (allLines emptyLineCut.text) := by
  decide

/-- The lines handed over and the function each is handed to. -/
def takenLines (calls : List Call) : List (LineParser × Bytes) :=
  calls.filterMap fun call =>
    match call with
    | .line parser text _ => some (parser, text)
    | _ => none

def linesToHand (text : Bytes) : List Bytes := ((allLines text).map bufferLine).filter isHanded

/-- What is handed over once the end of the text has been announced. -/
def takenOf (fileType : TraceFileType) (cut : CutText) : List (LineParser × Bytes) :=
  takenLines (run BytraceParser.parseTraceDataSegment (.new fileType)
    cut.chunks).waitForParserEnd.calls

theorem takenOf_eq (fileType : TraceFileType) (cut : CutText) : takenOf fileType cut =
    (((Lines.split newline cut.text).ended.map bufferLine).filter isHanded).map
      (Prod.mk (BytraceParser.new fileType).lineParser) := by
  have ended : (Lines.split newline cut.text).ended = endedFrom [] cut.chunks := by
    rw [endedFrom, nil_append, CutText.text]
  have lines (parser : LineParser) (numbered : List (Bytes × Nat)) :
    takenLines (lineCalls parser numbered) = (numbered.map Prod.fst).map (Prod.mk parser) := by
    simp [takenLines, lineCalls, filterMap_map, Function.comp_def]
  have thinned := thinned_countedFrom [] cut.chunks rfl
  rw [takenOf, BytraceParser.waitForParserEnd, calls_eq]
  rw [takenLines, filterMap_append]
  change takenLines _ ++ [] = _
  rw [append_nil, lines, map_fst_numberedLines, thinned.handed_eq, ended]

/--
Every line of a text is handed over once and in order exactly when the text
behind the last newline is none that is to be handed over.
-/
theorem takenOf_eq_all_iff (fileType : TraceFileType) (cut : CutText) :
    takenOf fileType cut = (linesToHand cut.text).map
      (Prod.mk (BytraceParser.new fileType).lineParser) ↔
      isHanded (bufferLine (Lines.split newline cut.text).tail) = false := by
  rw [takenOf_eq, linesToHand, allLines, map_append, filter_append, map_append]
  constructor
  · intro same
    have sizes := congrArg List.length same
    simp only [length_append, length_map] at sizes
    by_contra handed
    simp [handed] at sizes
  · intro unhanded
    simp [unhanded]

def unendedText : CutText where
  chunks := [ascii "a-1 (1) [000] .... 1.000001: tracing_mark_write: E|1"]
  notHtml := by
    intro raw found
    have none : (Lines.split newline
      [ascii "a-1 (1) [000] .... 1.000001: tracing_mark_write: E|1"].flatten).ended =
      [] := by
      decide
    rw [none] at found
    cases found

/-- Nothing takes a last line that no newline ends. -/
theorem takenOf_unendedText : takenOf .byTrace unendedText ≠ (linesToHand unendedText.text).map
    (Prod.mk (BytraceParser.new .byTrace).lineParser) := by
  decide

end SysAnalyzer.Parser.TextSegments
