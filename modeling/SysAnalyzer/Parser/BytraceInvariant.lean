import SysAnalyzer.Foundation.SlotRing
import SysAnalyzer.Parser.BytraceParser

/-!
# The invariant of the text pipeline

Three counters explain a state: the lines written to the ring, the lines taken
by a parser thread and the lines that the filter thread is through with.  The
places between them hold lines that wait, lines that are parsed and free slots.
The counters are not in the state; `Invariant` is about a state and some
counters.
-/

namespace SysAnalyzer.Parser

open Foundation List Option

theorem isSpace_of_isDigit {char : Char} (isDigit : char.isDigit = true) :
    isSpace char = false := by
  simp only [Char.isDigit, Bool.and_eq_true, decide_eq_true_eq] at isDigit
  simp only [isSpace, Char.isWhitespace, Bool.or_eq_false_iff, beq_eq_false_iff_ne,
    ne_eq, decide_eq_false_iff_not]
  refine ⟨⟨⟨⟨⟨?_, ?_⟩, ?_⟩, ?_⟩, ?_⟩, ?_⟩
  all_goals
    rintro rfl
    exact absurd isDigit.1 (by decide)

theorem strToInt_isSome {text : String} (digits : IsDigits text) : (strToInt text).isSome := by
  rcases digits with ⟨nonempty, all⟩
  cases chars : text.toList with
  | nil => exact absurd (String.toList_eq_nil_iff.1 chars) nonempty
  | cons first rest =>
    rw [chars] at all
    have firstDigit := all first mem_cons_self
    have noSpace : (first :: rest).dropWhile isSpace = first :: rest :=
      dropWhile_cons_of_neg (by simp [isSpace_of_isDigit firstDigit])
    have noSign : splitSign (first :: rest) = (false, first :: rest) := by
      unfold splitSign
      split
      · rename_i others isMinus
        rw [(List.cons.inj isMinus).1] at firstDigit
        cases firstDigit
      · rename_i others isPlus
        rw [(List.cons.inj isPlus).1] at firstDigit
        cases firstDigit
      · rfl
    have digitsIs : (first :: rest).takeWhile Char.isDigit = first :: rest :=
      takeWhile_eq_self_iff.2 all
    have restIs : (first :: rest).dropWhile Char.isDigit = [] := dropWhile_eq_nil_iff.2 all
    unfold strToInt
    rw [chars, noSpace, noSign]
    dsimp only
    rw [digitsIs, restIs, if_neg (by simp)]
    rfl

namespace LineReader

theorem getDataSegAttr_isSome {reader : LineReader} {line : String} {found : LineMatch}
    (matched : reader.regexSearch line = some found) : (reader.getDataSegAttr found).isSome := by
  rcases isSome_iff_exists.1
    (strToInt_isSome (reader.pidDigits line found matched)) with ⟨pid, pidIs⟩
  rcases isSome_iff_exists.1
    (strToInt_isSome (reader.cpuDigits line found matched)) with ⟨cpu, cpuIs⟩
  rcases isSome_iff_exists.1 (reader.timeConverts line found matched) with ⟨time, timeIs⟩
  simp [getDataSegAttr, pidIs, cpuIs, timeIs]

theorem map_filterMap_parse (reader : LineReader) (lines : List String) :
    (lines.filterMap reader.parse).map some =
      (lines.filterMap reader.regexSearch).map reader.getDataSegAttr := by
  induction lines with
  | nil => rfl
  | cons line lines induction =>
    cases matched : reader.regexSearch line with
    | none =>
      have noLine : reader.parse line = none := by simp [parse, matched]
      rw [filterMap_cons_none noLine, filterMap_cons_none matched, induction]
    | some found =>
      rcases isSome_iff_exists.1 (getDataSegAttr_isSome matched) with ⟨bufLine, converted⟩
      have parsed : reader.parse line = some bufLine := by simp [parse, matched, converted]
      rw [filterMap_cons_some parsed, filterMap_cons_some matched, map_cons, map_cons,
        induction, converted]

end LineReader

namespace BytraceParser

/-! ## What the threads have -/

/-- What at most one parser thread has at a time. -/
inductive Token where
  | slot (head : Nat)
  | filter

/-- The slot a parser thread works on, or the filter thread it has to start. -/
def ParserPc.token : ParserPc → Option Token
  | .parserData head => some (.slot head)
  | .storeBufLine head _ => some (.slot head)
  | .storeStatus head _ _ => some (.slot head)
  | .spawnFilter => some .filter
  | _ => none

/-- A parser thread that `parserThreadCount_` counts. -/
def ParserPc.counted : ParserPc → Bool
  | .loadCount => false
  | .loadNoFilter => false
  | .storeExited => false
  | .loadFilterStarted => false
  | .storeExitedToo => false
  | .returned => false
  | _ => true

/-- A parser thread that is about to see whether a filter thread is started. -/
def ParserPc.starting : ParserPc → Bool
  | .loadStarted => true
  | .storeStarted => true
  | _ => false

/-- The threads counted before they are spawned. -/
def ReaderPc.spawning : ReaderPc → Nat
  | .spawnParser _ => 1
  | _ => 0

section

variable (reader : LineReader) (lines : List String)

/-- What is in the slot of a place, `written` and `taken` lines being so far. -/
def Fits (parsers : List ParserPc) (written taken place : Nat) (slot : DataSegment) : Prop :=
  if written ≤ place then slot.status = .init
  else
    lines[place]? = some slot.seg ∧ if taken ≤ place then slot.status = .seprated else
      match slot.status with
      | .parsing => ∃ pc ∈ parsers, pc.token = some (.slot (place % maxSegArraySize))
      | .parsed => reader.parse slot.seg = some slot.bufLine
      | .invalid => reader.parse slot.seg = none
      | _ => False

/-- The matched lines among the first `count` are handed over. -/
def HandedTo (state : State) (count : Nat) : Prop :=
  state.handed = (lines.take count).filterMap reader.parse

/-- No line from place `count` on is to be handed over. -/
def NothingLeft (count : Nat) : Prop := (lines.drop count).filterMap reader.parse = []

def ReaderOk (state : State) (written filtered : Nat) : Prop :=
  match state.reader with
  | .nextLine =>
    lines.drop written = state.rest ∧ state.toExit = false ∧
      (state.parseThreadStarted = false → written = 0)
  | .loadToExit buffer => lines.drop written = buffer :: state.rest ∧ state.toExit = false
  | .loadStatus buffer => lines.drop written = buffer :: state.rest ∧ state.toExit = false
  | .storeSeg buffer =>
    lines.drop written = buffer :: state.rest ∧ state.toExit = false ∧
      written < filtered + maxSegArraySize
  | .storeStatus =>
    lines.drop written = (state.slot (written % maxSegArraySize)).seg :: state.rest ∧
      state.toExit = false ∧ written < filtered + maxSegArraySize
  | .startThreads => lines.drop written = state.rest ∧ state.toExit = false
  | .loadCount _ =>
    lines.drop written = state.rest ∧ state.toExit = false ∧ state.parseThreadStarted = true
  | .storeCount _ loaded =>
    lines.drop written = state.rest ∧ state.toExit = false ∧
      state.parseThreadStarted = true ∧ loaded = state.parserThreadCount
  | .spawnParser _ =>
    lines.drop written = state.rest ∧ state.toExit = false ∧ state.parseThreadStarted = true
  | .loadStarted =>
    written = lines.length ∧ state.toExit = false ∧ (state.parseThreadStarted = false → written = 0)
  | .storeToExit => written = lines.length ∧ state.toExit = false
  | .loadExited => written = lines.length
  | .left => written = lines.length ∧ NothingLeft reader lines filtered

/-- `toExit_` is set and every line was taken. -/
def Quitting (state : State) (taken : Nat) : Prop := state.toExit = true ∧ taken = lines.length

/-- The place whose slot a parser thread works on. -/
def WorksOn (state : State) (taken filtered head : Nat) : Prop :=
  (∃ place, filtered ≤ place ∧ place < taken ∧ place % maxSegArraySize = head) ∧
    (state.slot head).status = .parsing

def ParserOk (state : State) (taken filtered : Nat) : ParserPc → Prop
  | .getNextSegment => True
  | .loadCount => Quitting lines state taken
  | .loadNoFilter => Quitting lines state taken ∧ state.parserThreadCount = 0
  | .storeExited => Quitting lines state taken ∧ NothingLeft reader lines filtered
  | .loadFilterStarted => Quitting lines state taken
  | .storeExitedToo => Quitting lines state taken ∧ NothingLeft reader lines filtered
  | .parserData head => WorksOn state taken filtered head
  | .storeBufLine head bufLine =>
    WorksOn state taken filtered head ∧ reader.parse (state.slot head).seg = some bufLine
  | .storeStatus head status hasMatch =>
    WorksOn state taken filtered head ∧ ((status = .parsed ∧ hasMatch = true ∧
      reader.parse (state.slot head).seg = some (state.slot head).bufLine) ∨
      (status = .invalid ∧ reader.parse (state.slot head).seg = none))
  | .loadStarted => True
  | .storeStarted => True
  | .spawnFilter => state.filterThreadStarted = true ∧ state.filters = []
  | .returned => Quitting lines state taken

def BetweenLines (state : State) (filtered : Nat) : Prop :=
  state.filterHead = filtered % maxSegArraySize ∧ HandedTo reader lines state filtered

/-- The filter thread is through with a line whose slot is not free yet. -/
def LineDone (state : State) (taken filtered head : Nat) : Prop :=
  head = filtered % maxSegArraySize ∧ filtered < taken ∧ (state.slot head).status ≠ .parsing ∧
    HandedTo reader lines state (filtered + 1)

/-- No parser thread is counted and nothing is left. -/
def Finished (state : State) (filtered : Nat) : Prop :=
  state.toExit = true ∧ state.parserThreadCount = 0 ∧ NothingLeft reader lines filtered

def FilterOk (state : State) (taken filtered : Nat) : FilterPc → Prop
  | .loadHead => state.filterThreadStarted = true ∧ BetweenLines reader lines state filtered
  | .loadInvalid head =>
    state.filterThreadStarted = true ∧ BetweenLines reader lines state filtered ∧
      head = filtered % maxSegArraySize
  | .loadParsed head =>
    state.filterThreadStarted = true ∧ BetweenLines reader lines state filtered ∧
      head = filtered % maxSegArraySize
  | .loadToExit head =>
    state.filterThreadStarted = true ∧ BetweenLines reader lines state filtered ∧
      head = filtered % maxSegArraySize
  | .loadCount head =>
    state.filterThreadStarted = true ∧ BetweenLines reader lines state filtered ∧
      head = filtered % maxSegArraySize ∧ state.toExit = true
  | .storeExited =>
    state.filterThreadStarted = true ∧ BetweenLines reader lines state filtered ∧
      Finished reader lines state filtered
  | .clearStarted =>
    state.filterThreadStarted = true ∧ BetweenLines reader lines state filtered ∧
      Finished reader lines state filtered
  | .parseDataItem head =>
    state.filterThreadStarted = true ∧ BetweenLines reader lines state filtered ∧
      head = filtered % maxSegArraySize ∧ filtered < taken ∧ (state.slot head).status = .parsed
  | .reloadHead head =>
    state.filterThreadStarted = true ∧ state.filterHead = filtered % maxSegArraySize ∧
      LineDone reader lines state taken filtered head
  | .storeHead head next =>
    state.filterThreadStarted = true ∧ next = (filtered + 1) % maxSegArraySize ∧
      LineDone reader lines state taken filtered head
  | .storeInit head =>
    state.filterThreadStarted = true ∧ state.filterHead = (filtered + 1) % maxSegArraySize ∧
      LineDone reader lines state taken filtered head
  | .returned =>
    state.filterThreadStarted = false ∧ BetweenLines reader lines state filtered ∧
      Finished reader lines state filtered

/-- At most one filter thread was started. -/
def FiltersOk (state : State) (taken filtered : Nat) : Prop :=
  match state.filters with
  | [] => BetweenLines reader lines state filtered
  | [pc] => state.parsers ≠ [] ∧ FilterOk reader lines state taken filtered pc
  | _ => False

/-- What holds between the steps, with the counters of the lines. -/
structure Invariant (state : State) (written taken filtered : Nat) : Prop where
  filtered_le : filtered ≤ taken
  taken_le : taken ≤ written
  written_le : written ≤ lines.length
  room : written ≤ filtered + maxSegArraySize
  rawDataHead : state.rawDataHead = written % maxSegArraySize
  parseHead : state.parseHead = taken % maxSegArraySize
  ring : RingHolds maxSegArraySize state.dataSegArray filtered
    (Fits reader lines state.parsers written taken)
  readerOk : ReaderOk reader lines state written filtered
  count : state.parserThreadCount = state.parsers.countP ParserPc.counted + state.reader.spawning
  parsersOk : ∀ pc ∈ state.parsers, ParserOk reader lines state taken filtered pc
  tokens : (state.parsers.filterMap ParserPc.token).Nodup
  filtersOk : FiltersOk reader lines state taken filtered
  starts : state.filters = [] → state.filterThreadStarted = false →
    ∀ place, filtered ≤ place → place < taken →
      (state.slot (place % maxSegArraySize)).status = .parsed →
        ∃ pc ∈ state.parsers, pc.starting = true
  exits : state.exited = true → NothingLeft reader lines filtered

end

namespace State

theorem slot_setSlot (state : State) (head : Nat) (segment : DataSegment) :
    (state.setSlot head segment).slot head = segment :=
  Function.update_self ..

theorem slot_setSlot_of_ne (state : State) {head other : Nat} (segment : DataSegment)
    (ne : other ≠ head) : (state.setSlot head segment).slot other = state.slot other :=
  Function.update_of_ne ne ..

end State

theorem NothingLeft.mono {reader : LineReader} {lines : List String} {count later : Nat}
    (nothing : NothingLeft reader lines count) (le : count ≤ later) :
    NothingLeft reader lines later := by
  unfold NothingLeft at nothing ⊢
  rw [filterMap_eq_nil_iff] at nothing ⊢
  intro line member
  refine nothing line ?_
  rw [← Nat.add_sub_cancel' le, ← drop_drop] at member
  exact mem_of_mem_drop member

theorem Fits.mono {reader : LineReader} {lines : List String}
    {parsers parsers' : List ParserPc} {written taken place : Nat} {slot : DataSegment}
    (fits : Fits reader lines parsers written taken place slot) (tokens :
      ∀ pc ∈ parsers, pc.token = some (.slot (place % maxSegArraySize)) →
        ∃ pc ∈ parsers', pc.token = some (.slot (place % maxSegArraySize))) :
    Fits reader lines parsers' written taken place slot := by
  unfold Fits at fits ⊢
  split
  · rwa [if_pos ‹_›] at fits
  · rw [if_neg ‹_›] at fits
    refine ⟨fits.1, ?_⟩
    have status := fits.2
    split
    · rwa [if_pos ‹_›] at status
    · rw [if_neg ‹_›] at status
      cases statusIs : slot.status with
      | parsing =>
        rw [statusIs] at status
        rcases status with ⟨pc, member, token⟩
        exact tokens pc member token
      | parsed => rwa [statusIs] at status
      | invalid => rwa [statusIs] at status
      | init => rwa [statusIs] at status
      | seprated => rwa [statusIs] at status

section

variable {reader : LineReader} {lines : List String} {state state' : State}
  {written taken filtered taken' filtered' : Nat}

theorem ParserOk.mono {pc : ParserPc} (ok : ParserOk reader lines state taken filtered pc) (slots :
    ∀ head, pc.token = some (.slot head) → state'.slot head = state.slot head) (places :
    ∀ place, filtered ≤ place → place < taken →
      pc.token = some (.slot (place % maxSegArraySize)) →
        filtered' ≤ place ∧ place < taken') (quits :
    Quitting lines state taken → Quitting lines state' taken' ∧
      (state.parserThreadCount = 0 → state'.parserThreadCount = 0))
    (le : filtered ≤ filtered') (spawns : pc.token = some .filter →
      state.filterThreadStarted = true → state.filters = [] →
        state'.filterThreadStarted = true ∧ state'.filters = []) :
    ParserOk reader lines state' taken' filtered' pc := by
  have worksOn : ∀ head, pc.token = some (.slot head) → WorksOn state taken filtered head →
    WorksOn state' taken' filtered' head := by
    rintro head token ⟨⟨place, above, below, rfl⟩, parsing⟩
    refine ⟨⟨place, ?_, ?_, rfl⟩, ?_⟩
    · exact (places place above below token).1
    · exact (places place above below token).2
    · rwa [slots _ token]
  cases pc with
  | getNextSegment => trivial
  | loadCount => exact (quits ok).1
  | loadNoFilter => exact ⟨(quits ok.1).1, (quits ok.1).2 ok.2⟩
  | storeExited => exact ⟨(quits ok.1).1, ok.2.mono le⟩
  | loadFilterStarted => exact (quits ok).1
  | storeExitedToo => exact ⟨(quits ok.1).1, ok.2.mono le⟩
  | parserData head => exact worksOn head rfl ok
  | storeBufLine head bufLine =>
    refine ⟨worksOn head rfl ok.1, ?_⟩
    rw [slots head rfl]
    exact ok.2
  | storeStatus head status hasMatch =>
    refine ⟨worksOn head rfl ok.1, ?_⟩
    rw [slots head rfl]
    exact ok.2
  | loadStarted => trivial
  | storeStarted => trivial
  | spawnFilter => exact spawns rfl ok.1 ok.2
  | returned => exact (quits ok).1

theorem FilterOk.mono {pc : FilterPc} (ok : FilterOk reader lines state taken filtered pc)
    (started : state'.filterThreadStarted = state.filterThreadStarted)
    (filterHead : state'.filterHead = state.filterHead)
    (handed : state'.handed = state.handed) (slot : filtered < taken →
      (state.slot (filtered % maxSegArraySize)).status ≠ .parsing →
        state'.slot (filtered % maxSegArraySize) =
          state.slot (filtered % maxSegArraySize)) (le : taken ≤ taken')
    (toExit : state.toExit = true → state'.toExit = true) (count : state.toExit = true →
      state.parserThreadCount = 0 → state'.parserThreadCount = 0) :
    FilterOk reader lines state' taken' filtered pc := by
  have between : BetweenLines reader lines state filtered →
    BetweenLines reader lines state' filtered := by
    unfold BetweenLines HandedTo
    rw [filterHead, handed]
    exact id
  have finished : Finished reader lines state filtered → Finished reader lines state' filtered :=
    fun done => ⟨toExit done.1, count done.1 done.2.1, done.2.2⟩
  have lineDone : ∀ head, LineDone reader lines state taken filtered head →
    LineDone reader lines state' taken' filtered head := by
    rintro head ⟨rfl, below, notParsing, upTo⟩
    refine ⟨rfl, lt_of_lt_of_le below le, ?_, ?_⟩
    · rwa [slot below notParsing]
    · unfold HandedTo
      rw [handed]
      exact upTo
  cases pc with
  | loadHead => exact ⟨started.trans ok.1, between ok.2⟩
  | loadInvalid head => exact ⟨started.trans ok.1, between ok.2.1, ok.2.2⟩
  | loadParsed head => exact ⟨started.trans ok.1, between ok.2.1, ok.2.2⟩
  | loadToExit head => exact ⟨started.trans ok.1, between ok.2.1, ok.2.2⟩
  | loadCount head => exact ⟨started.trans ok.1, between ok.2.1, ok.2.2.1, toExit ok.2.2.2⟩
  | storeExited => exact ⟨started.trans ok.1, between ok.2.1, finished ok.2.2⟩
  | clearStarted => exact ⟨started.trans ok.1, between ok.2.1, finished ok.2.2⟩
  | parseDataItem head =>
    rcases ok with ⟨isStarted, isBetween, rfl, below, isParsed⟩
    refine ⟨started.trans isStarted, between isBetween, rfl, lt_of_lt_of_le below le, ?_⟩
    have same := slot below (by rw [isParsed]; exact nofun)
    rwa [same]
  | reloadHead head => exact ⟨started.trans ok.1, filterHead.trans ok.2.1, lineDone head ok.2.2⟩
  | storeHead head next => exact ⟨started.trans ok.1, ok.2.1, lineDone head ok.2.2⟩
  | storeInit head => exact ⟨started.trans ok.1, filterHead.trans ok.2.1, lineDone head ok.2.2⟩
  | returned => exact ⟨started.trans ok.1, between ok.2.1, finished ok.2.2⟩

theorem ReaderOk.mono (ok : ReaderOk reader lines state written filtered)
    (pc : state'.reader = state.reader) (rest : state'.rest = state.rest)
    (toExit : state'.toExit = state.toExit)
    (started : state'.parseThreadStarted = state.parseThreadStarted) (count : state.toExit = false →
      state'.parserThreadCount = state.parserThreadCount) (slot :
      written < filtered + maxSegArraySize → state'.slot (written % maxSegArraySize) =
        state.slot (written % maxSegArraySize)) (le : filtered ≤ filtered') :
    ReaderOk reader lines state' written filtered' := by
  unfold ReaderOk at ok ⊢
  rw [pc, rest, toExit, started]
  cases atPc : state.reader with
  | storeSeg buffer =>
    rw [atPc] at ok
    exact ⟨ok.1, ok.2.1, by have room := ok.2.2; omega⟩
  | storeStatus =>
    rw [atPc] at ok
    rcases ok with ⟨restIs, notToExit, room⟩
    dsimp only
    rw [slot room]
    exact ⟨restIs, notToExit, by omega⟩
  | storeCount tmp loaded =>
    rw [atPc] at ok
    exact ⟨ok.1, ok.2.1, ok.2.2.1, ok.2.2.2.trans (count ok.2.1).symm⟩
  | left =>
    rw [atPc] at ok
    exact ⟨ok.1, ok.2.mono le⟩
  | _ =>
    rw [atPc] at ok
    exact ok

theorem FiltersOk.mono (ok : FiltersOk reader lines state taken filtered)
    (filters : state'.filters = state.filters)
    (parsers : state.parsers ≠ [] → state'.parsers ≠ []) (started : state.filters ≠ [] →
      state'.filterThreadStarted = state.filterThreadStarted)
    (filterHead : state'.filterHead = state.filterHead)
    (handed : state'.handed = state.handed) (slot : filtered < taken →
      (state.slot (filtered % maxSegArraySize)).status ≠ .parsing →
        state'.slot (filtered % maxSegArraySize) =
          state.slot (filtered % maxSegArraySize)) (le : taken ≤ taken')
    (toExit : state.toExit = true → state'.toExit = true) (count : state.toExit = true →
      state.parserThreadCount = 0 → state'.parserThreadCount = 0) :
    FiltersOk reader lines state' taken' filtered := by
  unfold FiltersOk at ok ⊢
  rw [filters]
  match isFilters : state.filters with
  | [] =>
    rw [isFilters] at ok
    unfold BetweenLines HandedTo
    rw [filterHead, handed]
    exact ok
  | [pc] =>
    rw [isFilters] at ok
    have nonempty : state.filters ≠ [] := by rw [isFilters]; exact nofun
    exact ⟨parsers ok.1, ok.2.mono (started nonempty) filterHead handed slot le toExit count⟩
  | first :: second :: others =>
    rw [isFilters] at ok
    exact ok.elim

end

end BytraceParser

end SysAnalyzer.Parser
