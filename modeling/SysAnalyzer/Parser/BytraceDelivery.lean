import SysAnalyzer.Parser.BytraceThreads

/-!
# Delivery of the text pipeline

`exited_` is set in three places, and each is right only where nothing is left
to hand over.  A run whose steps meet `SoundStep` keeps the invariant, and the
invariant gives the delivery of the lines.
-/

namespace SysAnalyzer.Parser

open Foundation List

namespace BytraceParser

section

variable {reader : LineReader} {lines : List String} {state : State}
  {written taken filtered : Nat} {pc pc' : FilterPc}

theorem handedTo_succ (handed : HandedTo reader lines state filtered) {line : String}
    (lineIs : lines[filtered]? = some line) : state.handed ++ (reader.parse line).toList =
      (lines.take (filtered + 1)).filterMap reader.parse := by
  rw [take_add_one, filterMap_append, lineIs, handed]
  refine congrArg (_ ++ ·) ?_
  cases parsed : reader.parse line with
  | none => simp [parsed]
  | some bufLine => simp [parsed]

section

variable (invariant : Invariant reader lines state written taken filtered)
include invariant

theorem Invariant.ready (isReady : (state.slot (filtered % maxSegArraySize)).status = .parsed ∨
    (state.slot (filtered % maxSegArraySize)).status = .invalid) :
    filtered < taken ∧ ∃ line, lines[filtered]? = some line ∧
      ((state.slot (filtered % maxSegArraySize)).status = .parsed → reader.parse line =
        some (state.slot (filtered % maxSegArraySize)).bufLine) ∧
      ((state.slot (filtered % maxSegArraySize)).status = .invalid →
        reader.parse line = none) := by
  have positive : 0 < maxSegArraySize := by decide
  have fits := invariant.ring filtered (le_refl _) (by omega)
  have takenLe := invariant.taken_le
  unfold Fits at fits
  change (state.dataSegArray (filtered % maxSegArraySize)).status = .parsed ∨
    (state.dataSegArray (filtered % maxSegArraySize)).status = .invalid
    at isReady
  split at fits
  · rw [fits] at isReady
    rcases isReady with isParsed | isInvalid
    · cases isParsed
    · cases isInvalid
  · rcases fits with ⟨lineIs, fits⟩
    split at fits
    · rw [fits] at isReady
      rcases isReady with isParsed | isInvalid
      · cases isParsed
      · cases isInvalid
    · refine ⟨by omega, _, lineIs, ?_, ?_⟩
      · intro isParsed
        change (state.dataSegArray (filtered % maxSegArraySize)).status = .parsed
          at isParsed
        rw [isParsed] at fits
        exact fits
      · intro isInvalid
        change (state.dataSegArray (filtered % maxSegArraySize)).status = .invalid
          at isInvalid
        rw [isInvalid] at fits
        exact fits

theorem Invariant.filter_move (isFilters : state.filters = [pc])
    {filterHead : Nat} {handed : List BytraceLine} {exited started : Bool} (ok :
      FilterOk reader lines { state with
          filterHead := filterHead
          handed := handed
          exited := exited
          filterThreadStarted := started
          filters := [pc'] }
        taken filtered pc')
    (exits : exited = true → NothingLeft reader lines filtered) :
    Invariant reader lines { state with
        filterHead := filterHead
        handed := handed
        exited := exited
        filterThreadStarted := started
        filters := [pc'] }
      written taken filtered := by
  have filtersOk := invariant.filtersOk
  unfold FiltersOk at filtersOk
  rw [isFilters] at filtersOk
  exact { invariant with
    readerOk :=
      invariant.readerOk.mono rfl rfl rfl rfl (fun _ => rfl) (fun _ => rfl)
        (le_refl _)
    parsersOk := fun other isMember =>
      (invariant.parsersOk other isMember).mono (fun _ _ => rfl)
        (fun place above below _ => ⟨above, below⟩)
        (fun quitting => ⟨quitting, id⟩) (le_refl _)
        (fun _ _ none => absurd (isFilters.symm.trans none) nofun)
    filtersOk := ⟨filtersOk.1, ok⟩
    starts := fun isNil => absurd isNil nofun
    exits := exits }

theorem Invariant.filter_free (isFilters : state.filters = [pc])
    (isStarted : state.filterThreadStarted = true)
    (head : state.filterHead = (filtered + 1) % maxSegArraySize) (lineDone :
      LineDone reader lines state taken filtered (filtered % maxSegArraySize))
    {segment : DataSegment} (isInit : segment.status = .init) : Invariant reader lines
      { state.setSlot (filtered % maxSegArraySize) segment with filters := [.loadHead] }
      written taken (filtered + 1) := by
  rcases lineDone with ⟨_, below, notParsing, handed⟩
  have takenLe := invariant.taken_le
  have room := invariant.room
  have filtersOk := invariant.filtersOk
  unfold FiltersOk at filtersOk
  rw [isFilters] at filtersOk
  exact { invariant with
    filtered_le := below
    room := by omega
    ring := by
      refine invariant.ring.release ?_ fun _ _ _ => id
      rw [Fits, if_pos room]
      exact isInit
    readerOk := by
      refine
        invariant.readerOk.mono rfl rfl rfl rfl (fun _ => rfl)
          (fun free => ?_) (Nat.le_succ _)
      exact
        state.slot_setSlot_of_ne segment
          (invariant.slot_ne free (le_refl _) below).symm
    parsersOk := by
      intro other isMember
      have atOther := invariant.parsersOk other isMember
      refine
        atOther.mono (fun otherHead otherToken => ?_)
          (fun place above isBelow otherToken => ⟨?_, isBelow⟩)
          (fun quitting => ⟨quitting, id⟩) (Nat.le_succ _)
          (fun _ _ none => by cases isFilters.symm.trans none)
      · refine state.slot_setSlot_of_ne segment ?_
        rintro rfl
        exact notParsing (WorksOn.of_token atOther otherToken).2
      · refine lt_of_le_of_ne above ?_
        rintro rfl
        exact notParsing (WorksOn.of_token atOther otherToken).2
    filtersOk := ⟨filtersOk.1, isStarted, head, handed⟩
    starts := fun isNil => absurd isNil nofun
    exits := fun exited => (invariant.exits exited).mono (Nat.le_succ _) }

end

theorem ParserOk.quitting {other : ParserPc} (ok : ParserOk reader lines state taken filtered other)
    (notCounted : other.counted = false) : Quitting lines state taken := by
  cases other with
  | loadCount => exact ok
  | loadNoFilter => exact ok.1
  | storeExited => exact ok.1
  | loadFilterStarted => exact ok
  | storeExitedToo => exact ok.1
  | returned => exact ok
  | _ => cases notCounted

theorem Invariant.nothingLeft_of_notReady
    (invariant : Invariant reader lines state written taken filtered)
    (isFilters : state.filters = [pc]) (countZero : state.parserThreadCount = 0)
    (notReady : (state.slot (filtered % maxSegArraySize)).status ≠ .parsed ∧
      (state.slot (filtered % maxSegArraySize)).status ≠ .invalid) :
    NothingLeft reader lines filtered := by
  have noneCounted : ∀ pc ∈ state.parsers, pc.counted = false := by
    have count := invariant.count
    rw [countZero] at count
    have none : state.parsers.countP ParserPc.counted = 0 := by omega
    intro pc member
    exact Bool.eq_false_iff.2 (countP_eq_zero.1 none pc member)
  have filtersOk := invariant.filtersOk
  unfold FiltersOk at filtersOk
  rw [isFilters] at filtersOk
  rcases exists_mem_of_ne_nil _ filtersOk.1 with ⟨some, isMember⟩
  have quitting := (invariant.parsersOk some isMember).quitting (noneCounted some isMember)
  have allTaken := quitting.2
  have takenLe := invariant.taken_le
  have positive : 0 < maxSegArraySize := by decide
  suffices lines.length ≤ filtered by
    rw [NothingLeft, drop_eq_nil_of_le this]
    rfl
  by_contra notAll
  have fits := invariant.ring filtered (le_refl _) (by omega)
  rw [Fits, if_neg (by omega), if_neg (by omega)] at fits
  have status := fits.2
  cases statusIs : (state.dataSegArray (filtered % maxSegArraySize)).status with
  | init => rw [statusIs] at status; exact status
  | seprated => rw [statusIs] at status; exact status
  | parsed => exact notReady.1 statusIs
  | invalid => exact notReady.2 statusIs
  | parsing =>
    rw [statusIs] at status
    rcases status with ⟨owner, isOwner, isToken⟩
    have notCounted := noneCounted owner isOwner
    cases owner with
    | parserData _ => cases notCounted
    | storeBufLine _ _ => cases notCounted
    | storeStatus _ _ _ => cases notCounted
    | _ => cases isToken

/-- A step of the filter thread that does not go wrong keeps the invariant. -/
theorem Invariant.filterStep (invariant : Invariant reader lines state written taken filtered)
    (isFilters : state.filters = [pc]) (sound : pc.Sound state) :
    ∃ filtered', Invariant reader lines { (filterStep state pc).1 with
          filters := [(filterStep state pc).2] }
        written taken filtered' := by
  have ok : FilterOk reader lines state taken filtered pc := by
    have filtersOk := invariant.filtersOk
    unfold FiltersOk at filtersOk
    rw [isFilters] at filtersOk
    exact filtersOk.2
  unfold BytraceParser.filterStep
  cases pc with
  | loadHead =>
    refine ⟨filtered, invariant.filter_move isFilters ?_ invariant.exits⟩
    exact ⟨ok.1, ok.2, ok.2.1⟩
  | loadInvalid head =>
    rcases ok with ⟨isStarted, between, rfl⟩
    dsimp only
    split
    · rename_i isInvalid
      rcases invariant.ready (.inr isInvalid) with
        ⟨below, line, lineIs, _, unparsed⟩
      refine ⟨filtered, invariant.filter_move isFilters ?_ invariant.exits⟩
      refine ⟨isStarted, between.1, rfl, below, ?_, ?_⟩
      · exact fun isParsing => absurd (isInvalid.symm.trans isParsing) nofun
      · have handed := handedTo_succ between.2 lineIs
        rw [unparsed isInvalid] at handed
        exact (append_nil _).symm.trans handed
    · refine ⟨filtered, invariant.filter_move isFilters ?_ invariant.exits⟩
      exact ⟨isStarted, between, rfl⟩
  | loadParsed head =>
    rcases ok with ⟨isStarted, between, rfl⟩
    dsimp only
    split
    · refine ⟨filtered, invariant.filter_move isFilters ?_ invariant.exits⟩
      exact ⟨isStarted, between, rfl⟩
    · rename_i isParsed
      rw [not_not] at isParsed
      refine ⟨filtered, invariant.filter_move isFilters ?_ invariant.exits⟩
      exact ⟨isStarted, between, rfl, (invariant.ready (.inl isParsed)).1, isParsed⟩
  | loadToExit head =>
    rcases ok with ⟨isStarted, between, headIs⟩
    dsimp only
    split
    · refine ⟨filtered, invariant.filter_move isFilters ?_ invariant.exits⟩
      exact ⟨isStarted, between, headIs, ‹_›⟩
    · refine ⟨filtered, invariant.filter_move isFilters ?_ invariant.exits⟩
      exact ⟨isStarted, between⟩
  | loadCount head =>
    rcases ok with ⟨isStarted, between, rfl, toExit⟩
    dsimp only
    split
    · rename_i countZero
      have nothing :=
        invariant.nothingLeft_of_notReady isFilters countZero (sound countZero)
      refine ⟨filtered, invariant.filter_move isFilters ?_ invariant.exits⟩
      exact ⟨isStarted, between, toExit, countZero, nothing⟩
    · refine ⟨filtered, invariant.filter_move isFilters ?_ invariant.exits⟩
      exact ⟨isStarted, between⟩
  | storeExited =>
    refine ⟨filtered, invariant.filter_move isFilters ?_ fun _ => ?_⟩
    · exact ok
    · exact ok.2.2.2.2
  | clearStarted =>
    refine ⟨filtered, invariant.filter_move isFilters ?_ invariant.exits⟩
    exact ⟨rfl, ok.2⟩
  | parseDataItem head =>
    rcases ok with ⟨isStarted, between, rfl, below, isParsed⟩
    rcases invariant.ready (.inl isParsed) with
      ⟨_, line, lineIs, parsed, _⟩
    refine ⟨filtered, invariant.filter_move isFilters ?_ invariant.exits⟩
    refine ⟨isStarted, between.1, rfl, below, ?_, ?_⟩
    · exact fun isParsing => absurd (isParsed.symm.trans isParsing) nofun
    · have handed := handedTo_succ between.2 lineIs
      rw [parsed isParsed] at handed
      exact handed
  | reloadHead head =>
    rcases ok with ⟨isStarted, headIs, lineDone⟩
    refine ⟨filtered, invariant.filter_move isFilters ?_ invariant.exits⟩
    refine ⟨isStarted, ?_, lineDone⟩
    rw [headIs, Nat.mod_add_mod]
  | storeHead head next =>
    refine ⟨filtered, invariant.filter_move isFilters ?_ invariant.exits⟩
    exact ok
  | storeInit head =>
    rcases ok with ⟨isStarted, headIs, lineDone⟩
    have headEq := lineDone.1
    subst headEq
    exact ⟨filtered + 1, invariant.filter_free isFilters isStarted headIs lineDone rfl⟩
  | returned =>
    refine ⟨filtered, invariant.filter_move isFilters ?_ invariant.exits⟩
    exact ok

end

theorem invariant_start (reader : LineReader) (lines : List String) :
    Invariant reader lines (start lines) 0 0 0 where
  filtered_le := le_refl _
  taken_le := le_refl _
  written_le := Nat.zero_le _
  room := Nat.zero_le _
  rawDataHead := rfl
  parseHead := rfl
  ring := fun place _ _ => by
    rw [Fits, if_pos (Nat.zero_le _)]
    rfl
  readerOk := ⟨rfl, rfl, fun _ => rfl⟩
  count := rfl
  parsersOk := fun pc member => absurd member not_mem_nil
  tokens := nodup_nil
  filtersOk := ⟨rfl, rfl⟩
  starts := fun _ _ _ _ below => absurd below (Nat.not_lt_zero _)
  exits := fun exited => absurd exited nofun

theorem parserStep_parsers (reader : LineReader) (state : State) (pc : ParserPc) :
    (parserStep reader state pc).1.parsers = state.parsers := by
  cases pc with
  | getNextSegment =>
    unfold parserStep getNextSegment
    dsimp only
    split
    · split
      · rfl
      · rfl
    · rfl
  | parserData head =>
    unfold parserStep
    dsimp only
    split
    · rfl
    · split
      · rfl
      · rfl
  | loadCount => unfold parserStep; dsimp only; split <;> rfl
  | loadNoFilter => unfold parserStep; dsimp only; split <;> rfl
  | loadFilterStarted => unfold parserStep; dsimp only; split <;> rfl
  | loadStarted => unfold parserStep; dsimp only; split <;> rfl
  | _ => rfl

theorem filterStep_filters (state : State) (pc : FilterPc) :
    (filterStep state pc).1.filters = state.filters := by
  cases pc with
  | loadInvalid head => unfold filterStep; dsimp only; split <;> rfl
  | loadParsed head => unfold filterStep; dsimp only; split <;> rfl
  | loadToExit head => unfold filterStep; dsimp only; split <;> rfl
  | loadCount head => unfold filterStep; dsimp only; split <;> rfl
  | _ => rfl

theorem invariant_step {reader : LineReader} {lines : List String} {state : State}
    (maxThread : Nat) (thread : Thread) (invariant : ∃ written taken filtered,
      Invariant reader lines state written taken filtered) (sound : SoundStep state thread) :
    ∃ written taken filtered, Invariant reader lines (step reader maxThread state thread) written
      taken filtered := by
  rcases invariant with ⟨written, taken, filtered, invariant⟩
  cases thread with
  | reader =>
    rcases invariant.readerStep maxThread with ⟨written', next⟩
    exact ⟨written', taken, filtered, next⟩
  | parser index =>
    unfold step
    dsimp only
    split
    · exact ⟨written, taken, filtered, invariant⟩
    · rename_i pc found
      rcases exists_split_of_getElem? found with ⟨before, after, split, set⟩
      rcases invariant.parserStep split (sound pc found) with
        ⟨taken', next⟩
      rw [parserStep_parsers, set]
      exact ⟨written, taken', filtered, next⟩
  | filter index =>
    unfold step
    dsimp only
    split
    · exact ⟨written, taken, filtered, invariant⟩
    · rename_i pc found
      have filtersOk := invariant.filtersOk
      unfold FiltersOk at filtersOk
      match isFilters : state.filters with
      | [] => rw [isFilters] at found; cases found
      | first :: second :: others =>
        rw [isFilters] at filtersOk
        exact filtersOk.elim
      | [single] =>
        have foundOnly := found
        rw [isFilters] at foundOnly
        rcases List.getElem?_eq_some_iff.1 foundOnly with ⟨below, rfl⟩
        have indexIs : index = 0 := by simpa using below
        subst indexIs
        rcases invariant.filterStep isFilters (sound single found) with
          ⟨filtered', next⟩
        rw [filterStep_filters, isFilters]
        exact ⟨written, taken, filtered', next⟩

/--
When `WaitForParserEnd` has left its loop, the lines that match were handed
over, once each and in the order of the file.
-/
def Delivered (reader : LineReader) (lines : List String) (state : State) : Prop :=
  state.reader = .left → state.handed.map some =
    (lines.filterMap reader.regexSearch).map reader.getDataSegAttr

theorem Invariant.delivered {reader : LineReader} {lines : List String} {state : State}
    {written taken filtered : Nat}
    (invariant : Invariant reader lines state written taken filtered) :
    Delivered reader lines state := by
  intro left
  have ok := invariant.readerOk
  unfold ReaderOk at ok
  rw [left] at ok
  have handed : ∀ count, filtered ≤ count → HandedTo reader lines state count →
    state.handed = lines.filterMap reader.parse := by
    intro count le upTo
    have nothing := ok.2.mono le
    unfold NothingLeft at nothing
    rw [upTo, ← append_nil (filterMap _ _), ← nothing, ← filterMap_append, take_append_drop]
  rw [← LineReader.map_filterMap_parse]
  refine congrArg (map some) ?_
  have filtersOk := invariant.filtersOk
  unfold FiltersOk at filtersOk
  split at filtersOk
  · exact handed filtered (le_refl _) filtersOk.2
  · rename_i pc _
    have atPc := filtersOk.2
    cases pc with
    | loadHead => exact handed _ (le_refl _) atPc.2.2
    | reloadHead _ => exact handed _ (Nat.le_succ _) atPc.2.2.2.2.2
    | storeHead _ _ => exact handed _ (Nat.le_succ _) atPc.2.2.2.2.2
    | storeInit _ => exact handed _ (Nat.le_succ _) atPc.2.2.2.2.2
    | _ => exact handed _ (le_refl _) atPc.2.1.2
  · exact filtersOk.elim

/--
In a run whose steps do not go wrong, every state reached delivers the lines.
-/
theorem delivered_of_soundSteps (reader : LineReader) (maxThread : Nat) (lines : List String)
    (schedule : List Thread) (sound :
      EachStep (step reader maxThread) SoundStep (start lines) schedule) :
    Delivered reader lines (reached reader maxThread lines schedule) := by
  have preserves : ∀ state thread, (∃ written taken filtered,
    Invariant reader lines state written taken filtered) →
    SoundStep state thread → ∃ written taken filtered,
      Invariant reader lines (step reader maxThread state thread) written taken filtered :=
    fun _ thread => invariant_step maxThread thread
  rcases run_invariant preserves ⟨0, 0, 0, invariant_start reader lines⟩
    sound with ⟨written, taken, filtered, invariant⟩
  exact invariant.delivered

def sampleLine : String := "sh-7 (7) [000] d... 1.5: print: B|7|x"

/-- What the pattern finds in `sampleLine`. -/
def sampleMatch : LineMatch where
  before := "sh"
  pidStr := "7"
  tGidStr := "7"
  cpuStr := "000"
  timeStr := "1.5"
  eventName := "print"
  after := " B|7|x"

/-- The library on `sampleLine`. -/
def sampleReader : LineReader where
  regexSearch line := if line = sampleLine then some sampleMatch else none
  strToTime text := if text = "1.5" then some 1500000000 else none
  pidDigits line found matched := by
    split at matched
    · cases matched
      exact ⟨by decide, all_eq_true.1 (by decide)⟩
    · cases matched
  cpuDigits line found matched := by
    split at matched
    · cases matched
      exact ⟨by decide, all_eq_true.1 (by decide)⟩
    · cases matched
  timeConverts line found matched := by
    split at matched
    · cases matched
      rfl
    · cases matched

def sampleLines : List String := [sampleLine, "#", sampleLine]

/-- The reader, two parser threads and the filter thread take turns. -/
def sampleSchedule : List Thread :=
  (replicate 48 [Thread.reader, .parser 0, .parser 1, .filter 0]).flatten

theorem delivered_of_soundSteps_sample :
    EachStep (step sampleReader 2) SoundStep (start sampleLines) sampleSchedule ∧
      (reached sampleReader 2 sampleLines sampleSchedule).reader = .left ∧
        Delivered sampleReader sampleLines
          (reached sampleReader 2 sampleLines sampleSchedule) := by
  have sound : EachStep (step sampleReader 2) SoundStep (start sampleLines) sampleSchedule := by
    decide +kernel
  exact ⟨sound, by decide +kernel,
    delivered_of_soundSteps sampleReader 2 sampleLines sampleSchedule sound⟩

def earlyExit : List Thread :=
  replicate 22 .reader ++ [.parser 0] ++ replicate 4 (.parser 1) ++ [.reader]

theorem not_delivered_earlyExit :
    ¬ Delivered sampleReader [sampleLine] (reached sampleReader 4 [sampleLine] earlyExit) := by
  intro delivered
  have left : (reached sampleReader 4 [sampleLine] earlyExit).reader = .left := by decide
  have none : (reached sampleReader 4 [sampleLine] earlyExit).handed = [] := by decide
  have handed := delivered left
  rw [none] at handed
  cases handed

end BytraceParser

end SysAnalyzer.Parser
