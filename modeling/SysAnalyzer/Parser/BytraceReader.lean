import SysAnalyzer.Parser.BytraceInvariant

/-!
# The reader of the text pipeline

The reader writes a line only to a slot that it has seen free, and no other
thread touches that slot meanwhile.
-/

namespace SysAnalyzer.Parser

open Foundation List

namespace BytraceParser

section

variable {reader : LineReader} {lines : List String} {state : State}
  {written taken filtered : Nat}

theorem Invariant.reader_move (invariant : Invariant reader lines state written taken filtered)
    {pc : ReaderPc} {rest : List String} {started : Bool}
    (spawning : pc.spawning = state.reader.spawning) (ok : ReaderOk reader lines { state with
      reader := pc, rest := rest, parseThreadStarted := started } written filtered) :
    Invariant reader lines { state with reader := pc, rest := rest, parseThreadStarted := started }
      written taken filtered :=
  { invariant with
    readerOk := ok
    count := invariant.count.trans (congrArg _ spawning.symm) }

theorem Fits.status_ne_init {parsers : List ParserPc} {place : Nat} {slot : DataSegment}
    (fits : Fits reader lines parsers written taken place slot)
    (below : place < written) : slot.status ≠ .init := by
  intro isInit
  rw [Fits, if_neg (Nat.not_le_of_lt below), isInit] at fits
  split at fits
  · exact absurd fits.2 nofun
  · exact fits.2

section

variable (invariant : Invariant reader lines state written taken filtered)
include invariant

theorem Invariant.room_of_init (isInit : (state.slot (written % maxSegArraySize)).status = .init) :
    written < filtered + maxSegArraySize := by
  have positive : 0 < maxSegArraySize := by decide
  refine lt_of_le_of_ne invariant.room fun isFull => ?_
  have fits := invariant.ring filtered (le_refl _) (by omega)
  refine fits.status_ne_init (by omega) ?_
  rw [isFull, Nat.add_mod_right] at isInit
  exact isInit

theorem Invariant.slot_ne (room : written < filtered + maxSegArraySize)
    {place : Nat} (above : filtered ≤ place) (below : place < taken) :
    place % maxSegArraySize ≠ written % maxSegArraySize := by
  intro sameSlot
  have takenLe := invariant.taken_le
  have same :=
    @ring_place_unique maxSegArraySize filtered written place
      (le_trans above (by omega)) room above (by omega) sameSlot
  omega

/-- The reader stores to the next free slot. -/
theorem Invariant.reader_store (room : written < filtered + maxSegArraySize)
    {segment : DataSegment} {pc : ReaderPc} {written' : Nat}
    (le : written ≤ written') (next : written' ≤ written + 1)
    (inLines : written' ≤ lines.length) (fits :
      Fits reader lines state.parsers written' taken written segment)
    (spawning : pc.spawning = state.reader.spawning) (ok : ReaderOk reader lines
      { state.setSlot (written % maxSegArraySize) segment with
        rawDataHead := written' % maxSegArraySize, reader := pc } written' filtered) :
    Invariant reader lines { state.setSlot (written % maxSegArraySize) segment with
      rawDataHead := written' % maxSegArraySize, reader := pc } written' taken filtered := by
  have takenLe := invariant.taken_le
  have filteredLe := invariant.filtered_le
  have sameSlot : ∀ place, filtered ≤ place → place < taken →
    (state.setSlot (written % maxSegArraySize) segment).slot (place % maxSegArraySize) =
      state.slot (place % maxSegArraySize) :=
    fun place above below => state.slot_setSlot_of_ne segment (invariant.slot_ne room above below)
  exact
    { filtered_le := filteredLe
      taken_le := le_trans takenLe le
      written_le := inLines
      room := by omega
      rawDataHead := rfl
      parseHead := invariant.parseHead
      ring := by
        refine
          invariant.ring.store (le_trans filteredLe takenLe) room fits ?_
        intro other slot _ ne _ atOther
        unfold Fits at atOther ⊢
        by_cases behind : written ≤ other
        · rw [if_pos behind] at atOther
          rwa [if_pos (by omega)]
        · rw [if_neg behind] at atOther
          rwa [if_neg (by omega)]
      readerOk := ok
      count := invariant.count.trans (congrArg _ spawning.symm)
      parsersOk := by
        intro pc member
        refine
          (invariant.parsersOk pc member).mono ?_
            (fun place above below _ => ⟨above, below⟩)
            (fun quitting => ⟨quitting, id⟩) (le_refl _)
            (fun _ started none => ⟨started, none⟩)
        intro head token
        have atPc := invariant.parsersOk pc member
        have worksOn : WorksOn state taken filtered head := by
          cases pc with
          | parserData _ => cases token; exact atPc
          | storeBufLine _ _ => cases token; exact atPc.1
          | storeStatus _ _ _ => cases token; exact atPc.1
          | _ => cases token
        rcases worksOn with ⟨⟨place, above, below, rfl⟩, _⟩
        exact sameSlot place above below
      tokens := invariant.tokens
      filtersOk :=
        invariant.filtersOk.mono rfl id (fun _ => rfl) rfl rfl
          (fun below _ => sameSlot filtered (le_refl _) below)
          (le_refl _) id (fun _ => id)
      starts := by
        intro noFilter notStarted place above below isParsed
        refine invariant.starts noFilter notStarted place above below ?_
        rw [← sameSlot place above below]
        exact isParsed
      exits := invariant.exits }

theorem Invariant.reader_spawn {tmp : Nat} (atPc : state.reader = .spawnParser tmp) :
    Invariant reader lines
      { state with
        parsers := state.parsers ++ [.getNextSegment]
        reader := .loadCount tmp }
      written taken filtered := by
  have ok := invariant.readerOk
  simp only [ReaderOk, atPc] at ok
  have member : ∀ pc ∈ state.parsers, pc ∈ state.parsers ++ [ParserPc.getNextSegment] :=
    fun pc isMember => mem_append_left _ isMember
  exact
    { invariant with
      ring :=
        invariant.ring.imp fun place slot _ fits =>
          fits.mono fun pc isMember token => ⟨pc, member pc isMember, token⟩
      readerOk := ok
      count := by
        have count := invariant.count
        rw [atPc] at count
        simp only [countP_append]
        exact count
      parsersOk := by
        intro pc isMember
        rcases mem_append.1 isMember with old | new
        · exact
            (invariant.parsersOk pc old).mono (fun _ _ => rfl)
              (fun place above below _ => ⟨above, below⟩)
              (fun quitting => ⟨quitting, id⟩) (le_refl _)
              (fun _ started none => ⟨started, none⟩)
        · rw [mem_singleton.1 new]
          trivial
      tokens := by
        rw [filterMap_append]
        exact (append_nil _).symm ▸ invariant.tokens
      filtersOk :=
        invariant.filtersOk.mono rfl
          (fun _ => append_ne_nil_of_right_ne_nil _ nofun)
          (fun _ => rfl) rfl rfl (fun _ _ => rfl) (le_refl _) id
          (fun _ => id)
      starts := by
        intro noFilter notStarted place above below isParsed
        rcases invariant.starts noFilter notStarted place above below isParsed
          with ⟨pc, isMember, starting⟩
        exact ⟨pc, member pc isMember, starting⟩ }

theorem Invariant.reader_count {tmp loaded : Nat} (atPc : state.reader = .storeCount tmp loaded) :
    Invariant reader lines
      { state with
        parserThreadCount := loaded + 1
        reader := .spawnParser tmp }
      written taken filtered := by
  have ok := invariant.readerOk
  simp only [ReaderOk, atPc] at ok
  rcases ok with ⟨rest, notToExit, started, loadedIs⟩
  have stays : state.toExit ≠ true := by rw [notToExit]; exact nofun
  exact
    { invariant with
      readerOk := ⟨rest, notToExit, started⟩
      count := by
        have count := invariant.count
        rw [atPc] at count
        exact congrArg (· + 1) (loadedIs.trans count)
      parsersOk := fun pc member =>
        (invariant.parsersOk pc member).mono (fun _ _ => rfl)
          (fun place above below _ => ⟨above, below⟩)
          (fun quitting => absurd quitting.1 stays) (le_refl _)
          (fun _ isStarted none => ⟨isStarted, none⟩)
      filtersOk :=
        invariant.filtersOk.mono rfl id (fun _ => rfl) rfl rfl
          (fun _ _ => rfl) (le_refl _) id
          (fun toExit => absurd toExit stays) }

theorem Invariant.reader_toExit (atPc : state.reader = .storeToExit) :
    Invariant reader lines { state with toExit := true, reader := .loadExited }
      written taken filtered := by
  have ok := invariant.readerOk
  simp only [ReaderOk, atPc] at ok
  have stays : state.toExit ≠ true := by rw [ok.2]; exact nofun
  exact
    { invariant with
      readerOk := ok.1
      count := by
        have count := invariant.count
        rw [atPc] at count
        exact count
      parsersOk := fun pc member =>
        (invariant.parsersOk pc member).mono (fun _ _ => rfl)
          (fun place above below _ => ⟨above, below⟩)
          (fun quitting => absurd quitting.1 stays) (le_refl _)
          (fun _ isStarted none => ⟨isStarted, none⟩)
      filtersOk :=
        invariant.filtersOk.mono rfl id (fun _ => rfl) rfl rfl
          (fun _ _ => rfl) (le_refl _) (fun _ => rfl)
          (fun toExit => absurd toExit stays) }

/-- Every step of the reader keeps the invariant. -/
theorem Invariant.readerStep (maxThread : Nat) :
    ∃ written', Invariant reader lines (readerStep maxThread state) written' taken filtered := by
  have ok := invariant.readerOk
  have head := invariant.rawDataHead
  unfold ReaderOk at ok
  unfold BytraceParser.readerStep
  cases atPc : state.reader with
  | nextLine =>
    rw [atPc] at ok
    cases restIs : state.rest with
    | nil =>
      refine ⟨written, invariant.reader_move (by rw [atPc]; rfl) ?_⟩
      rw [restIs, drop_eq_nil_iff] at ok
      exact ⟨le_antisymm invariant.written_le ok.1, ok.2⟩
    | cons buffer rest =>
      refine ⟨written, invariant.reader_move (by rw [atPc]; rfl) ?_⟩
      rw [restIs] at ok
      exact ⟨ok.1, ok.2.1⟩
  | loadToExit buffer =>
    rw [atPc] at ok
    dsimp only
    rw [if_neg (Bool.eq_false_iff.1 ok.2)]
    refine ⟨written, invariant.reader_move (by rw [atPc]; rfl) ?_⟩
    exact ok
  | loadStatus buffer =>
    rw [atPc] at ok
    dsimp only
    split
    · refine ⟨written, invariant.reader_move (by rw [atPc]; rfl) ?_⟩
      exact ok
    · rename_i isInit
      refine ⟨written, invariant.reader_move (by rw [atPc]; rfl) ?_⟩
      rw [not_not, head] at isInit
      exact ⟨ok.1, ok.2, invariant.room_of_init isInit⟩
  | storeSeg buffer =>
    rw [atPc] at ok
    rcases ok with ⟨rest, notToExit, room⟩
    have free := invariant.ring written (le_trans invariant.filtered_le invariant.taken_le) room
    rw [Fits, if_pos (le_refl _)] at free
    have next : Invariant reader lines
      { state.setSlot (written % maxSegArraySize)
          { state.slot (written % maxSegArraySize) with
            seg := buffer } with
        rawDataHead := written % maxSegArraySize
        reader := .storeStatus }
      written taken filtered := by
      refine invariant.reader_store room (Nat.le_refl _) (Nat.le_succ _)
        invariant.written_le ?_ (by rw [atPc]; rfl) ?_
      · rw [Fits, if_pos (le_refl _)]
        exact free
      · refine ⟨?_, notToExit, room⟩
        have stored := state.slot_setSlot (written % maxSegArraySize)
          { state.slot (written % maxSegArraySize) with seg := buffer }
        exact rest.trans (congrArg (·.seg :: state.rest) stored.symm)
    rw [← head] at next
    exact ⟨written, next⟩
  | storeStatus =>
    rw [atPc] at ok
    rcases ok with ⟨rest, notToExit, room⟩
    have inLines : written < lines.length := by
      rw [← not_le, ← drop_eq_nil_iff, rest]
      exact nofun
    have restIs : lines.drop (written + 1) = state.rest := by
      rw [← drop_drop, rest]
      rfl
    have lineIs : lines[written]? = some (state.slot (written % maxSegArraySize)).seg := by
      rw [← add_zero written, ← getElem?_drop, rest]
      rfl
    have next : Invariant reader lines
        { state.setSlot (written % maxSegArraySize)
            { state.slot (written % maxSegArraySize) with
              status := .seprated } with
          rawDataHead := (written + 1) % maxSegArraySize
          reader := .startThreads }
        (written + 1) taken filtered := by
      refine invariant.reader_store room (Nat.le_succ _) (Nat.le_refl _) inLines
        ?_ (by rw [atPc]; rfl) ⟨restIs, notToExit⟩
      rw [Fits, if_neg (Nat.not_succ_le_self _), if_pos invariant.taken_le]
      exact ⟨lineIs, rfl⟩
    rw [← Nat.mod_add_mod, ← head] at next
    exact ⟨written + 1, next⟩
  | startThreads =>
    rw [atPc] at ok
    dsimp only
    split
    · rename_i started
      refine ⟨written, invariant.reader_move (by rw [atPc]; rfl) ?_⟩
      refine ⟨ok.1, ok.2, fun notStarted => ?_⟩
      rw [started] at notStarted
      cases notStarted
    · refine ⟨written, invariant.reader_move (by rw [atPc]; rfl) ?_⟩
      exact ⟨ok.1, ok.2, rfl⟩
  | loadCount tmp =>
    rw [atPc] at ok
    cases tmp with
    | zero =>
      refine ⟨written, invariant.reader_move (by rw [atPc]; rfl) ?_⟩
      refine ⟨ok.1, ok.2.1, fun notStarted => ?_⟩
      rw [ok.2.2] at notStarted
      cases notStarted
    | succ tmp =>
      refine ⟨written, invariant.reader_move (by rw [atPc]; rfl) ?_⟩
      exact ⟨ok.1, ok.2.1, ok.2.2, rfl⟩
  | storeCount tmp loaded => exact ⟨written, invariant.reader_count atPc⟩
  | spawnParser tmp => exact ⟨written, invariant.reader_spawn atPc⟩
  | loadStarted =>
    rw [atPc] at ok
    dsimp only
    split
    · refine ⟨written, invariant.reader_move (by rw [atPc]; rfl) ?_⟩
      exact ⟨ok.1, ok.2.1⟩
    · rename_i notStarted
      rw [not_or, Bool.not_eq_true] at notStarted
      have noLines : lines = [] := by
        rw [← length_eq_zero_iff, ← ok.1]
        exact ok.2.2 notStarted.1
      refine ⟨written, invariant.reader_move (by rw [atPc]; rfl) ?_⟩
      exact ⟨ok.1, by rw [noLines]; simp [NothingLeft]⟩
  | storeToExit => exact ⟨written, invariant.reader_toExit atPc⟩
  | loadExited =>
    rw [atPc] at ok
    dsimp only
    split
    · rename_i exited
      refine ⟨written, invariant.reader_move (by rw [atPc]; rfl) ?_⟩
      exact ⟨ok, invariant.exits exited⟩
    · exact ⟨written, invariant⟩
  | left => exact ⟨written, invariant⟩

end

end

end BytraceParser

end SysAnalyzer.Parser
