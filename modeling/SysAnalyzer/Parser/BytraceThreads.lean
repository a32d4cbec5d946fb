import SysAnalyzer.Parser.BytraceReader

/-!
# The parser threads of the text pipeline

A parser thread stores to the slot whose line it has taken, and no two threads
have taken one line.  A step goes right where it meets `Sound`.
-/

namespace SysAnalyzer.Parser

open Foundation List Option

namespace BytraceParser

/--
The places where a parser thread may go wrong: it takes a missing filter thread
for the end although another parser thread still works, or it starts a filter
thread although another one has just been started.
-/
def ParserPc.Sound (state : State) : ParserPc → Prop
  | .loadFilterStarted => state.filterThreadStarted = false → state.parserThreadCount = 0
  | .storeStarted => state.filterThreadStarted = false
  | _ => True

/--
The place where the filter thread may go wrong: when it sees that no parser
thread is left, its slot has become ready since it looked.
-/
def FilterPc.Sound (state : State) : FilterPc → Prop
  | .loadCount head =>
    state.parserThreadCount = 0 → (state.slot head).status ≠ .parsed ∧
      (state.slot head).status ≠ .invalid
  | _ => True

/-- A step that does not go wrong. -/
def SoundStep (state : State) : Thread → Prop
  | .reader => True
  | .parser index => ∀ pc ∈ state.parsers[index]?, pc.Sound state
  | .filter index => ∀ pc ∈ state.filters[index]?, pc.Sound state

instance (state : State) (pc : ParserPc) : Decidable (pc.Sound state) :=
  match pc with
  | .loadFilterStarted => inferInstanceAs (Decidable (_ → _))
  | .storeStarted => inferInstanceAs (Decidable (_ = _))
  | .getNextSegment | .loadCount | .loadNoFilter | .storeExited
  | .storeExitedToo | .parserData _ | .storeBufLine _ _
  | .storeStatus _ _ _ | .loadStarted | .spawnFilter | .returned => isTrue trivial

instance (state : State) (pc : FilterPc) : Decidable (pc.Sound state) :=
  match pc with
  | .loadCount _ => inferInstanceAs (Decidable (_ → _ ∧ _))
  | .loadHead | .loadInvalid _ | .loadParsed _ | .loadToExit _
  | .storeExited | .clearStarted | .parseDataItem _ | .reloadHead _
  | .storeHead _ _ | .storeInit _ | .returned => isTrue trivial

instance (state : State) (thread : Thread) : Decidable (SoundStep state thread) :=
  match thread with
  | .reader => isTrue trivial
  | .parser index => inferInstanceAs (Decidable (∀ pc ∈ state.parsers[index]?, _))
  | .filter index => inferInstanceAs (Decidable (∀ pc ∈ state.filters[index]?, _))

/-! ## The steps of the parser threads -/

theorem exists_split_of_getElem? {Item : Type} {items : List Item} {index : Nat} {item : Item}
    (found : items[index]? = some item) : ∃ before after, items = before ++ item :: after ∧
      ∀ other, items.set index other = before ++ other :: after := by
  induction items generalizing index with
  | nil => simp at found
  | cons first items induction =>
    cases index with
    | zero =>
      simp only [getElem?_cons_zero, some.injEq] at found
      subst found
      exact ⟨[], items, rfl, fun _ => rfl⟩
    | succ index =>
      rcases induction found with ⟨before, after, rfl, set⟩
      refine ⟨first :: before, after, rfl, fun other => ?_⟩
      rw [set_cons_succ, set]
      rfl

section

variable {before after : List ParserPc} {pc pc' : ParserPc} {token : Token}

theorem mem_split {other : ParserPc} :
    other ∈ before ++ pc :: after ↔ other = pc ∨ other ∈ before ++ after := by
  simp only [mem_append, mem_cons]
  tauto

theorem mem_of_other {parsers : List ParserPc} (split : parsers = before ++ pc :: after)
    {other : ParserPc} (isOther : other ∈ before ++ after) : other ∈ parsers := by
  rw [split]
  exact mem_split.2 (.inr isOther)

section

variable (tokens : ((before ++ pc :: after).filterMap ParserPc.token).Nodup)
include tokens

theorem other_token (isToken : pc.token = some token)
    {other : ParserPc} (member : other ∈ before ++ after) : other.token ≠ some token := by
  intro otherToken
  rw [filterMap_append, filterMap_cons_some isToken, nodup_middle, ← filterMap_append] at tokens
  exact (nodup_cons.1 tokens).1 (mem_filterMap.2 ⟨other, member, otherToken⟩)

theorem tokens_split (keeps : pc'.token = pc.token ∨ pc'.token = none) :
    ((before ++ pc' :: after).filterMap ParserPc.token).Nodup := by
  rw [filterMap_append] at tokens ⊢
  rcases keeps with same | gives
  · simp only [filterMap_cons, same] at tokens ⊢
    exact tokens
  · rw [filterMap_cons_none gives]
    refine tokens.sublist (List.Sublist.append (List.Sublist.refl _) ?_)
    rw [filterMap_cons]
    split
    · exact List.Sublist.refl _
    · exact sublist_cons_self _ _

theorem tokens_take (had : pc.token = none) (isToken : pc'.token = some token)
    (free : ∀ other ∈ before ++ after, other.token ≠ some token) :
    ((before ++ pc' :: after).filterMap ParserPc.token).Nodup := by
  rw [filterMap_append, filterMap_cons_none had, ← filterMap_append] at tokens
  rw [filterMap_append, filterMap_cons_some isToken, nodup_middle, ← filterMap_append]
  refine nodup_cons.2 ⟨fun member => ?_, tokens⟩
  rcases mem_filterMap.1 member with ⟨other, isOther, otherToken⟩
  exact free other isOther otherToken

end

theorem countP_split :
    (before ++ pc :: after).countP ParserPc.counted = (before ++ after).countP ParserPc.counted +
      if pc.counted then 1 else 0 := by
  simp only [countP_append, countP_cons]
  omega

theorem exists_token_of_other {holder : ParserPc} (member : holder ∈ before ++ pc :: after)
    (isToken : holder.token = some token) (keeps : pc.token = some token → pc'.token = some token) :
    ∃ found ∈ before ++ pc' :: after, found.token = some token := by
  rcases mem_split.1 member with rfl | other
  · exact ⟨pc', mem_split.2 (.inl rfl), keeps isToken⟩
  · exact ⟨holder, mem_split.2 (.inr other), isToken⟩

end

section

variable {reader : LineReader} {lines : List String} {state : State}
  {written taken filtered : Nat} {before after : List ParserPc}
  {pc pc' : ParserPc}

theorem WorksOn.of_token (ok : ParserOk reader lines state taken filtered pc) {head : Nat}
    (isToken : pc.token = some (.slot head)) : WorksOn state taken filtered head := by
  cases pc with
  | parserData _ => cases isToken; exact ok
  | storeBufLine _ _ => cases isToken; exact ok.1
  | storeStatus _ _ _ => cases isToken; exact ok.1
  | _ => cases isToken

section

variable (invariant : Invariant reader lines state written taken filtered)
include invariant

theorem Invariant.parser_move (split : state.parsers = before ++ pc :: after) {exited : Bool}
    (token : pc'.token = pc.token) (counted : pc'.counted = pc.counted)
    (ok : ParserOk reader lines state taken filtered pc') (starts : pc.starting = true →
      pc'.starting = true ∨ state.filterThreadStarted = true)
    (exits : exited = true → NothingLeft reader lines filtered) :
    Invariant reader lines { state with exited := exited, parsers := before ++ pc' :: after }
      written taken filtered :=
  { invariant with
    ring :=
      invariant.ring.imp fun place slot _ fits =>
        fits.mono fun found member isToken => by
          rw [split] at member
          exact exists_token_of_other member isToken (token.trans ·)
    readerOk :=
      invariant.readerOk.mono rfl rfl rfl rfl (fun _ => rfl) (fun _ => rfl)
        (le_refl _)
    count := by
      have count := invariant.count
      rw [split, countP_split, ← counted, ← countP_split] at count
      exact count
    parsersOk := by
      intro other member
      have unchanged :
        ParserOk reader lines state taken filtered other := by
        rcases mem_split.1 member with rfl | isOther
        · exact ok
        · exact invariant.parsersOk other (mem_of_other split isOther)
      exact
        unchanged.mono (fun _ _ => rfl)
          (fun place above below _ => ⟨above, below⟩)
          (fun quitting => ⟨quitting, id⟩) (le_refl _)
          (fun _ isStarted none => ⟨isStarted, none⟩)
    tokens := tokens_split (split ▸ invariant.tokens) (.inl token)
    filtersOk :=
      invariant.filtersOk.mono rfl (fun _ => by simp) (fun _ => rfl) rfl rfl
        (fun _ _ => rfl) (le_refl _) id (fun _ => id)
    starts := by
      intro noFilter notStarted place above below isParsed
      rcases invariant.starts noFilter notStarted place above below isParsed
        with ⟨found, member, starting⟩
      rw [split] at member
      rcases mem_split.1 member with rfl | isOther
      · rcases starts starting with stillStarting | isStarted
        · exact ⟨pc', mem_split.2 (.inl rfl), stillStarting⟩
        · exact absurd (isStarted.symm.trans notStarted) nofun
      · exact ⟨found, mem_split.2 (.inr isOther), starting⟩
    exits := exits }

/-- A parser thread stores to the slot of its line. -/
theorem Invariant.parser_store (split : state.parsers = before ++ pc :: after)
    {head : Nat} {segment : DataSegment} (isToken : pc.token = some (.slot head))
    (token : pc'.token = pc.token ∨ pc'.token = none)
    (counted : pc'.counted = true) (fits : ∀ place, place % maxSegArraySize = head →
      Fits reader lines state.parsers written taken place (state.slot head) → place < taken →
        Fits reader lines (before ++ pc' :: after) written taken place segment) (ok :
      WorksOn state taken filtered head → ParserOk reader lines { state.setSlot head segment with
        parsers := before ++ pc' :: after } taken filtered pc')
    (starts : segment.status = .parsed → pc'.starting = true) :
    Invariant reader lines { state.setSlot head segment with parsers := before ++ pc' :: after }
      written taken filtered := by
  have member : pc ∈ state.parsers := by
    rw [split]
    exact mem_split.2 (.inl rfl)
  have tokens := split ▸ invariant.tokens
  have works := WorksOn.of_token (invariant.parsersOk pc member) isToken
  rcases works with ⟨⟨place, above, below, rfl⟩, isParsing⟩
  have inWindow : place < filtered + maxSegArraySize := by
    have takenLe := invariant.taken_le
    have room := invariant.room
    omega
  exact { invariant with
    ring := by
      refine invariant.ring.store above inWindow ?_ ?_
      · exact
          fits place rfl (invariant.ring place above inWindow) below
      · intro other slot _ _ otherSlot atOther
        refine atOther.mono fun found isMember foundToken => ?_
        rw [split] at isMember
        refine exists_token_of_other isMember foundToken fun pcToken => ?_
        rw [isToken, some.injEq, Token.slot.injEq] at pcToken
        exact absurd pcToken.symm otherSlot
    readerOk := by
      refine
        invariant.readerOk.mono rfl rfl rfl rfl (fun _ => rfl)
          (fun room => ?_) (le_refl _)
      exact
        state.slot_setSlot_of_ne segment
          (invariant.slot_ne room above below).symm
    count := by
      have count := invariant.count
      have pcCounted : pc.counted = pc'.counted := by
        rw [counted]
        cases pc with
        | parserData _ => rfl
        | storeBufLine _ _ => rfl
        | storeStatus _ _ _ => rfl
        | _ => cases isToken
      rw [split, countP_split, pcCounted, ← countP_split] at count
      exact count
    parsersOk := by
      intro other isMember
      rcases mem_split.1 isMember with rfl | isOther
      · exact ok ⟨⟨place, above, below, rfl⟩, isParsing⟩
      · have inParsers := mem_of_other split isOther
        refine
          (invariant.parsersOk other inParsers).mono
            (fun otherHead otherToken => ?_)
            (fun _ isAbove isBelow _ => ⟨isAbove, isBelow⟩)
            (fun quitting => ⟨quitting, id⟩) (le_refl _)
            (fun _ isStarted none => ⟨isStarted, none⟩)
        refine state.slot_setSlot_of_ne segment ?_
        rintro rfl
        exact other_token tokens isToken isOther otherToken
    tokens := tokens_split tokens token
    filtersOk := by
      refine
        invariant.filtersOk.mono rfl (fun _ => by simp) (fun _ => rfl) rfl
          rfl (fun _ notParsing => ?_) (le_refl _) id (fun _ => id)
      refine state.slot_setSlot_of_ne segment ?_
      intro same
      rw [same] at notParsing
      exact notParsing isParsing
    starts := by
      intro noFilter notStarted other otherAbove otherBelow isParsed
      by_cases same :
        other % maxSegArraySize = place % maxSegArraySize
      · have stored :=
          state.slot_setSlot (place % maxSegArraySize) segment
        have statusIs : segment.status = .parsed := by
          rw [same] at isParsed
          exact stored ▸ isParsed
        exact ⟨pc', mem_split.2 (.inl rfl), starts statusIs⟩
      · have stored := state.slot_setSlot_of_ne segment same
        have statusIs :
          (state.slot (other % maxSegArraySize)).status = .parsed :=
          stored ▸ isParsed
        rcases invariant.starts noFilter notStarted other otherAbove
          otherBelow statusIs with ⟨found, isMember, starting⟩
        rw [split] at isMember
        rcases mem_split.1 isMember with rfl | isOther
        · cases found with
          | loadStarted => cases isToken
          | storeStarted => cases isToken
          | _ => cases starting
        · exact ⟨found, mem_split.2 (.inr isOther), starting⟩ }

theorem Invariant.taken_lt (isSeprated :
    (state.slot (taken % maxSegArraySize)).status = .seprated) : taken < written := by
  have positive : 0 < maxSegArraySize := by decide
  refine lt_of_le_of_ne invariant.taken_le fun same => ?_
  by_cases room : written < filtered + maxSegArraySize
  · have fits := invariant.ring taken invariant.filtered_le (by omega)
    rw [Fits, if_pos (le_of_eq same.symm)] at fits
    cases isSeprated.symm.trans fits
  · have isFull : taken = filtered + maxSegArraySize := by
      have := invariant.room
      omega
    have fits := invariant.ring filtered (le_refl _) (by omega)
    rw [isFull, Nat.add_mod_right] at isSeprated
    have statusIs : (state.dataSegArray (filtered % maxSegArraySize)).status = .seprated :=
      isSeprated
    rw [Fits, if_neg (by omega), if_neg (by omega), statusIs] at fits
    exact fits.2

theorem Invariant.written_eq (toExit : state.toExit = true) : written = lines.length := by
  have ok := invariant.readerOk
  unfold ReaderOk at ok
  split at ok
  all_goals first
    | exact ok
    | exact ok.1
    | exact absurd (toExit.symm.trans ok.2) nofun
    | exact absurd (toExit.symm.trans ok.2.1) nofun

/-- A parser thread takes the next line. -/
theorem Invariant.parser_take
    (split : state.parsers = before ++ .getNextSegment :: after) (isSeprated :
      (state.slot (taken % maxSegArraySize)).status = .seprated) :
    Invariant reader lines { state.setSlot (taken % maxSegArraySize)
      { state.slot (taken % maxSegArraySize) with status := .parsing } with
      parseHead := (taken + 1) % maxSegArraySize
      parsers := before ++ .parserData (taken % maxSegArraySize) :: after }
      written (taken + 1) filtered := by
  have takenLt := invariant.taken_lt isSeprated
  have room := invariant.room
  have filteredLe := invariant.filtered_le
  have inWindow : taken < filtered + maxSegArraySize := by omega
  have tokens := split ▸ invariant.tokens
  have ne : ∀ place, filtered ≤ place → place < taken →
    place % maxSegArraySize ≠ taken % maxSegArraySize := by
    intro place above below sameSlot
    have same := ring_place_unique filteredLe inWindow above (by omega) sameSlot
    omega
  have free : ∀ other ∈ before ++ after, other.token ≠ some (.slot (taken % maxSegArraySize)) := by
    intro other isOther otherToken
    have inParsers := mem_of_other split isOther
    rcases WorksOn.of_token (invariant.parsersOk other inParsers) otherToken
      with ⟨_, isParsing⟩
    exact absurd (isSeprated.symm.trans isParsing) nofun
  exact { invariant with
    filtered_le := Nat.le_succ_of_le filteredLe
    taken_le := takenLt
    parseHead := rfl
    ring := by
      refine invariant.ring.store filteredLe inWindow ?_ ?_
      · have fits := invariant.ring taken filteredLe inWindow
        rw [Fits, if_neg (by omega)] at fits
        rw [Fits, if_neg (by omega), if_neg (by omega)]
        refine ⟨fits.1, ?_⟩
        exact
          ⟨.parserData (taken % maxSegArraySize), mem_split.2 (.inl rfl),
            rfl⟩
      · intro other slot _ ne otherSlot atOther
        have moved :
          Fits reader lines
            (before ++ .parserData (taken % maxSegArraySize) :: after)
            written taken other slot := by
          refine atOther.mono fun found isMember foundToken => ?_
          rw [split] at isMember
          exact exists_token_of_other isMember foundToken (by rintro ⟨⟩)
        unfold Fits at moved ⊢
        split at moved
        · rwa [if_pos ‹_›]
        · rw [if_neg ‹_›]
          refine ⟨moved.1, ?_⟩
          have status := moved.2
          split at status
          · rwa [if_pos (by omega)]
          · rwa [if_neg (by omega)]
    readerOk := by
      refine
        invariant.readerOk.mono rfl rfl rfl rfl (fun _ => rfl)
          (fun free => ?_) (le_refl _)
      refine state.slot_setSlot_of_ne _ fun sameSlot => ?_
      have same := ring_place_unique filteredLe inWindow (by omega) free sameSlot
      omega
    count := by
      have count := invariant.count
      rw [split, countP_split] at count
      have now :
        (before ++ ParserPc.parserData (taken % maxSegArraySize) ::
          after).countP ParserPc.counted =
          (before ++ after).countP ParserPc.counted + 1 :=
        countP_split
      exact count.trans (congrArg (· + _) now.symm)
    parsersOk := by
      intro other isMember
      rcases mem_split.1 isMember with rfl | isOther
      · refine ⟨⟨taken, filteredLe, Nat.lt_succ_self _, rfl⟩, ?_⟩
        exact
          congrArg DataSegment.status
            (state.slot_setSlot (taken % maxSegArraySize) _)
      · have inParsers := mem_of_other split isOther
        refine
          (invariant.parsersOk other inParsers).mono
            (fun otherHead otherToken => ?_)
            (fun _ isAbove isBelow _ => ⟨isAbove, Nat.lt_succ_of_lt isBelow⟩)
            (fun quitting => ?_) (le_refl _)
            (fun _ isStarted none => ⟨isStarted, none⟩)
        · refine state.slot_setSlot_of_ne _ ?_
          rintro rfl
          exact free other isOther otherToken
        · have inLines := invariant.written_le
          have takenIs := quitting.2
          omega
    tokens := tokens_take tokens rfl rfl free
    filtersOk := by
      refine
        invariant.filtersOk.mono rfl (fun _ => by simp) (fun _ => rfl) rfl
          rfl (fun below _ => ?_) (Nat.le_succ _) id (fun _ => id)
      exact
        state.slot_setSlot_of_ne _ (ne filtered (le_refl _) below)
    starts := by
      intro noFilter notStarted place above below isParsed
      by_cases isTaken : place = taken
      · subst isTaken
        have stored := state.slot_setSlot (place % maxSegArraySize)
          { state.slot (place % maxSegArraySize) with status := .parsing }
        have statusIs := (congrArg DataSegment.status stored).symm.trans isParsed
        cases statusIs
      · have stored := state.slot_setSlot_of_ne
          { state.slot (taken % maxSegArraySize) with status := .parsing }
          (ne place above (by omega))
        have statusIs :
          (state.slot (place % maxSegArraySize)).status = .parsed :=
          (congrArg DataSegment.status stored).symm.trans isParsed
        rcases invariant.starts noFilter notStarted place above (by omega)
          statusIs with ⟨found, isMember, starting⟩
        rw [split] at isMember
        rcases mem_split.1 isMember with rfl | isOther
        · cases starting
        · exact ⟨found, mem_split.2 (.inr isOther), starting⟩ }

/-- A parser thread finds no line left, and ends. -/
theorem Invariant.parser_exit
    (split : state.parsers = before ++ .getNextSegment :: after) (notSeprated :
      (state.slot (taken % maxSegArraySize)).status ≠ .seprated) (toExit : state.toExit = true) :
    Invariant reader lines { state with
        parserThreadCount := state.parserThreadCount - 1
        parsers := before ++ .loadCount :: after }
      written taken filtered := by
  have all := invariant.written_eq toExit
  have takenAll : taken = lines.length := by
    by_contra notAll
    have filteredLe := invariant.filtered_le
    have takenLe := invariant.taken_le
    have room := invariant.room
    have fits := invariant.ring taken filteredLe (by omega)
    rw [Fits, if_neg (by omega), if_pos (le_refl _)] at fits
    exact notSeprated fits.2
  have quitting : Quitting lines state taken := ⟨toExit, takenAll⟩
  have countZero : state.parserThreadCount = 0 → state.parserThreadCount - 1 = 0 := by omega
  have moved : ∀ found ∈ state.parsers, found ≠ .getNextSegment →
    found ∈ before ++ ParserPc.loadCount :: after := by
    intro found isMember ne
    rw [split] at isMember
    rcases mem_split.1 isMember with rfl | isOther
    · exact absurd rfl ne
    · exact mem_split.2 (.inr isOther)
  exact { invariant with
    ring :=
      invariant.ring.imp fun place slot _ fits =>
        fits.mono fun found member isToken =>
          ⟨found,
            moved found member (by rintro rfl; cases isToken),
            isToken⟩
    readerOk :=
      invariant.readerOk.mono rfl rfl rfl rfl
        (fun notToExit => by cases toExit.symm.trans notToExit)
        (fun _ => rfl) (le_refl _)
    count := by
      have count := invariant.count
      rw [split, countP_split] at count
      have others :
        (before ++ ParserPc.loadCount :: after).countP
          ParserPc.counted =
          (before ++ after).countP ParserPc.counted + 0 :=
        countP_split
      have one : ParserPc.getNextSegment.counted = true := rfl
      rw [if_pos one] at count
      show state.parserThreadCount - 1 =
        (before ++ ParserPc.loadCount :: after).countP ParserPc.counted +
          state.reader.spawning
      omega
    parsersOk := by
      intro other isMember
      rcases mem_split.1 isMember with rfl | isOther
      · exact quitting
      · have inParsers := mem_of_other split isOther
        exact
          (invariant.parsersOk other inParsers).mono (fun _ _ => rfl)
            (fun place above below _ => ⟨above, below⟩)
            (fun quitting => ⟨quitting, countZero⟩) (le_refl _)
            (fun _ isStarted none => ⟨isStarted, none⟩)
    tokens := by
      have tokens := invariant.tokens
      rw [split] at tokens
      exact tokens_split tokens (.inl rfl)
    filtersOk :=
      invariant.filtersOk.mono rfl (fun _ => by simp) (fun _ => rfl) rfl rfl
        (fun _ _ => rfl) (le_refl _) id (fun _ => countZero)
    starts := by
      intro noFilter notStarted place above below isParsed
      rcases invariant.starts noFilter notStarted place above below isParsed
        with ⟨found, member, starting⟩
      exact
        ⟨found, moved found member (by rintro rfl; cases starting),
          starting⟩ }

/-- A parser thread starts the filter thread. -/
theorem Invariant.parser_start (split : state.parsers = before ++ .storeStarted :: after)
    (notStarted : state.filterThreadStarted = false) : Invariant reader lines { state with
      filterThreadStarted := true
      parsers := before ++ .spawnFilter :: after } written taken filtered := by
  have isCounted : state.parserThreadCount ≠ 0 := by
    have count := invariant.count
    have one : (before ++ ParserPc.storeStarted :: after).countP ParserPc.counted =
      (before ++ after).countP ParserPc.counted + 1 :=
      countP_split
    rw [split, one] at count
    omega
  have noFilters : state.filters = [] := by
    have ok := invariant.filtersOk
    unfold FiltersOk at ok
    match isFilters : state.filters with
    | [] => rfl
    | [pc] =>
      rw [isFilters] at ok
      cases pc with
      | returned => exact absurd ok.2.2.2.2.1 isCounted
      | _ => exact absurd (ok.2.1.symm.trans notStarted) nofun
    | first :: second :: others =>
      rw [isFilters] at ok
      exact ok.elim
  have moved : ∀ found ∈ state.parsers, found.starting = false →
    found ∈ before ++ ParserPc.spawnFilter :: after := by
    intro found isMember ne
    rw [split] at isMember
    rcases mem_split.1 isMember with rfl | isOther
    · cases ne
    · exact mem_split.2 (.inr isOther)
  have free : ∀ other ∈ before ++ after, other.token ≠ some .filter := by
    intro other isOther isToken
    have ok := invariant.parsersOk other (mem_of_other split isOther)
    cases other with
    | spawnFilter => exact absurd (ok.1.symm.trans notStarted) nofun
    | _ => cases isToken
  exact { invariant with
    ring :=
      invariant.ring.imp fun place slot _ fits =>
        fits.mono fun found member isToken => by
          rw [split] at member
          exact exists_token_of_other member isToken nofun
    readerOk :=
      invariant.readerOk.mono rfl rfl rfl rfl (fun _ => rfl) (fun _ => rfl)
        (le_refl _)
    count := by
      have count := invariant.count
      rw [split, countP_split] at count
      have now :
        (before ++ ParserPc.spawnFilter :: after).countP
          ParserPc.counted =
          (before ++ after).countP ParserPc.counted + 1 :=
        countP_split
      exact count.trans (congrArg (· + _) now.symm)
    parsersOk := by
      intro other isMember
      rcases mem_split.1 isMember with rfl | isOther
      · exact ⟨rfl, noFilters⟩
      · exact
          (invariant.parsersOk other (mem_of_other split isOther)).mono
            (fun _ _ => rfl) (fun place above below _ => ⟨above, below⟩)
            (fun quitting => ⟨quitting, id⟩) (le_refl _)
            (fun isToken => absurd isToken (free other isOther))
    tokens := by
      have tokens := invariant.tokens
      rw [split] at tokens
      exact tokens_take tokens rfl rfl free
    filtersOk :=
      invariant.filtersOk.mono rfl (fun _ => by simp)
        (fun some => absurd noFilters some) rfl rfl (fun _ _ => rfl)
        (le_refl _) id (fun _ => id)
    starts := fun _ isFalse => absurd isFalse nofun }

theorem Invariant.parser_spawn (split : state.parsers = before ++ .spawnFilter :: after) :
    Invariant reader lines { state with
        filters := state.filters ++ [.loadHead]
        parsers := before ++ .getNextSegment :: after }
      written taken filtered := by
  have member : ParserPc.spawnFilter ∈ state.parsers := by
    rw [split]
    exact mem_split.2 (.inl rfl)
  rcases invariant.parsersOk _ member with ⟨isStarted, noFilters⟩
  have tokens := invariant.tokens
  rw [split] at tokens
  have between : BetweenLines reader lines state filtered := by
    have ok := invariant.filtersOk
    unfold FiltersOk at ok
    rwa [noFilters] at ok
  rw [noFilters]
  exact { invariant with
    ring :=
      invariant.ring.imp fun place slot _ fits =>
        fits.mono fun found member isToken => by
          rw [split] at member
          exact exists_token_of_other member isToken nofun
    readerOk :=
      invariant.readerOk.mono rfl rfl rfl rfl (fun _ => rfl) (fun _ => rfl)
        (le_refl _)
    count := by
      have count := invariant.count
      rw [split, countP_split] at count
      have now :
        (before ++ ParserPc.getNextSegment :: after).countP
          ParserPc.counted =
          (before ++ after).countP ParserPc.counted + 1 :=
        countP_split
      exact count.trans (congrArg (· + _) now.symm)
    parsersOk := by
      intro other isMember
      rcases mem_split.1 isMember with rfl | isOther
      · trivial
      · exact
          (invariant.parsersOk other (mem_of_other split isOther)).mono
            (fun _ _ => rfl) (fun place above below _ => ⟨above, below⟩)
            (fun quitting => ⟨quitting, id⟩) (le_refl _)
            (fun isToken => absurd isToken (other_token tokens rfl isOther))
    tokens := tokens_split tokens (.inr rfl)
    filtersOk := ⟨by simp, isStarted, between⟩
    starts := fun isNil => absurd isNil nofun }

theorem Invariant.nothingLeft_of_idle (quitting : Quitting lines state taken)
    (countZero : state.parserThreadCount = 0) (notStarted : state.filterThreadStarted = false) :
    NothingLeft reader lines filtered := by
  have noneCounted : ∀ pc ∈ state.parsers, pc.counted = false := by
    have count := invariant.count
    rw [countZero] at count
    have none : state.parsers.countP ParserPc.counted = 0 := by omega
    intro pc member
    exact Bool.eq_false_iff.2 (countP_eq_zero.1 none pc member)
  have ok := invariant.filtersOk
  unfold FiltersOk at ok
  match isFilters : state.filters with
  | first :: second :: others =>
    rw [isFilters] at ok
    exact ok.elim
  | [pc] =>
    rw [isFilters] at ok
    cases pc with
    | returned => exact ok.2.2.2.2.2
    | _ => exact absurd (ok.2.1.symm.trans notStarted) nofun
  | [] =>
    unfold NothingLeft
    rw [filterMap_eq_nil_iff]
    intro line member
    rcases mem_iff_getElem?.1 member with ⟨index, lineIs⟩
    rw [getElem?_drop] at lineIs
    have inLines : filtered + index < lines.length := (List.getElem?_eq_some_iff.1 lineIs).1
    have takenIs := quitting.2
    have takenLe := invariant.taken_le
    have room := invariant.room
    have above := Nat.le_add_right filtered index
    have fits := invariant.ring (filtered + index) above (by omega)
    rw [Fits, if_neg (by omega), if_neg (by omega), lineIs] at fits
    rcases fits with ⟨same, atStatus⟩
    rw [some.injEq] at same
    cases statusIs : (state.dataSegArray ((filtered + index) % maxSegArraySize)).status with
    | init => rw [statusIs] at atStatus; exact atStatus.elim
    | seprated => rw [statusIs] at atStatus; exact atStatus.elim
    | parsing =>
      rw [statusIs] at atStatus
      rcases atStatus with ⟨pc, isMember, isToken⟩
      have notCounted := noneCounted pc isMember
      cases pc with
      | parserData _ => cases notCounted
      | storeBufLine _ _ => cases notCounted
      | storeStatus _ _ _ => cases notCounted
      | _ => cases isToken
    | parsed =>
      rcases invariant.starts isFilters notStarted _ above (by omega)
        statusIs with ⟨pc, isMember, starting⟩
      have notCounted := noneCounted pc isMember
      cases pc with
      | loadStarted => cases notCounted
      | storeStarted => cases notCounted
      | _ => cases starting
    | invalid =>
      rw [statusIs] at atStatus
      rw [same]
      exact atStatus

end

end

section

variable {reader : LineReader} {lines : List String} {state : State}
  {written taken filtered : Nat} {before after : List ParserPc}

/-- A step of a parser thread that does not go wrong keeps the invariant. -/
theorem Invariant.parserStep (invariant : Invariant reader lines state written taken filtered)
    {pc : ParserPc} (split : state.parsers = before ++ pc :: after) (sound : pc.Sound state) :
    ∃ taken', Invariant reader lines { (parserStep reader state pc).1 with
          parsers := before ++ (parserStep reader state pc).2 :: after }
        written taken' filtered := by
  have ok := invariant.parsersOk pc (split ▸ mem_split.2 (.inl rfl))
  have head := invariant.parseHead
  cases pc with
  | getNextSegment =>
    unfold BytraceParser.parserStep getNextSegment
    dsimp only
    split
    · rename_i notSeprated
      rw [head] at notSeprated
      split
      · rename_i toExit
        exact ⟨taken, invariant.parser_exit split notSeprated toExit⟩
      · refine ⟨taken, ?_⟩
        exact invariant.parser_move split rfl rfl trivial nofun invariant.exits
    · rename_i isSeprated
      rw [not_not, head] at isSeprated
      have next := invariant.parser_take split isSeprated
      rw [← Nat.mod_add_mod, ← head] at next
      exact ⟨taken + 1, next⟩
  | loadCount =>
    unfold BytraceParser.parserStep
    dsimp only
    split
    · refine ⟨taken, ?_⟩
      exact invariant.parser_move split rfl rfl ⟨ok, ‹_›⟩ nofun invariant.exits
    · refine ⟨taken, ?_⟩
      exact invariant.parser_move split rfl rfl ok nofun invariant.exits
  | loadNoFilter =>
    unfold BytraceParser.parserStep
    dsimp only
    split
    · refine ⟨taken, ?_⟩
      exact invariant.parser_move split rfl rfl ok.1 nofun invariant.exits
    · rename_i notStarted
      rw [Bool.not_eq_true] at notStarted
      have nothing := invariant.nothingLeft_of_idle ok.1 ok.2 notStarted
      refine ⟨taken, ?_⟩
      exact invariant.parser_move split rfl rfl ⟨ok.1, nothing⟩ nofun invariant.exits
  | storeExited =>
    refine ⟨taken, ?_⟩
    exact invariant.parser_move split rfl rfl ok.1 nofun fun _ => ok.2
  | loadFilterStarted =>
    unfold BytraceParser.parserStep
    dsimp only
    split
    · refine ⟨taken, ?_⟩
      exact invariant.parser_move split rfl rfl ok nofun invariant.exits
    · rename_i notStarted
      rw [Bool.not_eq_true] at notStarted
      have nothing := invariant.nothingLeft_of_idle ok (sound notStarted) notStarted
      refine ⟨taken, ?_⟩
      exact invariant.parser_move split rfl rfl ⟨ok, nothing⟩ nofun invariant.exits
  | storeExitedToo =>
    refine ⟨taken, ?_⟩
    exact invariant.parser_move split rfl rfl ok.1 nofun fun _ => ok.2
  | parserData head =>
    unfold BytraceParser.parserStep
    dsimp only
    split
    · rename_i noMatch
      refine ⟨taken, invariant.parser_move split rfl rfl ?_ nofun invariant.exits⟩
      refine ⟨ok, .inr ⟨rfl, ?_⟩⟩
      simp [LineReader.parse, noMatch]
    · rename_i found isMatch
      rcases isSome_iff_exists.1 (LineReader.getDataSegAttr_isSome isMatch) with
        ⟨bufLine, converted⟩
      rw [converted]
      refine ⟨taken, invariant.parser_move split rfl rfl ?_ nofun invariant.exits⟩
      refine ⟨ok, ?_⟩
      simp [LineReader.parse, isMatch, converted]
  | storeBufLine head bufLine =>
    rcases ok with ⟨⟨places, isParsing⟩, parsed⟩
    have stored := state.slot_setSlot head { state.slot head with bufLine := bufLine }
    refine ⟨taken, ?_⟩
    refine invariant.parser_store split rfl (.inl rfl) rfl
      (fun place isPlace fits below => ?_) (fun _ => ?_)
      (fun isParsed => by cases isParsing.symm.trans isParsed)
    · have takenLe := invariant.taken_le
      rw [Fits, if_neg (by omega), if_neg (by omega)] at fits ⊢
      refine ⟨fits.1, ?_⟩
      simp only [isParsing]
      refine ⟨.storeStatus head .parsed true, mem_split.2 (.inl rfl), ?_⟩
      rw [isPlace]
      rfl
    · refine ⟨⟨places, ?_⟩, .inl ⟨rfl, rfl, ?_⟩⟩
      · exact (congrArg DataSegment.status stored).trans isParsing
      · exact (congrArg (fun slot => reader.parse slot.seg) stored).trans
          (parsed.trans (congrArg (some ·.bufLine) stored.symm))
  | storeStatus head status hasMatch =>
    rcases ok with ⟨⟨places, isParsing⟩, result⟩
    have ready : ∀ place, Fits reader lines state.parsers written taken place (state.slot head) →
        place < taken → ∀ parsers, Fits reader lines parsers written taken place
            { state.slot head with status := status } := by
      intro place fits below parsers
      have takenLe := invariant.taken_le
      rw [Fits, if_neg (by omega), if_neg (by omega)] at fits ⊢
      refine ⟨fits.1, ?_⟩
      rcases result with ⟨rfl, _, parsed⟩ | ⟨rfl, unparsed⟩
      · exact parsed
      · exact unparsed
    refine ⟨taken, ?_⟩
    unfold BytraceParser.parserStep
    dsimp only
    cases hasMatch with
    | true =>
      exact invariant.parser_store split rfl (.inr rfl) rfl
        (fun place _ fits below => ready place fits below _)
        (fun _ => trivial) (fun _ => rfl)
    | false =>
      refine invariant.parser_store split rfl (.inr rfl) rfl
        (fun place _ fits below => ready place fits below _)
        (fun _ => trivial) ?_
      rintro rfl
      rcases result with ⟨_, isFalse, _⟩ | ⟨isInvalid, _⟩
      · cases isFalse
      · cases isInvalid
  | loadStarted =>
    unfold BytraceParser.parserStep
    dsimp only
    split
    · refine ⟨taken, ?_⟩
      exact invariant.parser_move split rfl rfl trivial (fun _ => .inr ‹_›) invariant.exits
    · refine ⟨taken, ?_⟩
      exact invariant.parser_move split rfl rfl trivial (fun _ => .inl rfl) invariant.exits
  | storeStarted => exact ⟨taken, invariant.parser_start split sound⟩
  | spawnFilter => exact ⟨taken, invariant.parser_spawn split⟩
  | returned =>
    refine ⟨taken, ?_⟩
    exact invariant.parser_move split rfl rfl ok (by rintro ⟨⟩) invariant.exits

end

end BytraceParser

end SysAnalyzer.Parser
