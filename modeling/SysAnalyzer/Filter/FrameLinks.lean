import SysAnalyzer.Filter.FrameFilter

/-!
# The links between frames

A render frame lists its sources, and every source names the frame that it went
into.  Both columns are filled by `BeginProcessCommandUni`: the destinations
one by one, the list as a whole.  A source that has not ended stays announced,
and a second call in a frame replaces the list of the first.

The links are followed between frames first.  The table has every link twice,
between the rows of what happened and of what was expected.
-/

namespace SysAnalyzer.Filter

open Foundation List Option Function

namespace FrameSliceData

variable (data : FrameSliceData)

/-! ## Changes of rows -/

variable (row : Nat)

theorem links_modify {change : FrameSliceRow → FrameSliceRow}
    (keepsDst : ∀ old, (change old).dst = old.dst)
    (keepsSrcs : ∀ old, (change old).srcs = old.srcs) :
    links (data.modify row change) = links data := by
  unfold links
  ext other value
  · dsimp only
    rw [getElem?_modify]
    cases data[other]? with
    | none => rfl
    | some old =>
      by_cases same : row = other
      · simp [same, keepsDst]
      · simp [same]
  · dsimp only
    rw [getElem?_modify]
    cases data[other]? with
    | none => rfl
    | some old =>
      by_cases same : row = other
      · simp [same, keepsSrcs]
      · simp [same]

@[simp]
theorem links_setFlags (flags : UInt8) : (data.setFlags row flags).links = data.links :=
  links_modify data row (fun _ => rfl) (fun _ => rfl)

@[simp]
theorem length_setFlags (flags : UInt8) : (data.setFlags row flags).length = data.length :=
  length_modify _ _ _

@[simp]
theorem links_setEndTimeAndFlag (ts expectEnd : UInt64) :
    (data.setEndTimeAndFlag row ts expectEnd).links = data.links :=
  links_modify data row (fun _ => rfl) (fun _ => rfl)

@[simp]
theorem length_setEndTimeAndFlag (ts expectEnd : UInt64) :
    (data.setEndTimeAndFlag row ts expectEnd).length = data.length :=
  length_modify _ _ _

theorem markAbnormal_cases (src dst : Nat) :
    data.markAbnormal src dst = data ∨ data.markAbnormal src dst =
      data.setFlags (dst - 1) abnormalStartEndTimeState := by
  unfold markAbnormal
  split
  · split
    · dsimp only
      split
      · exact .inr rfl
      · exact .inl rfl
    · exact .inl rfl
  · exact .inl rfl

@[simp]
theorem links_markAbnormal (src dst : Nat) : (data.markAbnormal src dst).links = data.links := by
  rcases markAbnormal_cases data src dst with isSame | isMarked
  · rw [isSame]
  · rw [isMarked, links_setFlags]

@[simp]
theorem length_markAbnormal (src dst : Nat) : (data.markAbnormal src dst).length = data.length := by
  rcases markAbnormal_cases data src dst with isSame | isMarked
  · rw [isSame]
  · rw [isMarked, length_setFlags]

@[simp]
theorem length_setDst (dst : Nat) : (data.setDst row dst).length = data.length :=
  length_modify _ _ _

@[simp]
theorem length_setSrcs (fromSlices : List Nat) :
    (data.setSrcs row fromSlices).length = data.length :=
  length_modify _ _ _

theorem links_setDst {row : Nat} (inRange : row < data.length) (dst : Nat) :
    (data.setDst row dst).links = { data.links with
      target := Function.update data.links.target row (some dst) } := by
  have here := getElem?_eq_getElem inRange
  unfold links setDst
  ext other value
  · dsimp only
    rw [getElem?_modify, update_apply]
    by_cases same : row = other
    · subst same
      simp [here]
    · simp [same, Ne.symm same]
  · dsimp only
    rw [getElem?_modify]
    cases data[other]? with
    | none => rfl
    | some old => by_cases same : row = other <;> simp [same]

theorem links_setSrcs {row : Nat} (inRange : row < data.length) (fromSlices : List Nat) :
    (data.setSrcs row fromSlices).links = data.links.setSources row fromSlices := by
  have here := getElem?_eq_getElem inRange
  unfold links setSrcs Links.setSources
  ext other value
  · dsimp only
    rw [getElem?_modify]
    cases data[other]? with
    | none => rfl
    | some old => by_cases same : row = other <;> simp [same]
  · dsimp only
    rw [getElem?_modify, update_apply]
    by_cases same : row = other
    · subst same
      simp [here]
    · simp [same, Ne.symm same]

theorem links_append_singleton
    {row : FrameSliceRow} (noDst : row.dst = none) (noSrcs : row.srcs = []) :
    links (data ++ [row]) = links data := by
  have isNew (other : Nat) : (data ++ [row])[other]? = data[other]? ∨
    data[other]? = none ∧ (data ++ [row])[other]? = some row := by
    rcases lt_trichotomy other data.length with before | rfl | behind
    · exact .inl (getElem?_append_left before)
    · exact .inr ⟨getElem?_eq_none (le_refl _), by simp⟩
    · refine .inl ?_
      rw [getElem?_eq_none (le_of_lt behind), getElem?_eq_none]
      rw [length_append, length_singleton]
      exact behind
  unfold links
  ext other value
  · dsimp only
    rcases isNew other with isOld | ⟨isNone, isRow⟩
    · rw [isOld]
    · simp [isNone, isRow, noDst]
  · dsimp only
    rcases isNew other with isOld | ⟨isNone, isRow⟩
    · rw [isOld]
    · simp [isNone, isRow, noSrcs]

end FrameSliceData

namespace FrameFilter

/-- The frames have the links given, and the table has them twice. -/
structure Tracks (filter : FrameFilter) (frameLinks : Links Nat) : Prop where
  rows : ∀ pointer < filter.frameCount, (filter.frames pointer).frameSliceRow = 2 * pointer ∧
    (filter.frames pointer).frameExpectedSliceRow = 2 * pointer + 1
  length : filter.frameSliceData.length = 2 * filter.frameCount
  table : filter.frameSliceData.links = frameLinks.twice
  pending : ∀ itid, ∀ frameVec ∈ filter.vsyncRenderSlice itid,
    ∀ pointer ∈ frameVec, pointer < filter.frameCount
  announced : ∀ it, ∀ pointer ∈ filter.source? it, pointer < filter.frameCount

theorem tracks_initial : Tracks initial .empty where
  rows _ less := absurd less (Nat.not_lt_zero _)
  length := rfl
  table := rfl
  pending _ _ member := nomatch member
  announced _ _ member := nomatch member

namespace Tracks

variable {filter : FrameFilter} {frameLinks : Links Nat}
  (tracks : Tracks filter frameLinks)

include tracks

theorem back_lt {itid : UInt32} {pointer : Nat} (isBack : filter.back? itid = some pointer) :
    pointer < filter.frameCount := by
  rcases bind_eq_some_iff.1 isBack with ⟨frameVec, found, isLast⟩
  exact tracks.pending itid frameVec found pointer (mem_of_getLast? isLast)

theorem front_lt {itid : UInt32} {pointer : Nat} (isFront : filter.front? itid = some pointer) :
    pointer < filter.frameCount := by
  rcases bind_eq_some_iff.1 isFront with ⟨frameVec, found, isFirst⟩
  exact tracks.pending itid frameVec found pointer (mem_of_mem_head? isFirst)

theorem setFrame (pointer : Nat) {change : FrameSlice → FrameSlice}
    (keepsRow : ∀ old, (change old).frameSliceRow = old.frameSliceRow)
    (keepsExpected : ∀ old, (change old).frameExpectedSliceRow = old.frameExpectedSliceRow) :
    Tracks (filter.setFrame pointer change) frameLinks where
  rows other less := by
    have before := tracks.rows other less
    unfold FrameFilter.setFrame
    dsimp only
    by_cases same : other = pointer
    · subst same
      rw [update_self, keepsRow, keepsExpected]
      exact before
    · rw [update_of_ne same]
      exact before
  length := tracks.length
  table := tracks.table
  pending := tracks.pending
  announced := tracks.announced

theorem setData {change : FrameSliceData → FrameSliceData} (keepsLinks :
    (change filter.frameSliceData).links = filter.frameSliceData.links)
    (keepsLength : (change filter.frameSliceData).length = filter.frameSliceData.length) :
    Tracks (filter.setData change) frameLinks where
  rows := tracks.rows
  length := keepsLength.trans tracks.length
  table := keepsLinks.trans tracks.table
  pending := tracks.pending
  announced := tracks.announced

theorem setPending (itid : UInt32) {change : List Nat → List Nat}
    (addsNone : ∀ frameVec, ∀ pointer ∈ change frameVec, pointer ∈ frameVec) :
    Tracks (filter.setPending itid change) frameLinks where
  rows := tracks.rows
  length := tracks.length
  table := tracks.table
  pending other frameVec found pointer member := by
    unfold FrameFilter.setPending at found
    dsimp only at found
    by_cases same : other = itid
    · subst same
      rw [update_self, mem_def, map_eq_some_iff] at found
      rcases found with ⟨before, isBefore, rfl⟩
      exact tracks.pending other before isBefore pointer (addsNone before pointer member)
    · rw [update_of_ne same] at found
      exact tracks.pending other frameVec found pointer member
  announced := tracks.announced

theorem beginVsyncEvent (ts : UInt64) (itid : UInt32) (expectStart expectEnd : UInt64) :
    Tracks (filter.beginVsyncEvent ts itid expectStart expectEnd) frameLinks where
  rows pointer less := by
    unfold FrameFilter.beginVsyncEvent at less ⊢
    dsimp only at less ⊢
    by_cases isNew : pointer = filter.frameCount
    · subst isNew
      rw [update_self]
      exact ⟨tracks.length, congrArg (· + 1) tracks.length⟩
    · rw [update_of_ne isNew]
      exact tracks.rows pointer (by omega)
  length := by
    have before := tracks.length
    unfold FrameFilter.beginVsyncEvent FrameSliceData.appendFrameUntil FrameSliceData.appendFrame
    simp only [length_append, length_singleton]
    omega
  table := by
    unfold FrameFilter.beginVsyncEvent FrameSliceData.appendFrameUntil FrameSliceData.appendFrame
    rw [FrameSliceData.links_append_singleton _ rfl rfl,
      FrameSliceData.links_append_singleton _ rfl rfl, tracks.table]
  pending other frameVec found pointer member := by
    unfold FrameFilter.beginVsyncEvent at found ⊢
    dsimp only at found ⊢
    by_cases same : other = itid
    · subst same
      rw [update_self, mem_some_iff] at found
      subst found
      cases before : filter.vsyncRenderSlice other with
      | none =>
        rw [before] at member
        rw [mem_singleton.1 member]
        exact Nat.lt_succ_self _
      | some old =>
        rw [before] at member
        rcases mem_append.1 member with isOld | isNew
        · exact Nat.lt_succ_of_lt (tracks.pending other old before pointer isOld)
        · rw [mem_singleton.1 isNew]
          exact Nat.lt_succ_self _
    · rw [update_of_ne same] at found
      exact Nat.lt_succ_of_lt (tracks.pending other frameVec found pointer member)
  announced it pointer isSource := Nat.lt_succ_of_lt (tracks.announced it pointer isSource)

theorem beginRSTransactionData (itid franeNum : UInt32) :
    Tracks (filter.beginRSTransactionData itid franeNum) frameLinks := by
  unfold FrameFilter.beginRSTransactionData
  cases isFront : filter.front? itid with
  | none => exact tracks
  | some first =>
    have before : Tracks (filter.setFrame first fun frame =>
      { frame with frameNum := franeNum }) frameLinks :=
      tracks.setFrame first (fun _ => rfl) (fun _ => rfl)
    dsimp only
    refine ⟨before.rows, before.length, before.table, before.pending, ?_⟩
    intro it pointer isSource
    change pointer < filter.frameCount
    unfold source? at isSource
    dsimp only at isSource
    by_cases sameThread : it.sourceItid = itid
    · rw [sameThread, update_self, mem_def, bind_some] at isSource
      by_cases sameNumber : it.frameNum = franeNum
      · rw [sameNumber, update_self, some.injEq] at isSource
        rw [← isSource]
        exact tracks.front_lt isFront
      · rw [update_of_ne sameNumber] at isSource
        cases old : filter.dstRenderSlice itid with
        | none =>
          rw [old] at isSource
          cases isSource
        | some frameMap =>
          rw [old] at isSource
          refine tracks.announced it pointer ?_
          unfold source?
          rw [sameThread, old]
          exact isSource
    · rw [update_of_ne sameThread] at isSource
      exact tracks.announced it pointer isSource

end Tracks

/-! ## The loop over the sources -/

theorem source?_eraseSource (filter : FrameFilter) (it other : FrameMap) :
    (filter.eraseSource it).source? other = if other = it then none else filter.source? other := by
  unfold source? eraseSource
  dsimp only
  by_cases sameThread : other.sourceItid = it.sourceItid
  · rw [sameThread, update_self]
    cases filter.dstRenderSlice it.sourceItid with
    | none => split <;> rfl
    | some sourceFrameMap =>
      rw [map_some, bind_some, bind_some, update_apply]
      have sameKey : other.frameNum = it.frameNum ↔ other = it := by
        rcases it with ⟨sourceItid, frameNum⟩
        rcases other with ⟨otherItid, otherNum⟩
        dsimp only at sameThread ⊢
        rw [FrameMap.mk.injEq, and_iff_right sameThread]
      simp only [sameKey]
  · rw [update_of_ne sameThread, if_neg]
    rintro rfl
    exact sameThread rfl

namespace Tracks

variable {filter : FrameFilter} {frameLinks : Links Nat}
  (tracks : Tracks filter frameLinks)

include tracks

theorem eraseSource (it : FrameMap) : Tracks (filter.eraseSource it) frameLinks where
  rows := tracks.rows
  length := tracks.length
  table := tracks.table
  pending := tracks.pending
  announced other pointer isSource := by
    rw [source?_eraseSource] at isSource
    split at isSource
    · cases isSource
    · exact tracks.announced other pointer isSource

theorem consume {last src : Nat} (lastLess : last < filter.frameCount)
    (srcLess : src < filter.frameCount) :
    Tracks (filter.consume last src) (frameLinks.redirect last [src]) where
  rows := tracks.rows
  length := by
    unfold FrameFilter.consume
    simpa using tracks.length
  table := by
    have lastRows := tracks.rows last lastLess
    have srcRows := tracks.rows src srcLess
    have size := tracks.length
    unfold FrameFilter.consume
    dsimp only
    rw [FrameSliceData.links_setDst, FrameSliceData.links_setDst,
      FrameSliceData.links_markAbnormal, FrameSliceData.links_markAbnormal,
      tracks.table, lastRows.1, lastRows.2, srcRows.1, srcRows.2]
    · ext row target
      · simp only [Links.twice, Links.redirect, update_apply, mem_singleton]
        by_cases isExpected : row = 2 * src + 1
        · subst isExpected
          rw [if_pos rfl, if_pos (by omega), map_some, show (2 * src + 1) % 2 = 1 by omega]
        · rw [if_neg isExpected]
          by_cases isActual : row = 2 * src
          · subst isActual
            rw [if_pos rfl, if_pos (by omega), map_some,
              show 2 * src % 2 = 0 by omega, add_zero]
          · rw [if_neg isActual, if_neg (by omega)]
      · rfl
    · rw [FrameSliceData.length_markAbnormal, FrameSliceData.length_markAbnormal, srcRows.1]
      omega
    · rw [FrameSliceData.length_setDst, FrameSliceData.length_markAbnormal,
        FrameSliceData.length_markAbnormal, srcRows.2]
      omega
  pending := tracks.pending
  announced := tracks.announced

end Tracks

/-- A source is consumed, and no longer announced when it has ended. -/
def consumeEnded (filter : FrameFilter) (last src : Nat) (it : FrameMap) : FrameFilter :=
  if (filter.frames src).endTs ≠ invalidUint64 then (filter.consume last src).eraseSource it
  else filter.consume last src

variable {it : FrameMap}

theorem consumeSources_cons_of_some {filter : FrameFilter} {src : Nat}
    (isSource : filter.source? it = some src) (last : Nat) (frames : List FrameMap) :
    consumeSources last filter (it :: frames) =
      ((consumeSources last (filter.consumeEnded last src it) frames).1,
        src :: (consumeSources last (filter.consumeEnded last src it) frames).2) := by
  rw [consumeSources, isSource]
  rfl

theorem consumeSources_cons_of_none {filter : FrameFilter}
    (isNone : filter.source? it = none) (last : Nat) (frames : List FrameMap) :
    consumeSources last filter (it :: frames) = consumeSources last filter frames := by
  rw [consumeSources, isNone]

theorem frames_consumeEnded (filter : FrameFilter) (last src : Nat) (it : FrameMap) :
    (filter.consumeEnded last src it).frames = filter.frames ∧
      (filter.consumeEnded last src it).frameCount = filter.frameCount := by
  unfold consumeEnded
  split <;> exact ⟨rfl, rfl⟩

theorem source?_consumeEnded {filter : FrameFilter} {src : Nat}
    (isSource : filter.source? it = some src) (last : Nat) (other : FrameMap) :
    (filter.consumeEnded last src it).source? other = filter.source? other ∨
      (filter.consumeEnded last src it).source? other = none ∧ filter.source? other = some src := by
  unfold consumeEnded
  split
  · rw [source?_eraseSource]
    by_cases same : other = it
    · rw [if_pos same, same]
      exact .inr ⟨rfl, isSource⟩
    · rw [if_neg same]
      exact .inl rfl
  · exact .inl rfl

theorem mem_consumeSources (filter : FrameFilter) (last : Nat) (frames : List FrameMap)
    (pointer : Nat) : pointer ∈ (consumeSources last filter frames).2 ↔
      pointer ∈ frames.filterMap filter.source? := by
  induction frames generalizing filter with
  | nil => exact Iff.rfl
  | cons it frames induction =>
    cases isSource : filter.source? it with
    | none =>
      rw [consumeSources_cons_of_none isSource, filterMap_cons_none isSource]
      exact induction filter
    | some src =>
      rw [consumeSources_cons_of_some isSource, filterMap_cons_some isSource, mem_cons, mem_cons,
        induction, mem_filterMap, mem_filterMap]
      constructor
      · rintro (isFirst | ⟨other, member, found⟩)
        · exact .inl isFirst
        · rcases source?_consumeEnded isSource last other with
            isSame | ⟨isErased, _⟩
          · rw [isSame] at found
            exact .inr ⟨other, member, found⟩
          · rw [isErased] at found
            cases found
      · rintro (isFirst | ⟨other, member, found⟩)
        · exact .inl isFirst
        · rcases source?_consumeEnded isSource last other with
            isSame | ⟨_, wasSource⟩
          · exact .inr ⟨other, member, isSame.trans found⟩
          · rw [found, some.injEq] at wasSource
            exact .inl wasSource

theorem frames_consumeSources (filter : FrameFilter) (last : Nat) (frames : List FrameMap) :
    (consumeSources last filter frames).1.frames = filter.frames ∧
      (consumeSources last filter frames).1.frameCount = filter.frameCount := by
  induction frames generalizing filter with
  | nil => exact ⟨rfl, rfl⟩
  | cons it frames induction =>
    cases isSource : filter.source? it with
    | none =>
      rw [consumeSources_cons_of_none isSource]
      exact induction filter
    | some src =>
      have same := frames_consumeEnded filter last src it
      rw [consumeSources_cons_of_some isSource]
      rw [← same.1, ← same.2]
      exact induction _

namespace Tracks

variable {filter : FrameFilter} {frameLinks : Links Nat}

section

variable (tracks : Tracks filter frameLinks)
include tracks

variable {last : Nat}

theorem consumeEnded {src : Nat}
    (lastLess : last < filter.frameCount) (srcLess : src < filter.frameCount) (it : FrameMap) :
    Tracks (filter.consumeEnded last src it) (frameLinks.redirect last [src]) := by
  have consumed := tracks.consume lastLess srcLess
  unfold FrameFilter.consumeEnded
  split
  · exact consumed.eraseSource it
  · exact consumed

theorem consumeSources (lastLess : last < filter.frameCount) (frames : List FrameMap) :
    Tracks (consumeSources last filter frames).1 (frameLinks.redirect last
      (FrameFilter.consumeSources last filter frames).2) := by
  induction frames generalizing filter frameLinks with
  | nil =>
    rw [FrameFilter.consumeSources, Links.redirect_nil]
    exact tracks
  | cons it frames induction =>
    cases isSource : filter.source? it with
    | none =>
      rw [consumeSources_cons_of_none isSource]
      exact induction tracks lastLess
    | some src =>
      have srcLess := tracks.announced it src isSource
      have consumed := tracks.consumeEnded lastLess srcLess it
      have same := (frames_consumeEnded filter last src it).2
      rw [consumeSources_cons_of_some isSource]
      dsimp only
      rw [← singleton_append, Links.redirect_append]
      exact induction consumed (by rw [same]; exact lastLess)

theorem rows_map {found : List Nat} (valid : ∀ src ∈ found, src < filter.frameCount) :
    (found.map fun src => (filter.frames src).frameSliceRow) = found.map (fun src => 2 * src) ∧
      (found.map fun src => (filter.frames src).frameExpectedSliceRow) =
        found.map fun src => 2 * src + 1 :=
  ⟨map_congr_left fun src member => (tracks.rows src (valid src member)).1,
    map_congr_left fun src member => (tracks.rows src (valid src member)).2⟩

theorem setSources (lastLess : last < filter.frameCount) (found : List Nat) :
    Tracks (filter.setData fun data =>
      (data.setSrcs (2 * last) (found.map fun src => 2 * src)).setSrcs
        (2 * last + 1) (found.map fun src => 2 * src + 1))
      (frameLinks.setSources last found) where
  rows := tracks.rows
  length := by
    unfold FrameFilter.setData
    simpa using tracks.length
  table := by
    have size := tracks.length
    unfold FrameFilter.setData
    dsimp only
    rw [FrameSliceData.links_setSrcs, FrameSliceData.links_setSrcs, tracks.table]
    · ext row target
      · rfl
      · simp only [Links.twice, Links.setSources, update_apply]
        by_cases isExpected : row = 2 * last + 1
        · subst isExpected
          rw [if_pos rfl, if_pos (by omega), show (2 * last + 1) % 2 = 1 by omega]
        · rw [if_neg isExpected]
          by_cases isActual : row = 2 * last
          · subst isActual
            rw [if_pos rfl, if_pos (by omega), show 2 * last % 2 = 0 by omega]
            rfl
          · rw [if_neg isActual, if_neg (by omega)]
    · omega
    · rw [FrameSliceData.length_setSrcs]
      omega
  pending := tracks.pending
  announced := tracks.announced

end

end Tracks

/--
What a call of `BeginProcessCommandUni` must meet when it finds sources for a
frame whose vsync has not ended: no source went into another frame, and every
earlier source of the frame is found again.
-/
def Linkable (filter : FrameFilter) : Event → Prop
  | .beginProcessCommandUni itid frames =>
    ∀ last ∈ filter.back? itid, (filter.frames last).vsyncEnd = false →
      let sources := frames.filterMap filter.source?
      let lastRow := (filter.frames last).frameSliceRow
      let links := filter.frameSliceData.links
      sources = [] ∨ (∀ src ∈ sources, links.target (filter.frames src).frameSliceRow = none ∨
        links.target (filter.frames src).frameSliceRow = some lastRow) ∧
        ∀ row ∈ links.sources lastRow, ∃ src ∈ sources, (filter.frames src).frameSliceRow = row
  | _ => True

section Calls

variable {filter : FrameFilter} {frameLinks : Links Nat}
  (tracks : Tracks filter frameLinks)

include tracks

theorem claimable_iff_rows {last : Nat} (lastLess : last < filter.frameCount) {sources : List Nat}
    (valid : ∀ src ∈ sources, src < filter.frameCount) :
    frameLinks.Claimable last sources ↔ (∀ src ∈ sources, filter.frameSliceData.links.target
      (filter.frames src).frameSliceRow = none ∨
      filter.frameSliceData.links.target (filter.frames src).frameSliceRow =
        some (filter.frames last).frameSliceRow) ∧
      ∀ row ∈ filter.frameSliceData.links.sources (filter.frames last).frameSliceRow,
        ∃ src ∈ sources, (filter.frames src).frameSliceRow = row := by
  have rowOf (src : Nat) (member : src ∈ sources) : (filter.frames src).frameSliceRow = 2 * src :=
    (tracks.rows src (valid src member)).1
  have half (node : Nat) : 2 * node / 2 = node := by omega
  have even (node : Nat) : 2 * node % 2 = 0 := by omega
  rw [tracks.table, (tracks.rows last lastLess).1]
  refine and_congr ?_ ?_
  · refine forall₂_congr fun src member => ?_
    rw [rowOf src member, Links.target_twice_eq_some_iff, half, half, even, even, and_iff_left rfl]
    refine or_congr_left ?_
    rw [Links.twice, map_eq_none_iff, half]
  · constructor
    · intro covered row member
      rw [Links.mem_sources_twice, half, even] at member
      have isSource := covered (row / 2) member.1
      refine ⟨row / 2, isSource, ?_⟩
      rw [rowOf (row / 2) isSource]
      omega
    · intro covered src member
      have listed : 2 * src ∈ frameLinks.twice.sources (2 * last) := by
        rw [Links.mem_sources_twice, half, half, even, even]
        exact ⟨member, rfl⟩
      rcases covered (2 * src) listed with ⟨other, isSource, isRow⟩
      rw [rowOf other isSource] at isRow
      rw [show src = other by omega]
      exact isSource

/-- The links after a command of the render service, and when they stay mutual. -/
theorem tracks_beginProcessCommandUni
    (itid : UInt32) (frames : List FrameMap) (isMutual : frameLinks.Mutual) :
    ∃ next, Tracks (filter.beginProcessCommandUni itid frames) next ∧ (next.Mutual ↔
      filter.Linkable (.beginProcessCommandUni itid frames)) := by
  unfold beginProcessCommandUni Linkable
  cases isBack : filter.back? itid with
  | none =>
    refine ⟨frameLinks, tracks, iff_of_true isMutual ?_⟩
    intro last isLast
    rw [isBack] at isLast
    cases isLast
  | some last =>
    have lastLess := tracks.back_lt isBack
    have after := tracks.consumeSources lastLess frames
    have kept := frames_consumeSources filter last frames
    have isFound := mem_consumeSources filter last frames
    dsimp only
    generalize consumeSources last filter frames = loop at after kept isFound
    rcases loop with ⟨reached, found⟩
    dsimp only at after kept isFound ⊢
    have valid (src : Nat) (member : src ∈ found) : src < filter.frameCount := by
      rcases mem_filterMap.1 ((isFound src).1 member) with
        ⟨it, _, isSource⟩
      exact tracks.announced it src isSource
    have noneFound : found = [] ↔ frames.filterMap filter.source? = [] := by
      rw [eq_nil_iff_forall_not_mem, eq_nil_iff_forall_not_mem]
      exact forall_congr' fun src => not_congr (isFound src)
    by_cases isEnded : (filter.frames last).vsyncEnd
    · rw [if_pos isEnded]
      refine ⟨frameLinks, tracks, iff_of_true isMutual ?_⟩
      intro other isLast notEnded
      rw [mem_def, isBack, some.injEq] at isLast
      rw [← isLast, isEnded] at notEnded
      cases notEnded
    · rw [if_neg isEnded]
      have notEnded : (filter.frames last).vsyncEnd = false := by simpa using isEnded
      by_cases isNone : found = []
      · rw [if_pos isNone]
        rw [isNone, Links.redirect_nil] at after
        refine ⟨frameLinks, after, iff_of_true isMutual ?_⟩
        exact fun _ _ _ => .inl (noneFound.1 isNone)
      · rw [if_neg isNone]
        have validAfter (src : Nat) (member : src ∈ found) : src < reached.frameCount := by
          rw [kept.2]
          exact valid src member
        have rows := after.rows_map validAfter
        refine ⟨frameLinks.claim last found, ?_, ?_⟩
        · rw [rows.1, rows.2, (tracks.rows last lastLess).1, (tracks.rows last lastLess).2]
          exact after.setSources (by rw [kept.2]; exact lastLess) found
        · have validSources (src : Nat) (member : src ∈ frames.filterMap filter.source?) :
            src < filter.frameCount :=
            valid src ((isFound src).2 member)
          rw [Links.mutual_claim_iff isMutual, Links.claimable_congr isFound,
            claimable_iff_rows tracks lastLess validSources]
          constructor
          · intro claimable other isLast _
            rw [mem_def, isBack, some.injEq] at isLast
            rw [← isLast]
            exact .inr claimable
          · intro linkable
            exact (linkable last isBack notEnded).resolve_left
              fun isEmpty => isNone (noneFound.2 isEmpty)

omit tracks in
theorem tracks_of_same {next : FrameFilter} (isMutual : frameLinks.Mutual)
    (after : Tracks next frameLinks) {linkable : Prop} (holds : linkable) :
    ∃ nextLinks, Tracks next nextLinks ∧ (nextLinks.Mutual ↔ linkable) :=
  ⟨frameLinks, after, iff_of_true isMutual holds⟩

theorem Tracks.endVsyncEvent (ts : UInt64) (itid : UInt32) :
    Tracks (filter.endVsyncEvent ts itid) frameLinks := by
  have dropped (frameVec : List Nat) (pointer : Nat)
    (member : pointer ∈ frameVec.dropLast) : pointer ∈ frameVec :=
    dropLast_subset frameVec member
  unfold FrameFilter.endVsyncEvent
  cases filter.back? itid with
  | none => exact tracks
  | some last =>
    dsimp only
    have marked : Tracks (filter.setFrame last fun frame =>
      { frame with vsyncEnd := true }) frameLinks :=
      tracks.setFrame last (fun _ => rfl) (fun _ => rfl)
    generalize (filter.setFrame last fun frame =>
      { frame with vsyncEnd := true }) = filter at marked
    have ended : Tracks (filter.setData fun data =>
      data.setEndTimeAndFlag (filter.frames last).frameSliceRow ts
        (filter.frames last).expectedEndTs) frameLinks :=
      marked.setData (FrameSliceData.links_setEndTimeAndFlag _ _ _ _)
        (FrameSliceData.length_setEndTimeAndFlag _ _ _ _)
    split
    · split
      · refine Tracks.setPending ?_ itid dropped
        exact Tracks.setFrame ended last (fun _ => rfl) (fun _ => rfl)
      · exact marked
    · split
      · refine (ended.setData ?_ ?_).setPending itid dropped
        · unfold FrameSliceData.erase
          rw [FrameSliceData.links_setFlags, FrameSliceData.links_setFlags]
        · unfold FrameSliceData.erase
          rw [FrameSliceData.length_setFlags, FrameSliceData.length_setFlags]
      · refine Tracks.setPending ?_ itid dropped
        exact Tracks.setFrame ended last (fun _ => rfl) (fun _ => rfl)

theorem Tracks.endFrameQueue (ts : UInt64) (itid : UInt32) :
    Tracks (filter.endFrameQueue ts itid) frameLinks := by
  unfold FrameFilter.endFrameQueue
  cases filter.front? itid with
  | none => exact tracks
  | some first =>
    dsimp only
    have marked : Tracks
      { filter.setFrame first fun frame => { frame with gpuEnd := true }
        with
        gpuSliceData :=
          filter.gpuSliceData ++
            [((filter.frames first).frameSliceRow,
              ts - (filter.frames first).frameQueueStartTs)] }
      frameLinks := by
      have before : Tracks (filter.setFrame first fun frame =>
        { frame with gpuEnd := true }) frameLinks :=
        tracks.setFrame first (fun _ => rfl) (fun _ => rfl)
      exact ⟨before.rows, before.length, before.table, before.pending, before.announced⟩
    split
    · refine Tracks.setPending ?_ itid fun _ _ => mem_of_mem_tail
      refine Tracks.setData ?_ ?_ ?_
      · exact Tracks.setFrame marked first (fun _ => rfl) (fun _ => rfl)
      · exact FrameSliceData.links_setEndTimeAndFlag _ _ _ _
      · exact FrameSliceData.length_setEndTimeAndFlag _ _ _ _
    · exact marked

theorem tracks_step (event : Event) (isMutual : frameLinks.Mutual) :
    ∃ next, Tracks (filter.step event) next ∧ (next.Mutual ↔ filter.Linkable event) := by
  cases event with
  | beginVsyncEvent ts itid expectStart expectEnd =>
    exact tracks_of_same isMutual (tracks.beginVsyncEvent ts itid expectStart expectEnd) trivial
  | markRSOnDoCompositionEvent itid =>
    refine tracks_of_same isMutual ?_ trivial
    unfold step markRSOnDoCompositionEvent
    dsimp only
    split
    · exact tracks
    · exact tracks.setFrame _ (fun _ => rfl) (fun _ => rfl)
  | beginRSTransactionData itid franeNum =>
    exact tracks_of_same isMutual (tracks.beginRSTransactionData itid franeNum) trivial
  | beginProcessCommandUni itid frames =>
    exact tracks_beginProcessCommandUni tracks itid frames isMutual
  | endVsyncEvent ts itid => exact tracks_of_same isMutual (tracks.endVsyncEvent ts itid) trivial
  | startFrameQueue ts itid =>
    refine tracks_of_same isMutual ?_ trivial
    unfold step startFrameQueue
    dsimp only
    split
    · exact tracks
    · exact tracks.setFrame _ (fun _ => rfl) (fun _ => rfl)
  | endFrameQueue ts itid => exact tracks_of_same isMutual (tracks.endFrameQueue ts itid) trivial

end Calls

def LinksAgree (filter : FrameFilter) : Prop :=
  let links := filter.frameSliceData.links
  links.Mutual ∧ ∀ source first second, source ∈ links.sources first →
    source ∈ links.sources second → first = second

theorem Tracks.linksAgree_iff {filter : FrameFilter} {frameLinks : Links Nat}
    (tracks : Tracks filter frameLinks) : filter.LinksAgree ↔ frameLinks.Mutual := by
  have ofTable : filter.frameSliceData.links.Mutual ↔ frameLinks.Mutual := by
    rw [tracks.table]
    exact Links.mutual_twice_iff
  unfold LinksAgree
  dsimp only
  rw [← ofTable]
  constructor
  · exact And.left
  · intro isMutual
    exact ⟨isMutual, fun _ _ _ => isMutual.unique⟩

/--
The link columns agree in every state that a run reaches exactly when every
call in it is linkable.
-/
theorem linksAgree_iff_eachStep_linkable (events : List Event) :
    (∀ past, past <+: events → (run step initial past).LinksAgree) ↔
      EachStep step Linkable initial events := by
  have linked : ∃ frameLinks, Tracks initial frameLinks ∧ frameLinks.Mutual :=
    ⟨.empty, tracks_initial, Links.mutual_empty⟩
  have agrees : initial.LinksAgree := tracks_initial.linksAgree_iff.2 Links.mutual_empty
  rw [reached_iff_eachStep step LinksAgree events agrees]
  refine eachStep_congr (fun filter => ∃ frameLinks, Tracks filter frameLinks ∧ frameLinks.Mutual)
    ?_ ?_ linked
  · rintro filter event ⟨frameLinks, tracks, isMutual⟩
    rcases tracks_step tracks event isMutual with ⟨next, after, isLinkable⟩
    rw [after.linksAgree_iff, isLinkable]
  · rintro filter event ⟨frameLinks, tracks, isMutual⟩ linkable
    rcases tracks_step tracks event isMutual with ⟨next, after, isLinkable⟩
    exact ⟨next, after, isLinkable.2 linkable⟩

theorem not_linksAgree_twoFrames : let events : List Event :=
    [.beginVsyncEvent 10 1 10 20, .beginRSTransactionData 1 5,
      .beginVsyncEvent 12 2 12 22, .beginProcessCommandUni 2 [⟨1, 5⟩],
      .endVsyncEvent 14 2, .beginVsyncEvent 16 2 16 26,
      .beginProcessCommandUni 2 [⟨1, 5⟩]]
    let links := (run step initial events).frameSliceData.links
    links.sources 2 = [0] ∧ links.sources 4 = [0] ∧
      links.target 0 = some 4 ∧ ¬ (run step initial events).LinksAgree := by
  have first : (run step initial [.beginVsyncEvent 10 1 10 20, .beginRSTransactionData 1 5,
    .beginVsyncEvent 12 2 12 22, .beginProcessCommandUni 2 [⟨1, 5⟩],
    .endVsyncEvent 14 2, .beginVsyncEvent 16 2 16 26,
    .beginProcessCommandUni 2 [⟨1, 5⟩]]).frameSliceData.links.sources 2 = [0] := by
    decide
  have second : (run step initial [.beginVsyncEvent 10 1 10 20, .beginRSTransactionData 1 5,
    .beginVsyncEvent 12 2 12 22, .beginProcessCommandUni 2 [⟨1, 5⟩],
    .endVsyncEvent 14 2, .beginVsyncEvent 16 2 16 26,
    .beginProcessCommandUni 2 [⟨1, 5⟩]]).frameSliceData.links.sources 4 = [0] := by
    decide
  refine ⟨first, second, by decide, ?_⟩
  rintro ⟨_, unique⟩
  refine absurd (unique 0 2 4 ?_ ?_) (by decide)
  · rw [first]
    exact mem_singleton_self 0
  · rw [second]
    exact mem_singleton_self 0

end FrameFilter

end SysAnalyzer.Filter
