import SysAnalyzer.Parser.PerfSplitSteps

/-!
# Complete files that are not rejected

A file that ends in the last call is rejected if the parser then still waits.
With a feature it never does.  Without one, the function of the section of the
features ends the loop of its call, so the parser is only ready for the last
call if an earlier one had the data to their end.
-/

namespace SysAnalyzer.Parser

open Foundation List

namespace PerfDataParser

inductive Grows : SplitPiece → SplitPiece → Prop where
  | refl (piece : SplitPiece) : Grows piece piece
  | range (offset size further : Nat) :
    Grows (.json offset size) (.json offset (size + further))

theorem Grows.trans {piece other last : SplitPiece}
    (first : Grows piece other) (second : Grows other last) : Grows piece last := by
  cases first with
  | refl => exact second
  | range offset size further =>
    cases second with
    | refl => exact .range offset size further
    | range _ _ more =>
      rw [add_assoc]
      exact .range offset size (further + more)

/-- No piece of a result is withdrawn: each grows, and others come behind. -/
inductive Continues : List SplitPiece → List SplitPiece → Prop where
  | nil (more : List SplitPiece) : Continues [] more
  | cons {piece other : SplitPiece} {pieces others : List SplitPiece}
    (grows : Grows piece other) (continues : Continues pieces others) :
    Continues (piece :: pieces) (other :: others)

namespace Continues

variable (pieces : List SplitPiece)

theorem append (more : List SplitPiece) : Continues pieces (pieces ++ more) := by
  induction pieces with
  | nil => exact .nil more
  | cons piece pieces ih => exact .cons (.refl piece) ih

theorem refl : Continues pieces pieces := by
  have same := append pieces []
  rwa [append_nil] at same

theorem trans {pieces others last : List SplitPiece}
    (first : Continues pieces others) (second : Continues others last) : Continues pieces last := by
  induction first generalizing last with
  | nil => exact .nil last
  | cons grows _ ih =>
    cases second with
    | cons further continues => exact .cons (grows.trans further) (ih continues)

theorem concat {piece other : SplitPiece} (grows : Grows piece other) :
    Continues (pieces ++ [piece]) (pieces ++ [other]) := by
  induction pieces with
  | nil => exact .cons grows (.nil [])
  | cons first pieces ih => exact .cons (.refl first) ih

end Continues

theorem continues_extendJson (parser : PerfDataParser) (offset size : Nat) :
    Continues parser.splitResult (parser.extendJson offset size).splitResult := by
  rw [extendJson]
  split
  next lastOffset lastSize last =>
    split
    · rcases getLast?_eq_some_iff.1 last with ⟨front, whole⟩
      dsimp only
      rw [whole, dropLast_concat]
      exact Continues.concat front (.range lastOffset lastSize size)
    · exact Continues.append _ _
  · exact Continues.append _ _

theorem continues_takeRecord (parser : PerfDataParser) (window : SplitWindow)
    (place : Nat) (record : List UInt8) :
    Continues parser.splitResult (parser.takeRecord window place record).splitResult := by
  rw [takeRecord]
  dsimp only
  split
  · exact continues_extendJson
      { parser with
        splitDataEnd :=
          (needRecord window parser.sampleTimeOffset parser.splitDataEnd
            record).2 } _ _
  · exact Continues.refl _

/-- Where the parser is in the file in each of its states. -/
inductive Position (file : PerfFile) :
    PerfDataParser → (place : Nat) → Prop where
  | starting
    {parser : PerfDataParser}
    (state : parser.splitState = .starting) :
    Position file parser 0
  | parsingHead
    {parser : PerfDataParser}
    (state : parser.splitState = .parsingHead) :
    Position file parser 0
  | waitForAttr
    {parser : PerfDataParser} {place : Nat}
    (state : parser.splitState = .waitForAttr)
    (head : HeadRead file parser)
    (inFront : place ≤ PerfFileHeader.attrsOffset file.header) :
    Position file parser place
  | parsingAttr
    {parser : PerfDataParser}
    (state : parser.splitState = .parsingAttr)
    (head : HeadRead file parser) :
    Position file parser (PerfFileHeader.attrsOffset file.header)
  | waitForData
    {parser : PerfDataParser} {place : Nat}
    (state : parser.splitState = .waitForData)
    (head : HeadRead file parser)
    (inFront : place ≤ PerfFileHeader.dataOffset file.header) :
    Position file parser place
  | parsingData
    {parser : PerfDataParser} (done records : List (List UInt8))
    (state : parser.splitState = .parsingData)
    (head : HeadRead file parser)
    (split : file.records = done ++ records) :
    Position file parser (PerfFileHeader.dataOffset file.header + done.flatten.length)
  | parsingFeatureSection
    {parser : PerfDataParser}
    (state : parser.splitState = .parsingFeatureSection)
    (head : HeadRead file parser) :
    Position file parser file.dataEnd
  | waitForFinish
    {parser : PerfDataParser}
    (state : parser.splitState = .waitForFinish) :
    Position file parser (file.dataEnd + file.sections.length)

/-- A step goes on to the next position. -/
structure GoesOn (file : PerfFile) (parser : PerfDataParser)
    (buffer : List UInt8) (processedLen : Nat) (next : PerfDataParser)
    (processed : Nat) : Prop where
  position : Position file next (parser.processedLength + processed)
  processedLength : next.processedLength = parser.processedLength
  perfSplitError : next.perfSplitError = parser.perfSplitError
  continues : Continues parser.splitResult next.splitResult
  inside : processed ≤ buffer.length
  less : buffer.length - processed + SplitPerfState.left next.splitState <
    buffer.length - processedLen + SplitPerfState.left parser.splitState
  hasFeature : next.splitState = .waitForFinish → 0 < file.featureCount

/-- A step waits, for bytes that are still to come or for the end. -/
structure StandsStill (file : PerfFile) (parser : PerfDataParser)
    (buffer : List UInt8) (next : PerfDataParser) (processed : Nat) :
    Prop where
  position : Position file next (parser.processedLength + processed)
  processedLength : next.processedLength = parser.processedLength
  perfSplitError : next.perfSplitError = parser.perfSplitError
  continues : Continues parser.splitResult next.splitResult
  inside : processed ≤ buffer.length
  toCome : next.splitState ≠ .waitForFinish → parser.processedLength + buffer.length <
    file.dataEnd + file.sections.length
  noFeature : next.splitState = .waitForFinish →
    parser.splitState ≠ .waitForFinish → file.featureCount = 0

/-- A step goes on or waits. -/
def Moves (file : PerfFile) (parser : PerfDataParser) (buffer : List UInt8)
    (processedLen : Nat) : SplitStep → Prop
  | .again next processed => GoesOn file parser buffer processedLen next processed
  | .wait next processed => StandsStill file parser buffer next processed
  | .invalid _ => False

section Steps

variable {file : PerfFile} {window : SplitWindow} {parser : PerfDataParser}
  {buffer remaining : List UInt8} {processedLen : Nat}
  (presented : Presented file parser buffer remaining processedLen)
  (complete : file.Complete)

theorem standsStill_of_position {processed : Nat}
    (position : Position file parser (parser.processedLength + processed))
    (inside : processed ≤ buffer.length) (toCome : parser.processedLength + buffer.length <
      file.dataEnd + file.sections.length) : StandsStill file parser buffer parser processed where
  position := position
  processedLength := rfl
  perfSplitError := rfl
  continues := Continues.refl _
  inside := inside
  toCome _ := toCome
  noFeature ends notEnds := absurd ends notEnds

include presented complete

theorem splitPerfParsingHead_moves (start : parser.processedLength + processedLen = 0)
    (state : parser.splitState = .parsingHead) :
    Moves file parser buffer processedLen (parser.splitPerfParsingHead buffer) := by
  have dataEnd := complete.dataEnd_eq
  rcases Nat.add_eq_zero_iff.1 start with ⟨processed, fresh⟩
  rcases splitPerfParsingHead_cases presented complete start with
    ⟨short, waits⟩ | ⟨long, goes⟩
  · rw [waits]
    refine standsStill_of_position ?_ (Nat.zero_le _) (by omega)
    rw [processed]
    exact .parsingHead state
  · rw [goes]
    refine ⟨?_, rfl, rfl, Continues.append _ _, long, ?_, ?_⟩
    · rw [processed, zero_add]
      exact .waitForAttr rfl ⟨rfl, rfl⟩ complete.attrsBehindHeader
    · rw [state, fresh]
      simp only [SplitPerfState.left]
      omega
    · rintro ⟨⟩

theorem splitPerfWaitForAttr_moves (inFront :
    parser.processedLength + processedLen ≤ PerfFileHeader.attrsOffset file.header)
    (state : parser.splitState = .waitForAttr) (head : HeadRead file parser) :
    Moves file parser buffer processedLen (parser.splitPerfWaitForAttr buffer processedLen) := by
  have attrs := complete.attrsBeforeData
  have dataEnd : file.dataEnd = _ := rfl
  rw [PerfFile.dataEnd] at dataEnd
  have inside := presented.inside
  rcases splitPerfWaitForAttr_cases inFront head.header buffer with
    ⟨short, waits⟩ | ⟨long, goes⟩
  · rw [waits]
    refine standsStill_of_position ?_ (le_refl _) ?_
    · exact .waitForAttr state head (le_of_lt short)
    · rw [PerfFile.dataEnd]
      omega
  · rw [goes]
    refine ⟨?_, rfl, rfl, Continues.refl _, by omega, ?_, ?_⟩
    · rw [← add_assoc, Nat.add_sub_cancel' inFront]
      exact .parsingAttr rfl ⟨head.header, head.count⟩
    · rw [state]
      simp only [SplitPerfState.left]
      omega
    · rintro ⟨⟩

theorem splitPerfParsingAttr_moves (start :
    parser.processedLength + processedLen = PerfFileHeader.attrsOffset file.header)
    (state : parser.splitState = .parsingAttr) (head : HeadRead file parser) :
    Moves file parser buffer processedLen (parser.splitPerfParsingAttr buffer processedLen) := by
  have attrs := complete.attrsBeforeData
  rcases splitPerfParsingAttr_cases presented complete start head.header with
    ⟨short, waits⟩ | ⟨long, goes⟩
  · rw [waits]
    refine standsStill_of_position ?_ presented.inside ?_
    · rw [start]
      exact .parsingAttr state head
    · rw [PerfFile.dataEnd]
      omega
  · rw [goes]
    have some := complete.sampleTypeInAttr
    have more := complete.attrInAttrs
    refine ⟨?_, rfl, rfl, Continues.refl _, by omega, ?_, ?_⟩
    · rw [← add_assoc, start]
      exact .waitForData rfl ⟨head.header, head.count⟩ attrs
    · rw [state]
      simp only [SplitPerfState.left]
      omega
    · rintro ⟨⟩

omit complete in
theorem splitPerfWaitForData_moves (inFront :
    parser.processedLength + processedLen ≤ PerfFileHeader.dataOffset file.header)
    (state : parser.splitState = .waitForData) (head : HeadRead file parser) :
    Moves file parser buffer processedLen (parser.splitPerfWaitForData buffer processedLen) := by
  have inside := presented.inside
  rcases splitPerfWaitForData_cases inFront head.header buffer with
    ⟨short, waits⟩ | ⟨long, goes⟩
  · rw [waits]
    refine standsStill_of_position ?_ (le_refl _) ?_
    · exact .waitForData state head (le_of_lt short)
    · rw [PerfFile.dataEnd]
      omega
  · rw [goes]
    refine ⟨?_, rfl, rfl, Continues.append _ _, by omega, ?_, ?_⟩
    · rw [← add_assoc, Nat.add_sub_cancel' inFront]
      exact .parsingData [] file.records rfl ⟨head.header, head.count⟩ rfl
    · rw [state]
      simp only [SplitPerfState.left]
      omega
    · rintro ⟨⟩

theorem splitPerfParsingData_moves (addressable : file.bytes.length < 2 ^ 64)
    {done records : List (List UInt8)} (place : parser.processedLength + processedLen =
      PerfFileHeader.dataOffset file.header + done.flatten.length)
    (state : parser.splitState = .parsingData) (head : HeadRead file parser)
    (split : file.records = done ++ records) : Moves file parser buffer processedLen
      (parser.splitPerfParsingData window buffer processedLen) := by
  have dataEnd : file.dataEnd = PerfFileHeader.dataOffset file.header +
    (done.flatten.length + records.flatten.length) := by
    rw [PerfFile.dataEnd, complete.dataSize, split, flatten_append, length_append]
  cases records with
  | nil =>
    rw [flatten_nil, length_nil, add_zero, ← place] at dataEnd
    rw [splitPerfParsingData_end presented complete addressable window dataEnd.symm head.header]
    refine ⟨?_, rfl, rfl, Continues.refl _, presented.inside, ?_, ?_⟩
    · rw [← dataEnd]
      exact .parsingFeatureSection rfl ⟨head.header, head.count⟩
    · rw [state]
      exact Nat.lt_succ_self _
    · rintro ⟨⟩
  | cons record records =>
    have known : record ∈ file.records := by
      rw [split]
      exact mem_append_right _ mem_cons_self
    have some : 0 < record.length :=
      lt_of_lt_of_le (by decide) (complete.recordSize record known).1
    rw [flatten_cons, length_append] at dataEnd
    rcases splitPerfParsingData_cases presented complete addressable window
      place head.header split with
      ⟨short, waits⟩ | ⟨whole, goes⟩
    · rw [waits]
      refine standsStill_of_position ?_ presented.inside (by omega)
      rw [place]
      exact .parsingData done (record :: records) state head split
    · rw [goes]
      have nextState :=
        takeRecord_splitState parser window (parser.processedLength + processedLen) record
      refine ⟨?_, takeRecord_processedLength _ _ _ _,
        takeRecord_perfSplitError _ _ _ _, continues_takeRecord _ _ _ _,
        by omega, ?_, ?_⟩
      · have placeBehind : parser.processedLength + (processedLen + record.length) =
          PerfFileHeader.dataOffset file.header + (done ++ [record]).flatten.length := by
          rw [flatten_append, length_append, flatten_singleton]
          omega
        rw [placeBehind]
        refine .parsingData _ records (nextState.trans state) ?_ ?_
        · exact ⟨(takeRecord_perfHeader _ _ _ _).trans head.header,
            (takeRecord_featureCount _ _ _ _).trans head.count⟩
        · rw [split, append_assoc, singleton_append]
      · rw [nextState]
        omega
      · rw [nextState, state]
        rintro ⟨⟩

theorem splitPerfParsingFeatureSection_moves
    (place : parser.processedLength + processedLen = file.dataEnd)
    (state : parser.splitState = .parsingFeatureSection) (head : HeadRead file parser) :
    Moves file parser buffer processedLen
      (parser.splitPerfParsingFeatureSection buffer processedLen) := by
  rcases Nat.eq_zero_or_pos file.featureCount with none | some
  · have noSections : file.sections.length = 0 := by
      rw [complete.sectionsLength, none, zero_mul]
    rw [splitPerfParsingFeatureSection_none (head.count.trans none)]
    refine ⟨?_, rfl, rfl, Continues.refl _, presented.inside, ?_, ?_⟩
    · have ended : Position file { parser with splitState := .waitForFinish }
        (file.dataEnd + file.sections.length) :=
        .waitForFinish rfl
      rw [noSections, add_zero, ← place] at ended
      exact ended
    · exact fun notEnds => absurd rfl notEnds
    · exact fun _ _ => none
  · rcases splitPerfParsingFeatureSection_cases presented complete place head.count some with
      ⟨short, waits⟩ | ⟨there, goes⟩
    · rw [waits]
      refine standsStill_of_position ?_ presented.inside short
      rw [place]
      exact .parsingFeatureSection state head
    · rw [goes]
      refine ⟨?_, rfl, rfl, Continues.append _ _, by omega, ?_, ?_⟩
      · rw [← add_assoc, place]
        exact .waitForFinish rfl
      · rw [state]
        simp only [SplitPerfState.left, takeSections]
        omega
      · exact fun _ => some

theorem splitFunc_moves (addressable : file.bytes.length < 2 ^ 64) (position :
    Position file parser (parser.processedLength + processedLen)) :
    Moves file parser buffer processedLen (parser.splitFunc window buffer processedLen) := by
  generalize reached : parser.processedLength + processedLen = place
    at position
  cases position with
  | starting state =>
    rw [splitFunc, state]
    refine ⟨?_, rfl, rfl, ?_, presented.inside, ?_, ?_⟩
    · rw [reached]
      exact .parsingHead rfl
    · dsimp only
      split
      · exact Continues.append _ _
      · exact Continues.refl _
    · rw [state]
      exact Nat.lt_succ_self _
    · rintro ⟨⟩
  | parsingHead state =>
    rw [splitFunc, state]
    exact splitPerfParsingHead_moves presented complete reached state
  | waitForAttr state head inFront =>
    rw [splitFunc, state]
    exact splitPerfWaitForAttr_moves presented complete (reached ▸ inFront) state head
  | parsingAttr state head =>
    rw [splitFunc, state]
    exact splitPerfParsingAttr_moves presented complete reached state head
  | waitForData state head inFront =>
    rw [splitFunc, state]
    exact splitPerfWaitForData_moves presented (reached ▸ inFront) state head
  | parsingData done records state head split =>
    rw [splitFunc, state]
    exact splitPerfParsingData_moves presented complete addressable reached state head split
  | parsingFeatureSection state head =>
    rw [splitFunc, state]
    exact splitPerfParsingFeatureSection_moves presented complete reached state head
  | waitForFinish state =>
    rw [splitFunc, state]
    refine ⟨?_, rfl, rfl, Continues.refl _, presented.inside, ?_, ?_⟩
    · rw [reached]
      exact .waitForFinish state
    · exact fun notEnds => absurd state notEnds
    · exact fun _ notEnds => absurd state notEnds

end Steps

/-! ## Calls -/

theorem Position.congr {file : PerfFile} {parser other : PerfDataParser}
    {place : Nat} (position : Position file parser place)
    (state_eq : other.splitState = parser.splitState)
    (header_eq : other.perfHeader = parser.perfHeader)
    (count_eq : other.featureCount = parser.featureCount) : Position file other place := by
  have headRead (head : HeadRead file parser) : HeadRead file other :=
    ⟨header_eq.trans head.header, count_eq.trans head.count⟩
  cases position with
  | starting state => exact .starting (state_eq.trans state)
  | parsingHead state => exact .parsingHead (state_eq.trans state)
  | waitForAttr state head inFront =>
    exact .waitForAttr (state_eq.trans state) (headRead head) inFront
  | parsingAttr state head => exact .parsingAttr (state_eq.trans state) (headRead head)
  | waitForData state head inFront =>
    exact .waitForData (state_eq.trans state) (headRead head) inFront
  | parsingData done records state head split =>
    exact .parsingData done records (state_eq.trans state) (headRead head) split
  | parsingFeatureSection state head =>
    exact .parsingFeatureSection (state_eq.trans state) (headRead head)
  | waitForFinish state => exact .waitForFinish (state_eq.trans state)

theorem Position.finished {file : PerfFile} {parser : PerfDataParser}
    {place : Nat} (position : Position file parser place)
    (finish : parser.splitState = .waitForFinish) :
    place = file.dataEnd + file.sections.length := by
  cases position with
  | waitForFinish state => rfl
  | starting state
  | parsingHead state
  | waitForAttr state
  | parsingAttr state
  | waitForData state
  | parsingData _ _ state
  | parsingFeatureSection state => exact absurd (state.symm.trans finish) (by decide)

/-- What a call leaves that is not the last one. -/
structure CallMoves (file : PerfFile) (parser : PerfDataParser)
    (buffer : List UInt8) (called : PerfDataParser × Nat) : Prop where
  position : Position file called.1 called.1.processedLength
  processed : called.1.processedLength = parser.processedLength + called.2
  inside : called.2 ≤ buffer.length
  fine : called.1.perfSplitError = false
  continues : Continues parser.splitResult called.1.splitResult
  ready : called.1.splitState = .waitForFinish ↔ file.dataEnd + file.sections.length ≤
    parser.processedLength + buffer.length

structure LastCall (file : PerfFile) (parser : PerfDataParser)
    (buffer : List UInt8) (called : PerfDataParser × Nat) : Prop where
  fine : called.1.perfSplitError = false ↔
    0 < file.featureCount ∨ parser.splitState = .waitForFinish
  continues : called.1.perfSplitError = false → Continues parser.splitResult called.1.splitResult
  all : called.2 = buffer.length

section Calls

variable {file : PerfFile} {window : SplitWindow} {offset : Nat}

theorem splitLoop_moves (complete : file.Complete) (addressable : file.bytes.length < 2 ^ 64)
    {parser : PerfDataParser} {buffer remaining : List UInt8} {processedLen fuel : Nat}
    (presented : Presented file parser buffer remaining processedLen)
    (fine : parser.perfSplitError = false) (position :
      Position file parser (parser.processedLength + processedLen)) (enough :
      buffer.length - processedLen + SplitPerfState.left parser.splitState < fuel) :
    CallMoves file parser buffer (splitLoop window buffer false fuel parser processedLen) := by
  induction fuel generalizing parser processedLen with
  | zero => exact absurd enough (Nat.not_lt_zero _)
  | succ fuel induction =>
    have step : Moves file parser buffer processedLen
      (parser.splitFunc window buffer processedLen) :=
      splitFunc_moves presented complete addressable position
    rw [splitLoop, if_neg (fun finish => Bool.false_ne_true finish.1)]
    cases result : parser.splitFunc window buffer processedLen with
    | again next processed =>
      rw [result] at step
      have length := step.processedLength
      have less := step.less
      have call :=
        induction (presented.next length step.inside)
          (step.perfSplitError.trans fine) (length ▸ step.position)
          (by omega)
      exact ⟨call.position, length ▸ call.processed, call.inside,
        call.fine, step.continues.trans call.continues,
        length ▸ call.ready⟩
    | wait next processed =>
      rw [result] at step
      dsimp only
      rw [if_neg Bool.false_ne_true, step.processedLength]
      refine ⟨step.position.congr rfl rfl rfl, rfl, step.inside,
        step.perfSplitError.trans fine, step.continues, ?_⟩
      · constructor
        · intro finish
          rw [← step.position.finished finish]
          exact Nat.add_le_add_left step.inside _
        · intro there
          by_contra notEnds
          exact Nat.not_lt_of_le there (step.toCome notEnds)
    | invalid next =>
      rw [result] at step
      exact step.elim

theorem splitLoop_last (complete : file.Complete) (addressable : file.bytes.length < 2 ^ 64)
    {parser : PerfDataParser} {buffer : List UInt8} {processedLen fuel : Nat}
    (presented : Presented file parser buffer [] processedLen)
    (fine : parser.perfSplitError = false) (position :
      Position file parser (parser.processedLength + processedLen)) (enough :
      buffer.length - processedLen + SplitPerfState.left parser.splitState < fuel) :
    LastCall file parser buffer (splitLoop window buffer true fuel parser processedLen) := by
  induction fuel generalizing parser processedLen with
  | zero => exact absurd enough (Nat.not_lt_zero _)
  | succ fuel induction =>
    have step : Moves file parser buffer processedLen
      (parser.splitFunc window buffer processedLen) :=
      splitFunc_moves presented complete addressable position
    rw [splitLoop]
    by_cases finish : parser.splitState = .waitForFinish
    · rw [if_pos ⟨rfl, finish⟩]
      refine ⟨?_, fun _ => Continues.append _ _, rfl⟩
      simp only [finish, or_true, iff_true]
      exact fine
    · rw [if_neg (fun both => finish both.2)]
      cases result : parser.splitFunc window buffer processedLen with
      | again next processed =>
        rw [result] at step
        have length := step.processedLength
        have less := step.less
        have call :=
          induction (presented.next length step.inside)
            (step.perfSplitError.trans fine) (length ▸ step.position)
            (by omega)
        refine ⟨?_, fun isFine => step.continues.trans (call.continues isFine), call.all⟩
        rw [call.fine]
        simp only [finish, or_false]
        exact or_iff_left_of_imp step.hasFeature
      | wait next processed =>
        rw [result] at step
        have fileLength := complete.length_bytes
        have length := presented.length
        rw [length_nil] at length
        -- the whole file is there, so only the end is waited for
        have ends : next.splitState = .waitForFinish := by
          by_contra notEnds
          have short := step.toCome notEnds
          omega
        have none := step.noFeature ends finish
        refine ⟨?_, ?_, rfl⟩
        · simp [withdraw, none, finish]
        · rintro ⟨⟩
      | invalid next =>
        rw [result] at step
        exact step.elim

/-- A call leaves no error and withdraws nothing. -/
def Undisturbed (parser next : PerfDataParser) : Prop :=
  next.perfSplitError = false ∧ Continues parser.splitResult next.splitResult

/--
The calls for a file that comes in chunks, as `splitChunks` makes them, leave no
error and withdraw nothing, and the last one processes all that it gets.
-/
def Accepts (window : SplitWindow) (offset : Nat) :
    PerfDataParser → (rest : List UInt8) → List (List UInt8) → Prop
  | _, _, [] => True
  | parser, rest, [chunk] =>
    let split := parser.splitPerfData window (rest ++ chunk) offset true
    Undisturbed parser split.1 ∧ split.2 = (rest ++ chunk).length
  | parser, rest, chunk :: next :: chunks =>
    let split := parser.splitPerfData window (rest ++ chunk) offset false
    Undisturbed parser split.1 ∧ Accepts window offset split.1 ((rest ++ chunk).drop split.2)
      (next :: chunks)

/-- What holds between two calls. -/
structure Between (file : PerfFile) (parser : PerfDataParser)
    (rest : List UInt8) (remaining : List UInt8) : Prop where
  presented : Presented file parser rest remaining 0
  fine : parser.perfSplitError = false
  position : Position file parser parser.processedLength
  ready : parser.splitState = .waitForFinish ↔
    file.dataEnd + file.sections.length ≤ parser.processedLength + rest.length

variable {rest : List UInt8}

theorem Between.begun {parser : PerfDataParser} {remaining : List UInt8}
    (between : Between file parser rest remaining) :
    Between file (parser.begun offset) rest remaining := by
  rw [PerfDataParser.begun]
  split
  · have presented := between.presented
    exact ⟨⟨presented.read, presented.length, presented.inside⟩, rfl,
      between.position.congr rfl rfl rfl, between.ready⟩
  · exact between

theorem splitResult_begun (parser : PerfDataParser) (offset : Nat) :
    (parser.begun offset).splitResult = parser.splitResult := by
  rw [begun]
  split <;> rfl

theorem processedLength_begun (parser : PerfDataParser) (offset : Nat) :
    (parser.begun offset).processedLength = parser.processedLength := by
  rw [begun]
  split <;> rfl

variable {chunk : List UInt8}

theorem Between.take {parser : PerfDataParser} {remaining : List UInt8}
    (between : Between file parser rest (chunk ++ remaining)) :
    Presented file parser (rest ++ chunk) remaining 0 := by
  have length := between.presented.length
  rw [length_append] at length
  refine ⟨?_, ?_, Nat.zero_le _⟩
  · rw [between.presented.read, append_assoc]
  · rw [length_append]
    omega

theorem splitPerfData_moves (complete : file.Complete) (addressable : file.bytes.length < 2 ^ 64)
    {parser : PerfDataParser} {remaining : List UInt8}
    (between : Between file parser rest (chunk ++ remaining)) :
    CallMoves file (parser.begun offset) (rest ++ chunk)
      (parser.splitPerfData window (rest ++ chunk) offset false) := by
  have begun : Between file (parser.begun offset) rest (chunk ++ remaining) := between.begun
  rw [splitPerfData_eq begun.fine]
  exact splitLoop_moves complete addressable begun.take begun.fine begun.position (left_lt _ _)

theorem CallMoves.between {parser : PerfDataParser}
    {remaining : List UInt8} {called : PerfDataParser × Nat}
    (call : CallMoves file (parser.begun offset) (rest ++ chunk) called)
    (between : Between file parser rest (chunk ++ remaining)) :
    Between file called.1 ((rest ++ chunk).drop called.2) remaining := by
  have presented := between.take
  have whole := presented.length
  have length := call.processed
  have inside := call.inside
  rw [processedLength_begun] at length
  have ready := call.ready
  rw [processedLength_begun] at ready
  refine ⟨⟨?_, ?_, Nat.zero_le _⟩, call.fine, call.position, ?_⟩
  · rw [length, ← drop_drop, presented.read, drop_append_of_le_length inside]
  · rw [length, length_drop]
    omega
  · rw [ready, length, length_drop]
    omega

theorem splitPerfData_last (complete : file.Complete)
    (addressable : file.bytes.length < 2 ^ 64) {parser : PerfDataParser}
    (between : Between file parser rest (chunk ++ [])) :
    LastCall file (parser.begun offset) (rest ++ chunk)
      (parser.splitPerfData window (rest ++ chunk) offset true) := by
  have begun : Between file (parser.begun offset) rest (chunk ++ []) := between.begun
  rw [splitPerfData_eq begun.fine]
  exact splitLoop_last complete addressable begun.take begun.fine begun.position (left_lt _ _)

theorem accepts_iff (complete : file.Complete) (addressable : file.bytes.length < 2 ^ 64)
    {chunks : List (List UInt8)} (someChunk : chunks ≠ []) {parser : PerfDataParser}
    (between : Between file parser rest chunks.flatten) :
    Accepts window offset parser rest chunks ↔ 0 < file.featureCount ∨
      file.dataEnd + file.sections.length ≤ parser.processedLength + rest.length +
        chunks.dropLast.flatten.length := by
  induction chunks generalizing parser rest with
  | nil => exact absurd rfl someChunk
  | cons chunk chunks induction =>
    rw [flatten_cons] at between
    cases chunks with
    | nil =>
      have call : LastCall file (parser.begun offset) (rest ++ chunk)
        (parser.splitPerfData window (rest ++ chunk) offset true) :=
        splitPerfData_last complete addressable between
      have begun : Between file (parser.begun offset) rest (chunk ++ []) := between.begun
      have fine := call.fine
      have continues := call.continues
      rw [begun.ready, processedLength_begun] at fine
      rw [splitResult_begun] at continues
      rw [Accepts, dropLast_singleton, flatten_nil, length_nil, add_zero, ← fine]
      constructor
      · exact fun accepts => accepts.1.1
      · exact fun isFine => ⟨⟨isFine, continues isFine⟩, call.all⟩
    | cons next chunks =>
      have call : CallMoves file (parser.begun offset) (rest ++ chunk)
        (parser.splitPerfData window (rest ++ chunk) offset false) :=
        splitPerfData_moves complete addressable between
      rw [Accepts]
      generalize parser.splitPerfData window (rest ++ chunk) offset false = called
        at call ⊢
      have further := call.between between
      have length := call.processed
      have continues := call.continues
      have inside := call.inside
      rw [processedLength_begun] at length
      rw [splitResult_begun] at continues
      rw [length_append] at inside
      have undisturbed : Undisturbed parser called.1 := ⟨call.fine, continues⟩
      simp only [undisturbed, true_and]
      rw [induction (cons_ne_nil _ _) further, length,
        length_drop, length_append, dropLast_cons_cons,
        flatten_cons, length_append]
      have same : parser.processedLength + called.2 + (rest.length + chunk.length - called.2) +
        (next :: chunks).dropLast.flatten.length =
          parser.processedLength + rest.length + (chunk.length +
            (next :: chunks).dropLast.flatten.length) := by
        omega
      rw [same]

theorem initial_between (complete : file.Complete) (profilerHeader : Option (List UInt8)) :
    Between file (initial profilerHeader) [] file.bytes := by
  refine ⟨⟨drop_zero, zero_add _, le_refl _⟩, rfl, .starting rfl, ?_⟩
  constructor
  · rintro ⟨⟩
  · intro there
    have nothing : file.dataEnd + file.sections.length ≤ 0 := there
    have dataEnd := complete.dataEnd_eq
    rw [perfFileHeaderSize] at dataEnd
    omega

/--
No complete file is rejected that has a feature, and one without a feature is
not exactly when the data have come to their end before the last chunk.
-/
theorem initial_accepts_iff (file : PerfFile) (window : SplitWindow)
    (profilerHeader : Option (List UInt8)) (offset : Nat)
    (chunks : List (List UInt8)) (complete : file.Complete)
    (addressable : file.bytes.length < 2 ^ 64) (flat : chunks.flatten = file.bytes) :
    Accepts window offset (initial profilerHeader) [] chunks ↔ 0 < file.featureCount ∨
      file.dataEnd ≤ chunks.dropLast.flatten.length := by
  have someChunk : chunks ≠ [] := by
    intro none
    have fileLength := complete.length_bytes
    have dataEnd := complete.dataEnd_eq
    rw [← flat, none, flatten_nil, length_nil] at fileLength
    rw [perfFileHeaderSize] at dataEnd
    omega
  have between : Between file (initial profilerHeader) [] chunks.flatten := by
    rw [flat]
    exact initial_between complete profilerHeader
  have start : (initial profilerHeader).processedLength + ([] : List UInt8).length = 0 := rfl
  rw [accepts_iff complete addressable someChunk between, start, zero_add]
  rcases Nat.eq_zero_or_pos file.featureCount with none | some
  · have noSections : file.sections.length = 0 := by
      rw [complete.sectionsLength, none, zero_mul]
    rw [noSections, add_zero]
  · simp only [some, true_or]

end Calls

def featurelessFile : PerfFile where
  header :=
    perfMagic ++ littleEndianBytes 8 104 ++ littleEndianBytes 8 perfFileAttrSize ++
      littleEndianBytes 8 104 ++ littleEndianBytes 8 perfFileAttrSize ++
      littleEndianBytes 8 232 ++ littleEndianBytes 8 24 ++
      replicate 48 0
  preamble := replicate 24 0 ++ littleEndianBytes 8 4 ++ replicate 96 0
  records :=
    [littleEndianBytes 4 1 ++ [0, 0, 8, 0],
      littleEndianBytes 4 9 ++ [0, 0, 16, 0] ++ littleEndianBytes 8 20]
  sections := []
  tail := [7, 8]

theorem featurelessFile_complete : featurelessFile.Complete where
  headerLength := by decide
  magic := by decide
  attrsBehindHeader := by decide
  attrsBeforeData := by decide
  wholeAttr := by decide
  attrInAttrs := by decide
  attrCount := by decide
  samplesHaveTime := by decide
  dataOffset := by decide
  dataSize := by decide
  recordSize := by decide
  sectionsLength := by decide

set_option maxRecDepth 2000 in
theorem featurelessFile_length : featurelessFile.bytes.length = 258 := by decide

/-- The data are complete before the last chunk. -/
theorem featurelessFile_accepts : Accepts ⟨10, 15⟩ 1024 (initial none) []
    [featurelessFile.bytes.take 256, featurelessFile.bytes.drop 256] := by
  have whole : [featurelessFile.bytes.take 256, featurelessFile.bytes.drop 256].flatten =
    featurelessFile.bytes := by
    rw [flatten_cons, flatten_cons, flatten_nil, append_nil, take_append_drop]
  refine (initial_accepts_iff featurelessFile ⟨10, 15⟩ none 1024 _
    featurelessFile_complete (by rw [featurelessFile_length]; decide)
    whole).2 (Or.inr ?_)
  set_option maxRecDepth 2000 in decide

theorem featurelessFile_not_accepts : featurelessFile.Complete ∧
    ¬ Accepts ⟨10, 15⟩ 1024 (initial none) [] [featurelessFile.bytes] := by
  refine ⟨featurelessFile_complete, ?_⟩
  rw [accepts_iff featurelessFile_complete
    (by rw [featurelessFile_length]; decide) (cons_ne_nil _ _)
    (by
      rw [flatten_singleton]
      exact initial_between featurelessFile_complete none)]
  set_option maxRecDepth 2000 in decide

end PerfDataParser

end SysAnalyzer.Parser
