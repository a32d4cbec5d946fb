import SysAnalyzer.Parser.HtraceParser

/-!
# What the framing reads

Within a section of items the parser reads blocks: the header, then the length
of an item and the item in turn.  Each segment that it gets is read as far as
possible, and what is left is kept, so the items do not depend on how the file
is cut.
-/

namespace SysAnalyzer.Parser

open Foundation List

/-! ## The blocks -/

/-- Where the framing is in a file; behind an ebpf body it is lost. -/
inductive Phase where
  | header
  | segLength (left : UInt64)
  | item (nextLength : UInt32) (left : UInt64)
  | body (dataType : UInt32) (bodyLength : UInt64) (pluginName : List UInt8)
  | lost (body : List UInt8)

def HasOwnParser (dataType : UInt32) : Prop :=
  dataType = ProfilerTraceFileHeader.hiperfData ∨ dataType = ProfilerTraceFileHeader.standaloneData

instance (dataType : UInt32) : Decidable (HasOwnParser dataType) :=
  inferInstanceAs (Decidable (_ ∨ _))

def ValidHeader (header : List UInt8) : Prop :=
  UInt64.ofNat packetHeaderLength < ProfilerTraceFileHeader.length header ∧
    ProfilerTraceFileHeader.magic header = ProfilerTraceFileHeader.headerMagic

instance (header : List UInt8) : Decidable (ValidHeader header) :=
  inferInstanceAs (Decidable (_ ∧ _))

def behindHeader (header : List UInt8) : Phase :=
  let dataType := ProfilerTraceFileHeader.dataType header
  let bodyLength := ProfilerTraceFileHeader.length header - UInt64.ofNat packetHeaderLength
  if HasOwnParser dataType then
    .body dataType bodyLength (ProfilerTraceFileHeader.standalonePluginName header)
  else .segLength bodyLength

/-- The blocks of a file: headers, lengths of items, items and bodies. -/
def sectionReader : BlockReader Phase UInt8 Handed where
  need
    | .header => packetHeaderLength
    | .segLength _ => packetSegLength
    | .item nextLength _ => nextLength.toNat
    | .body _ bodyLength _ => bodyLength.toNat
    | .lost _ => 0
  accept
    | .header, block => if ValidHeader block then some (behindHeader block, []) else none
    | .segLength left, block =>
      some (.item (UInt32.ofNat (littleEndian block)) (left - UInt64.ofNat packetSegLength), [])
    | .item nextLength left, block =>
      let behind := left - nextLength.toUInt64
      some (if behind = 0 then .header else .segLength behind, [.traceDataItem block])
    | .body dataType _ pluginName, block =>
      if dataType = ProfilerTraceFileHeader.hiperfData then some (.header, [.perfData block])
      else if pluginName = ebpfPluginName then some (.lost block, [.ebpfData block])
      else none
    | .lost _, _ => none

/-- Behind a body the parser leaves what it has got to the next call. -/
def Phase.Pauses : Phase → Prop
  | .body _ _ _ => True
  | _ => False

namespace HtraceParser

def phase (parser : HtraceParser) : Phase :=
  if parser.hasGotHeader then
    if HasOwnParser parser.profilerDataType then
      .body parser.profilerDataType parser.bodyLength parser.standalonePluginName
    else if parser.hasGotSegLength then .item parser.nextLength parser.htraceCurentLength
    else .segLength parser.htraceCurentLength
  else .header

variable {parser : HtraceParser}

theorem phase_header (noHeader : parser.hasGotHeader = false) : parser.phase = .header := by
  rw [phase, if_neg (ne_true_of_eq_false noHeader)]

section

variable (hasHeader : parser.hasGotHeader = true)
include hasHeader

theorem phase_body (own : HasOwnParser parser.profilerDataType) :
    parser.phase = .body parser.profilerDataType parser.bodyLength parser.standalonePluginName := by
  rw [phase, if_pos hasHeader, if_pos own]

theorem phase_segLength (notOwn : ¬ HasOwnParser parser.profilerDataType)
    (noLength : parser.hasGotSegLength = false) :
    parser.phase = .segLength parser.htraceCurentLength := by
  rw [phase, if_pos hasHeader, if_neg notOwn, if_neg (ne_true_of_eq_false noLength)]

theorem phase_item (notOwn : ¬ HasOwnParser parser.profilerDataType)
    (hasLength : parser.hasGotSegLength = true) :
    parser.phase = .item parser.nextLength parser.htraceCurentLength := by
  rw [phase, if_pos hasHeader, if_neg notOwn, if_pos hasLength]

end

/-- The length of an item is known only within a section of items. -/
def Framed (parser : HtraceParser) : Prop :=
  parser.hasGotSegLength = true →
    parser.hasGotHeader = true ∧ ¬ HasOwnParser parser.profilerDataType

/-- What `ParseTraceDataSegment` does with the result. -/
def finish (parsed : Bool × HtraceParser × List UInt8) : HtraceParser :=
  if parsed.1 then { parsed.2.1 with packagesBuffer := parsed.2.2 }
  else parsed.2.1

/-- The parser has lost its place: it is about to read a header from a body. -/
def Lost (phase : Phase) (parser : HtraceParser) : Prop :=
  ∃ body rest, phase = .lost body ∧ parser.hasGotHeader = false ∧
    parser.packagesBuffer = body ++ rest

/-- The blocks are read up to where none is complete, or behind a body. -/
def Parses (parser : HtraceParser) (packagesBegin : List UInt8)
    (parsed : Bool × HtraceParser × List UInt8) : Prop :=
  ∃ (events : List Handed) (next : Phase) (left : List UInt8),
    (finish parsed).handed = parser.handed ++ events ∧
      sectionReader.Burst Phase.Pauses parser.phase packagesBegin events next
        left ∧
      ((finish parsed).Framed ∧ (finish parsed).phase = next ∧
        (finish parsed).packagesBuffer = left ∨
        Lost next (finish parsed))

variable {packagesBegin : List UInt8}
  {parsed : Bool × HtraceParser × List UInt8}

theorem Parses.of_block {next : HtraceParser} {block behind : List UInt8}
    {events : List Handed} (split : packagesBegin = block ++ behind)
    (length : block.length = sectionReader.need parser.phase) (accepted :
      sectionReader.accept parser.phase block = some (next.phase, events))
    (unpaused : ¬ parser.phase.Pauses) (parses : next.Parses behind parsed)
    (handed : next.handed = parser.handed ++ events) : parser.Parses packagesBegin parsed := by
  rcases parses with ⟨more, last, left, moreHanded, burst, outcome⟩
  subst split
  refine ⟨events ++ more, last, left, ?_, .block length accepted unpaused burst, outcome⟩
  rw [moreHanded, handed, append_assoc]

theorem Parses.of_settled (settled : sectionReader.Settled parser.phase packagesBegin)
    (framed : parser.Framed) (finished :
      finish parsed = { parser with packagesBuffer := packagesBegin }) :
    parser.Parses packagesBegin parsed := by
  refine ⟨[], parser.phase, packagesBegin, ?_, .settled settled, .inl ?_⟩
  · rw [finished, append_nil]
  · rw [finished]
    exact ⟨framed, rfl, rfl⟩

theorem validHeader_iff (header : List UInt8) :
    ¬ (ProfilerTraceFileHeader.length header ≤ UInt64.ofNat packetHeaderLength ∨
      ProfilerTraceFileHeader.magic header ≠ ProfilerTraceFileHeader.headerMagic) ↔
      ValidHeader header := by
  unfold ValidHeader
  rw [not_or, UInt64.not_le, not_not]

theorem settled_of_init (noHeader : parser.hasGotHeader = false)
    (refused : parser.initProfilerTraceFileHeader = none) :
    sectionReader.Settled parser.phase parser.packagesBuffer := by
  rw [phase_header noHeader]
  unfold initProfilerTraceFileHeader at refused
  dsimp only at refused
  split at refused
  · rename_i short
    exact .inl short
  · split at refused
    · rename_i invalid
      refine .inr (if_neg ?_)
      rw [← validHeader_iff, not_not]
      exact invalid
    · cases refused

variable {inited : HtraceParser}

theorem accept_header (noLength : parser.hasGotSegLength = false)
    (isInited : parser.initProfilerTraceFileHeader = some inited) :
    (parser.packagesBuffer.take packetHeaderLength).length = packetHeaderLength ∧
      sectionReader.accept .header (parser.packagesBuffer.take packetHeaderLength) =
        some (inited.gotHeader.phase, []) ∧
      inited.gotHeader.packagesBuffer = parser.packagesBuffer.drop packetHeaderLength ∧
      inited.gotHeader.handed = parser.handed ++ [] ∧
      inited.gotHeader.Framed := by
  unfold initProfilerTraceFileHeader at isInited
  dsimp only at isInited
  split at isInited
  · cases isInited
  · rename_i enough
    split at isInited
    · cases isInited
    · rename_i valid
      rw [validHeader_iff] at valid
      cases isInited
      refine ⟨length_take_of_le (not_lt.1 enough), ?_, rfl, (append_nil _).symm, ?_⟩
      · simp only [sectionReader, valid, if_true, behindHeader, phase,
          gotHeader, bodyLength, noLength, Bool.false_eq_true, if_false]
      · intro known
        simp only [gotHeader, noLength, Bool.false_eq_true] at known

theorem parses_header (noHeader : parser.hasGotHeader = false)
    (noLength : parser.hasGotSegLength = false)
    (isInited : parser.initProfilerTraceFileHeader = some inited) (parses :
      inited.gotHeader.packagesBuffer = parser.packagesBuffer.drop packetHeaderLength →
        inited.gotHeader.Framed → inited.gotHeader.Parses
          (parser.packagesBuffer.drop packetHeaderLength) parsed) :
    parser.Parses parser.packagesBuffer parsed := by
  have atHeader := phase_header noHeader
  rcases accept_header noLength isInited with
    ⟨length, accepted, left, handed, framed⟩
  rw [← atHeader] at accepted
  refine .of_block (take_append_drop _ _).symm ?_ accepted ?_ (parses left framed) handed
  · rw [atHeader]
    exact length
  · rw [atHeader]
    exact not_false

theorem bodyLength_pos (isInited : parser.initProfilerTraceFileHeader = some inited) :
    0 < inited.gotHeader.bodyLength.toNat := by
  unfold initProfilerTraceFileHeader at isInited
  dsimp only at isInited
  split at isInited
  · cases isInited
  · split at isInited
    · cases isInited
    · rename_i valid
      rw [validHeader_iff] at valid
      cases isInited
      have long := UInt64.lt_iff_toNat_lt.1 valid.1
      refine (Nat.sub_pos_of_lt long).trans_eq ?_
      exact (UInt64.toNat_sub_of_le _ _ (UInt64.le_of_lt valid.1)).symm

theorem settled_of_nil (hasHeader : parser.hasGotHeader = true)
    (noLength : parser.hasGotSegLength = false) (long : 0 < parser.bodyLength.toNat) :
    sectionReader.Settled parser.phase [] := by
  by_cases own : HasOwnParser parser.profilerDataType
  · rw [phase_body hasHeader own]
    exact .inl long
  · rw [phase_segLength hasHeader own noLength]
    exact .inl (Nat.succ_pos 3)

theorem own_length (framed : parser.Framed) (own : HasOwnParser parser.profilerDataType) :
    parser.hasGotSegLength = false := by
  rw [← Bool.not_eq_true]
  intro known
  exact (framed known).2 own

section

variable (hasHeader : parser.hasGotHeader = true)
include hasHeader

theorem parses_short (own : HasOwnParser parser.profilerDataType) (framed : parser.Framed)
    (short : parser.packagesBuffer.length < parser.bodyLength.toNat) :
    parser.Parses parser.packagesBuffer (parser.parseBody parser.packagesBuffer) := by
  have incomplete := not_le.2 short
  have finished : finish (parser.parseBody parser.packagesBuffer) = parser := by
    rw [parseBody, parseHiperfData, calcEbpfCutOffset, if_neg incomplete,
      if_neg (not_and.2 fun _ => incomplete)]
    rcases own with isPerf | isStandalone
    · rw [if_pos isPerf]
      rfl
    · rw [if_neg (by rw [isStandalone]; decide), if_pos isStandalone]
      rfl
  refine .of_settled (.inl ?_) framed finished
  rw [phase_body hasHeader own]
  exact short

theorem parses_perf (isPerf : parser.profilerDataType = ProfilerTraceFileHeader.hiperfData)
    (framed : parser.Framed) (complete : parser.bodyLength.toNat ≤ parser.packagesBuffer.length) :
    parser.Parses parser.packagesBuffer (parser.parseBody parser.packagesBuffer) := by
  have burst : sectionReader.Burst Phase.Pauses parser.phase parser.packagesBuffer
    [.perfData (parser.packagesBuffer.take parser.bodyLength.toNat)]
    .header (parser.packagesBuffer.drop parser.bodyLength.toNat) := by
    rw [phase_body hasHeader (.inl isPerf)]
    nth_rewrite 1 [ ← take_append_drop parser.bodyLength.toNat parser.packagesBuffer]
    exact .pause (length_take_of_le complete) (if_pos isPerf) trivial
  rw [parseBody, if_pos isPerf, parseHiperfData, if_pos complete]
  refine ⟨_, _, _, rfl, burst, .inl ⟨fun known => ?_, rfl, rfl⟩⟩
  have unknown := own_length framed (.inl isPerf)
  exact absurd (unknown.symm.trans known) Bool.false_ne_true

theorem parses_standalone (isStandalone :
    parser.profilerDataType = ProfilerTraceFileHeader.standaloneData) (framed : parser.Framed)
    (complete : parser.bodyLength.toNat ≤ parser.packagesBuffer.length) :
    parser.Parses parser.packagesBuffer (parser.parseBody parser.packagesBuffer) := by
  have split := take_append_drop parser.bodyLength.toNat parser.packagesBuffer
  have atBody := phase_body hasHeader (.inr isStandalone)
  have notPerf : parser.profilerDataType ≠ ProfilerTraceFileHeader.hiperfData := by
    rw [isStandalone]
    decide
  rw [parseBody, if_neg notPerf, if_pos isStandalone, calcEbpfCutOffset]
  by_cases isEbpf : parser.standalonePluginName = ebpfPluginName
  · have burst : sectionReader.Burst Phase.Pauses parser.phase parser.packagesBuffer
      [.ebpfData (parser.packagesBuffer.take parser.bodyLength.toNat)]
      (.lost (parser.packagesBuffer.take parser.bodyLength.toNat))
      (parser.packagesBuffer.drop parser.bodyLength.toNat) := by
      rw [atBody]
      nth_rewrite 1 [← split]
      exact .pause (length_take_of_le complete) ((if_neg notPerf).trans (if_pos isEbpf)) trivial
    rw [if_pos ⟨isEbpf, complete⟩]
    exact ⟨_, _, _, rfl, burst, .inr ⟨_, _, rfl, rfl, split.symm⟩⟩
  · rw [if_neg (not_and.2 fun same => absurd same isEbpf)]
    refine .of_settled (.inr ?_) framed rfl
    rw [atBody]
    exact (if_neg notPerf).trans (if_neg isEbpf)

theorem parses_own (own : HasOwnParser parser.profilerDataType) (framed : parser.Framed) :
    parser.Parses parser.packagesBuffer (parser.parseBody parser.packagesBuffer) := by
  rcases lt_or_ge parser.packagesBuffer.length parser.bodyLength.toNat
    with short | complete
  · exact parses_short hasHeader own framed short
  · rcases own with isPerf | isStandalone
    · exact parses_perf hasHeader isPerf framed complete
    · exact parses_standalone hasHeader isStandalone framed complete

end

theorem parseDataRecursively_none (noHeader : parser.hasGotHeader = false)
    (refused : parser.initProfilerTraceFileHeader = none) :
    parser.parseDataRecursively packagesBegin = (false, parser, packagesBegin) := by
  rw [parseDataRecursively, if_neg (ne_true_of_eq_false noHeader)]
  split
  · rfl
  · rename_i found
    rw [refused] at found
    cases found

theorem parseDataRecursively_some (noHeader : parser.hasGotHeader = false)
    (isInited : parser.initProfilerTraceFileHeader = some inited) :
    parser.parseDataRecursively packagesBegin =
      if (packagesBegin.drop packetHeaderLength).length = 0 then
        (false, inited.gotHeader, packagesBegin.drop packetHeaderLength) else
        inited.gotHeader.parseBody (packagesBegin.drop packetHeaderLength) := by
  rw [parseDataRecursively, if_neg (ne_true_of_eq_false noHeader)]
  split
  · rename_i found
    rw [isInited] at found
    cases found
  · rename_i found
    rw [isInited, Option.some.injEq] at found
    subst found
    rfl

theorem framed_length (framed : parser.Framed) (noHeader : parser.hasGotHeader = false) :
    parser.hasGotSegLength = false := by
  rw [← Bool.not_eq_true]
  intro known
  rw [(framed known).1] at noHeader
  cases noHeader

theorem parses_segLength (hasHeader : parser.hasGotHeader = true)
    (notOwn : ¬ HasOwnParser parser.profilerDataType) (noLength : parser.hasGotSegLength = false)
    (enough : ¬ packagesBegin.length < packetSegLength) (parses :
      (parser.gotSegLength packagesBegin).Parses (packagesBegin.drop packetSegLength) parsed) :
    parser.Parses packagesBegin parsed := by
  have before := phase_segLength hasHeader notOwn noLength
  have after : (parser.gotSegLength packagesBegin).phase = .item _ _ :=
    phase_item hasHeader notOwn rfl
  refine .of_block (take_append_drop _ _).symm ?_ ?_ ?_ parses (append_nil _).symm
  · rw [before]
    exact length_take_of_le (not_lt.1 enough)
  · rw [before, after]
    rfl
  · rw [before]
    exact not_false

theorem parses_item {next : HtraceParser} (hasHeader : parser.hasGotHeader = true)
    (notOwn : ¬ HasOwnParser parser.profilerDataType) (hasLength : parser.hasGotSegLength = true)
    (enough : ¬ packagesBegin.length < parser.nextLength.toNat) (parses :
      next.Parses (packagesBegin.drop parser.nextLength.toNat) parsed)
    (handed : next.handed = (parser.gotItem packagesBegin).handed) (nextPhase : next.phase =
      if (parser.gotItem packagesBegin).htraceCurentLength = 0 then .header else
        .segLength (parser.gotItem packagesBegin).htraceCurentLength) :
    parser.Parses packagesBegin parsed := by
  have before := phase_item hasHeader notOwn hasLength
  refine .of_block (take_append_drop _ _).symm ?_ ?_ ?_ parses handed
  · rw [before]
    exact length_take_of_le (not_lt.1 enough)
  · rw [before, nextPhase]
    rfl
  · rw [before]
    exact not_false

/-- The loop reads the blocks that the buffer holds, as `sectionReader` does. -/
theorem parses (parser : HtraceParser) (packagesBegin : List UInt8)
    (framed : parser.Framed) (atStart : parser.packagesBuffer = packagesBegin) :
    parser.Parses packagesBegin (parser.parseDataRecursively packagesBegin) := by
  revert framed atStart
  revert parser packagesBegin
  refine (parseDataRecursively.mutual_induct (fun parser packagesBegin =>
    parser.Framed → parser.packagesBuffer = packagesBegin → parser.Parses packagesBegin
      (parser.parseDataRecursively packagesBegin))
    (fun parser packagesBegin =>
      parser.hasGotHeader = true → parser.Framed → parser.packagesBuffer = packagesBegin →
        parser.Parses packagesBegin (parser.parseBody packagesBegin))
    (fun parser packagesBegin =>
      parser.hasGotHeader = true → ¬ HasOwnParser parser.profilerDataType →
        parser.Parses packagesBegin (parser.parseItems packagesBegin))
    (fun parser packagesBegin =>
      parser.hasGotHeader = true → ¬ HasOwnParser parser.profilerDataType →
        parser.hasGotSegLength = true →
          parser.Parses packagesBegin (parser.parseItem packagesBegin))
    ?_ ?_ ?_ ?_ ?_ ?_ ?_ ?_ ?_ ?_ ?_ ?_ ?_).1
  -- the header of the section
  · intro parser packagesBegin hasHeader induction framed atStart
    rw [parseDataRecursively, if_pos hasHeader]
    exact induction hasHeader framed atStart
  · intro parser packagesBegin noHeader refused framed atStart
    subst atStart
    rw [Bool.not_eq_true] at noHeader
    rw [parseDataRecursively_none noHeader refused]
    exact .of_settled (settled_of_init noHeader refused) framed rfl
  · intro parser packagesBegin noHeader inited isInited behind none framed atStart
    subst atStart
    rw [Bool.not_eq_true] at noHeader
    have noLength := framed_length framed noHeader
    have nothing : parser.packagesBuffer.drop packetHeaderLength = [] :=
      eq_nil_of_length_eq_zero none
    have settled : sectionReader.Settled inited.gotHeader.phase [] :=
      settled_of_nil rfl ((hasGotSegLength_of_init isInited).trans noLength)
        (bodyLength_pos isInited)
    rw [parseDataRecursively_some noHeader isInited, if_pos none]
    refine parses_header noHeader noLength isInited fun left stillFramed => ?_
    rw [nothing] at left ⊢
    refine .of_settled settled stillFramed ?_
    rw [← left]
    rfl
  · intro parser packagesBegin noHeader inited isInited behind some induction framed atStart
    subst atStart
    rw [Bool.not_eq_true] at noHeader
    rw [parseDataRecursively_some noHeader isInited, if_neg some]
    refine parses_header noHeader (framed_length framed noHeader) isInited
      fun left stillFramed => ?_
    exact induction rfl stillFramed left
  -- the type of the section
  · intro parser packagesBegin isPerf hasHeader framed atStart
    subst atStart
    exact parses_own hasHeader (.inl isPerf) framed
  · intro parser packagesBegin notPerf isStandalone hasHeader framed atStart
    subst atStart
    exact parses_own hasHeader (.inr isStandalone) framed
  · intro parser packagesBegin notPerf notStandalone induction hasHeader _ _
    rw [parseBody, if_neg notPerf, if_neg notStandalone]
    exact induction hasHeader (not_or.2 ⟨notPerf, notStandalone⟩)
  -- the loop
  · intro parser packagesBegin hasLength induction hasHeader notOwn
    rw [parseItems, if_pos hasLength]
    exact induction hasHeader notOwn hasLength
  · intro parser packagesBegin noLength short hasHeader notOwn
    rw [parseItems, if_neg noLength, if_pos short]
    rw [Bool.not_eq_true] at noLength
    refine .of_settled (.inl ?_) (fun known => ⟨hasHeader, notOwn⟩) rfl
    rw [phase_segLength hasHeader notOwn noLength]
    exact short
  · intro parser packagesBegin noLength enough induction hasHeader notOwn
    rw [parseItems, if_neg noLength, if_neg enough]
    rw [Bool.not_eq_true] at noLength
    exact parses_segLength hasHeader notOwn noLength enough (induction hasHeader notOwn rfl)
  · intro parser packagesBegin short hasHeader notOwn hasLength
    rw [parseItem, if_pos short]
    refine .of_settled (.inl ?_) (fun known => ⟨hasHeader, notOwn⟩) rfl
    rw [phase_item hasHeader notOwn hasLength]
    exact short
  · intro parser packagesBegin enough got behind ended induction hasHeader notOwn hasLength
    rw [parseItem, if_neg enough, if_pos ended]
    refine parses_item hasHeader notOwn hasLength enough
      (induction (fun known => by cases known) rfl) rfl ?_
    rw [if_pos ended]
    rfl
  · intro parser packagesBegin enough got behind more induction hasHeader notOwn hasLength
    rw [parseItem, if_neg enough, if_neg more]
    refine parses_item hasHeader notOwn hasLength enough (induction hasHeader notOwn) rfl ?_
    rw [if_neg more]
    exact phase_segLength hasHeader notOwn rfl

theorem feeds : sectionReader.Feeds Phase.Pauses parseTraceDataSegment phase
    packagesBuffer handed Framed Lost where
  burst parser bufferStr framed :=
    parses { parser with packagesBuffer := parser.packagesBuffer ++ bufferStr } _ framed rfl
  dead := by
    rintro _ parser ⟨body, rest, rfl, _, _⟩ block
    rfl

end HtraceParser

end SysAnalyzer.Parser
