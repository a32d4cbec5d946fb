import SysAnalyzer.Parser.PerfSplitSteps

/-!
# What a split is

The pieces of a file that was split are put together and compared with the
split of the file.  They are the same when the offset of the file in the input
is stored as it is and the two bounds of the window are tested in an order that
does not matter.
-/

namespace SysAnalyzer.Parser

open Foundation List Option

namespace PerfFile

/-! ## The order of the two bounds -/

def EndsData (file : PerfFile) (window : SplitWindow) (record : List UInt8) : Prop :=
  IsSample record ∧ window.minTime ≤ file.time record ∧ window.maxTime < file.time record

instance decidableEndsData (file : PerfFile) (window : SplitWindow)
    (record : List UInt8) : Decidable (file.EndsData window record) :=
  inferInstanceAs (Decidable (_ ∧ _ ∧ _))

/--
The records from the first sample that is later than the window to the first
one that ends the data.
-/
def recordsBetween (file : PerfFile) (window : SplitWindow) : List (List UInt8) :=
  (file.records.dropWhile fun record =>
    decide (¬ file.IsLate window record)).takeWhile fun record =>
      decide (¬ file.EndsData window record)

/-- No record behind the window is kept because a sample there is early, too. -/
def WindowAgrees (file : PerfFile) (window : SplitWindow) : Prop :=
  ∀ record ∈ file.recordsBetween window, ¬ file.InWindow window record

theorem windowAgrees_of_le (file : PerfFile) {window : SplitWindow}
    (ordered : window.minTime ≤ window.maxTime) : file.WindowAgrees window := by
  have none : file.recordsBetween window = [] := by
    rw [recordsBetween]
    generalize behind : (file.records.dropWhile fun record =>
      decide (¬ file.IsLate window record)) = records
    cases records with
    | nil => rfl
    | cons record records =>
      have late : file.IsLate window record := by
        have first := head?_dropWhile_not
          (fun record => decide (¬ file.IsLate window record)) file.records
        rw [behind, head?_cons] at first
        simpa using first
      have ends : file.EndsData window record :=
        ⟨late.1, le_of_lt (lt_of_le_of_lt ordered late.2), late.2⟩
      rw [takeWhile_cons, if_neg]
      simpa using ends
  intro record present
  rw [none] at present
  exact absurd present not_mem_nil

end PerfFile

namespace PerfDataParser

open PerfFile

variable {file : PerfFile} {window : SplitWindow}

theorem sampleTime_eq {record : List UInt8} (inside : file.timePlace + 8 ≤ record.length) :
    sampleTime (sampleTimeOffsetOf file.sampleType) record = file.time record := by
  rw [timePlace] at inside
  rw [sampleTime, word_append_left, word_drop, time, timePlace]
  rw [length_drop]
  omega

theorem needRecord_eq {record : List UInt8}
    (inside : IsSample record → file.timePlace + 8 ≤ record.length) :
    needRecord window (sampleTimeOffsetOf file.sampleType) false record =
      (decide (file.InWindow window record), decide (file.EndsData window record)) := by
  rw [needRecord, if_neg Bool.false_ne_true]
  split
  next sample =>
    have isSample : IsSample record := sample
    rw [sampleTime_eq (inside isSample)]
    simp only [InWindow, EndsData, isSample, true_implies, true_and]
    split
    next early => simp [Nat.not_le_of_lt early]
    next notEarly =>
      split
      next late => simp [Nat.le_of_not_lt notEarly, late]
      next notLate => simp [Nat.le_of_not_lt notEarly, Nat.le_of_not_lt notLate, notLate]
  next notSample =>
    have noSample : ¬ IsSample record := notSample
    simp [InWindow, EndsData, noSample]

theorem keptRecords_ended (sampleTimeOffset : Nat) (records : List (List UInt8)) :
    keptRecords window sampleTimeOffset true records = [] := by
  induction records with
  | nil => rfl
  | cons record records induction =>
    rw [keptRecords]
    exact induction

theorem keptRecords_eq {records : List (List UInt8)} (inside :
    ∀ record ∈ records, IsSample record → file.timePlace + 8 ≤ record.length) :
    keptRecords window (sampleTimeOffsetOf file.sampleType) false records =
      (records.takeWhile fun record =>
        decide (¬ file.EndsData window record)).filter fun record =>
          decide (file.InWindow window record) := by
  induction records with
  | nil => rfl
  | cons record records induction =>
    have others :=
      induction fun record present => inside record (mem_cons_of_mem _ present)
    rw [keptRecords, needRecord_eq (inside record mem_cons_self), takeWhile_cons]
    by_cases ends : file.EndsData window record
    · have apart : ¬ file.InWindow window record := fun inWindow =>
        Nat.not_le_of_lt ends.2.2 (inWindow ends.1).2
      simp [ends, apart, keptRecords_ended]
    · by_cases inWindow : file.InWindow window record <;> simp [ends, inWindow, others]

theorem takeWhile_append_takeWhile {alpha : Type} {stronger weaker : alpha → Bool}
    (implies : ∀ item, stronger item = true → weaker item = true) (items : List alpha) :
    items.takeWhile weaker = items.takeWhile stronger ++
      (items.dropWhile stronger).takeWhile weaker := by
  induction items with
  | nil => rfl
  | cons item items induction =>
    by_cases strong : stronger item = true
    · rw [takeWhile_cons_of_pos (implies item strong), takeWhile_cons_of_pos strong,
        dropWhile_cons_of_pos strong, induction, cons_append]
    · rw [takeWhile_cons_of_neg strong, dropWhile_cons_of_neg strong, nil_append]

theorem keptOf_eq (wellFormed : file.WellFormed) (window : SplitWindow) :
    keptOf file window = file.recordsIn window ++ (file.recordsBetween window).filter fun record =>
      decide (file.InWindow window record) := by
  have implies : ∀ record, decide (¬ file.IsLate window record) = true →
    decide (¬ file.EndsData window record) = true := by
    intro record notLate
    rw [decide_eq_true_iff] at notLate ⊢
    exact fun ends => notLate ⟨ends.1, ends.2.2⟩
  rw [keptOf, keptRecords_eq wellFormed.timeInRecord,
    takeWhile_append_takeWhile implies, filter_append]
  rfl

theorem keptOf_of_agrees (wellFormed : file.WellFormed) (agrees : file.WindowAgrees window) :
    keptOf file window = file.recordsIn window := by
  have none : ((file.recordsBetween window).filter fun record =>
    decide (file.InWindow window record)) = [] := by
    rw [filter_eq_nil_iff]
    intro record present
    rw [decide_eq_true_iff]
    exact agrees record present
  rw [keptOf_eq wellFormed, none, append_nil]

theorem agrees_of_length (wellFormed : file.WellFormed) (length :
    (keptOf file window).flatten.length =
      (file.recordsIn window).flatten.length) : file.WindowAgrees window := by
  rw [keptOf_eq wellFormed, flatten_append, length_append] at length
  intro record present inWindow
  have kept : record ∈ (file.recordsBetween window).filter fun record =>
    decide (file.InWindow window record) :=
    mem_filter.2 ⟨present, decide_eq_true inWindow⟩
  have known : record ∈ file.records :=
    (dropWhile_sublist _).subset ((takeWhile_sublist _).subset present)
  have long := (wellFormed.recordSize record known).1
  have inside := (sublist_flatten_of_mem kept).length_le
  rw [perfEventHeaderSize] at long
  omega

/-! ## The pieces put together -/

def profilerBytes (profilerHeader : Option (List UInt8)) (size : Nat) : List UInt8 :=
  (profilerHeader.map fun header => shortenProfilerHeader header size).getD []

theorem Patched.output {profilerHeader : Option (List UInt8)} {offset : Nat}
    {parser : PerfDataParser} (done : Done file window profilerHeader offset parser) :
    ∃ ranges, Ranges file offset ranges (keptOf file window).flatten ∧ ∀ input,
      parser.output input = profilerBytes profilerHeader (file.records.flatten.length -
        (keptOf file window).flatten.length) ++
        ((file.withRecords (keptOf file window)).header ++ (rangeBytes input ranges ++
          ((file.withRecords (keptOf file window)).sections ++
            (input.drop (placeInInput offset (file.dataEnd + file.sections.length))).take
              file.tail.length))) := by
  rcases done.result with ⟨ranges, result, held⟩
  refine ⟨ranges, held, fun input => ?_⟩
  have heads : (headPieces profilerHeader).flatMap (parser.pieceBytes input) =
    profilerBytes profilerHeader (file.records.flatten.length -
      (keptOf file window).flatten.length) ++
      (file.withRecords (keptOf file window)).header := by
    cases profilerHeader with
    | none =>
      simp only [headPieces, isSome_none, Bool.false_eq_true,
        if_false, nil_append, flatMap_singleton, pieceBytes,
        done.header, profilerBytes, map_none, getD_none]
    | some header =>
      simp only [headPieces, isSome_some, if_true, cons_append, nil_append, flatMap_cons,
        flatMap_nil, append_nil, pieceBytes, done.header,
        done.profiler, profilerBytes]
  have ranged : (jsonPieces ranges).flatMap (parser.pieceBytes input) =
    rangeBytes input ranges := by
    rw [jsonPieces, flatMap_map]
    rfl
  rw [PerfDataParser.output, result, flatMap_append, flatMap_append, heads, ranged]
  simp only [cons_append, nil_append, flatMap_cons,
    flatMap_nil, append_nil, pieceBytes, done.sections,
    append_assoc]

/--
A file that stands at an offset of the input is split by its window, whatever
chunks it comes in: the pieces are a perf file that is its split, behind the
profiler header.
-/
def SplitsTo (file : PerfFile) (window : SplitWindow)
    (profilerHeader : Option (List UInt8)) (offset : Nat) : Prop :=
  ∃ split, file.IsSplit window split ∧ ∀ chunks, chunks.flatten = file.bytes →
    ∀ before after, before.length = offset →
      (splitChunks window offset (initial profilerHeader) []
        chunks).output (before ++ file.bytes ++ after) =
        profilerBytes profilerHeader (file.bytes.length - split.bytes.length) ++ split.bytes

section Claims

variable {profilerHeader : Option (List UInt8)} {offset : Nat}

theorem splitsTo_of_small (wellFormed : file.WellFormed)
    (addressable : offset + file.bytes.length < 2 ^ 63)
    (small : offset < 2 ^ 31) (agrees : file.WindowAgrees window) :
    SplitsTo file window profilerHeader offset := by
  have fits : file.bytes.length < 2 ^ 64 := by omega
  refine ⟨file.withRecords (file.recordsIn window), isSplit_withRecords wellFormed fits, ?_⟩
  intro chunks flat before after length
  rcases Patched.output (initial_done wellFormed addressable flat) with
    ⟨ranges, held, output⟩
  have kept := keptOf_of_agrees wellFormed agrees
  have fileLength := wellFormed.length_bytes
  have tail : ((before ++ file.bytes ++ after).drop (placeInInput offset
    (file.dataEnd + file.sections.length))).take file.tail.length =
    file.tail := by
    rw [placeInInput_of_lt small (place_lt addressable (by omega)), range_of_file length (by omega),
      wellFormed.drop_sections (Nat.le_refl _), Nat.sub_self,
      drop_zero, take_length]
  have dropped : file.bytes.length - (file.withRecords (file.recordsIn window)).bytes.length =
    file.records.flatten.length - (file.recordsIn window).flatten.length := by
    have moved := length_withRecords wellFormed (file.recordsIn_sublist window)
    omega
  rw [output, held.bytes small before after length, tail, kept, dropped]
  simp only [PerfFile.bytes, withRecords, append_assoc]

theorem length_rangeBytes_le (input : List UInt8) (ranges : List (Nat × Nat)) :
    (rangeBytes input ranges).length ≤ (ranges.map Prod.snd).sum := by
  induction ranges with
  | nil => exact le_refl _
  | cons range ranges induction =>
    rw [rangeBytes, flatMap_cons, length_append, map_cons, sum_cons]
    refine Nat.add_le_add ?_ induction
    rw [length_take]
    exact min_le_left _ _

omit file window profilerHeader in
theorem storedOffset_cases (offset : Nat) :
    ∃ turns : Int, storedOffset offset = offset - turns * 2 ^ 32 ∧
      -(2 ^ 31) ≤ storedOffset offset ∧ storedOffset offset < 2 ^ 31 := by
  refine ⟨Int.bdiv offset (2 ^ 32), ?_, ?_, ?_⟩
  · have whole := Int.bmod_eq_self_sub_bdiv_mul offset (2 ^ 32)
    have power : ((2 ^ 32 : Nat) : Int) = 2 ^ 32 := Int.natCast_pow 2 32
    rw [power] at whole
    exact whole
  · exact @Int.le_bmod offset (2 ^ 32) (by decide)
  · exact @Int.bmod_lt offset (2 ^ 32) (by decide)

theorem placeInInput_of_large (large : 2 ^ 31 ≤ offset) :
    placeInInput offset perfFileHeaderSize < offset ∨
      2 ^ 63 ≤ placeInInput offset perfFileHeaderSize := by
  rcases storedOffset_cases offset with ⟨turns, stored, low, high⟩
  have place : (placeInInput offset perfFileHeaderSize : Int) =
    (storedOffset offset + perfFileHeaderSize) % 2 ^ 64 := by
    rw [placeInInput]
    exact Int.toNat_of_nonneg (Int.emod_nonneg _ (by decide))
  generalize placeInInput offset perfFileHeaderSize = found at place ⊢
  generalize storedOffset offset = saved at *
  rw [perfFileHeaderSize] at place
  omega

theorem length_profilerBytes (profilerLength : ∀ header ∈ profilerHeader, header.length = 1024)
    (size : Nat) :
    (profilerBytes profilerHeader size).length = (profilerHeader.getD []).length := by
  cases profilerHeader with
  | none => rfl
  | some header =>
    have length := profilerLength header rfl
    refine length_setWord ?_
    rw [length]
    decide

theorem parts_of_splitsTo (wellFormed : file.WellFormed)
    (addressable : offset + file.bytes.length < 2 ^ 63)
    (profilerLength : ∀ header ∈ profilerHeader, header.length = 1024)
    (splits : SplitsTo file window profilerHeader offset)
    {before : List UInt8} (length : before.length = offset) :
    file.WindowAgrees window ∧ ∃ ranges mine others,
      Ranges file offset ranges (keptOf file window).flatten ∧
        rangeBytes (before ++ file.bytes) ranges ++ mine = file.preamble ++ others ∧
        mine.length + (keptOf file window).flatten.length ≤ others.length := by
  rcases splits with ⟨split, isSplit, outputs⟩
  rcases Patched.output (initial_done wellFormed addressable
    (@flatten_singleton _ file.bytes)) with
    ⟨ranges, held, output⟩
  have same := outputs [file.bytes] flatten_singleton before [] length
  rw [output, append_nil] at same
  have fits : file.bytes.length < 2 ^ 64 := by omega
  have kept : (keptOf file window).Sublist file.records := keptRecords_sublist _ _ _ _
  have header : (file.withRecords (keptOf file window)).header = split.header ∧
    rangeBytes (before ++ file.bytes) ranges ++
      ((file.withRecords (keptOf file window)).sections ++
        ((before ++ file.bytes).drop (placeInInput offset
          (file.dataEnd + file.sections.length))).take
          file.tail.length) =
      file.preamble ++ (split.records.flatten ++ (split.sections ++ split.tail)) := by
    have behind :=
      (append_inj same (by rw [length_profilerBytes profilerLength,
        length_profilerBytes profilerLength])).2
    have splitBytes : split.bytes = split.header ++ (file.preamble ++
      (split.records.flatten ++ (split.sections ++ split.tail))) := by
      simp only [PerfFile.bytes, append_assoc, isSplit.preamble]
    rw [splitBytes] at behind
    refine append_inj behind ?_
    rw [isSplit.wellFormed.headerLength]
    exact PerfFileHeader.length_setDataSize wellFormed.headerLength
  have sizes : (keptOf file window).flatten.length = (file.recordsIn window).flatten.length := by
    have patched := dataSize_withRecords wellFormed kept fits
    rw [header.1, isSplit.wellFormed.dataSize, isSplit.records] at patched
    exact patched.symm
  have sections : (file.withRecords (keptOf file window)).sections.length =
    split.sections.length := by
    have count : split.featureCount = file.featureCount := by
      rw [PerfFile.featureCount, ← header.1]
      exact featureCount_withRecords wellFormed
    rw [length_sections_withRecords wellFormed, wellFormed.sectionsLength,
      isSplit.wellFormed.sectionsLength, count]
  refine ⟨agrees_of_length wellFormed sizes, ranges, _, _, held, header.2, ?_⟩
  simp only [length_append, length_take, sections, isSplit.records, isSplit.tail, sizes]
  omega

def otherByte (byte : UInt8) : UInt8 := if byte = 0 then 1 else 0

theorem otherByte_ne (byte : UInt8) : otherByte byte ≠ byte := by
  rw [otherByte]
  split
  next zero =>
    rw [zero]
    decide
  next notZero => exact fun same => notZero same.symm

/--
A file that is split as it should be has an offset of 31 bits: else the first
range starts in front of the file, where other bytes can be, or behind the
input.
-/
theorem small_of_splitsTo (wellFormed : file.WellFormed)
    (addressable : offset + file.bytes.length < 2 ^ 63)
    (profilerLength : ∀ header ∈ profilerHeader, header.length = 1024)
    (splits : SplitsTo file window profilerHeader offset) : offset < 2 ^ 31 := by
  by_contra notSmall
  have large := Nat.le_of_not_lt notSmall
  have notEmpty : file.preamble ≠ [] := by
    intro empty
    have attrs := wellFormed.attrsBeforeData
    have front := wellFormed.attrsBehindHeader
    have attr := wellFormed.sampleTypeInAttr
    have inAttrs := wellFormed.attrInAttrs
    have data := wellFormed.dataOffset
    rw [empty, length_nil] at data
    omega
  rcases exists_cons_of_ne_nil notEmpty with ⟨byte, preamble, starts⟩
  have length : (replicate offset (otherByte byte)).length = offset := length_replicate
  rcases (parts_of_splitsTo wellFormed addressable profilerLength splits
    length).2 with ⟨ranges, mine, others, held, same, sizes⟩
  rcases held.first with ⟨size, more, first, covers⟩
  have total := held.total
  have lengths := congrArg List.length same
  rw [first, rangeBytes, flatMap_cons] at lengths
  rw [first, map_cons, sum_cons] at total
  have rest := length_rangeBytes_le (replicate offset (otherByte byte) ++ file.bytes) more
  rw [rangeBytes] at rest
  simp only [length_append, length_take, length_drop, length_replicate] at lengths
  have preambleLength : file.preamble.length = preamble.length + 1 := by rw [starts, length_cons]
  rcases placeInInput_of_large large with front | behind
  · have byteThere : (rangeBytes (replicate offset (otherByte byte) ++ file.bytes)
      ranges ++ mine)[0]? = some (otherByte byte) := by
      have inside : placeInInput offset perfFileHeaderSize <
        (replicate offset (otherByte byte)).length := by
        rw [length_replicate]
        exact front
      have long : 0 < (((replicate offset (otherByte byte) ++ file.bytes).drop
        (placeInInput offset perfFileHeaderSize)).take size).length := by
        rw [length_take, length_drop, length_append]
        omega
      rw [first, rangeBytes, flatMap_cons, append_assoc, getElem?_append_left long,
        getElem?_take_of_lt (by omega), getElem?_drop,
        add_zero, getElem?_append_left inside,
        getElem?_replicate, if_pos front]
    rw [same, starts, cons_append, getElem?_cons_zero, some.injEq] at byteThere
    exact otherByte_ne byte byteThere.symm
  · omega

/--
A perf file is split into its split, in whatever chunks it comes, exactly when
its offset in the input is stored as it is and the order of the two bounds of
the window does not matter.
-/
theorem splitsTo_iff (wellFormed : file.WellFormed)
    (addressable : offset + file.bytes.length < 2 ^ 63)
    (profilerLength : ∀ header ∈ profilerHeader, header.length = 1024) :
    SplitsTo file window profilerHeader offset ↔ offset < 2 ^ 31 ∧ file.WindowAgrees window := by
  constructor
  · intro splits
    exact ⟨small_of_splitsTo wellFormed addressable profilerLength splits,
      (parts_of_splitsTo wellFormed addressable profilerLength splits
        (length_replicate (a := (0 : UInt8)))).1⟩
  · rintro ⟨small, agrees⟩
    exact splitsTo_of_small wellFormed addressable small agrees

def sampleFile : PerfFile where
  header :=
    perfMagic ++ littleEndianBytes 8 104 ++ littleEndianBytes 8 perfFileAttrSize ++
      littleEndianBytes 8 104 ++ littleEndianBytes 8 perfFileAttrSize ++
      littleEndianBytes 8 232 ++ littleEndianBytes 8 24 ++
      replicate 16 0 ++ [1] ++ replicate 31 0
  preamble := replicate 24 0 ++ littleEndianBytes 8 4 ++ replicate 96 0
  records :=
    [littleEndianBytes 4 1 ++ [0, 0, 8, 0],
      littleEndianBytes 4 9 ++ [0, 0, 16, 0] ++ littleEndianBytes 8 20]
  sections := littleEndianBytes 8 272 ++ littleEndianBytes 8 2
  tail := [7, 8]

theorem sampleFile_wellFormed : sampleFile.WellFormed where
  headerLength := by decide
  magic := by decide
  attrsBehindHeader := by decide
  attrsBeforeData := by decide
  wholeAttr := by decide
  attrInAttrs := by decide
  attrCount := by decide
  samplesHaveTime := by decide
  dataOffset := by decide
  dataSize := by decide
  recordSize := by decide
  timeInRecord := by decide
  hasFeature := by decide
  sectionsLength := by decide
  sectionsBehind := by set_option maxRecDepth 2000 in decide

end Claims

def sampleProfilerHeader : List UInt8 :=
  littleEndianBytes 8 0x464F5250534F484F ++ littleEndianBytes 8 (1024 + sampleFile.bytes.length) ++
    replicate 40 0 ++ [1] ++ replicate 967 0

theorem sampleProfilerHeader_length :
    ∀ header ∈ some sampleProfilerHeader, header.length = 1024 := by
  have length : sampleProfilerHeader.length = 1024 := by
    simp only [sampleProfilerHeader, length_append,
      length_littleEndianBytes, length_replicate, length_cons,
      length_nil]
  intro header present
  rw [← mem_some_iff.1 present]
  exact length

set_option maxRecDepth 2000 in
theorem sampleFile_length : sampleFile.bytes.length = 274 := by decide

theorem splitsTo_iff_sampleFile : (SplitsTo sampleFile ⟨10, 15⟩ (some sampleProfilerHeader) 1024 ↔
    1024 < 2 ^ 31 ∧ sampleFile.WindowAgrees ⟨10, 15⟩) ∧
    SplitsTo sampleFile ⟨10, 15⟩ (some sampleProfilerHeader) 1024 := by
  have same :=
    @splitsTo_iff sampleFile ⟨10, 15⟩ (some sampleProfilerHeader) 1024
      sampleFile_wellFormed (by rw [sampleFile_length]; decide)
      sampleProfilerHeader_length
  exact ⟨same, same.2 ⟨by decide, windowAgrees_of_le _ (by decide)⟩⟩

/--
A section of perf data behind two gigabytes of a trace: its first range starts
more than two gigabytes in front of the trace.
-/
theorem not_splitsTo_behindTwoGigabytes :
    ¬ SplitsTo sampleFile ⟨10, 15⟩ (some sampleProfilerHeader) (2 ^ 31) := by
  intro splits
  exact lt_irrefl _ (small_of_splitsTo sampleFile_wellFormed
    (by rw [sampleFile_length]; decide) sampleProfilerHeader_length splits)

end PerfDataParser

end SysAnalyzer.Parser
