import Mathlib.Data.List.SplitLengths
import SysAnalyzer.Parser.HtraceSections

/-!
# Sections behind perf and ebpf sections

Whether every section is handed to its parser depends on the kinds and the
lengths of the sections and on the lengths of the chunks.  There has to be a
chunk for each end of a call, and no section may come behind an ebpf section.
-/

namespace SysAnalyzer.Parser

open Foundation List

namespace ProfilerSection

def layout (parts : List ProfilerSection) : List (Body.Kind × Nat) :=
  parts.map fun part => (part.kind, part.bytes.length)

theorem length_fileBytes (parts : List ProfilerSection) :
    (fileBytes parts).length = ((layout parts).map Prod.snd).sum := by
  induction parts with
  | nil => rfl
  | cons part parts induction =>
    rw [fileBytes, flatMap_cons, length_append]
    exact congrArg (part.bytes.length + ·) induction

theorem callEnds_congr {parts others : List ProfilerSection} (same : layout others = layout parts) :
    callEnds others = callEnds parts := by
  induction parts generalizing others with
  | nil =>
    rw [layout, layout, map_nil, map_eq_nil_iff] at same
    rw [same]
  | cons part parts induction =>
    cases others with
    | nil => cases same
    | cons other others =>
      rw [layout, layout, map_cons, map_cons, List.cons.injEq, Prod.mk.injEq] at same
      rcases same with ⟨⟨sameKind, _⟩, sameRest⟩
      rw [callEnds, callEnds, sameKind, induction sameRest,
        length_fileBytes, length_fileBytes, layout, sameRest, layout]

theorem ebpfLast_iff (parts : List ProfilerSection) : (∀ part ∈ parts.dropLast, part.kind ≠ .ebpf) ↔
    ∀ kind ∈ (layout parts).dropLast, kind.1 ≠ .ebpf := by
  rw [layout, ← map_dropLast, forall_mem_map]

end ProfilerSection

theorem unfed_congr {chunks others : List (List UInt8)}
    (same : others.map List.length = chunks.map List.length) : unfed others = unfed chunks := by
  induction chunks generalizing others with
  | nil =>
    rw [map_nil, map_eq_nil_iff] at same
    rw [same]
  | cons chunk chunks induction =>
    cases others with
    | nil => cases same
    | cons other others =>
      rw [map_cons, map_cons, List.cons.injEq] at same
      rw [unfed, unfed, induction same.2, length_flatten, length_flatten, same.2]

namespace ProfilerSection

def zeroed (part : ProfilerSection) : ProfilerSection :=
  match isBody : part.body with
  | .ebpf body =>
    { part with
      body := .ebpf (replicate body.length 0)
      length := by
        have length := part.length
        rw [isBody] at length
        rw [length, Body.bytes, Body.bytes, length_replicate]
      nonempty := by
        have nonempty := part.nonempty
        rw [isBody] at nonempty
        rw [Body.bytes, length_replicate]
        exact nonempty
      typed := by
        have typed := part.typed
        rw [isBody] at typed
        exact typed }
  | _ => part

theorem zeroed_layout (part : ProfilerSection) :
    (part.zeroed.kind, part.zeroed.bytes.length) = (part.kind, part.bytes.length) := by
  unfold zeroed
  split
  · rename_i body isBody
    simp [kind, bytes, isBody, Body.kind, Body.bytes]
  · rfl

theorem layout_zeroed (parts : List ProfilerSection) :
    layout (parts.map zeroed) = layout parts := by
  rw [layout, layout, map_map]
  exact map_congr_left fun part _ => zeroed_layout part

theorem zeroed_body {part : ProfilerSection} (isEbpf : part.kind = .ebpf) :
    ∃ count, part.zeroed.body.bytes = 0 :: replicate count 0 := by
  rcases Body.ebpf_of_kind isEbpf with ⟨body, isBody⟩
  have positive := part.nonempty
  rw [isBody, Body.bytes] at positive
  rcases Nat.exists_eq_succ_of_ne_zero positive.ne' with ⟨count, length⟩
  refine ⟨count, ?_⟩
  have bytes : part.zeroed.body.bytes = replicate body.length 0 := by
    unfold zeroed
    split
    · rename_i other isOther
      rw [isBody] at isOther
      cases isOther
      rfl
    · rename_i notEbpf
      exact absurd isBody (notEbpf body)
  rw [bytes, length, replicate_succ]

theorem magic_zero (rest : List UInt8) :
    ProfilerTraceFileHeader.magic (0 :: rest) ≠ ProfilerTraceFileHeader.headerMagic := by
  have bytes : littleEndian (ProfilerTraceFileHeader.field (0 :: rest) 0 8) =
    256 * littleEndian (rest.take 7) := by
    rw [ProfilerTraceFileHeader.field, drop_zero, take_succ_cons, littleEndian]
    exact zero_add _
  intro isMagic
  have same := congrArg UInt64.toNat isMagic
  rw [ProfilerTraceFileHeader.magic, bytes, UInt64.toNat_ofNat'] at same
  have magic : ProfilerTraceFileHeader.headerMagic.toNat = 0x464F5250534F484F := rfl
  rw [magic] at same
  omega

theorem init_zero {parser : HtraceParser} {rest : List UInt8}
    (zero : parser.packagesBuffer = 0 :: rest) : parser.initProfilerTraceFileHeader = none := by
  unfold HtraceParser.initProfilerTraceFileHeader
  dsimp only
  split
  · rfl
  · refine if_pos (.inr ?_)
    rw [zero, packetHeaderLength, take_succ_cons]
    exact magic_zero _

theorem quiet_zero {body : List UInt8} {first : List UInt8} (zero : body = 0 :: first)
    (parser : HtraceParser) (chunk : List UInt8) (isLost : HtraceParser.Lost (.lost body) parser) :
    HtraceParser.Lost (.lost body) (parser.parseTraceDataSegment chunk) ∧
      (parser.parseTraceDataSegment chunk).handed = parser.handed := by
  rcases isLost with ⟨_, rest, isBody, noHeader, isBuffer⟩
  cases isBody
  have buffer : parser.packagesBuffer ++ chunk = 0 :: (first ++ rest ++ chunk) := by
    rw [isBuffer, zero]
    rfl
  have refused : HtraceParser.parseDataRecursively
    { parser with packagesBuffer := parser.packagesBuffer ++ chunk }
    (parser.packagesBuffer ++ chunk) = (false, _, _) :=
    HtraceParser.parseDataRecursively_none noHeader (init_zero buffer)
  have parsed : parser.parseTraceDataSegment chunk =
    { parser with packagesBuffer := parser.packagesBuffer ++ chunk } := by
    rw [HtraceParser.parseTraceDataSegment]
    dsimp only
    rw [refused]
    rfl
  rw [parsed]
  refine ⟨⟨body, rest ++ chunk, rfl, noHeader, ?_⟩, rfl⟩
  rw [isBuffer, append_assoc]

theorem handed_ne_nil (part : ProfilerSection) : part.handed ≠ [] := by
  have positive := part.nonempty
  rw [handed]
  cases isBody : part.body with
  | items all =>
    rw [isBody] at positive
    rw [Body.handed, Ne, map_eq_nil_iff]
    rintro rfl
    exact lt_irrefl 0 positive
  | perf body => exact cons_ne_nil _ _
  | ebpf body => exact cons_ne_nil _ _

variable {parts : List ProfilerSection}

theorem exists_ebpf (notLast : ¬ ∀ part ∈ parts.dropLast, part.kind ≠ .ebpf) :
    ∃ before part second after, parts = before ++ part :: second :: after ∧
      (∀ other ∈ before, other.kind ≠ .ebpf) ∧ part.kind = .ebpf := by
  induction parts with
  | nil => exact absurd (fun part member => by cases member) notLast
  | cons part parts induction =>
    cases parts with
    | nil => exact absurd (fun part member => by cases member) notLast
    | cons second after =>
      by_cases isEbpf : part.kind = .ebpf
      · refine ⟨[], part, second, after, rfl, ?_, isEbpf⟩
        intro other member
        cases member
      · have later : ¬ ∀ other ∈ (second :: after).dropLast, other.kind ≠ .ebpf := by
          intro none
          refine notLast fun other member => ?_
          rcases mem_cons.1 member with rfl | member
          · exact isEbpf
          · exact none other member
        rcases induction later with
          ⟨before, first, next, rest, same, others, atFirst⟩
        refine ⟨part :: before, first, next, rest, by rw [same]; rfl, ?_, atFirst⟩
        intro other member
        rcases mem_cons.1 member with rfl | member
        · exact isEbpf
        · exact others other member

variable {before : List ProfilerSection}

theorem stops_before {rest left : List UInt8}
    {more : List Handed} {stops : List Nat} {final : Phase}
    (noEbpf : ∀ part ∈ before, part.kind ≠ .ebpf) (later :
      sectionReader.Stops Phase.Pauses .header rest more stops final left) :
    ∃ every, sectionReader.Stops Phase.Pauses .header (fileBytes before ++ rest)
      (fileHanded before ++ more) every final left := by
  induction before with
  | nil => exact ⟨stops, later⟩
  | cons part before induction =>
    have here := noEbpf part mem_cons_self
    rcases induction fun other member => noEbpf other (mem_cons_of_mem _ member) with ⟨every, read⟩
    rw [fileBytes, fileHanded, flatMap_cons, flatMap_cons, append_assoc, append_assoc]
    cases isKind : part.kind with
    | items => exact ⟨_, stops_of_items isKind read⟩
    | perf => exact ⟨_, stops_of_perf isKind read⟩
    | ebpf => exact absurd isKind here

variable {chunks : List (List UInt8)}

theorem lost_behind_zeros {after : List ProfilerSection} {part second : ProfilerSection}
    {count : Nat} (noEbpf : ∀ other ∈ before, other.kind ≠ .ebpf) (isEbpf : part.kind = .ebpf)
    (zeros : part.body.bytes = 0 :: replicate count 0)
    (nonempty : ∀ chunk ∈ chunks, chunk ≠ []) (cut :
      chunks.flatten = fileBytes (before ++ part :: second :: after)) :
    (parse chunks).handed ≠ fileHanded (before ++ part :: second :: after) := by
  have cutBehind : chunks.flatten = fileBytes before ++
    (part.bytes ++ fileBytes (second :: after)) := by
    rw [cut, fileBytes, flatMap_append, flatMap_cons]
    rfl
  rcases stops_before noEbpf (stops_of_ebpf isEbpf (fileBytes (second :: after))) with ⟨every, read⟩
  rw [← cutBehind, ← nil_append chunks.flatten] at read
  have framed : HtraceParser.initial.Framed := fun known => by cases known
  rcases HtraceParser.feeds.chunks nonempty framed (.inr rfl) read (.inr (quiet_zero zeros)) with
    ⟨logged, more, _, _, _, isEvery, isLogged, _⟩
  have isLogged : (parse chunks).handed = logged := isLogged
  rw [isLogged]
  rintro rfl
  have total := congrArg List.length isEvery
  have behind := length_pos_of_ne_nil (handed_ne_nil second)
  simp only [fileHanded, flatMap_append, flatMap_cons, length_append] at total
  omega

theorem exists_cut {others : List ProfilerSection} (cut : chunks.flatten = fileBytes parts)
    (sameLayout : layout others = layout parts) :
    ∃ otherChunks : List (List UInt8), otherChunks.map List.length = chunks.map List.length ∧
      otherChunks.flatten = fileBytes others := by
  have length : (chunks.map List.length).sum = (fileBytes others).length := by
    rw [← length_flatten, cut, length_fileBytes, length_fileBytes, sameLayout]
  exact ⟨(chunks.map List.length).splitLengths (fileBytes others),
    map_splitLengths_length _ _ length.le,
    flatten_splitLengths _ _ length.ge⟩

theorem nonempty_of_cuts {others : List (List UInt8)} (nonempty : ∀ chunk ∈ chunks, chunk ≠ [])
    (sameCuts : others.map List.length = chunks.map List.length) :
    ∀ chunk ∈ others, chunk ≠ [] := by
  intro chunk member isNil
  have length : chunk.length ∈ others.map List.length := mem_map_of_mem member
  rw [sameCuts, mem_map] at length
  rcases length with ⟨original, originalMember, sameLength⟩
  rw [isNil, length_nil, length_eq_zero_iff] at sameLength
  exact nonempty original originalMember sameLength

/--
Every section is handed to its parser once and in the order of the file, in
every file of the layout that is cut at the same places, exactly if no section
comes behind an ebpf section and there is a chunk for each end of a call.
-/
theorem no_section_lost_iff (parts : List ProfilerSection) (chunks : List (List UInt8))
    (nonempty : ∀ chunk ∈ chunks, chunk ≠ []) (cut : chunks.flatten = fileBytes parts) :
    (∀ others otherChunks, layout others = layout parts →
      otherChunks.map List.length = chunks.map List.length →
        otherChunks.flatten = fileBytes others →
          (parse otherChunks).handed = fileHanded others) ↔
      (∀ part ∈ parts.dropLast, part.kind ≠ .ebpf) ∧ Meets (callEnds parts) (unfed chunks) := by
  constructor
  · intro delivered
    have ebpfLast : ∀ part ∈ parts.dropLast, part.kind ≠ .ebpf := by
      by_contra notLast
      rcases exists_ebpf notLast with
        ⟨before, part, second, after, rfl, noEbpf, isEbpf⟩
      have sameLayout := layout_zeroed (before ++ part :: second :: after)
      rcases exists_cut cut sameLayout with ⟨otherChunks, sameCuts, otherCut⟩
      have whole := delivered _ otherChunks sameLayout sameCuts otherCut
      rcases zeroed_body isEbpf with ⟨count, zeros⟩
      have kinds (other : ProfilerSection) : other.zeroed.kind = other.kind :=
        congrArg Prod.fst (zeroed_layout other)
      rw [map_append, map_cons, map_cons] at whole otherCut
      refine lost_behind_zeros ?_ ((kinds part).trans isEbpf) zeros
        (nonempty_of_cuts nonempty sameCuts) otherCut whole
      intro other member
      rcases mem_map.1 member with ⟨original, originalMember, rfl⟩
      rw [kinds]
      exact noEbpf original originalMember
    exact ⟨ebpfLast, (parse_of_ebpfLast ebpfLast nonempty cut).1.1
      (delivered parts chunks rfl rfl cut)⟩
  · rintro ⟨ebpfLast, meets⟩ others otherChunks sameLayout sameCuts otherCut
    rw [ebpfLast_iff, ← sameLayout, ← ebpfLast_iff] at ebpfLast
    rw [← callEnds_congr sameLayout, ← unfed_congr sameCuts] at meets
    exact (parse_of_ebpfLast ebpfLast (nonempty_of_cuts nonempty sameCuts) otherCut).1.2 meets

def shortPerf : ProfilerSection where
  header := shortHeader 1
  body := .perf [1, 2, 3, 4, 5]
  headerLength := length_shortHeader 1
  magic := rfl
  length := rfl
  nonempty := by decide
  typed := by
    show ProfilerTraceFileHeader.dataType (shortHeader 1) = _
    decide

theorem callEnds_perf_item : callEnds [shortPerf, oneItem] = [oneItem.bytes.length, 0] := by
  have isPerf : shortPerf.kind = .perf := rfl
  rw [callEnds, isPerf, if_pos (.inl rfl), callEnds, callEnds,
    if_pos (.inr rfl), fileBytes, flatMap_singleton]
  rfl

theorem no_section_lost_twoChunks :
    [shortPerf.bytes, oneItem.bytes].flatten = fileBytes [shortPerf, oneItem] ∧
      ∀ others otherChunks, layout others = layout [shortPerf, oneItem] →
        otherChunks.map List.length = [shortPerf.bytes, oneItem.bytes].map List.length →
          otherChunks.flatten = fileBytes others →
            (parse otherChunks).handed = fileHanded others :=
  ⟨rfl, (no_section_lost_iff [shortPerf, oneItem] [shortPerf.bytes, oneItem.bytes]
    (by decide) rfl).2 ⟨by decide, by
      rw [callEnds_perf_item, unfed, unfed, unfed, flatten_singleton]
      exact .cons (le_refl _) (.cons (le_refl _) .nil)⟩⟩

theorem section_lost_behind_perf :
    (parse [shortPerf.bytes ++ oneItem.bytes]).handed ≠ fileHanded [shortPerf, oneItem] := by
  have cut : [shortPerf.bytes ++ oneItem.bytes].flatten = fileBytes [shortPerf, oneItem] := by
    rw [flatten_singleton, fileBytes, flatMap_cons, flatMap_singleton]
  have nonempty : ∀ chunk ∈ [shortPerf.bytes ++ oneItem.bytes], chunk ≠ [] := by decide
  intro delivered
  have meets := (parse_of_ebpfLast (by decide) nonempty cut).1.1 delivered
  rw [callEnds_perf_item, unfed, unfed, flatten_nil, length_nil,
    meets_cons_right, advance, if_pos (Nat.zero_le _),
    meets_nil_right] at meets
  cases meets

end ProfilerSection

end SysAnalyzer.Parser
