import SysAnalyzer.Parser.HtraceFraming

/-!
# Files of profiler sections

A file is a list of sections: a header, and items or a body for one of the
parsers of bodies.  Items do not depend on how the file is cut.  Behind a perf
body the call ends, so the rest is only parsed with another chunk, and behind an
ebpf body the place in the file is lost.
-/

namespace SysAnalyzer.Parser

open Foundation List Option

/-! ## Sections -/

structure Item where
  lengthWord : List UInt8
  payload : List UInt8
  word : lengthWord.length = packetSegLength
  counts : littleEndian lengthWord = payload.length

def Item.bytes (item : Item) : List UInt8 := item.lengthWord ++ item.payload

/-- What a section carries. -/
inductive Body where
  | items (items : List Item)
  | perf (body : List UInt8)
  | ebpf (body : List UInt8)

namespace Body

def bytes : Body → List UInt8
  | .items all => all.flatMap Item.bytes
  | perf body => body
  | ebpf body => body

def handed : Body → List Handed
  | .items all => all.map fun item => .traceDataItem item.payload
  | perf body => [.perfData body]
  | ebpf body => [.ebpfData body]

/-- The header says what the section carries. -/
def Typed (header : List UInt8) : Body → Prop
  | items _ => ¬ HasOwnParser (ProfilerTraceFileHeader.dataType header)
  | perf _ => ProfilerTraceFileHeader.dataType header = ProfilerTraceFileHeader.hiperfData
  | ebpf _ =>
    ProfilerTraceFileHeader.dataType header = ProfilerTraceFileHeader.standaloneData ∧
      ProfilerTraceFileHeader.standalonePluginName header = ebpfPluginName

inductive Kind where
  | items
  | perf
  | ebpf
  deriving DecidableEq

def kind : Body → Kind
  | items _ => .items
  | perf _ => .perf
  | ebpf _ => .ebpf

theorem items_of_kind {body : Body} (isItems : body.kind = .items) : ∃ all, body = .items all := by
  cases body with
  | items all => exact ⟨all, rfl⟩
  | perf | ebpf => cases isItems

theorem perf_of_kind {body : Body} (isPerf : body.kind = .perf) : ∃ bytes, body = .perf bytes := by
  cases body with
  | perf bytes => exact ⟨bytes, rfl⟩
  | items | ebpf => cases isPerf

theorem ebpf_of_kind {body : Body} (isEbpf : body.kind = .ebpf) : ∃ bytes, body = .ebpf bytes := by
  cases body with
  | ebpf bytes => exact ⟨bytes, rfl⟩
  | items | perf => cases isEbpf

end Body

structure ProfilerSection where
  header : List UInt8
  body : Body
  headerLength : header.length = packetHeaderLength
  magic : ProfilerTraceFileHeader.magic header = ProfilerTraceFileHeader.headerMagic
  length : (ProfilerTraceFileHeader.length header).toNat = packetHeaderLength + body.bytes.length
  nonempty : 0 < body.bytes.length
  typed : body.Typed header

namespace ProfilerSection

def bytes (part : ProfilerSection) : List UInt8 := part.header ++ part.body.bytes

def handed (part : ProfilerSection) : List Handed := part.body.handed

def kind (part : ProfilerSection) : Body.Kind := part.body.kind

def fileBytes (parts : List ProfilerSection) : List UInt8 := parts.flatMap bytes

def fileHanded (parts : List ProfilerSection) : List Handed := parts.flatMap handed

/--
The ends of the sections behind which a call ends, the perf sections and the
last one, given by the bytes behind them.
-/
def callEnds : List ProfilerSection → List Nat
  | [] => []
  | part :: parts =>
    if part.kind = .perf ∨ callEnds parts = [] then (fileBytes parts).length :: callEnds parts
    else callEnds parts

end ProfilerSection

/-! ## Reading a section -/

theorem toNat_nextLength (item : Item) :
    (UInt32.ofNat (littleEndian item.lengthWord)).toNat = item.payload.length := by
  have small := littleEndian_lt item.lengthWord
  rw [item.word] at small
  rw [UInt32.toNat_ofNat', ← item.counts]
  exact Nat.mod_eq_of_lt small

theorem Item.length_bytes (item : Item) :
    item.bytes.length = packetSegLength + item.payload.length := by
  rw [Item.bytes, length_append, item.word]

theorem left_items (item : Item) (total : Nat) :
    UInt64.ofNat (item.bytes.length + total) - UInt64.ofNat packetSegLength -
      (UInt32.ofNat (littleEndian item.lengthWord)).toUInt64 = UInt64.ofNat total := by
  have payload : (UInt32.ofNat (littleEndian item.lengthWord)).toUInt64 =
    UInt64.ofNat item.payload.length := by
    rw [← toNat_nextLength item]
    exact (UInt64.ofNat_uInt32ToNat _).symm
  rw [payload, item.length_bytes, UInt64.ofNat_add, UInt64.ofNat_add]
  grind

theorem left_eq_zero_iff {items : List Item} (small : (items.flatMap Item.bytes).length < 2 ^ 64) :
    UInt64.ofNat (items.flatMap Item.bytes).length = 0 ↔ items = [] := by
  rw [← UInt64.toNat_inj, UInt64.toNat_ofNat_of_lt' small]
  cases items with
  | nil => exact ⟨fun _ => rfl, fun _ => rfl⟩
  | cons item items =>
    rw [flatMap_cons, length_append, item.length_bytes]
    constructor
    · intro zero
      have positive : 0 < packetSegLength := Nat.succ_pos 3
      have zero : _ = 0 := zero
      omega
    · intro impossible
      cases impossible

theorem stops_item {item : Item} {left : UInt64} {rest behind : List UInt8}
    {more : List Handed} {stops : List Nat} {final : Phase} (stopping :
      sectionReader.Stops Phase.Pauses (.item (UInt32.ofNat (littleEndian item.lengthWord))
        (left - UInt64.ofNat packetSegLength))
        (item.payload ++ rest) more stops final behind) (nonempty : stops ≠ []) :
    sectionReader.Stops Phase.Pauses (.segLength left) (item.bytes ++ rest)
      more stops final behind := by
  rw [Item.bytes, append_assoc, ← nil_append more]
  exact .pass item.word rfl not_false nonempty stopping

theorem stops_items {items : List Item} {rest left : List UInt8} {more : List Handed}
    {stops : List Nat} {final : Phase} (nonempty : items ≠ [])
    (small : (items.flatMap Item.bytes).length < 2 ^ 64) (later :
      sectionReader.Stops Phase.Pauses .header rest more stops final left) :
    sectionReader.Stops Phase.Pauses (.segLength (UInt64.ofNat (items.flatMap Item.bytes).length))
      (items.flatMap Item.bytes ++ rest) ((Body.items items).handed ++ more)
      (if stops = [] then rest.length :: stops else stops) final left := by
  have ahead : (if stops = [] then rest.length :: stops else stops) ≠ [] := by
    split
    · exact cons_ne_nil _ _
    · assumption
  induction items with
  | nil => exact absurd rfl nonempty
  | cons item items induction =>
    rw [flatMap_cons, length_append] at small
    have smaller : (items.flatMap Item.bytes).length < 2 ^ 64 := by omega
    have handed : (Body.items (item :: items)).handed ++ more = [.traceDataItem item.payload] ++
      ((Body.items items).handed ++ more) := rfl
    rw [handed, flatMap_cons, length_append, append_assoc]
    refine stops_item ?_ ahead
    have accepted : sectionReader.accept
      (.item (UInt32.ofNat (littleEndian item.lengthWord)) (UInt64.ofNat
        (item.bytes.length + (items.flatMap Item.bytes).length) -
        UInt64.ofNat packetSegLength))
      item.payload = some (if items = [] then .header else
        .segLength (UInt64.ofNat (items.flatMap Item.bytes).length),
        [.traceDataItem item.payload]) := by
      simp only [sectionReader, left_items, left_eq_zero_iff smaller]
    cases items with
    | nil =>
      by_cases last : stops = []
      · rw [if_pos last]
        exact .stop (toNat_nextLength item).symm accepted (.inr last) later
      · rw [if_neg last]
        exact .pass (toNat_nextLength item).symm accepted not_false last later
    | cons second items =>
      exact .pass (toNat_nextLength item).symm accepted not_false ahead
        (induction (cons_ne_nil _ _) smaller)

namespace ProfilerSection

theorem validHeader (part : ProfilerSection) : ValidHeader part.header := by
  refine ⟨?_, part.magic⟩
  rw [UInt64.lt_iff_toNat_lt, part.length]
  exact Nat.lt_add_of_pos_right part.nonempty

theorem length_sub (part : ProfilerSection) :
    ProfilerTraceFileHeader.length part.header - UInt64.ofNat packetHeaderLength =
      UInt64.ofNat part.body.bytes.length := by
  rw [← UInt64.ofNat_toNat (x := ProfilerTraceFileHeader.length part.header),
    part.length, UInt64.ofNat_add]
  grind

theorem body_small (part : ProfilerSection) : part.body.bytes.length < 2 ^ 64 := by
  have small := (ProfilerTraceFileHeader.length part.header).toNat_lt
  rw [part.length] at small
  omega

variable {part : ProfilerSection}

variable {rest behind : List UInt8} {more : List Handed} {stops : List Nat}
  {final : Phase}

theorem stops_header
    (nonempty : stops ≠ []) (later : sectionReader.Stops Phase.Pauses (behindHeader part.header)
      (part.body.bytes ++ rest) more stops final behind) :
    sectionReader.Stops Phase.Pauses .header (part.bytes ++ rest) more stops final behind := by
  rw [bytes, append_assoc, ← nil_append more]
  exact .pass part.headerLength (if_pos part.validHeader) not_false nonempty later

theorem behindHeader_items (isItems : part.kind = .items) :
    behindHeader part.header = .segLength (UInt64.ofNat part.body.bytes.length) := by
  rcases Body.items_of_kind isItems with ⟨all, isAll⟩
  have notOwn : ¬ HasOwnParser (ProfilerTraceFileHeader.dataType part.header) := by
    have typed := part.typed
    rwa [isAll] at typed
  rw [behindHeader, if_neg notOwn, part.length_sub]

theorem behindHeader_own (own : HasOwnParser (ProfilerTraceFileHeader.dataType part.header)) :
    behindHeader part.header = .body (ProfilerTraceFileHeader.dataType part.header)
      (UInt64.ofNat part.body.bytes.length)
      (ProfilerTraceFileHeader.standalonePluginName part.header) := by
  rw [behindHeader, if_pos own, part.length_sub]

theorem stops_of_items (isItems : part.kind = .items) (later :
    sectionReader.Stops Phase.Pauses .header rest more stops final behind) :
    sectionReader.Stops Phase.Pauses .header (part.bytes ++ rest) (part.handed ++ more)
      (if stops = [] then rest.length :: stops else stops) final behind := by
  have ahead : (if stops = [] then rest.length :: stops else stops) ≠ [] := by
    split
    · exact cons_ne_nil _ _
    · assumption
  refine stops_header ahead ?_
  rw [behindHeader_items isItems, handed]
  have positive := part.nonempty
  have small := part.body_small
  rcases Body.items_of_kind isItems with ⟨all, isAll⟩
  rw [isAll] at positive small ⊢
  refine stops_items ?_ small later
  rintro rfl
  exact lt_irrefl 0 positive

theorem stops_of_perf (isPerf : part.kind = .perf) (later :
    sectionReader.Stops Phase.Pauses .header rest more stops final behind) :
    sectionReader.Stops Phase.Pauses .header (part.bytes ++ rest)
      (part.handed ++ more) (rest.length :: stops) final behind := by
  refine stops_header (cons_ne_nil _ _) ?_
  have typed := part.typed
  have small := part.body_small
  rcases Body.perf_of_kind isPerf with ⟨body, isBody⟩
  rw [isBody] at typed small
  rw [behindHeader_own (.inl typed), handed, isBody]
  exact .stop (UInt64.toNat_ofNat_of_lt' small).symm (if_pos typed) (.inl trivial) later

theorem stops_of_ebpf (isEbpf : part.kind = .ebpf) (rest : List UInt8) :
    sectionReader.Stops Phase.Pauses .header (part.bytes ++ rest) part.handed
      [rest.length] (.lost part.body.bytes) rest := by
  refine stops_header (cons_ne_nil _ _) ?_
  have typed := part.typed
  have small := part.body_small
  rcases Body.ebpf_of_kind isEbpf with ⟨body, isBody⟩
  rw [isBody] at typed small
  have notPerf : ProfilerTraceFileHeader.dataType part.header ≠
    ProfilerTraceFileHeader.hiperfData := by
    rw [typed.1]
    decide
  have read : sectionReader.Stops Phase.Pauses (.body (ProfilerTraceFileHeader.dataType part.header)
    (UInt64.ofNat body.length)
    (ProfilerTraceFileHeader.standalonePluginName part.header))
    (body ++ rest) ([.ebpfData body] ++ []) [rest.length] (.lost body)
    rest :=
    .stop (UInt64.toNat_ofNat_of_lt' small).symm
      ((if_neg notPerf).trans (if_pos typed.2)) (.inl trivial) (.done _ _)
  rw [behindHeader_own (.inr typed.1), handed, isBody]
  exact read

variable {parts : List ProfilerSection}

theorem stops_file (ebpfLast : ∀ part ∈ parts.dropLast, part.kind ≠ .ebpf) :
    ∃ final, sectionReader.Stops Phase.Pauses .header (fileBytes parts)
      (fileHanded parts) (callEnds parts) final [] ∧
      (final = .header ∨ ∃ part ∈ parts, part.kind = .ebpf ∧ final = .lost part.body.bytes) := by
  induction parts with
  | nil => exact ⟨.header, .done _ _, .inl rfl⟩
  | cons part parts induction =>
    have others : ∀ part ∈ parts.dropLast, part.kind ≠ .ebpf := by
      intro other member
      refine ebpfLast other ?_
      cases parts with
      | nil => cases member
      | cons second parts => exact mem_cons_of_mem _ member
    rcases induction others with ⟨final, read, atEnd⟩
    have later : final = .header ∨ ∃ other ∈ part :: parts, other.kind = .ebpf ∧
      final = .lost other.body.bytes :=
      atEnd.imp_right fun ⟨other, member, isLost⟩ => ⟨other, mem_cons_of_mem _ member, isLost⟩
    rw [fileBytes, fileHanded, flatMap_cons, flatMap_cons, callEnds]
    cases isKind : part.kind with
    | items =>
      refine ⟨final, ?_, later⟩
      simp only [reduceCtorEq, false_or]
      exact stops_of_items isKind read
    | perf =>
      refine ⟨final, ?_, later⟩
      rw [if_pos (.inl rfl)]
      exact stops_of_perf isKind read
    | ebpf =>
      cases parts with
      | nil =>
        refine ⟨.lost part.body.bytes, ?_, .inr ⟨part, mem_cons_self, isKind, rfl⟩⟩
        have read := stops_of_ebpf isKind []
        rw [append_nil] at read
        rw [if_pos (.inr rfl)]
        simp only [flatMap_nil, append_nil]
        exact read
      | cons second parts => exact absurd isKind (ebpfLast part mem_cons_self)

def parse (chunks : List (List UInt8)) : HtraceParser :=
  run HtraceParser.parseTraceDataSegment .initial chunks

theorem logs_last (atEnd : final = .header ∨ ∃ body, final = .lost body)
    (phase : Phase) (block : List UInt8) (events : List Handed)
    (accepted : sectionReader.accept phase block = some (final, events)) : events ≠ [] := by
  cases phase with
  | header =>
    simp only [sectionReader] at accepted
    split at accepted
    · rw [some.injEq, Prod.mk.injEq, behindHeader] at accepted
      rcases accepted with ⟨isFinal, _⟩
      rcases atEnd with rfl | ⟨body, rfl⟩ <;> split at isFinal <;> cases isFinal
    · cases accepted
  | segLength left =>
    simp only [sectionReader, some.injEq, Prod.mk.injEq] at accepted
    rcases accepted with ⟨rfl, _⟩
    rcases atEnd with isFinal | ⟨body, isFinal⟩ <;> cases isFinal
  | item nextLength left =>
    simp only [sectionReader, some.injEq, Prod.mk.injEq] at accepted
    rcases accepted with ⟨_, rfl⟩
    exact cons_ne_nil _ _
  | body dataType bodyLength pluginName =>
    simp only [sectionReader] at accepted
    split at accepted
    · cases accepted
      exact cons_ne_nil _ _
    · split at accepted
      · cases accepted
        exact cons_ne_nil _ _
      · cases accepted
  | lost body => cases accepted

theorem parse_of_ebpfLast (ebpfLast : ∀ part ∈ parts.dropLast, part.kind ≠ .ebpf)
    {chunks : List (List UInt8)} (nonempty : ∀ chunk ∈ chunks, chunk ≠ [])
    (cut : chunks.flatten = fileBytes parts) :
    ((parse chunks).handed = fileHanded parts ↔ Meets (callEnds parts) (unfed chunks)) ∧
      (Meets (callEnds parts) (unfed chunks) → (∀ part ∈ parts, part.kind ≠ .ebpf) →
        (parse chunks).packagesBuffer = []) := by
  rcases stops_file ebpfLast with ⟨final, read, atEnd⟩
  have ends : final = .header ∨ ∃ body, final = .lost body :=
    atEnd.imp_right fun ⟨part, _, _, isLost⟩ => ⟨part.body.bytes, isLost⟩
  have settled : sectionReader.Settled final [] := by
    rcases ends with rfl | ⟨body, rfl⟩
    · exact .inl (Nat.succ_pos 1023)
    · exact .inr rfl
  have framed : HtraceParser.initial.Framed := fun known => by cases known
  rw [← cut, ← nil_append chunks.flatten] at read
  rcases HtraceParser.feeds.chunks nonempty framed settled read (.inl rfl) with
    ⟨logged, more, next, bytes, ahead, isEvery, isLogged, rest, meets, outcome⟩
  have isLogged : (parse chunks).handed = logged := isLogged
  rw [isLogged, isEvery, self_eq_append_right, ← meets]
  constructor
  · constructor
    · rintro rfl
      exact rest.of_no_events (logs_last ends)
    · rintro rfl
      exact rest.of_nil.1
  · rintro rfl noEbpf
    rcases rest.of_nil with ⟨_, rfl, rfl⟩
    rcases outcome with ⟨_, _, pending⟩ | ⟨body, _, rfl, _⟩
    · exact pending
    · rcases atEnd with impossible | ⟨part, member, isEbpf, _⟩
      · cases impossible
      · exact absurd isEbpf (noEbpf part member)

theorem callEnds_items (noBodies : ∀ part ∈ parts, part.kind = .items) :
    callEnds parts = if parts = [] then [] else [0] := by
  induction parts with
  | nil => rfl
  | cons part parts induction =>
    have isItems := noBodies part mem_cons_self
    rw [callEnds, isItems, if_neg (cons_ne_nil _ _), induction fun other member =>
      noBodies other (mem_cons_of_mem _ member)]
    cases parts with
    | nil => rfl
    | cons second parts => rfl

/-- The items of a file do not depend on how it is cut. -/
theorem items_of_chunks (parts : List ProfilerSection)
    (noBodies : ∀ part ∈ parts, part.kind = .items)
    (chunks : List (List UInt8)) (nonempty : ∀ chunk ∈ chunks, chunk ≠ [])
    (cut : chunks.flatten = fileBytes parts) :
    (parse chunks).handed = fileHanded parts ∧ (parse chunks).packagesBuffer = [] := by
  have noEbpf : ∀ part ∈ parts, part.kind ≠ .ebpf := by
    intro part member
    rw [noBodies part member]
    decide
  have ebpfLast : ∀ part ∈ parts.dropLast, part.kind ≠ .ebpf :=
    fun part member => noEbpf part ((dropLast_sublist parts).mem member)
  have meets : Meets (callEnds parts) (unfed chunks) := by
    rw [callEnds_items noBodies]
    cases parts with
    | nil => exact .nil
    | cons part parts =>
      refine meets_end ?_
      rintro rfl
      have positive := part.nonempty
      have none := congrArg List.length cut
      simp only [fileBytes, flatMap_cons, ProfilerSection.bytes,
        length_append, flatten_nil, length_nil] at none
      omega
  rcases parse_of_ebpfLast ebpfLast nonempty cut with ⟨handedIff, buffer⟩
  exact ⟨handedIff.2 meets, buffer meets noEbpf⟩

/-- A header of a section with a body of five bytes. -/
def shortHeader (dataType : UInt8) : List UInt8 :=
  [79, 72, 79, 83, 80, 82, 79, 70, 5, 4, 0, 0, 0, 0, 0, 0] ++
    replicate 40 0 ++ dataType :: replicate 967 0

theorem length_shortHeader (dataType : UInt8) :
    (shortHeader dataType).length = packetHeaderLength := by
  simp only [shortHeader, length_append, length_replicate, length_cons, length_nil]
  rfl

def oneItem : ProfilerSection where
  header := shortHeader 0
  body := .items [⟨[1, 0, 0, 0], [42], rfl, rfl⟩]
  headerLength := length_shortHeader 0
  magic := rfl
  length := rfl
  nonempty := by decide
  typed := by
    show ¬ HasOwnParser (ProfilerTraceFileHeader.dataType (shortHeader 0))
    decide

theorem items_of_chunks_oneItem :
    (parse [oneItem.bytes.take 20, oneItem.bytes.drop 20]).handed = [.traceDataItem [42]] ∧
      (parse [oneItem.bytes.take 20, oneItem.bytes.drop 20]).packagesBuffer = [] :=
  items_of_chunks [oneItem] (by decide) _ (by decide) (by
    rw [flatten_cons, flatten_singleton, take_append_drop]
    exact (flatMap_singleton bytes oneItem).symm)

end ProfilerSection

end SysAnalyzer.Parser
