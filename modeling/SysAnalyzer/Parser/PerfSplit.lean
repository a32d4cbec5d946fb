import SysAnalyzer.Parser.PerfFile

/-!
# The state of a split

Between two calls the parser is at a place of the file.  `Stage` says for each
state of the parser what it has read up to its place, and the function of every
state goes from one stage to the next.  What is put to the result does not
depend on where the calls begin and end.
-/

namespace SysAnalyzer.Parser

open Foundation List

namespace PerfDataParser

/-- The records that `SplitPerfParsingData` keeps of those to come. -/
def keptRecords (window : SplitWindow) (sampleTimeOffset : Nat) :
    (splitDataEnd : Bool) → List (List UInt8) → List (List UInt8)
  | _, [] => []
  | splitDataEnd, record :: records =>
    let needed := needRecord window sampleTimeOffset splitDataEnd record
    if needed.1 then record :: keptRecords window sampleTimeOffset needed.2 records
    else keptRecords window sampleTimeOffset needed.2 records

theorem keptRecords_sublist (window : SplitWindow) (sampleTimeOffset : Nat) (splitDataEnd : Bool)
    (records : List (List UInt8)) :
    (keptRecords window sampleTimeOffset splitDataEnd records).Sublist records := by
  induction records generalizing splitDataEnd with
  | nil => exact List.Sublist.refl _
  | cons record records induction =>
    rw [keptRecords]
    split
    · exact (induction _).cons_cons record
    · exact (induction _).cons record

def keptOf (file : PerfFile) (window : SplitWindow) : List (List UInt8) :=
  keptRecords window (sampleTimeOffsetOf file.sampleType) false file.records

/-! ## Ranges of the input -/

def placeInInput (offset place : Nat) : Nat := ((storedOffset offset + place) % 2 ^ 64).toNat

theorem storedOffset_of_lt {offset : Nat} (small : offset < 2 ^ 31) :
    storedOffset offset = offset :=
  Int.bmod_eq_of_le (by omega) (by omega)

variable {place : Nat}

theorem placeInInput_of_lt {offset : Nat} (small : offset < 2 ^ 31)
    (inside : offset + place < 2 ^ 64) : placeInInput offset place = offset + place := by
  have cut : (storedOffset offset + place) % 2 ^ 64 = ((offset + place : Nat) : Int) := by
    rw [storedOffset_of_lt small]
    exact Int.emod_eq_of_lt (by omega) (by omega)
  exact congrArg Int.toNat cut

theorem place_lt {offset length : Nat} (addressable : offset + length < 2 ^ 63)
    (inside : place ≤ length) : offset + place < 2 ^ 64 := by
  omega

def jsonPieces (ranges : List (Nat × Nat)) : List SplitPiece :=
  ranges.map fun range => .json range.1 range.2

def rangeBytes (input : List UInt8) (ranges : List (Nat × Nat)) : List UInt8 :=
  ranges.flatMap fun range => (input.drop range.1).take range.2

theorem rangeBytes_append (input : List UInt8) (first second : List (Nat × Nat)) :
    rangeBytes input (first ++ second) = rangeBytes input first ++ rangeBytes input second :=
  flatMap_append

@[simp]
theorem rangeBytes_singleton (input : List UInt8) (range : Nat × Nat) :
    rangeBytes input [range] = (input.drop range.1).take range.2 :=
  flatMap_singleton _ _

/--
The ranges in front of the section of the features, when some records are kept.
Only when the offset is stored as it is, these are their places.
-/
structure Ranges (file : PerfFile) (offset : Nat)
    (ranges : List (Nat × Nat)) (kept : List UInt8) : Prop where
  first : ∃ size more, ranges = (placeInInput offset perfFileHeaderSize, size) :: more ∧
    file.preamble.length ≤ size
  total : (ranges.map Prod.snd).sum = file.preamble.length + kept.length
  inside : offset < 2 ^ 31 → ∀ range ∈ ranges, range.1 + range.2 ≤ offset + file.bytes.length
  bytes : offset < 2 ^ 31 → ∀ before after, before.length = offset →
    rangeBytes (before ++ file.bytes ++ after) ranges = file.preamble ++ kept

theorem range_of_file {before bytes after : List UInt8} {offset size : Nat}
    (length : before.length = offset) (inside : place + size ≤ bytes.length) :
    ((before ++ bytes ++ after).drop (offset + place)).take size =
      (bytes.drop place).take size := by
  rw [append_assoc, ← drop_drop, ← length, drop_left,
    drop_append_of_le_length (by omega), take_append_of_le_length]
  rw [length_drop]
  omega

section Put

variable {file : PerfFile} {offset : Nat}

theorem Ranges.start (wellFormed : file.WellFormed)
    (addressable : offset + file.bytes.length < 2 ^ 63) :
    Ranges file offset [(placeInInput offset perfFileHeaderSize, file.preamble.length)] [] where
  first := ⟨_, _, rfl, le_refl _⟩
  total := rfl
  inside := by
    intro small range present
    rw [mem_singleton] at present
    have length := wellFormed.length_bytes
    have dataEnd := wellFormed.dataEnd_eq
    rw [present, placeInInput_of_lt small (place_lt addressable (by omega))]
    dsimp only
    omega
  bytes := by
    intro small before after place
    have length := wellFormed.length_bytes
    have dataEnd := wellFormed.dataEnd_eq
    rw [rangeBytes_singleton,
      placeInInput_of_lt small (place_lt addressable (by omega)), range_of_file place (by omega), wellFormed.complete.drop_header,
      take_left, append_nil]

/-- A range is joined to the last one when it starts where that one ends. -/
def putRange (ranges : List (Nat × Nat)) (last : Nat × Nat)
    (offset size : Nat) : List (Nat × Nat) :=
  if (last.1 + last.2) % 2 ^ 64 = offset then ranges ++ [(last.1, last.2 + size)]
  else ranges ++ [last] ++ [(offset, size)]

variable {ranges : List (Nat × Nat)}

theorem extendJson_splitResult {parser : PerfDataParser} {front : List SplitPiece}
    {last : Nat × Nat} (result : parser.splitResult = front ++ jsonPieces (ranges ++ [last]))
    (offset size : Nat) :
    parser.extendJson offset size = { parser with
        splitResult :=
          front ++ jsonPieces (putRange ranges last offset size) } := by
  have pieces : parser.splitResult = (front ++ jsonPieces ranges) ++ [.json last.1 last.2] := by
    rw [result, jsonPieces, map_append, append_assoc]
    rfl
  rw [extendJson, pieces, getLast?_concat]
  dsimp only
  rw [dropLast_concat, putRange]
  split
  · simp only [jsonPieces, map_append, map_cons, map_nil, append_assoc]
  · simp only [addJson, pieces, jsonPieces, map_append, map_cons,
      map_nil, append_assoc, cons_append, nil_append]

/-- A kept record goes on with the last range or begins one. -/
theorem Ranges.put {last : Nat × Nat} {kept record : List UInt8} {place : Nat}
    (held : Ranges file offset (ranges ++ [last]) kept)
    (addressable : offset + file.bytes.length < 2 ^ 63)
    (inside : place + record.length ≤ file.bytes.length)
    (present : (file.bytes.drop place).take record.length = record) :
    Ranges file offset (putRange ranges last (placeInInput offset place) record.length)
      (kept ++ record) where
  first := by
    rcases held.first with ⟨size, more, first, covers⟩
    rw [putRange]
    split
    · cases ranges with
      | nil =>
        rw [nil_append, List.cons.injEq] at first
        rw [first.1]
        dsimp only [nil_append]
        exact ⟨_, [], rfl, Nat.le_trans covers (Nat.le_add_right _ _)⟩
      | cons head ranges =>
        rw [cons_append, List.cons.injEq] at first
        rw [first.1]
        exact ⟨_, _, rfl, covers⟩
    · refine ⟨size, more ++ [(placeInInput offset place, record.length)], ?_, covers⟩
      rw [← cons_append, ← first]
  total := by
    have total := held.total
    rw [putRange]
    split <;> simp only [map_append, map_cons, map_nil, sum_append, sum_cons, sum_nil,
      length_append] at total ⊢ <;>
      omega
  inside := by
    intro small range member
    have lastInside := held.inside small last (mem_append_right _ (mem_singleton_self _))
    have start := placeInInput_of_lt small (place_lt addressable (Nat.le_of_add_right_le inside))
    rw [putRange] at member
    split at member
    next joined =>
      rcases mem_append.1 member with member | member
      · exact held.inside small range (mem_append_left _ member)
      · rw [mem_singleton] at member
        rw [member]
        rw [start] at joined
        dsimp only
        omega
    next apart =>
      rcases mem_append.1 member with member | member
      · exact held.inside small range member
      · rw [mem_singleton] at member
        rw [member, start]
        dsimp only
        omega
  bytes := by
    intro small before after length
    have bytes := held.bytes small before after length
    have lastInside := held.inside small last (mem_append_right _ (mem_singleton_self _))
    have start := placeInInput_of_lt small (place_lt addressable (Nat.le_of_add_right_le inside))
    have range : ((before ++ file.bytes ++ after).drop
      (placeInInput offset place)).take record.length = record := by
      rw [start, range_of_file length inside, present]
    rw [putRange]
    split
    next joined =>
      have joins : last.1 + last.2 = placeInInput offset place := by
        rw [← joined]
        exact (Nat.mod_eq_of_lt (by omega)).symm
      rw [rangeBytes_append, rangeBytes_singleton] at bytes ⊢
      rw [take_add, drop_drop, joins, range, ← append_assoc, bytes, append_assoc]
    next apart => rw [rangeBytes_append, bytes, rangeBytes_singleton, range, append_assoc]

end Put

end PerfDataParser

end SysAnalyzer.Parser
