import SysAnalyzer.Parser.RawTraceParser

/-!
# The segments of a raw trace

The loop reads the two words in front of a segment before it knows that they
are there, so a call has a result only if it ends elsewhere: inside the header
of the file, inside the content of a segment, or behind a segment whose handler
refuses it.
-/

namespace SysAnalyzer.Parser

open Foundation List Option

structure RawSegment where
  typeWord : List UInt8
  lengthWord : List UInt8
  content : List UInt8
  typeLength : typeWord.length = RawTraceParser.wordSize
  lengthLength : lengthWord.length = RawTraceParser.wordSize
  counts : littleEndian lengthWord = content.length

namespace RawSegment

def bytes (segment : RawSegment) : List UInt8 :=
  segment.typeWord ++ segment.lengthWord ++ segment.content

def allBytes (segments : List RawSegment) : List UInt8 := segments.flatMap bytes

def dispatched (segment : RawSegment) : Dispatched :=
  ⟨UInt32.ofNat (littleEndian segment.typeWord), segment.content⟩

theorem length_bytes (segment : RawSegment) :
    segment.bytes.length = 2 * RawTraceParser.wordSize + segment.content.length := by
  rw [bytes, length_append, length_append, segment.typeLength, segment.lengthLength, Nat.two_mul]

theorem allBytes_cons (segment : RawSegment) (segments : List RawSegment) :
    allBytes (segment :: segments) = segment.bytes ++ allBytes segments :=
  rfl

theorem allBytes_append (first second : List RawSegment) :
    allBytes (first ++ second) = allBytes first ++ allBytes second :=
  flatMap_append

end RawSegment

open RawSegment

/-! ## A call -/

/-- The answer of the handler of a segment. -/
abbrev Accepts := List Dispatched → Dispatched → Bool

def AcceptsAll (accepts : Accepts) : List Dispatched → List RawSegment → Prop
  | _, [] => True
  | past, segment :: rest =>
    accepts past segment.dispatched = true ∧ AcceptsAll accepts (past ++ [segment.dispatched]) rest

/-- The first of some segments that is refused. -/
def Refuses (accepts : Accepts) (past : List Dispatched)
    (accepted : List RawSegment) (refused : RawSegment) : Prop :=
  AcceptsAll accepts past accepted ∧
    accepts (past ++ accepted.map RawSegment.dispatched) refused.dispatched = false

def InContent (segments : List RawSegment) (place : Nat) : Prop :=
  ∃ before segment after, segments = before ++ segment :: after ∧
    (allBytes before).length + 2 * RawTraceParser.wordSize ≤ place ∧
      place < (allBytes before).length + segment.bytes.length

theorem InContent.lt {segments : List RawSegment} {place : Nat}
    (inContent : InContent segments place) : place < (allBytes segments).length := by
  rcases inContent with ⟨before, segment, after, rfl, _, inside⟩
  rw [allBytes_append, allBytes_cons, length_append, length_append]
  omega

section Reach

variable {accepts : Accepts} {past : List Dispatched}

end Reach

namespace RawTraceParser

variable (handlers : RawTraceHandlers)

variable {parser : RawTraceParser}

variable {unread : List UInt8}

/-- What is left of a stream while it is parsed. -/
structure Follows (header : List UInt8) (past : List Dispatched)
    (segments : List RawSegment) (unread : List UInt8)
    (parser : RawTraceParser) : Prop where
  buffer : parser.packagesBuffer ++ unread =
    (if parser.hasGotHeader then [] else header) ++ allBytes segments
  dispatched : parser.dispatched = past
  cpuRawMax : parser.hasGotHeader = true → parser.cpuRawMax = rawTraceCpuRawMax header

/-- The bytes in front of the segments. -/
def ahead (parser : RawTraceParser) : Nat :=
  if parser.hasGotHeader then 0 else rawTraceFileHeaderSize

/-- The state behind the segments that a call got through. -/
def behind (header : List UInt8) (past : List Dispatched)
    (parser : RawTraceParser) (chunk : List UInt8) (done : List RawSegment) : RawTraceParser where
  packagesBuffer := (parser.packagesBuffer ++ chunk).drop (parser.ahead + (allBytes done).length)
  hasGotHeader := true
  cpuRawMax := rawTraceCpuRawMax header
  dispatched := past ++ done.map RawSegment.dispatched

variable {handlers} {header : List UInt8}

variable {segments : List RawSegment} {chunk : List UInt8}

theorem Follows.inHeader {past : List Dispatched}
    (follows : Follows header past segments (chunk ++ unread) parser) :
    Follows header past segments unread
      { parser with packagesBuffer := parser.packagesBuffer ++ chunk } where
  buffer := by
    have buffer := follows.buffer
    rwa [← append_assoc] at buffer
  dispatched := follows.dispatched
  cpuRawMax := follows.cpuRawMax

theorem length_ahead (headerLength : header.length = rawTraceFileHeaderSize)
    (parser : RawTraceParser) :
    (if parser.hasGotHeader then [] else header).length = parser.ahead := by
  rw [ahead]
  split
  · rfl
  · exact headerLength

theorem Follows.next {past : List Dispatched} {done rest : List RawSegment}
    (headerLength : header.length = rawTraceFileHeaderSize) (follows :
      Follows header past (done ++ rest) (chunk ++ unread) parser) (fits :
      parser.ahead + (allBytes done).length ≤ (parser.packagesBuffer ++ chunk).length) :
    Follows header (past ++ done.map RawSegment.dispatched) rest unread
      (behind header past parser chunk done) where
  buffer := by
    have buffer := follows.buffer
    have length := length_ahead headerLength parser
    rw [← append_assoc, allBytes_append, ← append_assoc] at buffer
    have front := congrArg (List.drop (parser.ahead + (allBytes done).length)) buffer
    have before : ((if parser.hasGotHeader then [] else header) ++
      allBytes done).length = parser.ahead + (allBytes done).length := by
      rw [length_append, length]
    rwa [drop_append_of_le_length fits, drop_left' before] at front
  dispatched := rfl
  cpuRawMax _ := rfl

theorem Follows.length {past : List Dispatched}
    (headerLength : header.length = rawTraceFileHeaderSize)
    (follows : Follows header past segments chunk parser) :
    (parser.packagesBuffer ++ chunk).length = parser.ahead + (allBytes segments).length := by
  rw [follows.buffer, length_append, length_ahead headerLength]

variable {chunks : List (List UInt8)}

def Waits (parser : RawTraceParser) (segments : List RawSegment) (place : Nat) : Prop :=
  place < parser.ahead ∨ parser.ahead ≤ place ∧ InContent segments (place - parser.ahead)

variable {accepted : List RawSegment}

section

variable (headerLength : header.length = rawTraceFileHeaderSize)
include headerLength

end

def Inside (segments : List RawSegment) (place : Nat) : Prop :=
  place < rawTraceFileHeaderSize ∨ rawTraceFileHeaderSize ≤ place ∧
    InContent segments (place - rawTraceFileHeaderSize)

theorem follows_initial (cut : chunks.flatten = header ++ allBytes segments) :
    Follows header [] segments chunks.flatten initial where
  buffer := cut
  dispatched := rfl
  cpuRawMax hasHeader := by cases hasHeader

end RawTraceParser

end SysAnalyzer.Parser
