import SysAnalyzer.Foundation.ByteSearch
import SysAnalyzer.Foundation.Lines

/-!
# The lines of a text trace

`BytraceParser::ParseTraceDataSegment` takes a text trace chunk by chunk, cuts
it into lines and hands each to the parser of its kind.  A HTML page is taken
for its `trace-data` scripts only.

A newline with which the buffer begins is stepped over without counting a line,
and what stands behind the last newline waits for the next chunk; after the last
chunk nothing takes it.
-/

namespace SysAnalyzer.Parser.TextSegments

open Foundation

abbrev Bytes := List UInt8

def ascii (text : String) : Bytes := text.toList.map fun character => UInt8.ofNat character.toNat

/-- The file types a `BytraceParser` is made for. -/
inductive TraceFileType where
  | byTrace
  | sysevent
  | hilog
  deriving DecidableEq

inductive LineParser where
  | parseHilogDataItem
  | parseTraceDataItem
  | parseJsonData
  deriving DecidableEq

/-- The calls a `BytraceParser` makes. -/
inductive Call where
  /-- A line, with the counter `seq_`, which only `ParseHilogDataItem` takes. -/
  | line (parser : LineParser) (text : Bytes) (seq : Nat)
  | filterAllEvents
  | clearEvents
  | filterAllHilogData

/-- The members of `BytraceParser` that cutting into lines works with. -/
structure BytraceParser where
  fileType : TraceFileType
  isBytrace : Bool
  packagesBuffer : Bytes
  isFirstLine : Bool
  isHtmlTrace : Bool
  isHtmlTraceContent : Bool
  traceBegan : Bool
  traceCommentLines : Nat
  parsedTraceInvalidLines : Nat
  seq : Nat
  calls : List Call

namespace BytraceParser

/-- A new parser, as `TraceStreamerSelector` makes it. -/
def new (fileType : TraceFileType) : BytraceParser where
  fileType := fileType
  isBytrace := fileType = .byTrace
  packagesBuffer := []
  isFirstLine := true
  isHtmlTrace := false
  isHtmlTraceContent := false
  traceBegan := false
  traceCommentLines := 0
  parsedTraceInvalidLines := 0
  seq := 1
  calls := []

end BytraceParser

def newline : UInt8 := 0x0A

def toLower (byte : UInt8) : UInt8 := if 0x41 ≤ byte ∧ byte ≤ 0x5A then byte + 0x20 else byte

def isSpace (byte : UInt8) : Bool := byte = 0x20 || (0x09 ≤ byte && byte ≤ 0x0D)

def isTraceComment (line : Bytes) : Bool :=
  line.head? = some 0x23 || (find (ascii "TASK-PID") line).isSome

def isHtmlTrace (line : Bytes) : Bool :=
  (ascii "<!doctype html>").isPrefixOf (line.map toLower) ||
    (ascii "<html>").isPrefixOf (line.map toLower)

def isHtmlTraceBegin (line : Bytes) : Bool :=
  (find (ascii "<script class=\"trace-data\" type=\"application/text\">") line).isSome

def script : Bytes := ascii "</script>"

/-- `bufferLine`: the bytes before the newline without a carriage return. -/
def bufferLine (raw : Bytes) : Bytes := if raw.getLast? = some 0x0D then raw.dropLast else raw

namespace BytraceParser

def lineParser (parser : BytraceParser) : LineParser :=
  if parser.fileType = .hilog then .parseHilogDataItem
  else if parser.isBytrace then .parseTraceDataItem
  else .parseJsonData

/-- The loop's body from the test for a comment on. -/
def handLine (parser : BytraceParser) (line : Bytes) : BytraceParser :=
  if isTraceComment line then { parser with traceCommentLines := parser.traceCommentLines + 1 }
  else if line = [] then
    { parser with parsedTraceInvalidLines := parser.parsedTraceInvalidLines + 1 }
  else
    { parser with
      traceBegan := parser.traceBegan || decide (parser.lineParser = .parseTraceDataItem)
      calls := parser.calls ++ [.line parser.lineParser line parser.seq] }

/-- The loop's body from the test for a HTML page on, up to `NEXT_LINE`. -/
def takeLine (parser : BytraceParser) (line : Bytes) : BytraceParser :=
  let opened := { parser with isFirstLine := false }
  if parser.isFirstLine && TextSegments.isHtmlTrace line then { opened with isHtmlTrace := true }
  else if !parser.isHtmlTrace then opened.handLine line
  else if !parser.isHtmlTraceContent then
    if isHtmlTraceBegin line then { opened with isHtmlTraceContent := true }
    else opened
  else
    match find script line with
    | some place =>
      let closed := { opened with isHtmlTraceContent := false }
      if (line.take place).all isSpace then closed
      else closed.handLine (line.take place)
    | none => opened.handLine line

/-- A turn of the loop. -/
def nextLine (parser : BytraceParser) (raw : Bytes) : BytraceParser :=
  let taken := parser.takeLine (bufferLine raw)
  { taken with seq := taken.seq + 1 }

/-- The lines the loop counts: the first is skipped when it is the newline at
the beginning of the buffer. -/
def countedLines (ended : List Bytes) : List Bytes :=
  match ended with
  | [] :: rest => rest
  | ended => ended

/-- `BytraceParser::ParseTraceDataSegment`; `isParsingOver_` is never set. -/
def parseTraceDataSegment (parser : BytraceParser) (chunk : Bytes) : BytraceParser :=
  let lines := Lines.split newline (parser.packagesBuffer ++ chunk)
  { run nextLine parser (countedLines lines.ended) with
    packagesBuffer := lines.tail }

/-- `BytraceParser::WaitForParserEnd`, once the parser threads have ended. -/
def waitForParserEnd (parser : BytraceParser) : BytraceParser :=
  { parser with
    calls := parser.calls ++ [.filterAllEvents, .clearEvents, .filterAllHilogData] }

end BytraceParser

def isHanded (line : Bytes) : Bool := !isTraceComment line && line != []

/-- What a line is handed over as, when it is the one of the given number. -/
def numberedLine (seq : Nat) (raw : Bytes) : List (Bytes × Nat) :=
  if isHanded (bufferLine raw) then [(bufferLine raw, seq)] else []

def numberedLines (seq : Nat) : List Bytes → List (Bytes × Nat)
  | [] => []
  | raw :: rest => numberedLine seq raw ++ numberedLines (seq + 1) rest

def allLines (text : Bytes) : List Bytes :=
  (Lines.split newline text).ended ++ [(Lines.split newline text).tail]

/-- The text is not HTML: its first line that is not empty does not say so. -/
def NotHtml (text : Bytes) : Prop :=
  ∀ raw, (Lines.split newline text).ended.find? (· ≠ []) = some raw →
    isHtmlTrace (bufferLine raw) = false

structure CutText where
  chunks : List Bytes
  notHtml : NotHtml chunks.flatten

def CutText.text (cut : CutText) : Bytes := cut.chunks.flatten

def handedLines (calls : List Call) : List (Bytes × Nat) :=
  calls.filterMap fun call =>
    match call with
    | .line _ text seq => some (text, seq)
    | _ => none

end SysAnalyzer.Parser.TextSegments
