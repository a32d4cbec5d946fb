import SysAnalyzer.Foundation.Run
import Mathlib

/-!
# The text pipeline

`BytraceParser` with `SUPPORTTHREAD`: the reader puts the lines of a trace into
a ring of slots, the parser threads match them, and a filter thread hands the
matched ones to `eventParser_`.  A thread is a program counter, and a step of it
is one load, one store or one locked region of the source.  Fields that one
thread alone reads and writes go with the step next to them.

The filter thread is started by the parser threads, and nothing but
`filterThreadStarted_` keeps two of them from starting one each, so there is a
list of filter threads.  The file is not being split (`isSplitFile_` is false).
-/

namespace SysAnalyzer.Parser

open Foundation

inductive ParseStatus where
  | init
  | seprated
  | parsing
  | parsed
  | invalid
  deriving DecidableEq

/-- What the parser reads of `BytraceLine`. -/
structure BytraceLine where
  ts : UInt64
  pid : UInt32
  cpu : UInt32
  task : String
  tGidStr : String
  eventName : String
  argsStr : String

/-- The line of a slot that was never parsed. -/
def BytraceLine.empty : BytraceLine where
  ts := 0
  pid := 0
  cpu := 0
  task := ""
  tGidStr := ""
  eventName := ""
  argsStr := ""

structure DataSegment where
  seg : String
  bufLine : BytraceLine
  status : ParseStatus

def strTrim (input : String) : String :=
  String.ofList ((input.toList.dropWhile (· == ' ')).rdropWhile (· == ' '))

def isSpace (char : Char) : Bool := char.isWhitespace || char == '\x0b' || char == '\x0c'

def digitsValue (digits : List Char) : Nat :=
  digits.foldl (fun value digit => 10 * value + (digit.toNat - 48)) 0

/-- The sign that `strtoul` reads. -/
def splitSign : List Char → Bool × List Char
  | '-' :: rest => (true, rest)
  | '+' :: rest => (false, rest)
  | rest => (false, rest)

/-- `StrToInt<uint32_t>`: `strtoul` has to read the whole string. -/
def strToInt (text : String) : Option UInt32 :=
  let signed := splitSign (text.toList.dropWhile isSpace)
  let digits := signed.2.takeWhile Char.isDigit
  if digits = [] ∨ signed.2.dropWhile Char.isDigit ≠ [] then none
  else
    let value := UInt64.ofNat (min (digitsValue digits) (2 ^ 64 - 1))
    some (if signed.1 then -value else value).toUInt32

/-- What `std::smatch` gives for `bytraceMatcher_`. -/
structure LineMatch where
  before : String
  pidStr : String
  tGidStr : String
  cpuStr : String
  timeStr : String
  eventName : String
  after : String

/-- A string that `\d+` matches. -/
def IsDigits (text : String) : Prop := text ≠ "" ∧ ∀ digit ∈ text.toList, digit.isDigit = true

/--
The parts of the standard library that `ParserData` calls.  `strToTime` is
`StrToDouble` times `S_TO_NS`; it has a value on the digits, the point and the
digits that the pattern asks for, as `\d+` has for the numbers.
-/
structure LineReader where
  regexSearch : String → Option LineMatch
  strToTime : String → Option UInt64
  pidDigits : ∀ line found, regexSearch line = some found → IsDigits found.pidStr
  cpuDigits : ∀ line found, regexSearch line = some found → IsDigits found.cpuStr
  timeConverts : ∀ line found, regexSearch line = some found → (strToTime found.timeStr).isSome

namespace LineReader

/-- `GetDataSegAttr`; `none` where it leaves `TS_PARSE_STATUS_INVALID`. -/
def getDataSegAttr (reader : LineReader) (matcheLine : LineMatch) : Option BytraceLine :=
  match strToInt matcheLine.pidStr with
  | none => none
  | some optionalPid =>
    match strToInt matcheLine.cpuStr with
    | none => none
    | some optionalCpu =>
      match reader.strToTime matcheLine.timeStr with
      | none => none
      | some optionalTime =>
        let task := strTrim matcheLine.before
        some
          { ts := optionalTime
            pid := optionalPid
            cpu := optionalCpu
            task := if task = "<...>" then "" else task
            tGidStr := matcheLine.tGidStr
            eventName := matcheLine.eventName
            argsStr := strTrim matcheLine.after }

def parse (reader : LineReader) (line : String) : Option BytraceLine :=
  (reader.regexSearch line).bind reader.getDataSegAttr

end LineReader

/-! ## The threads -/

namespace BytraceParser

def maxSegArraySize : Nat := 5000

/--
Where the reader is: between two lines, in `ParseTraceDataItem`, or in
`WaitForParserEnd`.
-/
inductive ReaderPc where
  | nextLine
  | loadToExit (buffer : String)
  | loadStatus (buffer : String)
  | storeSeg (buffer : String)
  | storeStatus
  | startThreads
  | loadCount (tmp : Nat)
  | storeCount (tmp : Nat) (loaded : Nat)
  | spawnParser (tmp : Nat)
  | loadStarted
  | storeToExit
  | loadExited
  | left
  deriving DecidableEq

/-- Where a parser thread is: in `GetNextSegment`, `ParseThread` or `ParserData`. -/
inductive ParserPc where
  | getNextSegment
  | loadCount
  | loadNoFilter
  | storeExited
  | loadFilterStarted
  | storeExitedToo
  | parserData (head : Nat)
  | storeBufLine (head : Nat) (bufLine : BytraceLine)
  | storeStatus (head : Nat) (status : ParseStatus) (hasMatch : Bool)
  | loadStarted
  | storeStarted
  | spawnFilter
  | returned

/-- Where a filter thread is: in `FilterThread` or `FilterData`. -/
inductive FilterPc where
  | loadHead
  | loadInvalid (head : Nat)
  | loadParsed (head : Nat)
  | loadToExit (head : Nat)
  | loadCount (head : Nat)
  | storeExited
  | clearStarted
  | parseDataItem (head : Nat)
  | reloadHead (head : Nat)
  | storeHead (head : Nat) (next : Nat)
  | storeInit (head : Nat)
  | returned

/--
The shared fields, the threads, the lines that the reader still gets and the
lines that `eventParser_->ParseDataItem` was called with.
-/
structure State where
  dataSegArray : Nat → DataSegment
  rawDataHead : Nat
  parseHead : Nat
  filterHead : Nat
  parserThreadCount : Nat
  parseThreadStarted : Bool
  filterThreadStarted : Bool
  toExit : Bool
  exited : Bool
  reader : ReaderPc
  rest : List String
  parsers : List ParserPc
  filters : List FilterPc
  handed : List BytraceLine

def start (lines : List String) : State where
  dataSegArray := fun _ => ⟨"", .empty, .init⟩
  rawDataHead := 0
  parseHead := 0
  filterHead := 0
  parserThreadCount := 0
  parseThreadStarted := false
  filterThreadStarted := false
  toExit := false
  exited := false
  reader := .nextLine
  rest := lines
  parsers := []
  filters := []
  handed := []

namespace State

def slot (state : State) (head : Nat) : DataSegment := state.dataSegArray head

def setSlot (state : State) (head : Nat) (segment : DataSegment) : State :=
  { state with
    dataSegArray := Function.update state.dataSegArray head segment }

end State

def readerStep (maxThread : Nat) (state : State) : State :=
  match state.reader with
  | .nextLine =>
    match state.rest with
    | buffer :: rest => { state with reader := .loadToExit buffer, rest := rest }
    | [] => { state with reader := .loadStarted }
  | .loadToExit buffer =>
    if state.toExit then { state with reader := .startThreads }
    else { state with reader := .loadStatus buffer }
  | .loadStatus buffer =>
    if (state.slot state.rawDataHead).status ≠ .init then
      { state with reader := .loadToExit buffer }
    else { state with reader := .storeSeg buffer }
  | .storeSeg buffer =>
    { state.setSlot state.rawDataHead
        { state.slot state.rawDataHead with seg := buffer } with
      reader := .storeStatus }
  | .storeStatus =>
    { state.setSlot state.rawDataHead
        { state.slot state.rawDataHead with status := .seprated } with
      rawDataHead := (state.rawDataHead + 1) % maxSegArraySize
      reader := .startThreads }
  | .startThreads =>
    if state.parseThreadStarted then { state with reader := .nextLine }
    else { state with parseThreadStarted := true, reader := .loadCount maxThread }
  | .loadCount 0 => { state with reader := .nextLine }
  | .loadCount (tmp + 1) => { state with reader := .storeCount tmp state.parserThreadCount }
  | .storeCount tmp loaded =>
    { state with
      parserThreadCount := loaded + 1
      reader := .spawnParser tmp }
  | .spawnParser tmp =>
    { state with
      parsers := state.parsers ++ [.getNextSegment]
      reader := .loadCount tmp }
  | .loadStarted =>
    if state.parseThreadStarted ∨ state.filterThreadStarted then
      { state with reader := .storeToExit }
    else { state with reader := .left }
  | .storeToExit => { state with toExit := true, reader := .loadExited }
  | .loadExited => if state.exited then { state with reader := .left } else state
  | .left => state

/-- The locked region of `GetNextSegment`, with where it goes on. -/
def getNextSegment (state : State) : State × ParserPc :=
  let head := state.parseHead
  if (state.slot head).status ≠ .seprated then
    if state.toExit then
      ({ state with parserThreadCount := state.parserThreadCount - 1 }, .loadCount)
    else
      -- both ways out of ERROR_CODE_NODATA sleep and come back
      (state, .getNextSegment)
  else
    ({ state.setSlot head { state.slot head with status := .parsing } with
      parseHead := (head + 1) % maxSegArraySize },
      .parserData head)

def parserStep (reader : LineReader) (state : State) : ParserPc → State × ParserPc
  | .getNextSegment => getNextSegment state
  | .loadCount =>
    if state.parserThreadCount = 0 then (state, .loadNoFilter)
    else (state, .loadFilterStarted)
  | .loadNoFilter =>
    if state.filterThreadStarted then (state, .loadFilterStarted)
    else (state, .storeExited)
  | .storeExited => ({ state with exited := true }, .loadFilterStarted)
  | .loadFilterStarted =>
    if state.filterThreadStarted then (state, .returned)
    else (state, .storeExitedToo)
  | .storeExitedToo => ({ state with exited := true }, .returned)
  | .parserData head =>
    match reader.regexSearch (state.slot head).seg with
    | none => (state, .storeStatus head .invalid false)
    | some matcheLine =>
      match reader.getDataSegAttr matcheLine with
      | none => (state, .storeStatus head .invalid true)
      | some bufLine => (state, .storeBufLine head bufLine)
  | .storeBufLine head bufLine =>
    (state.setSlot head { state.slot head with bufLine := bufLine }, .storeStatus head .parsed true)
  | .storeStatus head status hasMatch =>
    (state.setSlot head { state.slot head with status := status },
      if hasMatch then .loadStarted else .getNextSegment)
  | .loadStarted =>
    if state.filterThreadStarted then (state, .getNextSegment)
    else (state, .storeStarted)
  | .storeStarted => ({ state with filterThreadStarted := true }, .spawnFilter)
  | .spawnFilter => ({ state with filters := state.filters ++ [.loadHead] }, .getNextSegment)
  | .returned => (state, .returned)

def filterStep (state : State) : FilterPc → State × FilterPc
  | .loadHead => (state, .loadInvalid state.filterHead)
  | .loadInvalid head =>
    if (state.slot head).status = .invalid then (state, .reloadHead head)
    else (state, .loadParsed head)
  | .loadParsed head =>
    if (state.slot head).status ≠ .parsed then (state, .loadToExit head)
    else (state, .parseDataItem head)
  | .loadToExit head => if state.toExit then (state, .loadCount head) else (state, .loadHead)
  | .loadCount _ =>
    if state.parserThreadCount = 0 then (state, .storeExited)
    else (state, .loadHead)
  | .storeExited => ({ state with exited := true }, .clearStarted)
  | .clearStarted => ({ state with filterThreadStarted := false }, .returned)
  | .parseDataItem head =>
    ({ state with handed := state.handed ++ [(state.slot head).bufLine] }, .reloadHead head)
  | .reloadHead head => (state, .storeHead head ((state.filterHead + 1) % maxSegArraySize))
  | .storeHead head next => ({ state with filterHead := next }, .storeInit head)
  | .storeInit head => (state.setSlot head { state.slot head with status := .init }, .loadHead)
  | .returned => (state, .returned)

inductive Thread where
  | reader
  | parser (index : Nat)
  | filter (index : Nat)

def step (reader : LineReader) (maxThread : Nat) (state : State) : Thread → State
  | .reader => readerStep maxThread state
  | .parser index =>
    match state.parsers[index]? with
    | none => state
    | some pc =>
      let next := parserStep reader state pc
      { next.1 with parsers := next.1.parsers.set index next.2 }
  | .filter index =>
    match state.filters[index]? with
    | none => state
    | some pc =>
      let next := filterStep state pc
      { next.1 with filters := next.1.filters.set index next.2 }

def reached (reader : LineReader) (maxThread : Nat) (lines : List String)
    (schedule : List Thread) : State :=
  run (step reader maxThread) (start lines) schedule

end BytraceParser

end SysAnalyzer.Parser
