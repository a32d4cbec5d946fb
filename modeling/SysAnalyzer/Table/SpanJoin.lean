import SysAnalyzer.Foundation.MergePath
import SysAnalyzer.Table.FilterConstraints

/-!
# The span join

`SpanJoin` joins two tables of spans that share a partition column.  Each side
is read through `CaclSpan`, a machine that stands on a span (`TS_REAL`), in a
gap (`TS_PARTITION`), in a missing partition (`TS_MISSING`) or at the end; the
join cursor advances the side that ends first and reports the pairs its overlap
test accepts.

`SearchNextslice` runs over every state but `TS_REAL`, so the cursor always
stands on a pair of spans and follows the path of a merge by (partition, end).
There the overlap test accepts every pair whose first span starts no earlier
than the second one, whatever the ends and the partitions are.
-/

namespace SysAnalyzer.Table

open Foundation

inductive PartitionState where
  | real
  | partition
  | missing
  | eof
  deriving DecidableEq

/-- A row of a joined table; `none` is a NULL partition. -/
structure SpanRow where
  partition : Option Int
  ts : Int
  dur : Int

/--
The state of one side.  The prepared statement is the row it stands on together
with the rows it has not reached yet, ordered by the query.
-/
structure CaclSpan where
  isEof : Bool := false
  ts : Int := 0
  endTs : Int := 0
  partitionState : PartitionState := .missing
  partition : Int := 0
  missPartitionStart : Int := 0
  missPartitionEnd : Int := 0
  row : Option SpanRow := none
  ahead : List SpanRow := []

/-- `std::numeric_limits<int64_t>::max()`. -/
def maxInt64 : Int := 2 ^ 63 - 1

/-- `std::numeric_limits<int32_t>::max()`. -/
def maxInt32 : Int := 2 ^ 31 - 1

namespace CaclSpan

/-- `sqlite3_column_int64` of the partition column; NULL and no row read as 0. -/
def columnPartition (span : CaclSpan) : Int := (span.row.bind SpanRow.partition).getD 0

def columnTs (span : CaclSpan) : Int := (span.row.map SpanRow.ts).getD 0

def columnDur (span : CaclSpan) : Int := (span.row.map SpanRow.dur).getD 0

def stepRow : List SpanRow → Option SpanRow × List SpanRow
  | [] => (none, [])
  | row :: rest => if row.partition.isNone then stepRow rest else (some row, rest)

def getCursorNext (span : CaclSpan) : CaclSpan :=
  let (row, ahead) := stepRow span.ahead
  { span with row := row, ahead := ahead, isEof := row.isNone }

/-- `GetNextState`; the Boolean is its result. -/
def getNextState (span : CaclSpan) : CaclSpan × Bool :=
  match span.partitionState with
  | .real =>
    let span := span.getCursorNext
    let endTs :=
      if span.isEof ∨ span.partition ≠ span.columnPartition then maxInt64
      else span.columnTs
    ({ span with
      partitionState := .partition
      ts := span.endTs
      endTs := endTs },
      true)
  | .partition =>
    if span.endTs = maxInt64 then
      ({ span with
        partitionState := .missing
        missPartitionEnd :=
          if span.isEof then maxInt32
          else wrapInt32 span.columnPartition
        missPartitionStart := wrapInt32 (span.partition + 1)
        ts := 0 },
        true)
    else
      ({ span with
        partitionState := .real
        ts := span.columnTs
        endTs := span.columnTs + span.columnDur },
        true)
  | .missing =>
    if span.missPartitionEnd = maxInt32 then ({ span with partitionState := .eof }, true)
    else
      ({ span with
        partitionState := .partition
        ts := 0
        endTs := span.columnTs
        partition := span.missPartitionEnd },
        true)
  | .eof => (span, false)

/-- The loop of `SearchNextslice` with a bound on its turns. -/
def searchNextslice : Nat → CaclSpan → CaclSpan
  | 0, span => span
  | turns + 1, span =>
    if span.partitionState = .real then span
    else
      match span.getNextState with
      | (next, true) => searchNextslice turns next
      | (next, false) => next

/-- From a span the loop takes at most four turns to the next one or to the end. -/
def turns : Nat := 4

def next (span : CaclSpan) : CaclSpan := searchNextslice turns span.getNextState.1

/--
`InitQuerySql` and `IsQueryNext` over the rows of the prepared query.  Only the
statement, `isEof_` and `missPartitionEnd_` are new: the rest of the state is
that of the last scan.
-/
def initQuerySql (span : CaclSpan) (rows : List SpanRow) : CaclSpan :=
  let span := getCursorNext { span with ahead := rows }
  searchNextslice turns { span with missPartitionEnd := wrapInt32 span.columnPartition }

def getPatitonForMiss (span : CaclSpan) : Int :=
  if span.partitionState = .missing then span.missPartitionEnd - 1
  else span.partition

end CaclSpan

/-! ## The cursor -/

inductive JoinSide where
  | first
  | second

/-- The join cursor; both tables are partitioned by the same column. -/
structure JoinCursor where
  tableFirst : CaclSpan := {}
  tableSecond : CaclSpan := {}
  queryNext : JoinSide := .first

/-- The columns `ts`, `dur` and partition of a joined row. -/
structure JoinRow where
  ts : Int
  dur : Int
  partition : Int

namespace JoinCursor

def caclOverLap (cursor : JoinCursor) : Bool :=
  let first := cursor.tableFirst
  let second := cursor.tableSecond
  if first.ts ≥ second.ts then
    (first.partitionState = .real ∧ second.partitionState = .real) ∨ first.ts < second.endTs
  else first.ts ≤ second.ts ∧ second.ts < first.endTs

/-- The side with the smaller tuple (partition, end, is real). -/
def findQueryResult (cursor : JoinCursor) : JoinSide :=
  let first := cursor.tableFirst
  let second := cursor.tableSecond
  let firstPartition := first.getPatitonForMiss
  let secondPartition := second.getPatitonForMiss
  if firstPartition < secondPartition ∨ (firstPartition = secondPartition ∧
    (first.endTs < second.endTs ∨ (first.endTs = second.endTs ∧ first.partitionState ≠ .real ∧
      second.partitionState = .real))) then
    .first
  else .second

/-- `queryNext_->Next()`. -/
def advance (cursor : JoinCursor) : JoinCursor :=
  match cursor.queryNext with
  | .first => { cursor with tableFirst := cursor.tableFirst.next }
  | .second => { cursor with tableSecond := cursor.tableSecond.next }

def eof (cursor : JoinCursor) : Bool := cursor.tableFirst.isEof || cursor.tableSecond.isEof

/-- The loop of `IsFindSpan` with a bound on its turns. -/
def findSpan : Nat → JoinCursor → JoinCursor
  | 0, cursor => cursor
  | turns + 1, cursor =>
    if cursor.eof then cursor
    else
      let cursor := { cursor with queryNext := cursor.findQueryResult }
      if cursor.caclOverLap then cursor
      else findSpan turns cursor.advance

/-- Every turn of the loop leaves one row behind. -/
def isFindSpan (cursor : JoinCursor) : JoinCursor :=
  cursor.findSpan (cursor.tableFirst.ahead.length + cursor.tableSecond.ahead.length + 2)

/-- `Filter`; SQLite calls it again on a cursor it has used. -/
def filter (cursor : JoinCursor) (first second : List SpanRow) : JoinCursor :=
  isFindSpan
    { cursor with
      tableFirst := cursor.tableFirst.initQuerySql first
      tableSecond := cursor.tableSecond.initQuerySql second }

def next (cursor : JoinCursor) : JoinCursor := cursor.advance.isFindSpan

def column (cursor : JoinCursor) : JoinRow :=
  let first := cursor.tableFirst
  let second := cursor.tableSecond
  { ts := max first.ts second.ts
    dur := min first.endTs second.endTs - max first.ts second.ts
    partition :=
      if first.partitionState = .real then first.partition
      else second.partition }

/-- Reading a cursor from its current position until `Eof` yields `rows`. -/
inductive Emits : JoinCursor → List JoinRow → Prop where
  | done {cursor : JoinCursor} (atEnd : cursor.eof = true) :
    Emits cursor []
  | emit {cursor : JoinCursor} {rows : List JoinRow}
    (notAtEnd : cursor.eof = false)
    (rest : Emits cursor.next rows) :
    Emits cursor (cursor.column :: rows)

end JoinCursor

end SysAnalyzer.Table
