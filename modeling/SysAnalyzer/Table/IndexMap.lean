import SysAnalyzer.Foundation.PartitionPoint
import SysAnalyzer.Table.FilterConstraints

/-!
# The row set of a table cursor

`IndexMap` holds the rows a cursor will visit, either as the row range
`[start, end_)` or, after a conversion, as the explicit list `rowIndex`.  The
flag `empty` is meant to say that no filter has run yet; `converted` remembers
that the range has been written out once.

The operations follow `base/index_map.h` and `base/index_map.cpp` statement by
statement.  Row numbers are `TableRowId`, a 32-bit integer: the conversions of
operands wrap, while row counts and list sizes are assumed to be in range.
`queueAt` reads cells of the column; `SearchesInside` says when a search reads
no other ones.
-/

namespace SysAnalyzer.Table

open Foundation

/-- How the rows are held: as a range or as an explicit list. -/
inductive FindIndexType where
  | id
  | outerIndex
  deriving DecidableEq

def invalidInt32 : Int := 2 ^ 31 - 1

structure IndexMap where
  rowIndex : List Int := []
  rowIndexBak : List Int := []
  end_ : Int := invalidInt32
  current : Int := 0
  start : Int := 0
  indexType : FindIndexType := .id
  empty : Bool := true
  desc : Bool := false
  converted : Bool := false
  deriving DecidableEq

/-- The constructor `IndexMap(start, end)`. -/
def ofRange (start end_ : Int) : IndexMap where
  end_ := end_
  current := start
  start := start

/-- The rows `start, …, stop - 1` in ascending order. -/
def rowRange (start stop : Int) : List Int :=
  (List.range (stop - start).toNat).map fun offset : Nat => start + offset

/-- `queue[row]` of a row of the column; outside it the read is undefined. -/
def queueAt {T : Type} [LinearOrder T] [OrderTop T] (queue : List T) (row : Int) : T :=
  queue.getD row.toNat ⊤

namespace IndexMap

def hasData (map : IndexMap) : Bool := !map.empty

def covertToIndexMap (map : IndexMap) : IndexMap :=
  if map.converted then { map with indexType := .outerIndex }
  else if map.indexType = .id ∧ map.hasData then
    let rows := map.rowIndex ++ rowRange map.start map.end_
    { map with
      converted := true
      rowIndex := rows
      current := 0
      start := 0
      end_ := rows.length
      indexType := .outerIndex
      empty := false }
  else
    { map with
      converted := true
      indexType := .outerIndex
      empty := false }

/-- The guarded conversion `if (HasData()) CovertToIndexMap()`. -/
def covertIfData (map : IndexMap) : IndexMap := if map.hasData then map.covertToIndexMap else map

def fixSize (map : IndexMap) : IndexMap :=
  match map.indexType with
  | .outerIndex => { map with end_ := map.rowIndex.length, current := 0 }
  | .id => map

/--
`Intersect`.  On a list, `changed` is set by a row that stays: when no row
stays the list is left as it was.
-/
def intersect (start stop : Int) (map : IndexMap) : IndexMap :=
  match map.indexType with
  | .outerIndex =>
    let kept := map.rowIndex.filter fun row => start ≤ row && row < stop
    let rows := if kept.isEmpty then map.rowIndex else kept
    { map with
      rowIndexBak := kept
      rowIndex := rows
      start := 0
      current := 0
      end_ := rows.length
      empty := false }
  | .id =>
    { map with
      start := max map.start start
      end_ := min map.end_ stop
      current := max map.start start
      empty := false }

section Columns

variable {T : Type} [LinearOrder T] [OrderTop T]

/-- `std::lower_bound` over the rows `[first, last)` of a column. -/
def lowerBound (rows : List T) (first last : Int) (v : T) : Int :=
  partitionPoint (fun row => decide (queueAt rows row < v)) first last

/-- `std::upper_bound` over the rows `[first, last)` of a column. -/
def upperBound (rows : List T) (first last : Int) (v : T) : Int :=
  partitionPoint (fun row => decide (queueAt rows row ≤ v)) first last

/--
`[start_, end_)` is a range of the column; a search over any other one is
undefined.
-/
def SearchesInside (rows : List T) (map : IndexMap) : Prop :=
  0 ≤ map.start ∧ map.start ≤ map.end_ ∧ map.end_ ≤ rows.length

def intersectabcEqual (rows : List T) (v : T) (map : IndexMap) : IndexMap :=
  let start := lowerBound rows map.start map.end_ v
  let stop := upperBound rows start map.end_ v
  map.intersect start stop

def intersectGreaterEqual (rows : List T) (v : T) (map : IndexMap) : IndexMap :=
  map.intersect (lowerBound rows map.start map.end_ v) invalidInt32

/--
`IntersectLessEqual`.  `std::upper_bound` calls the comparator with the key
first, so the search stops at the first cell larger than `v`: rows equal to
`v` stay.
-/
def intersectLessEqual (rows : List T) (v : T) (map : IndexMap) : IndexMap :=
  map.intersect 0 (upperBound rows map.start map.end_ v)

/-- `RemoveNullElements`; unlike its siblings it leaves `empty` as it was. -/
def removeNullElements (rows : List T) (map : IndexMap) : IndexMap :=
  let remove := map.hasData
  let map := map.covertIfData
  let rowIndex :=
    if remove then map.rowIndex.filter fun row => queueAt rows row ≠ ⊤
    else map.rowIndex ++ (rowRange 0 rows.length).filter fun row => queueAt rows row ≠ ⊤
  fixSize { map with rowIndex := rowIndex, indexType := .outerIndex }

def processData (queue : List T) (remove : Bool)
    (firstCheck scondCheck : Int → Bool) (map : IndexMap) : IndexMap :=
  if remove then
    let kept := map.rowIndex.filter fun row => !firstCheck row
    let bak := map.rowIndexBak ++ kept
    fixSize { map with
      rowIndexBak := bak
      rowIndex := if kept.isEmpty then map.rowIndex else bak
      indexType := .outerIndex }
  else
    fixSize { map with
      rowIndex := map.rowIndex ++ (rowRange 0 queue.length).filter scondCheck
      indexType := .outerIndex }

/--
The pair `(firstCheck, scondCheck)` of each operator of `MixRange`: the first
removes a listed row, the second admits a row when nothing is listed yet.
-/
def mixChecks (op : ConstraintOp) (value : T) : Option ((T → Bool) × (T → Bool)) :=
  match op with
  | .eq => some (fun cell => cell ≠ value, fun cell => cell = value)
  | .ne => some (fun cell => cell = value, fun cell => cell ≠ value)
  | .isNull => some (fun cell => cell ≠ ⊤, fun cell => cell = ⊤)
  | .isNotNull => some (fun cell => cell = ⊤, fun cell => cell ≠ ⊤)
  | .gt => some (fun cell => cell ≤ value, fun cell => cell > value)
  | .ge => some (fun cell => cell < value, fun cell => cell ≥ ⊤)
  | .le => some (fun cell => cell > value, fun cell => cell < ⊤)
  | .lt => some (fun cell => cell ≥ value, fun cell => cell < ⊤)
  | .isNot => none
  | .other _ => none

def mixRange (op : ConstraintOp) (value : T) (queue : List T) (map : IndexMap) : IndexMap :=
  let remove := map.hasData
  let map := map.covertIfData
  let map := { map with rowIndexBak := [] }
  let map :=
    match mixChecks op value with
    | some (firstCheck, scondCheck) =>
      map.processData queue remove (fun row => firstCheck (queueAt queue row))
        (fun row => scondCheck (queueAt queue row))
    | none => map
  { map with empty := false }

end Columns

/-- The `switch` of the `FilterId` members; `upper` ends the rows from `v` on. -/
def filterIdSwitch (upper : Int) (op : ConstraintOp) (v : Int) (map : IndexMap) : IndexMap :=
  match op with
  | .eq => map.intersect v (wrapInt32 (v + 1))
  | .ge => map.intersect v upper
  | .gt => map.intersect (wrapInt32 (v + 1)) upper
  | .le => map.intersect 0 (wrapInt32 (v + 1))
  | .lt => map.intersect 0 v
  | _ => map

/-- `IndexMap::FilterId`: the upper end is read after the conversion. -/
def filterId (op : ConstraintOp) (argv : SqliteValue) (map : IndexMap) : IndexMap :=
  if argv.type ≠ .integer then map.intersect 0 0
  else
    let map := map.covertIfData
    map.filterIdSwitch map.end_ op (wrapInt32 argv.int64)

/-- `IndexMap::FilterTS` and `TableBase::Cursor::FilterTS`. -/
def filterTS (op : ConstraintOp) (argv : SqliteValue)
    (times : List (Fin (2 ^ 64))) (map : IndexMap) : IndexMap :=
  let v := toUnsigned 64 argv.int64
  match op with
  | .eq => map.intersectabcEqual times v
  | .gt => map.intersectGreaterEqual times (v + 1)
  | .ge => map.intersectGreaterEqual times v
  | .le => map.intersectLessEqual times (v + 1)
  | .lt => map.intersectLessEqual times v
  | .isNotNull => map.removeNullElements times
  | _ => map

def next (map : IndexMap) : IndexMap :=
  if map.desc then
    if map.current > map.start - 1 then { map with current := map.current - 1 }
    else map
  else if map.current < map.end_ then { map with current := map.current + 1 }
  else map

def eof (map : IndexMap) : Bool :=
  if map.desc then map.current ≤ map.start - 1 else map.current ≥ map.end_

def currentRow (map : IndexMap) : Int :=
  match map.indexType with
  | .id => map.current
  | .outerIndex => map.rowIndex.getD map.current.toNat 0

def sortBy (desc : Bool) (map : IndexMap) : IndexMap :=
  { map with
    current := if desc then map.end_ - 1 else map.start
    desc := desc }

/-- Visiting a cursor from its current position until `Eof` yields `rows`. -/
inductive Enumerates : IndexMap → List Int → Prop where
  | done {map : IndexMap} (atEnd : map.eof = true) :
    Enumerates map []
  | visit {map : IndexMap} {rows : List Int}
    (notAtEnd : map.eof = false)
    (rest : Enumerates map.next rows) :
    Enumerates map (map.currentRow :: rows)

/-- The visiting loop with an explicit bound on the number of rows. -/
def enumerate : Nat → IndexMap → List Int
  | 0, _ => []
  | fuel + 1, map => if map.eof then [] else map.currentRow :: enumerate fuel map.next

/-- The rows a cursor visits; `rows_enumerates` shows that the bound suffices. -/
def rows (map : IndexMap) : List Int := map.enumerate (map.end_ - map.start).toNat

end IndexMap

end SysAnalyzer.Table
