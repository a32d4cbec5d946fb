import SysAnalyzer.Base.TripleMap
import SysAnalyzer.Base.TsCommon
import SysAnalyzer.Foundation.KeyedRows
import SysAnalyzer.Foundation.Run

/-!
# Measure filters

A measure filter turns a counter of a thread, a process or a CPU into a filter
of the filter table and the values of the counter into rows of the measure
table.  There is a filter of each type; all of them share the filter table, and
all but the filter of process measures share the measure table.  A row is open
until the next value of its counter gives it a duration; the number of the last
row of a counter is kept in 32 bits, like the number of its filter.
-/

namespace SysAnalyzer.Filter

open Foundation
open Base

inductive FilterType where
  | threadMeasureFilter
  | threadFilter
  | processMeasureFilter
  | processFilterFilter
  | cpuMeasureFilter
  | clockRateFilter
  | clockEnableFilter
  | clockDisableFilter
  | clkRateFilter
  | clkEnableFilter
  | clkDisableFilter
  deriving DecidableEq

def filterTypeValue : FilterType → String
  | .threadMeasureFilter => "thread_measure_filter"
  | .threadFilter => "thread_measure"
  | .processMeasureFilter => "process_measure_filter"
  | .processFilterFilter => "process_filter"
  | .cpuMeasureFilter => "cpu_measure_filter"
  | .clockRateFilter => "clock_rate_filter"
  | .clockEnableFilter => "clock_enable_filter"
  | .clockDisableFilter => "clock_disable_filter"
  | .clkRateFilter => "clk_rate_filter"
  | .clkEnableFilter => "clk_enable_filter"
  | .clkDisableFilter => "clk_disable_filter"

structure FilterRow where
  type : String
  name : String
  sourceArgSetId : UInt64

structure MeasureRow where
  type : UInt32
  timeStamp : UInt64
  value : Int64
  filterId : UInt32
  dur : UInt64
  deriving DecidableEq

def appendMeasureData (type : UInt32) (timeStamp : UInt64) (value : Int64)
    (filterId : UInt32) (rows : List MeasureRow) : List MeasureRow :=
  rows ++ [⟨type, timeStamp, value, filterId, invalidUint64⟩]

def MeasureRow.until (timeStamp : UInt64) (row : MeasureRow) : MeasureRow :=
  { row with dur := timeStamp - row.timeStamp }

def setDur (row : UInt32) (timeStamp : UInt64) (rows : List MeasureRow) : List MeasureRow :=
  rows.modify row.toNat (MeasureRow.until timeStamp)

/-- The part of the data cache that the filters write to. -/
structure MeasureCache where
  filterData : List FilterRow := []
  measureData : List MeasureRow := []
  processMeasureData : List MeasureRow := []

def addFilter (type name : String) (arg : UInt64) (cache : MeasureCache) : MeasureCache × UInt32 :=
  ({ cache with filterData := cache.filterData ++ [⟨type, name, arg⟩] },
    UInt32.ofNat cache.filterData.length)

structure MeasureFilter where
  tidStreamIdFilterIdMap : DoubleMap UInt64 UInt64 UInt64
  filterType : FilterType
  filterIdToRow : StdMap UInt32 UInt32

namespace MeasureFilter

def initial (filterType : FilterType) : MeasureFilter :=
  ⟨.empty invalidUint64, filterType, fun _ => none⟩

/-- `AddCertainFilterId`, without the table of the filter's own type. -/
def addCertainFilterId (internalTid nameIndex filterId : UInt64)
    (filter : MeasureFilter) : MeasureFilter :=
  { filter with
    tidStreamIdFilterIdMap := filter.tidStreamIdFilterIdMap.insert internalTid nameIndex filterId }

/-- `GetOrCreateFilterId`; `names` is the dictionary of strings. -/
def getOrCreateFilterId (names : UInt64 → String)
    (internalTid nameIndex : UInt64) (filter : MeasureFilter)
    (cache : MeasureCache) : MeasureFilter × MeasureCache × UInt32 :=
  let filterId := filter.tidStreamIdFilterIdMap.find internalTid nameIndex
  if filterId ≠ invalidUint64 then (filter, cache, filterId.toUInt32)
  else
    let added := addFilter (filterTypeValue filter.filterType) (names nameIndex) internalTid cache
    (filter.addCertainFilterId internalTid nameIndex added.2.toUInt64, added.1, added.2)

/-- The rows behind `GetOrCreateFilterId` in `AppendNewMeasureData`. -/
def appendRow (filterId : UInt32) (timeStamp : UInt64) (value : Int64)
    (filter : MeasureFilter) (cache : MeasureCache) : MeasureFilter × MeasureCache :=
  if filter.filterType = .processMeasureFilter then
    (filter, { cache with
      processMeasureData :=
        appendMeasureData 0 timeStamp value filterId
          cache.processMeasureData })
  else
    let row := UInt32.ofNat cache.measureData.length
    let appended := appendMeasureData 0 timeStamp value filterId cache.measureData
    ({ filter with
      filterIdToRow := Function.update filter.filterIdToRow filterId (some row) },
      { cache with
        measureData :=
          match filter.filterIdToRow filterId with
          | some last => setDur last timeStamp appended
          | none => appended })

/-- `AppendNewMeasureData`, with the number of the filter and the result. -/
def appendNewMeasureData (names : UInt64 → String)
    (internalTid nameIndex timeStamp : UInt64) (value : Int64)
    (filter : MeasureFilter) (cache : MeasureCache) :
    (MeasureFilter × MeasureCache) × UInt32 × Bool :=
  let identified := filter.getOrCreateFilterId names internalTid nameIndex cache
  (identified.1.appendRow identified.2.2 timeStamp value identified.2.1,
    identified.2.2, decide (value ≠ 0))

end MeasureFilter

/-- What a filter number is given to. -/
structure MeasureKey where
  filterType : FilterType
  internalTid : UInt64
  nameIndex : UInt64
  deriving DecidableEq

/-- A call of `AppendNewMeasureData` of one of the filters. -/
structure MeasureCall where
  key : MeasureKey
  timeStamp : UInt64
  value : Int64

/-- The filters, their tables, and the numbers the calls have used. -/
structure MeasureFilters where
  filters : FilterType → MeasureFilter
  cache : MeasureCache
  used : List (MeasureKey × UInt32)

namespace MeasureFilters

def initial : MeasureFilters := ⟨MeasureFilter.initial, {}, []⟩

/-- One call. -/
def step (names : UInt64 → String) (measures : MeasureFilters)
    (call : MeasureCall) : MeasureFilters :=
  let filterType := call.key.filterType
  let appended :=
    (measures.filters filterType).appendNewMeasureData names
      call.key.internalTid call.key.nameIndex call.timeStamp call.value
      measures.cache
  { filters := Function.update measures.filters filterType appended.1.1
    cache := appended.1.2
    used := measures.used ++ [(call.key, appended.2.1)] }

def after (names : UInt64 → String) (calls : List MeasureCall) : MeasureFilters :=
  run (step names) initial calls

/-- The number that a filter has for a key, or `INVALID_UINT64`. -/
def numberOf (measures : MeasureFilters) (key : MeasureKey) : UInt64 :=
  (measures.filters key.filterType).tidStreamIdFilterIdMap.find key.internalTid key.nameIndex

end MeasureFilters

end SysAnalyzer.Filter
