import SysAnalyzer.Table.StatementCache
import SysAnalyzer.Table.RowIdOperand
import SysAnalyzer.Table.SchedSliceOmit
import SysAnalyzer.Table.RowOrder
import SysAnalyzer.Table.IndexMapUnion
import SysAnalyzer.Table.ThreadTable
import SysAnalyzer.Table.SpanJoinPath
import SysAnalyzer.Query.JsonBuilders
import SysAnalyzer.Query.BoundedOutput
import SysAnalyzer.Base.ClockFilter
import SysAnalyzer.Base.CodecCov
import SysAnalyzer.Base.NumeralConversion
import SysAnalyzer.Filter.AnimationFilter
import SysAnalyzer.Filter.AsyncSlice
import SysAnalyzer.Filter.FrameLinks
import SysAnalyzer.Filter.BinderArgumentRows
import SysAnalyzer.Filter.BinderSlices
import SysAnalyzer.Filter.MeasureTiling
import SysAnalyzer.Filter.ThreadTiling
import SysAnalyzer.Filter.ThreadOpenRows
import SysAnalyzer.Filter.BinderRunnable
import SysAnalyzer.Filter.SymbolizationCache
import SysAnalyzer.Filter.SymbolsFilter
import SysAnalyzer.Filter.LastCallerScan
import SysAnalyzer.Filter.SliceDepthLimit
import SysAnalyzer.ProtoReader.UnknownFields
import SysAnalyzer.ProtoReader.FindDataArea
import SysAnalyzer.Parser.HtraceLostSections
import SysAnalyzer.Parser.RawTraceFraming
import SysAnalyzer.Parser.EbpfSections
import SysAnalyzer.Parser.FtraceFieldProcessor
import SysAnalyzer.Parser.FtracePageAccess
import SysAnalyzer.Parser.MarkerBounds
import SysAnalyzer.Parser.EbpfSymbolBounds
import SysAnalyzer.Parser.TextLines
import SysAnalyzer.Parser.BytraceDelivery
import SysAnalyzer.Rpc.HttpFraming
import SysAnalyzer.Parser.PerfSplitAccepts
import SysAnalyzer.Parser.PerfSplitFile
import SysAnalyzer.Filter.MainEventCache
import SysAnalyzer.Filter.NativeHookFree
import SysAnalyzer.Filter.NativeHookMmap
import SysAnalyzer.Filter.SoInitalization
import SysAnalyzer.Filter.TaskPoolOrder
import SysAnalyzer.Hdc.TransferConfig
import SysAnalyzer.Hdc.AsyncQueue
import SysAnalyzer.Rpc.SqlQuery
import SysAnalyzer.Rpc.ExportDatabase
import SysAnalyzer.Hdc.DataMessage
import SysAnalyzer.Hdc.SessionHandShake
import SysAnalyzer.JsHeap.AllocationSamples
import SysAnalyzer.JsHeap.AllocationStacks
import SysAnalyzer.JsHeap.ClassComparison
import SysAnalyzer.JsHeap.ShortestDistances
import SysAnalyzer.LogicWorker.PerfPrefixTree
import SysAnalyzer.LogicWorker.PerfProcesses
import SysAnalyzer.LogicWorker.FileCallTotals
import SysAnalyzer.LogicWorker.PerfBottomUpCallers
import SysAnalyzer.LogicWorker.ThreadFrequencies
import SysAnalyzer.LogicWorker.Pagination
import SysAnalyzer.LogicWorker.TimeString
import SysAnalyzer.LogicWorker.NativeStatisticCurve
import SysAnalyzer.LogicWorker.NativeMemoryCurve
import SysAnalyzer.LogicWorker.JsChartFunctions
import SysAnalyzer.LogicWorker.JsTables
import SysAnalyzer.LogicWorker.SearchTree
import SysAnalyzer.JsHeap.DomAttachment
import SysAnalyzer.JsHeap.ClassRetainedSize
import SysAnalyzer.UiWorker.VisibleRange
import SysAnalyzer.JsHeap.Retainers
import SysAnalyzer.LogicWorker.ThreadStates
import SysAnalyzer.Filter.IrqSlices
import SysAnalyzer.ProtoReader.PackedFields
