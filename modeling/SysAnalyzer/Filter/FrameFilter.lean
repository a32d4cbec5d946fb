import SysAnalyzer.Base.TripleMap
import SysAnalyzer.Base.TsCommon
import SysAnalyzer.Foundation.MutualLinks
import SysAnalyzer.Foundation.Run

/-!
# Frames

`FrameFilter` follows the frames that a thread draws from one vsync to the end
of its drawing.  Every frame has two rows in `frame_slice`: what was expected
and what happened.  A frame of an application is announced under a number; the
render service takes announced frames as the sources of its own frame.

The filter keeps pointers to frames in two maps.  A pointer is a number here,
and `frames` gives the frame that it leads to.
-/

namespace SysAnalyzer.Filter

open Foundation
open Base (StdMap)

/-! ## The tables -/

inductive FrameSliceType where
  | acturalSlice
  | expectSlice
  deriving DecidableEq

/-- A row of `TraceStdtype::FrameSlice`; an invalid destination is `none`. -/
structure FrameSliceRow where
  timeStamp : UInt64
  dur : UInt64 := invalidUint64
  type : FrameSliceType := .acturalSlice
  flags : UInt8 := 255
  dst : Option Nat := none
  srcs : List Nat := []

def invalidRow : UInt8 := 2

def abnormalStartEndTimeState : UInt8 := 3

def oneMillionNanoseconds : Nat := 1000000

/-- The rows of `frame_slice`. -/
abbrev FrameSliceData := List FrameSliceRow

namespace FrameSliceData

variable (data : FrameSliceData)

/-- `AppendFrame` of what happens. -/
def appendFrame (ts : UInt64) : FrameSliceData := data ++ [{ timeStamp := ts }]

/-- `AppendFrame` with an end and a type. -/
def appendFrameUntil (ts end_ : UInt64) (type : FrameSliceType) : FrameSliceData :=
  data ++ [{ timeStamp := ts, dur := end_ - ts, type }]

def setDst (row dst : Nat) : FrameSliceData :=
  data.modify row fun old => { old with dst := some dst }

/-- `SetSrcs`; the text in the column is this list with commas between. -/
def setSrcs (row : Nat) (fromSlices : List Nat) : FrameSliceData :=
  data.modify row fun old => { old with srcs := fromSlices }

def setFlags (row : Nat) (flags : UInt8) : FrameSliceData :=
  data.modify row fun old => { old with flags }

def setEndTimeAndFlag (row : Nat) (ts expectEnd : UInt64) : FrameSliceData :=
  data.modify row fun old =>
    { old with
      dur := ts - old.timeStamp
      flags :=
        if old.flags ≠ abnormalStartEndTimeState then if expectEnd ≥ ts then 0 else 1
        else old.flags }

/-- `Erase`, which leaves the row where it is. -/
def erase (row : Nat) : FrameSliceData := data.setFlags row invalidRow

/-- What `FrameMaps::AppendNew` changes in the rows. -/
def markAbnormal (src dst : Nat) : FrameSliceData :=
  match data[src]?, data[dst]? with
  | some source, some target =>
    if target.type = .expectSlice then
      let expRsStartTime := target.timeStamp
      let expUiEndTime := source.timeStamp + source.dur
      if (expRsStartTime - expUiEndTime).toInt64.toInt.natAbs ≥ oneMillionNanoseconds then
        data.setFlags (dst - 1) abnormalStartEndTimeState
      else data
    else data
  | _, _ => data

/-- The links between rows that the columns `dst` and `srcs` are for. -/
def links : Links Nat where
  target row := data[row]?.bind FrameSliceRow.dst
  sources row := (data[row]?.map FrameSliceRow.srcs).getD []

end FrameSliceData

/-! ## The filter -/

structure FrameSlice where
  expectedEndTs : UInt64 := invalidUint64
  endTs : UInt64 := invalidUint64
  gpuEnd : Bool := true
  frameQueueStartTs : UInt64 := invalidUint64
  vsyncEnd : Bool := false
  isRsMainThread : Bool := false
  frameNum : UInt32 := invalidUint32
  frameSliceRow : Nat := invalidUint64.toNat
  frameExpectedSliceRow : Nat := invalidUint64.toNat

structure FrameMap where
  sourceItid : UInt32
  frameNum : UInt32
  deriving DecidableEq

/-- The frames, the two maps, and the tables that the filter fills. -/
structure FrameFilter where
  frames : Nat → FrameSlice
  frameCount : Nat
  vsyncRenderSlice : StdMap UInt32 (List Nat)
  dstRenderSlice : StdMap UInt32 (StdMap UInt32 Nat)
  frameSliceData : FrameSliceData
  frameMapsData : List (Nat × Nat)
  gpuSliceData : List (Nat × UInt64)

namespace FrameFilter

def initial : FrameFilter where
  frames _ := {}
  frameCount := 0
  vsyncRenderSlice _ := none
  dstRenderSlice _ := none
  frameSliceData := []
  frameMapsData := []
  gpuSliceData := []

variable (filter : FrameFilter)

def setFrame (pointer : Nat) (change : FrameSlice → FrameSlice) : FrameFilter :=
  { filter with
    frames := Function.update filter.frames pointer (change (filter.frames pointer)) }

/-- `frame->second.front()` of the pending frames of a thread. -/
def front? (itid : UInt32) : Option Nat := (filter.vsyncRenderSlice itid).bind List.head?

/-- `frame->second.back()` of the pending frames of a thread. -/
def back? (itid : UInt32) : Option Nat := (filter.vsyncRenderSlice itid).bind List.getLast?

def setPending (itid : UInt32) (change : List Nat → List Nat) : FrameFilter :=
  { filter with
    vsyncRenderSlice :=
      Function.update filter.vsyncRenderSlice itid
        ((filter.vsyncRenderSlice itid).map change) }

/-- Change the rows of `frame_slice`. -/
def setData (change : FrameSliceData → FrameSliceData) : FrameFilter :=
  { filter with frameSliceData := change filter.frameSliceData }

def beginVsyncEvent (ts : UInt64) (itid : UInt32) (expectStart expectEnd : UInt64) : FrameFilter :=
  let pointer := filter.frameCount
  let row := filter.frameSliceData.length
  let frame : FrameSlice :=
    { expectedEndTs := expectEnd, frameSliceRow := row,
      frameExpectedSliceRow := row + 1 }
  let pending :=
    match filter.vsyncRenderSlice itid with
    | some frameVec => frameVec ++ [pointer]
    | none => [pointer]
  { filter with
    frames := Function.update filter.frames pointer frame
    frameCount := pointer + 1
    vsyncRenderSlice := Function.update filter.vsyncRenderSlice itid (some pending)
    frameSliceData :=
      (filter.frameSliceData.appendFrame ts).appendFrameUntil expectStart
        expectEnd .expectSlice }

def markRSOnDoCompositionEvent (itid : UInt32) : FrameFilter :=
  match filter.back? itid with
  | none => filter
  | some lastFrameSlice =>
    filter.setFrame lastFrameSlice fun frame => { frame with isRsMainThread := true }

def beginRSTransactionData (itid franeNum : UInt32) : FrameFilter :=
  match filter.front? itid with
  | none => filter
  | some firstFrameSlice =>
    let frameMap :=
      match filter.dstRenderSlice itid with
      | some frameMap => frameMap
      | none => fun _ => none
    { filter.setFrame firstFrameSlice fun frame =>
        { frame with frameNum := franeNum } with
      dstRenderSlice :=
        Function.update filter.dstRenderSlice itid
          (some (Function.update frameMap franeNum (some firstFrameSlice))) }

/-- The frame that was announced by a thread under a number. -/
def source? (it : FrameMap) : Option Nat :=
  (filter.dstRenderSlice it.sourceItid).bind fun sourceFrameMap => sourceFrameMap it.frameNum

/-- `sourceFrameMap->second.erase(it.frameNum)`. -/
def eraseSource (it : FrameMap) : FrameFilter :=
  { filter with
    dstRenderSlice :=
      Function.update filter.dstRenderSlice it.sourceItid
        ((filter.dstRenderSlice it.sourceItid).map fun sourceFrameMap =>
          Function.update sourceFrameMap it.frameNum none) }

/-- What the loop of `BeginProcessCommandUni` does with a source. -/
def consume (lastFrameSlice srcFrame : Nat) : FrameFilter :=
  let last := filter.frames lastFrameSlice
  let src := filter.frames srcFrame
  { filter with
    frameMapsData :=
      filter.frameMapsData ++
        [(src.frameSliceRow, last.frameSliceRow),
          (src.frameExpectedSliceRow, last.frameExpectedSliceRow)]
    frameSliceData :=
      (((filter.frameSliceData.markAbnormal src.frameSliceRow
        last.frameSliceRow).markAbnormal src.frameExpectedSliceRow
        last.frameExpectedSliceRow).setDst src.frameSliceRow
        last.frameSliceRow).setDst src.frameExpectedSliceRow
        last.frameExpectedSliceRow }

/-- The loop of `BeginProcessCommandUni`, and the sources that it finds. -/
def consumeSources (lastFrameSlice : Nat) : FrameFilter → List FrameMap → FrameFilter × List Nat
  | filter, [] => (filter, [])
  | filter, it :: frames =>
    match filter.source? it with
    | none => consumeSources lastFrameSlice filter frames
    | some srcFrame =>
      let ended := (filter.frames srcFrame).endTs ≠ invalidUint64
      let filter := filter.consume lastFrameSlice srcFrame
      let filter := if ended then filter.eraseSource it else filter
      let (filter, found) := consumeSources lastFrameSlice filter frames
      (filter, srcFrame :: found)

def beginProcessCommandUni (itid : UInt32) (frames : List FrameMap) : FrameFilter :=
  match filter.back? itid with
  | none => filter
  | some lastFrameSlice =>
    let last := filter.frames lastFrameSlice
    if last.vsyncEnd then filter
    else
      let (filter, found) := consumeSources lastFrameSlice filter frames
      if found = [] then filter
      else
        let fromSlices := found.map fun srcFrame => (filter.frames srcFrame).frameSliceRow
        let fromExpectedSlices :=
          found.map fun srcFrame => (filter.frames srcFrame).frameExpectedSliceRow
        filter.setData fun data =>
          (data.setSrcs last.frameSliceRow fromSlices).setSrcs
            last.frameExpectedSliceRow fromExpectedSlices

def endVsyncEvent (ts : UInt64) (itid : UInt32) : FrameFilter :=
  match filter.back? itid with
  | none => filter
  | some lastFrameSlice =>
    let filter :=
      filter.setFrame lastFrameSlice fun frame => { frame with vsyncEnd := true }
    let last := filter.frames lastFrameSlice
    let ended :=
      filter.setData fun data => data.setEndTimeAndFlag last.frameSliceRow ts last.expectedEndTs
    if last.isRsMainThread then
      if last.gpuEnd then
        (ended.setFrame lastFrameSlice fun frame =>
          { frame with endTs := ts }).setPending itid List.dropLast
      else filter
    else if last.frameNum = invalidUint32 then
      -- the number of an application's frame was not received
      (ended.setData fun data =>
        (data.erase last.frameSliceRow).erase
          last.frameExpectedSliceRow).setPending itid List.dropLast
    else
      (ended.setFrame lastFrameSlice fun frame =>
        { frame with endTs := ts }).setPending itid List.dropLast

def startFrameQueue (ts : UInt64) (itid : UInt32) : FrameFilter :=
  match filter.front? itid with
  | none => filter
  | some firstFrameSlice =>
    filter.setFrame firstFrameSlice fun frame =>
      { frame with gpuEnd := false, frameQueueStartTs := ts }

def endFrameQueue (ts : UInt64) (itid : UInt32) : FrameFilter :=
  match filter.front? itid with
  | none => filter
  | some firstFrameSlice =>
    let first := filter.frames firstFrameSlice
    let filter :=
      { filter.setFrame firstFrameSlice fun frame =>
          { frame with gpuEnd := true } with
        gpuSliceData :=
          filter.gpuSliceData ++
            [(first.frameSliceRow, ts - first.frameQueueStartTs)] }
    if first.vsyncEnd then
      ((filter.setFrame firstFrameSlice fun frame =>
        { frame with endTs := ts }).setData fun data =>
          data.setEndTimeAndFlag first.frameSliceRow ts
            first.expectedEndTs).setPending itid List.tail
    else filter

/-- The calls of the filter. -/
inductive Event where
  | beginVsyncEvent (ts : UInt64) (itid : UInt32) (expectStart expectEnd : UInt64)
  | markRSOnDoCompositionEvent (itid : UInt32)
  | beginRSTransactionData (itid franeNum : UInt32)
  | beginProcessCommandUni (itid : UInt32) (frames : List FrameMap)
  | endVsyncEvent (ts : UInt64) (itid : UInt32)
  | startFrameQueue (ts : UInt64) (itid : UInt32)
  | endFrameQueue (ts : UInt64) (itid : UInt32)

/-- One call. -/
def step : Event → FrameFilter
  | .beginVsyncEvent ts itid expectStart expectEnd =>
    filter.beginVsyncEvent ts itid expectStart expectEnd
  | .markRSOnDoCompositionEvent itid => filter.markRSOnDoCompositionEvent itid
  | .beginRSTransactionData itid franeNum => filter.beginRSTransactionData itid franeNum
  | .beginProcessCommandUni itid frames => filter.beginProcessCommandUni itid frames
  | .endVsyncEvent ts itid => filter.endVsyncEvent ts itid
  | .startFrameQueue ts itid => filter.startFrameQueue ts itid
  | .endFrameQueue ts itid => filter.endFrameQueue ts itid

end FrameFilter

end SysAnalyzer.Filter
