import SysAnalyzer.Base.TripleMap
import SysAnalyzer.Filter.SliceFilter

/-!
# The binder filter

A transaction that wants a reply opens a slice on the thread that sends it, and
its receipt opens another one on the thread that serves it.  The reply closes
the second slice when it is sent and the first one when it is received.  Both
are closed as the innermost open slice of their thread.  A one-way transaction
leaves a complete slice at either side.

Threads are the internal thread ids that the process filter answers, and the
arguments of slices are left out.
-/

namespace SysAnalyzer.Filter

open Base (StdMap)

structure BinderNames where
  binderCatalogId : UInt64
  transSliceId : UInt64
  replyId : UInt64
  transAsyncId : UInt64
  asyncRcvId : UInt64

def noReturnMsgFlag : UInt32 := 0x01

/-- The slice filter and the transactions that are under way. -/
structure BinderFilter where
  sliceFilter : SliceFilter
  transReplyWaitingReply : Finset UInt64
  transNeedReply : StdMap UInt64 UInt32
  transReplyFilter : StdMap UInt32 UInt32
  asyncBinderEvents : Finset UInt64

inductive BinderEvent where
  | sendTraction (ts : Int64) (tid : UInt32) (transactionId : UInt64)
    (destTid : UInt32) (isReply : Bool) (flags : UInt32)
  | receiveTraction (ts : Int64) (pid : UInt32) (transactionId : UInt64)

namespace BinderFilter

def initial : BinderFilter where
  sliceFilter := .initial
  transReplyWaitingReply := ∅
  transNeedReply _ := none
  transReplyFilter _ := none
  asyncBinderEvents := ∅

variable (names : BinderNames) (filter : BinderFilter)

def sendTraction (ts : Int64) (tid : UInt32) (transactionId : UInt64)
    (destTid : UInt32) (isReply : Bool) (flags : UInt32) : BinderFilter :=
  if isReply then
    { filter with
      transReplyFilter :=
        if filter.transReplyFilter tid = some destTid then
          Function.update filter.transReplyFilter tid none
        else filter.transReplyFilter
      sliceFilter :=
        (filter.sliceFilter.endSlice ts.toUInt64 tid invalidUint64
          invalidUint64).2
      transReplyWaitingReply := insert transactionId filter.transReplyWaitingReply }
  else if flags &&& noReturnMsgFlag = 0 then
    { filter with
      sliceFilter :=
        (filter.sliceFilter.beginSlice ts.toUInt64 tid names.binderCatalogId
          names.transSliceId).2
      transNeedReply := Function.update filter.transNeedReply transactionId (some tid) }
  else
    { filter with
      sliceFilter :=
        (filter.sliceFilter.asyncBinder ts.toUInt64 tid names.binderCatalogId
          names.transAsyncId).2
      asyncBinderEvents := insert transactionId filter.asyncBinderEvents }

def receiveTraction (ts : Int64) (pid : UInt32) (transactionId : UInt64) : BinderFilter :=
  if transactionId ∈ filter.transReplyWaitingReply then
    { filter with
      sliceFilter :=
        (filter.sliceFilter.endSlice ts.toUInt64 pid invalidUint64
          invalidUint64).2
      transReplyWaitingReply := filter.transReplyWaitingReply.erase transactionId }
  else
    match filter.transNeedReply transactionId with
    | some caller =>
      { filter with
        sliceFilter :=
          (filter.sliceFilter.beginSlice ts.toUInt64 pid
            names.binderCatalogId names.replyId).2
        transReplyFilter := Function.update filter.transReplyFilter pid (some caller)
        transNeedReply := Function.update filter.transNeedReply transactionId none }
    | none =>
      if transactionId ∈ filter.asyncBinderEvents then
        { filter with
          sliceFilter :=
            (filter.sliceFilter.asyncBinder ts.toUInt64 pid
              names.binderCatalogId names.asyncRcvId).2
          asyncBinderEvents := filter.asyncBinderEvents.erase transactionId }
      else filter

def step : BinderEvent → BinderFilter
  | .sendTraction ts tid transactionId destTid isReply flags =>
    filter.sendTraction names ts tid transactionId destTid isReply flags
  | .receiveTraction ts pid transactionId => filter.receiveTraction names ts pid transactionId

end BinderFilter

end SysAnalyzer.Filter
