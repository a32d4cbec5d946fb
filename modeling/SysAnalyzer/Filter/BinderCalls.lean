import SysAnalyzer.Filter.BinderFilter

/-!
# Binder calls and their slices

`Conversation` says what binder events mean.  Every thread is in the middle of
a nest of transactions: those that it waits for and those that it serves.  A
message is under way from its sending to its receipt; a reply ends what its
sender serves, and its receipt ends what the receiver waits for.  While a thread
waits it takes part in nothing but transactions that it serves in between.
-/

namespace SysAnalyzer.Filter

open Foundation

/-! ## The meaning of binder events -/

/-- What a thread does in a transaction. -/
inductive Role where
  | calling
  | serving
  deriving DecidableEq

/-- A transaction that a thread is in the middle of, and its slice. -/
structure Transaction where
  role : Role
  transactionId : UInt64
  slice : Nat
  start : Int64

/-- The part of a thread in a transaction that is over. -/
structure Span where
  role : Role
  internalTid : UInt32
  slice : Nat
  start : Int64
  finish : Int64

/-- The slices so far, the nests of the threads, innermost first, and the time. -/
structure Activity where
  begun : Nat
  nest : UInt32 → List Transaction
  spans : List Span
  now : Int64

namespace Activity

/-- A thread begins a transaction. -/
def enter (activity : Activity) (ts : Int64) (internalTid : UInt32) (role : Role)
    (transactionId : UInt64) : Activity :=
  { activity with
    begun := activity.begun + 1
    nest :=
      Function.update activity.nest internalTid
        (⟨role, transactionId, activity.begun, ts⟩ ::
          activity.nest internalTid)
    now := ts }

/-- A thread ends the innermost of its transactions. -/
def leave (activity : Activity) (ts : Int64) (internalTid : UInt32) : Activity :=
  match activity.nest internalTid with
  | [] => activity
  | innermost :: outer =>
    { activity with
      nest := Function.update activity.nest internalTid outer
      spans :=
        ⟨innermost.role, internalTid, innermost.slice, innermost.start, ts⟩ ::
          activity.spans
      now := ts }

/-- A thread sends or receives a one-way transaction. -/
def oneWay (activity : Activity) (ts : Int64) : Activity :=
  { activity with begun := activity.begun + 1, now := ts }

end Activity

inductive Message where
  | request
  | reply (request : UInt64)
  | oneWay

/-- The threads and the messages under way. -/
structure Conversation where
  activity : Activity
  inFlight : UInt64 → Option Message

namespace Conversation

def initial : Conversation := ⟨⟨0, fun _ => [], [], Int64.minValue⟩, fun _ => none⟩

def innermost (conversation : Conversation) (internalTid : UInt32) : Option Transaction :=
  (conversation.activity.nest internalTid).head?

/-- A message is sent. -/
def post (conversation : Conversation) (transactionId : UInt64)
    (message : Message) (activity : Activity) : Conversation :=
  ⟨activity, Function.update conversation.inFlight transactionId (some message)⟩

/-- A message is received. -/
def take (conversation : Conversation) (transactionId : UInt64)
    (activity : Activity) : Conversation :=
  ⟨activity, Function.update conversation.inFlight transactionId none⟩

def step (conversation : Conversation) : BinderEvent → Conversation
  | .sendTraction ts tid transactionId _ isReply flags =>
    let activity := conversation.activity
    if isReply then
      match conversation.innermost tid with
      | none => conversation
      | some served =>
        conversation.post transactionId (.reply served.transactionId) (activity.leave ts tid)
    else if flags &&& noReturnMsgFlag = 0 then
      conversation.post transactionId .request (activity.enter ts tid .calling transactionId)
    else conversation.post transactionId .oneWay (activity.oneWay ts)
  | .receiveTraction ts pid transactionId =>
    let activity := conversation.activity
    match conversation.inFlight transactionId with
    | none => conversation
    | some (.reply _) => conversation.take transactionId (activity.leave ts pid)
    | some .request =>
      conversation.take transactionId (activity.enter ts pid .serving transactionId)
    | some .oneWay => conversation.take transactionId (activity.oneWay ts)

def after (events : List BinderEvent) : Conversation := run step initial events

def NotWaiting (conversation : Conversation) (internalTid : UInt32) : Prop :=
  ∀ innermost ∈ conversation.innermost internalTid, innermost.role = .serving

instance (conversation : Conversation) (internalTid : UInt32) :
    Decidable (conversation.NotWaiting internalTid) :=
  inferInstanceAs (Decidable (∀ innermost ∈ conversation.innermost internalTid, _))

/-- A thread may begin another transaction. -/
def HasRoom (conversation : Conversation) (internalTid : UInt32) : Prop :=
  (conversation.activity.nest internalTid).length < SliceFilter.maxDepth

instance (conversation : Conversation) (internalTid : UInt32) :
    Decidable (conversation.HasRoom internalTid) :=
  inferInstanceAs (Decidable (_ < _))

/--
A thread may receive a message: a reply while it waits for it, a request as long
as it may begin another transaction, a one-way message while it waits for none.
-/
def MayReceive (conversation : Conversation) (internalTid : UInt32) : Option Message → Prop
  | none => False
  | some (.reply request) =>
    ∃ waiting ∈ conversation.innermost internalTid,
      waiting.role = .calling ∧ waiting.transactionId = request
  | some .request => conversation.HasRoom internalTid
  | some .oneWay => conversation.NotWaiting internalTid

instance (conversation : Conversation) (internalTid : UInt32) :
    ∀ message, Decidable (conversation.MayReceive internalTid message)
  | none => inferInstanceAs (Decidable False)
  | some (.reply _) =>
    inferInstanceAs (Decidable (∃ waiting ∈ conversation.innermost internalTid, _))
  | some .request => inferInstanceAs (Decidable (conversation.HasRoom internalTid))
  | some .oneWay => inferInstanceAs (Decidable (conversation.NotWaiting internalTid))

/--
What an event must meet: its time is not before that of others, the id of a
message tells it from those under way, a reply is sent by a thread that serves,
and a thread that waits sends nothing else.
-/
def Allows (conversation : Conversation) : BinderEvent → Prop
  | .sendTraction ts tid transactionId _ isReply flags =>
    conversation.activity.now ≤ ts ∧ conversation.inFlight transactionId = none ∧ if isReply then
      ∃ served ∈ conversation.innermost tid, served.role = .serving
      else
        conversation.NotWaiting tid ∧ (flags &&& noReturnMsgFlag = 0 → conversation.HasRoom tid)
  | .receiveTraction ts pid transactionId =>
    conversation.activity.now ≤ ts ∧
      conversation.MayReceive pid (conversation.inFlight transactionId)

instance (conversation : Conversation) : ∀ event, Decidable (conversation.Allows event)
  | .sendTraction .. => inferInstanceAs (Decidable (_ ∧ _ ∧ ite _ _ _))
  | .receiveTraction .. => inferInstanceAs (Decidable (_ ∧ _))

end Conversation

def ProperlyNested (events : List BinderEvent) : Prop :=
  EachStep Conversation.step Conversation.Allows Conversation.initial events

instance (events : List BinderEvent) : Decidable (ProperlyNested events) :=
  inferInstanceAs (Decidable (EachStep _ _ _ _))

def BinderNames.sliceName (names : BinderNames) : Role → UInt64
  | .calling => names.transSliceId
  | .serving => names.replyId

def BinderFilter.after (names : BinderNames) (events : List BinderEvent) : BinderFilter :=
  run (BinderFilter.step names) BinderFilter.initial events

/-- The row of a transaction that a thread has ended, with its two times. -/
def BinderNames.IsRowOf (names : BinderNames) (span : Span) (row : CallStackRow) : Prop :=
  row.callId = span.internalTid ∧ row.name = names.sliceName span.role ∧
    row.timeStamp = span.start.toUInt64 ∧ row.dur = (span.finish - span.start).toUInt64

/--
Every transaction that a thread has ended has its own slice, from the time at
which the thread began it to the time at which it ended it.
-/
def ClosesOwnSlices (names : BinderNames) (events : List BinderEvent) : Prop :=
  ∀ span ∈ (Conversation.after events).activity.spans, ∃ row,
    (BinderFilter.after names events).sliceFilter.slices[span.slice]? = some row ∧
      names.IsRowOf span row

end SysAnalyzer.Filter
