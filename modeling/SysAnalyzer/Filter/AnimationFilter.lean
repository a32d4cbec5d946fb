import SysAnalyzer.Base.TsCommon
import SysAnalyzer.Foundation.OrderedMap
import SysAnalyzer.Foundation.PartitionPoint
import SysAnalyzer.Foundation.Sessions
import SysAnalyzer.Parser.PrintEventParser

/-!
# Animations and their frames

An animation is a row of a table between the start and the finish of an
asynchronous slice.  The frames are counted by the slices `H:Repaint`: the
times at which they end are collected as they come, and `UpdateFrameInfo`
searches them for each animation that has no frame rate of its own.

Two things of the source are parameters: `getDataIndex` is the index of a
string in the dictionary and `toPrimaryTraceTime` the conversion of a wall
clock time.  A call has no value where the source takes the end of an empty
vector or string, or the value of a number that is none.

Rows are numbered by `TableRowId`, a signed 32-bit integer, so a row behind
`2 ^ 31` others gets a negative number, which the setters take for one behind
the table.
-/

namespace SysAnalyzer.Filter

open Foundation List Option
open SysAnalyzer.Parser.PrintEventParser (Bytes TracePoint ascii strToInt)

structure AnimationRow where
  inputTime : UInt64
  startPoint : UInt64
  endPoint : UInt64
  frameInfo : UInt64

/-- A row number as it passes through `TableRowId`. -/
def tableRowId (row : Nat) : Int32 := Int32.ofNat row

/-- `UpdateEndPoint` and `UpdateFrameInfo`; `index <= Size()` compares as `size_t`. -/
def updateRow (rows : List AnimationRow) (index : Int32)
    (change : AnimationRow → AnimationRow) : List AnimationRow :=
  if index.toInt < 0 then rows else rows.modify index.toInt.toNat change

theorem updateRow_tableRowId (rows : List AnimationRow) {row : Nat} (few : row < 2 ^ 31)
    (change : AnimationRow → AnimationRow) :
    updateRow rows (tableRowId row) change = rows.modify row change := by
  rw [updateRow, tableRowId, Int32.toInt_ofNat_of_lt few, if_neg (by omega), Int.toNat_natCast]

def AnimationRow.points (row : AnimationRow) : UInt64 × UInt64 := (row.startPoint, row.endPoint)

/-- What `BeginDynamicFrameEvent` reads of a row of the call stack. -/
structure CallStackSlice where
  parentId : Option UInt64
  depth : UInt8

/-- `AnimationFilter` with the tables it writes; of a dynamic frame its name. -/
structure AnimationFilter where
  animation : List AnimationRow
  dynamicFrame : List UInt64
  callStackRowMap : OrderedMap Nat Int32
  animationCallIds : Nat → Option Int32
  frameCountRows : Finset Nat
  frameCountEndTimes : List UInt64
  realFrameRateFlagsDict : UInt64 → Option Int32

namespace AnimationFilter

def empty : AnimationFilter where
  animation := []
  dynamicFrame := []
  callStackRowMap := .empty
  animationCallIds _ := none
  frameCountRows := ∅
  frameCountEndTimes := []
  realFrameRateFlagsDict _ := none

/-! ## Strings -/

/-- The rounds of `SplitStringToVec`, each of which shortens the string. -/
def splitRounds (pat : Bytes) : (rounds : Nat) → (str : Bytes) → List Bytes
  | 0, _ => []
  | rounds + 1, str =>
    if str = [] then []
    else
      match find pat str with
      | none => [str]
      | some patPos => str.take patPos :: splitRounds pat rounds (str.drop (patPos + pat.length))

/-- `SplitStringToVec` for a pattern that is not empty. -/
def splitStringToVec (str pat : Bytes) : List Bytes := splitRounds pat str.length str

theorem splitRounds_of_le {pat : Bytes} (nonempty : pat ≠ []) {rounds : Nat} {str : Bytes}
    (enough : str.length ≤ rounds) : splitRounds pat rounds str = splitStringToVec str pat := by
  have positive := List.length_pos_iff.2 nonempty
  unfold splitStringToVec
  induction sameLength : str.length using Nat.strongRecOn generalizing str rounds with
  | ind length induction =>
    subst sameLength
    cases rounds with
    | zero => rw [Nat.le_zero.1 enough]
    | succ rounds =>
      cases str with
      | nil => rfl
      | cons byte str =>
        rw [length_cons, splitRounds, splitRounds]
        rw [length_cons] at enough
        cases find pat (byte :: str) with
        | none => rfl
        | some patPos =>
          have shorter : ((byte :: str).drop (patPos + pat.length)).length ≤ str.length := by
            rw [length_drop, length_cons]
            omega
          have lengths := shorter.trans (Nat.le_of_succ_le_succ enough)
          dsimp only
          rw [induction _ (by simpa using Nat.lt_succ_of_le shorter) lengths rfl, ← induction _
            (by simpa using Nat.lt_succ_of_le shorter) shorter rfl]

theorem splitStringToVec_of_ne_nil {pat str : Bytes} (nonempty : pat ≠ []) (hasText : str ≠ []) :
    splitStringToVec str pat = match find pat str with
      | none => [str]
      | some patPos =>
        str.take patPos :: splitStringToVec (str.drop (patPos + pat.length)) pat := by
  rcases exists_cons_of_ne_nil hasText with ⟨byte, rest, rfl⟩
  have positive := List.length_pos_iff.2 nonempty
  rw [splitStringToVec, length_cons, splitRounds, if_neg hasText]
  cases find pat (byte :: rest) with
  | none => rfl
  | some patPos =>
    dsimp only
    rw [splitRounds_of_le nonempty]
    rw [length_drop, length_cons]
    omega

def frameCountCmd : Bytes := ascii "H:Repaint"

def realFrameRateCmd : Bytes := ascii "H:RSJankStats::RecordAnimationDynamicFrameRate"

def frameBeginCmd : Bytes := ascii "H:RSUniRender::Process:[WindowScene_"

def frameBeginPrefix : Bytes := ascii "H:RSUniRender::Process:["

/-- The name of `animationAppListCmd_`. -/
def animationAppListName : Bytes := ascii "H:APP_LIST_FLING"

/-- The names of `onAnimationStartEvents_`. -/
def animationStartNames : List Bytes :=
  [ascii "H:LAUNCHER_APP_LAUNCH_FROM_ICON", ascii "H:LAUNCHER_APP_LAUNCH_FROM_NOTIFICATIONBAR",
    ascii "H:LAUNCHER_APP_LAUNCH_FROM_NOTIFICATIONBAR_IN_LOCKSCREEN",
    ascii "H:LAUNCHER_APP_LAUNCH_FROM_RECENT",
    ascii "H:LAUNCHER_APP_SWIPE_TO_HOME",
    ascii "H:LAUNCHER_APP_BACK_TO_HOME",
    ascii "H:APP_TRANSITION_TO_OTHER_APP",
    ascii "H:APP_TRANSITION_FROM_OTHER_APP",
    animationAppListName]

section Events

variable (getDataIndex : Bytes → UInt64)
variable (toPrimaryTraceTime : UInt64 → UInt64)

def isStartEvent (name : Bytes) : Bool :=
  decide (getDataIndex name ∈ animationStartNames.map getDataIndex)

/-- `BeginDynamicFrameEvent` for the row of the call stack it is called with. -/
def beginDynamicFrameEvent (filter : AnimationFilter) (slice : CallStackSlice)
    (point : TracePoint) (callStackRow : Nat) : Option (AnimationFilter × Bool) :=
  if frameCountCmd.isPrefixOf point.name then
    some ({ filter with
      frameCountRows := insert callStackRow filter.frameCountRows }, true)
  else if realFrameRateCmd.isPrefixOf point.name then do
    let infos := splitStringToVec point.funcArgs (ascii ": ")
    let flag ← infos.getLast?
    match filter.realFrameRateFlagsDict (getDataIndex (ascii "H:" ++ flag)) with
    | none => some (filter, false)
    | some animationRow =>
      let front ← infos.head?
      let curRealFrameRate ← (splitStringToVec front (ascii " ")).getLast?
      some ({ filter with
        animation := updateRow filter.animation animationRow fun row =>
          { row with
            frameInfo := getDataIndex (ascii "0:" ++ curRealFrameRate) } },
        true)
  else if ¬ frameBeginCmd.isPrefixOf point.name then some (filter, false)
  else if ¬ (2 ≤ slice.depth ∧ slice.parentId.isSome) then some (filter, false)
  -- The size of the name is not positive for one size of the prefix only.
  else if point.funcPrefix.length = frameBeginPrefix.length + 1 then some (filter, false)
  else if point.funcPrefix.length < frameBeginPrefix.length then none
  else
    let name := (point.funcPrefix.drop frameBeginPrefix.length).take
      (point.funcPrefix.length - frameBeginPrefix.length - 1)
    some ({ filter with
      dynamicFrame := filter.dynamicFrame ++ [getDataIndex name]
      callStackRowMap :=
        filter.callStackRowMap.insert callStackRow (tableRowId filter.dynamicFrame.length) },
      true)

def endDynamicFrameEvent (filter : AnimationFilter) (ts : UInt64)
    (callStackRow : Nat) : AnimationFilter × Bool :=
  if callStackRow ∈ filter.frameCountRows then
    ({ filter with
      frameCountEndTimes := filter.frameCountEndTimes ++ [ts]
      frameCountRows := filter.frameCountRows.erase callStackRow }, true)
  else (filter, false)

/-- The time of the input in the name of an event; a dot behind it is dropped. -/
def inputTimeOf (inputTimeStr : Bytes) : Option Nat := do
  let last ← inputTimeStr.getLast?
  strToInt 64 (if last = 0x2E then inputTimeStr.dropLast else inputTimeStr)

def startAnimationEvent (filter : AnimationFilter) (ts : UInt64)
    (point : TracePoint) (callStackRow : Nat) : Option (AnimationFilter × Bool) := do
  let infos := splitStringToVec point.name (ascii ", ")
  let curAnimation ← infos.head?
  if isStartEvent getDataIndex curAnimation then
    let inputTime ← infos.getLast? >>= inputTimeOf
    let row : AnimationRow :=
      { inputTime := toPrimaryTraceTime (UInt64.ofNat inputTime * 1000000)
        startPoint := ts
        endPoint := invalidUint64
        frameInfo := invalidUint64 }
    let animationRow := tableRowId filter.animation.length
    some ({ filter with
      animation := filter.animation ++ [row]
      -- `emplace` keeps what is there.
      animationCallIds :=
        if (filter.animationCallIds callStackRow).isSome then filter.animationCallIds
        else Function.update filter.animationCallIds callStackRow animationRow
      realFrameRateFlagsDict :=
        if getDataIndex curAnimation = getDataIndex animationAppListName then
          Function.update filter.realFrameRateFlagsDict
            (getDataIndex point.name) animationRow
        else filter.realFrameRateFlagsDict }, true)
  else some (filter, false)

def finishAnimationEvent (filter : AnimationFilter) (ts : UInt64)
    (callStackRow : Nat) : AnimationFilter × Bool :=
  match filter.animationCallIds callStackRow with
  | none => (filter, false)
  | some animationRow =>
    ({ filter with
      animation := updateRow filter.animation animationRow fun row => { row with endPoint := ts }
      animationCallIds := Function.update filter.animationCallIds callStackRow none }, true)

/-- `std::lower_bound` in the end times. -/
def lowerBound (times : List UInt64) (value : UInt64) : Nat :=
  (partitionPoint (fun index => decide (times.getD index.toNat invalidUint64 < value))
    0 times.length).toNat

def countFrames (endPoint : UInt64) : List UInt64 → Nat
  | [] => 0
  | time :: rest => if time ≤ endPoint then countFrames endPoint rest + 1 else 0

/-- The number of frames `UpdateFrameInfo` finds for an animation. -/
def frameNum (times : List UInt64) (row : AnimationRow) : Nat :=
  countFrames row.endPoint (times.drop (lowerBound times row.startPoint))

/-- The frame info of a counted animation: `frameNum:0`. -/
def frameInfoOf (frameNum : Nat) : UInt64 := getDataIndex (ascii (toString frameNum) ++ ascii ":0")

/-- A turn of the loop of `UpdateFrameInfo` over the rows. -/
def countRow (times : List UInt64) (rows : List AnimationRow) (index : Nat) : List AnimationRow :=
  match rows[index]? with
  | none => rows -- the loop stays in the table
  | some row =>
    if row.frameInfo ≠ invalidUint64 then rows
    else
      updateRow rows (tableRowId index) fun entry =>
        { entry with frameInfo := frameInfoOf getDataIndex (frameNum times row) }

def updateFrameInfo (filter : AnimationFilter) : AnimationFilter :=
  { filter with
    animation := (range filter.animation.length).foldl
      (countRow getDataIndex filter.frameCountEndTimes) filter.animation
    frameCountRows := ∅
    frameCountEndTimes := []
    realFrameRateFlagsDict := fun _ => none }

end Events

/-- The calls that a trace makes. -/
inductive Event where
  | start (ts : UInt64) (point : TracePoint) (callStackRow : Nat)
  | finish (ts : UInt64) (callStackRow : Nat)
  | begin (slice : CallStackSlice) (point : TracePoint) (callStackRow : Nat)
  | stop (ts : UInt64) (callStackRow : Nat)

/-- The time of an event; `BeginDynamicFrameEvent` is given none. -/
def Event.time? : Event → Option UInt64
  | .start ts _ _ => some ts
  | .finish ts _ => some ts
  | .begin _ _ _ => none
  | .stop ts _ => some ts

def Event.frameStart : Event → Option (Nat × Unit)
  | .begin _ point callStackRow =>
    if frameCountCmd.isPrefixOf point.name then some (callStackRow, ())
    else none
  | _ => none

def Event.frameEnd : Event → Option (Nat × UInt64)
  | .stop ts callStackRow => some (callStackRow, ts)
  | _ => none

/-- The row of an asynchronous slice that finishes, with its time. -/
def Event.animationEnd : Event → Option (Nat × UInt64)
  | .finish ts callStackRow => some (callStackRow, ts)
  | _ => none

section Runs

variable (getDataIndex : Bytes → UInt64)
variable (toPrimaryTraceTime : UInt64 → UInt64)

/-- The row of an asynchronous slice that is an animation, with its time. -/
def Event.animationStart : Event → Option (Nat × UInt64)
  | .start ts point callStackRow =>
    match (splitStringToVec point.name (ascii ", ")).head? with
    | none => none
    | some curAnimation =>
      if isStartEvent getDataIndex curAnimation then some (callStackRow, ts)
      else none
  | _ => none

/-- One call; the answer of the call is not used. -/
def step (filter : AnimationFilter) : Event → Option AnimationFilter
  | .start ts point callStackRow =>
    (filter.startAnimationEvent getDataIndex toPrimaryTraceTime ts point callStackRow).map Prod.fst
  | .finish ts callStackRow => some (filter.finishAnimationEvent ts callStackRow).1
  | .begin slice point callStackRow =>
    (filter.beginDynamicFrameEvent getDataIndex slice point callStackRow).map Prod.fst
  | .stop ts callStackRow => some (filter.endDynamicFrameEvent ts callStackRow).1

def after (events : List Event) : Option AnimationFilter :=
  events.foldlM (step getDataIndex toPrimaryTraceTime) empty

def frames (events : List Event) : List (Session Nat Unit UInt64) :=
  sessions Event.frameStart Event.frameEnd events

def animations (events : List Event) : List (Session Nat UInt64 UInt64) :=
  sessions (Event.animationStart getDataIndex) Event.animationEnd events

/-! ## What one call changes -/

variable {getDataIndex toPrimaryTraceTime}
variable {filter next : AnimationFilter} {event : Event}

theorem map_points_modify {change : AnimationRow → AnimationRow}
    {onPoints : UInt64 × UInt64 → UInt64 × UInt64}
    (commutes : ∀ row : AnimationRow, (change row).points = onPoints row.points)
    (rows : List AnimationRow) (index : Nat) : (rows.modify index change).map AnimationRow.points =
      (rows.map AnimationRow.points).modify index onPoints := by
  apply ext_getElem?
  intro other
  rw [List.getElem?_map, List.getElem?_modify, List.getElem?_modify, List.getElem?_map]
  cases rows[other]? with
  | none => rfl
  | some row =>
    by_cases same : index = other
    · simp [same, commutes]
    · simp [same]

theorem map_points_setEnd (rows : List AnimationRow) {index : Nat} (few : index < 2 ^ 31)
    (ts : UInt64) : (updateRow rows (tableRowId index) fun row =>
      { row with endPoint := ts }).map AnimationRow.points =
      (rows.map AnimationRow.points).modify index fun points =>
        (points.1, ts) := by
  rw [updateRow_tableRowId rows few]
  exact map_points_modify (fun _ => rfl) rows index

/-- The turns before `count` give their rows a frame info and leave the others. -/
theorem getElem?_foldl_countRow (getDataIndex : Bytes → UInt64) (times : List UInt64)
    (rows : List AnimationRow) {count : Nat} (few : count ≤ 2 ^ 31) (other : Nat) :
    ((range count).foldl (countRow getDataIndex times) rows)[other]? =
      rows[other]?.map fun row => if other < count ∧ row.frameInfo = invalidUint64 then
        { row with frameInfo := frameInfoOf getDataIndex (frameNum times row) } else row := by
  induction count generalizing other with
  | zero => simp
  | succ count induction =>
    have before := induction (by omega)
    rw [range_succ, foldl_append, foldl_cons, foldl_nil]
    generalize (range count).foldl (countRow getDataIndex times) rows = written at before ⊢
    have atCount := before count
    simp only [lt_irrefl, false_and, if_false, Option.map_id'] at atCount
    rw [countRow, atCount]
    cases here : rows[count]? with
    | none =>
      simp only [before]
      by_cases same : other = count
      · simp [same, here]
      · simp [show other < count + 1 ↔ other < count by omega]
    | some row =>
      by_cases counted : row.frameInfo = invalidUint64
      · simp only [counted, ne_eq, not_true_eq_false, if_false]
        rw [updateRow_tableRowId _ (by omega), List.getElem?_modify, before]
        by_cases same : count = other
        · subst same
          simp [here, counted]
        · simp [same, show other < count + 1 ↔ other < count by omega]
      · simp only [ne_eq, counted, not_false_eq_true, if_true, before]
        by_cases same : other = count
        · simp [same, here, counted]
        · simp [show other < count + 1 ↔ other < count by omega]

theorem beginDynamicFrameEvent_spec
    {slice : CallStackSlice} {point : TracePoint} {callStackRow : Nat} {answer : Bool}
    (returns : filter.beginDynamicFrameEvent getDataIndex slice point
      callStackRow = some (next, answer)) :
    next.frameCountRows = (if frameCountCmd.isPrefixOf point.name then
      insert callStackRow filter.frameCountRows else filter.frameCountRows) ∧
      next.frameCountEndTimes = filter.frameCountEndTimes ∧
      next.animation.map AnimationRow.points = filter.animation.map AnimationRow.points ∧
      next.animationCallIds = filter.animationCallIds := by
  unfold beginDynamicFrameEvent at returns
  split_ifs at returns with isFrame hasRate other unfit tooShort outside
  · cases returns
    exact ⟨by rw [if_pos isFrame], rfl, rfl, rfl⟩
  · rw [if_neg isFrame]
    simp only [bind_eq_bind, bind_eq_some_iff] at returns
    rcases returns with ⟨flag, -, returns⟩
    cases entered : filter.realFrameRateFlagsDict (getDataIndex (ascii "H:" ++ flag)) with
    | none =>
      rw [entered] at returns
      cases returns
      exact ⟨rfl, rfl, rfl, rfl⟩
    | some animationRow =>
      rw [entered] at returns
      simp only [bind_eq_some_iff] at returns
      rcases returns with ⟨front, -, rate, -, returns⟩
      cases returns
      refine ⟨rfl, rfl, ?_, rfl⟩
      -- The frame rate of a row is no point of it.
      unfold updateRow
      split_ifs
      · rfl
      · exact (map_points_modify (fun _ => rfl) _ _).trans (modify_id _ _)
  · cases returns
    exact ⟨by rw [if_neg isFrame], rfl, rfl, rfl⟩
  · cases returns
    exact ⟨by rw [if_neg isFrame], rfl, rfl, rfl⟩
  · cases returns
    exact ⟨by rw [if_neg isFrame], rfl, rfl, rfl⟩
  · cases returns
    exact ⟨by rw [if_neg isFrame], rfl, rfl, rfl⟩

theorem startAnimationEvent_spec
    {ts : UInt64} {point : TracePoint} {callStackRow : Nat} {answer : Bool}
    (returns : filter.startAnimationEvent getDataIndex toPrimaryTraceTime ts
      point callStackRow = some (next, answer)) : next.frameCountRows = filter.frameCountRows ∧
      next.frameCountEndTimes = filter.frameCountEndTimes ∧
      match Event.animationStart getDataIndex (.start ts point callStackRow) with
      | none =>
        next.animation.map AnimationRow.points = filter.animation.map AnimationRow.points ∧
          next.animationCallIds = filter.animationCallIds
      | some started =>
        next.animation.map AnimationRow.points = filter.animation.map AnimationRow.points ++
          [(started.2, invalidUint64)] ∧
          (filter.animationCallIds started.1 = none → next.animationCallIds =
            Function.update filter.animationCallIds started.1
              (some (tableRowId filter.animation.length))) := by
  unfold startAnimationEvent at returns
  simp only [bind_eq_bind, bind_eq_some_iff] at returns
  rcases returns with ⟨curAnimation, isFront, returns⟩
  rw [Event.animationStart, isFront]
  dsimp only
  by_cases starts : isStartEvent getDataIndex curAnimation
  · rw [if_pos starts] at returns ⊢
    simp only [bind_eq_some_iff] at returns
    rcases returns with ⟨inputTime, -, returns⟩
    cases returns
    refine ⟨rfl, rfl, ?_, ?_⟩
    · rw [map_append]
      rfl
    · intro fresh
      dsimp only
      rw [fresh]
      rfl
  · rw [if_neg starts] at returns ⊢
    cases returns
    exact ⟨rfl, rfl, rfl, rfl⟩

section

variable (steps : step getDataIndex toPrimaryTraceTime filter event = some next)
include steps

theorem step_frames : (∀ row, row ∈ next.frameCountRows ↔ (row ∈ filter.frameCountRows ∧
    closedBy Event.frameEnd row event = none) ∨ event.frameStart = some (row, ())) ∧
    next.frameCountEndTimes = filter.frameCountEndTimes ++ (match event.frameEnd with
      | none => []
      | some ended =>
        if ended.1 ∈ filter.frameCountRows then [ended.2] else []) := by
  cases event with
  | start ts point callStackRow =>
    rcases Option.map_eq_some_iff.1 steps with ⟨⟨_, answer⟩, returns, rfl⟩
    rcases startAnimationEvent_spec returns with ⟨sameRows, sameTimes, -⟩
    simp [sameRows, sameTimes, closedBy, Event.frameEnd, Event.frameStart]
  | finish ts callStackRow =>
    cases steps
    unfold finishAnimationEvent
    split <;> simp [closedBy, Event.frameEnd, Event.frameStart]
  | begin slice point callStackRow =>
    rcases Option.map_eq_some_iff.1 steps with ⟨⟨_, answer⟩, returns, rfl⟩
    rcases beginDynamicFrameEvent_spec returns with
      ⟨rows, sameTimes, -, -⟩
    simp only [rows, sameTimes, closedBy, Event.frameEnd, Event.frameStart]
    split_ifs <;> simp [eq_comm, or_comm]
  | stop ts callStackRow =>
    cases steps
    unfold endDynamicFrameEvent
    simp only [closedBy, Event.frameEnd, Event.frameStart]
    by_cases counted : callStackRow ∈ filter.frameCountRows
    · simp [counted, eq_comm, and_comm]
    · rw [if_neg counted, if_neg counted, append_nil]
      refine ⟨fun row => ?_, rfl⟩
      have different : row ∈ filter.frameCountRows → callStackRow ≠ row := by
        rintro isCounted rfl
        exact counted isCounted
      simp
      exact different

/-- What an event does to the open animations and to the points of the rows. -/
theorem step_animations (fresh : ∀ started ∈ event.animationStart getDataIndex,
    filter.animationCallIds started.1 = none) :
    (∀ row id, next.animationCallIds row = some id ↔
      (filter.animationCallIds row = some id ∧ closedBy Event.animationEnd row event = none) ∨
      ((event.animationStart getDataIndex).map Prod.fst = some row ∧
        id = tableRowId filter.animation.length)) ∧
      next.animation.map AnimationRow.points = (match event.animationEnd with
        | none => filter.animation.map AnimationRow.points
        | some ended =>
          match filter.animationCallIds ended.1 with
          | none => filter.animation.map AnimationRow.points
          | some id =>
            (updateRow filter.animation id fun row =>
              { row with endPoint := ended.2 }).map AnimationRow.points) ++
          ((event.animationStart getDataIndex).map fun started =>
            (started.2, invalidUint64)).toList := by
  cases event with
  | start ts point callStackRow =>
    rcases Option.map_eq_some_iff.1 steps with ⟨⟨_, answer⟩, returns, rfl⟩
    rcases startAnimationEvent_spec returns with ⟨-, -, started⟩
    simp only [closedBy, Event.animationEnd]
    cases starts : Event.animationStart getDataIndex (.start ts point callStackRow) with
    | none =>
      rw [starts] at started
      simp [started.1, started.2]
    | some slice =>
      rw [starts] at started
      refine ⟨?_, started.1⟩
      intro row index
      have missing := fresh slice starts
      rw [started.2 missing, Function.update_apply]
      by_cases same : row = slice.1
      · subst same
        simp [missing, eq_comm]
      · simp [same, Ne.symm same]
  | finish ts callStackRow =>
    cases steps
    unfold finishAnimationEvent
    simp only [closedBy, Event.animationEnd, Event.animationStart]
    cases found : filter.animationCallIds callStackRow with
    | none =>
      refine ⟨fun row index => ?_, by simp⟩
      have different : filter.animationCallIds row = some index → callStackRow ≠ row := by
        rintro isFound rfl
        rw [found] at isFound
        cases isFound
      simp
      exact different
    | some index =>
      refine ⟨fun row other => ?_, ?_⟩
      · dsimp only
        rw [Function.update_apply]
        by_cases same : row = callStackRow
        · simp [same]
        · simp [same, Ne.symm same]
      · simp
  | begin slice point callStackRow =>
    rcases Option.map_eq_some_iff.1 steps with ⟨⟨_, answer⟩, returns, rfl⟩
    rcases beginDynamicFrameEvent_spec returns with
      ⟨-, -, samePoints, sameIds⟩
    simp [samePoints, sameIds, closedBy, Event.animationEnd, Event.animationStart]
  | stop ts callStackRow =>
    cases steps
    unfold endDynamicFrameEvent
    split_ifs <;> simp [closedBy, Event.animationEnd, Event.animationStart]

end

/--
The filter follows some calls: it has the open frames and the times at which
the others ended, in the order of the calls, and it has every animation with
its points and knows the open ones.
-/
structure Follows (getDataIndex : Bytes → UInt64) (events : List Event)
    (filter : AnimationFilter) : Prop where
  rows : ∀ row, row ∈ filter.frameCountRows ↔ ∃ number, OpenAt (frames events) number row
  times : filter.frameCountEndTimes.Perm ((frames events).filterMap Session.closed)
  order : filter.frameCountEndTimes.Sublist (events.filterMap Event.time?)
  callIds : ∀ row id, filter.animationCallIds row = some id ↔
    ∃ index, OpenAt (animations getDataIndex events) index row ∧ id = tableRowId index
  points : filter.animation.map AnimationRow.points =
    (animations getDataIndex events).map fun session =>
      (session.data, session.closed.getD invalidUint64)

theorem follows_empty : Follows getDataIndex [] empty where
  rows row := by simp [empty, frames, sessions, not_openAt_nil]
  times := .refl _
  order := .refl _
  callIds row index := by simp [empty, animations, sessions, not_openAt_nil]
  points := rfl

section Step

variable {events : List Event}

theorem frames_concat (events : List Event) (event : Event) :
    frames (events ++ [event]) = (frames events).map (Session.pass Event.frameEnd event) ++
      (event.frameStart.map fun opened =>
        (⟨opened.1, opened.2, none⟩ : Session Nat Unit UInt64)).toList :=
  sessions_concat events event

theorem animations_concat (events : List Event) (event : Event) :
    animations getDataIndex (events ++ [event]) = (animations getDataIndex events).map
      (Session.pass Event.animationEnd event) ++
      ((event.animationStart getDataIndex).map fun opened =>
        (⟨opened.1, opened.2, none⟩ : Session Nat UInt64 UInt64)).toList :=
  sessions_concat events event

section

variable (follows : Follows getDataIndex events filter)
include follows

theorem Follows.step_rows (steps : step getDataIndex toPrimaryTraceTime filter event = some next)
    (row : Nat) :
    row ∈ next.frameCountRows ↔ ∃ number, OpenAt (frames (events ++ [event])) number row := by
  rw [(step_frames steps).1, follows.rows, frames_concat]
  cases begun : event.frameStart with
  | none =>
    simp only [map_none, toList_none, append_nil,
      openAt_pass_iff, exists_and_right, reduceCtorEq, or_false]
  | some started =>
    rcases started with ⟨key, ⟨⟩⟩
    simp only [map_some, toList_some, openAt_concat_iff,
      openAt_pass_iff, exists_or, exists_and_right, Option.some.injEq,
      Prod.mk.injEq, and_true, exists_eq, true_and]

theorem Follows.step_times (distinct : ((frames events).map Session.key).Nodup)
    (steps : step getDataIndex toPrimaryTraceTime filter event = some next) :
    next.frameCountEndTimes.Perm ((frames (events ++ [event])).filterMap Session.closed) := by
  have opened : ((event.frameStart.map fun opened =>
    (⟨opened.1, opened.2, none⟩ : Session Nat Unit UInt64)).toList.filterMap
      Session.closed) = [] := by
    cases event.frameStart <;> rfl
  rw [(step_frames steps).2, frames_concat, filterMap_append, opened, append_nil]
  cases ended : event.frameEnd with
  | none =>
    rw [map_pass_of_closed, append_nil]
    · exact follows.times
    · intro number key _
      rw [closedBy, ended]
  | some slice =>
    dsimp only
    by_cases counted : slice.1 ∈ filter.frameCountRows
    · rw [if_pos counted]
      rcases (follows.rows _).1 counted with
        ⟨number, session, atNumber, isKey, isOpen⟩
      rw [map_pass_of_open distinct ended atNumber isKey isOpen]
      have oneMore := filterMap_closed_set slice.2 atNumber isOpen
      exact (perm_append_singleton _ _).trans ((follows.times.cons _).trans oneMore.symm)
    · rw [if_neg counted, append_nil, map_pass_of_closed]
      · exact follows.times
      · intro number key isOpen
        rw [closedBy, ended]
        apply if_neg
        rintro rfl
        exact counted ((follows.rows _).2 ⟨number, isOpen⟩)

theorem Follows.step_order (steps : step getDataIndex toPrimaryTraceTime filter event = some next) :
    next.frameCountEndTimes.Sublist ((events ++ [event]).filterMap Event.time?) := by
  rw [(step_frames steps).2, filterMap_append]
  apply follows.order.append
  cases event with
  | start ts point callStackRow => exact nil_sublist _
  | finish ts callStackRow => exact nil_sublist _
  | begin slice point callStackRow => exact nil_sublist _
  | stop ts callStackRow =>
    simp only [Event.frameEnd]
    split_ifs
    · exact .refl _
    · exact nil_sublist _

theorem Follows.fresh
    (distinct : ((animations getDataIndex (events ++ [event])).map Session.key).Nodup) :
    ∀ started ∈ event.animationStart getDataIndex, filter.animationCallIds started.1 = none := by
  intro started starts
  by_contra isOpen
  rcases Option.ne_none_iff_exists'.1 isOpen with ⟨index, found⟩
  rcases (follows.callIds _ _).1 found with ⟨_, ⟨session, atIndex, isKey, -⟩, -⟩
  rw [animations, map_key_sessions_concat, starts, nodup_append]
    at distinct
  refine distinct.2.2 session.key ?_ started.1 ?_ isKey
  · exact mem_map_of_mem (mem_of_getElem? atIndex)
  · exact mem_singleton_self _

theorem Follows.step_callIds
    (distinct : ((animations getDataIndex (events ++ [event])).map Session.key).Nodup)
    (steps : step getDataIndex toPrimaryTraceTime filter event = some next)
    (row : Nat) (id : Int32) : next.animationCallIds row = some id ↔
      ∃ index, OpenAt (animations getDataIndex (events ++ [event])) index row ∧
        id = tableRowId index := by
  have sameLength := congrArg List.length follows.points
  rw [length_map, length_map] at sameLength
  rw [(step_animations steps (follows.fresh distinct)).1, follows.callIds,
    animations_concat, sameLength]
  cases starts : event.animationStart getDataIndex with
  | none =>
    simp only [map_none, toList_none, append_nil,
      openAt_pass_iff, reduceCtorEq, false_and, or_false, ← exists_and_right, and_right_comm]
  | some started =>
    simp only [map_some, toList_some, openAt_concat_iff,
      openAt_pass_iff, Option.some.injEq, length_map, or_and_right, exists_or, and_assoc,
      exists_eq_left, ← exists_and_right, and_comm (a := id = _)]

theorem Follows.step_points (few : (animations getDataIndex events).length ≤ 2 ^ 31)
    (distinct : ((animations getDataIndex (events ++ [event])).map Session.key).Nodup)
    (steps : step getDataIndex toPrimaryTraceTime filter event = some next) :
    next.animation.map AnimationRow.points =
      (animations getDataIndex (events ++ [event])).map fun session =>
        (session.data, session.closed.getD invalidUint64) := by
  have before : ((animations getDataIndex events).map Session.key).Nodup := by
    rw [animations, map_key_sessions_concat, nodup_append] at distinct
    exact distinct.1
  rw [(step_animations steps (follows.fresh distinct)).2, animations_concat, map_append]
  congr 1
  · cases ended : event.animationEnd with
    | none =>
      rw [map_pass_of_closed]
      · exact follows.points
      · intro number key _
        rw [closedBy, ended]
    | some finish =>
      dsimp only
      cases found : filter.animationCallIds finish.1 with
      | none =>
        rw [map_pass_of_closed]
        · exact follows.points
        · intro number key isOpen
          rw [closedBy, ended]
          apply if_neg
          rintro rfl
          rw [(follows.callIds _ _).2 ⟨number, isOpen, rfl⟩] at found
          cases found
      | some id =>
        rcases (follows.callIds _ _).1 found with
          ⟨index, ⟨session, atIndex, isKey, isOpen⟩, rfl⟩
        have inTable := (List.getElem?_eq_some_iff.1 atIndex).1
        dsimp only
        rw [map_pass_of_open before ended atIndex isKey isOpen,
          map_points_setEnd _ (inTable.trans_le few), follows.points, map_set]
        apply ext_getElem?
        intro other
        rw [List.getElem?_modify, List.getElem?_set, List.getElem?_map]
        by_cases same : index = other
        · subst same
          rcases List.getElem?_eq_some_iff.1 atIndex with
            ⟨inRange, isSession⟩
          simp [inRange, isSession]
        · simp [same]
  · cases event.animationStart getDataIndex <;> rfl

theorem Follows.step (few : (animations getDataIndex events).length ≤ 2 ^ 31) (distinctFrames : ((frames (events ++ [event])).map Session.key).Nodup)
    (distinctAnimations : ((animations getDataIndex (events ++ [event])).map Session.key).Nodup)
    (steps : step getDataIndex toPrimaryTraceTime filter event = some next) :
    Follows getDataIndex (events ++ [event]) next := by
  have before : ((frames events).map Session.key).Nodup := by
    rw [frames, map_key_sessions_concat, nodup_append] at distinctFrames
    exact distinctFrames.1
  constructor
  · exact follows.step_rows steps
  · exact follows.step_times before steps
  · exact follows.step_order steps
  · exact follows.step_callIds distinctAnimations steps
  · exact follows.step_points few distinctAnimations steps

end

end Step

theorem after_follows {events : List Event} {filter : AnimationFilter}
    (few : (animations getDataIndex events).length ≤ 2 ^ 31)
    (distinctFrames : ((frames events).map Session.key).Nodup)
    (distinctAnimations : ((animations getDataIndex events).map Session.key).Nodup)
    (ran : after getDataIndex toPrimaryTraceTime events = some filter) :
    Follows getDataIndex events filter := by
  induction events using List.reverseRecOn generalizing filter with
  | nil =>
    cases ran
    exact follows_empty
  | append_singleton events event induction =>
    rw [after, foldlM_append, bind_eq_bind, bind_eq_some_iff] at ran
    rcases ran with ⟨before, ran, steps⟩
    rw [foldlM_cons, bind_eq_bind, bind_eq_some_iff]
      at steps
    rcases steps with ⟨_, steps, ⟨⟩⟩
    have beforeFrames := distinctFrames
    have beforeAnimations := distinctAnimations
    rw [frames, map_key_sessions_concat, nodup_append]
      at beforeFrames
    rw [animations, map_key_sessions_concat, nodup_append]
      at beforeAnimations
    have beforeFew : (animations getDataIndex events).length ≤ 2 ^ 31 := by
      rw [animations_concat, length_append, length_map] at few
      omega
    have follows := induction beforeFew beforeFrames.1 beforeAnimations.1 ran
    exact follows.step beforeFew distinctFrames distinctAnimations steps

end Runs

section Counting

variable {times : List UInt64}

section

variable (ordered : times.Pairwise (· ≤ ·))
include ordered

theorem lt_lowerBound_iff (value : UInt64) {index : Nat}
    {time : UInt64} (atIndex : times[index]? = some time) :
    index < lowerBound times value ↔ time < value := by
  have inRange := (List.getElem?_eq_some_iff.1 atIndex).1
  have segment : InitialSegment (fun index => decide (times.getD index.toNat invalidUint64 < value))
    0 times.length := by
    intro lower upper fromZero upTo inTimes below
    rw [decide_eq_true_eq] at below ⊢
    have upperInRange : upper.toNat < times.length := by omega
    have lowerInRange : lower.toNat < times.length := by omega
    rw [getD_eq_getElem _ _ upperInRange] at below
    rw [getD_eq_getElem _ _ lowerInRange]
    apply lt_of_le_of_lt _ below
    rcases Nat.lt_or_eq_of_le (Int.toNat_le_toNat upTo) with less | same
    · exact List.pairwise_iff_getElem.1 ordered _ _ lowerInRange upperInRange less
    · simp only [same, le_refl]
  have parts := lt_partitionPoint_iff segment (Int.natCast_nonneg index)
  have isTime : times.getD index invalidUint64 = time := by
    rw [getD_eq_getElem?_getD, atIndex, getD_some]
  rw [Int.toNat_natCast, isTime, decide_eq_true_eq] at parts
  rw [lowerBound, Int.lt_toNat, parts]
  exact and_iff_right (Int.ofNat_lt.2 inRange)

theorem countFrames_eq_countP (endPoint : UInt64) :
    countFrames endPoint times = times.countP fun time => decide (time ≤ endPoint) := by
  induction times with
  | nil => rfl
  | cons time rest induction =>
    rw [pairwise_cons] at ordered
    rw [countFrames]
    by_cases inTime : time ≤ endPoint
    · rw [if_pos inTime, induction ordered.2, countP_cons_of_pos (by simpa using inTime)]
    · rw [if_neg inTime, eq_comm, countP_eq_zero]
      intro later member
      rw [decide_eq_true_eq]
      intro laterInTime
      rcases List.mem_cons.1 member with rfl | inRest
      · exact inTime laterInTime
      · exact inTime ((ordered.1 later inRest).trans laterInTime)

theorem frameNum_eq_countP (row : AnimationRow) : frameNum times row = times.countP fun time =>
    decide (row.startPoint ≤ time) && decide (time ≤ row.endPoint) := by
  have parts := take_append_drop (lowerBound times row.startPoint) times
  have early : ∀ time ∈ times.take (lowerBound times row.startPoint), time < row.startPoint := by
    intro time member
    rcases List.getElem?_of_mem member with ⟨index, atIndex⟩
    rw [List.getElem?_take] at atIndex
    split_ifs at atIndex with before
    exact (lt_lowerBound_iff ordered _ atIndex).1 before
  have late : ∀ time ∈ times.drop (lowerBound times row.startPoint), row.startPoint ≤ time := by
    intro time member
    rcases List.getElem?_of_mem member with ⟨index, atIndex⟩
    rw [List.getElem?_drop] at atIndex
    by_contra isEarly
    have before := (lt_lowerBound_iff ordered _ atIndex).2 (lt_of_not_ge isEarly)
    omega
  have noneEarly : (times.take (lowerBound times row.startPoint)).countP
    (fun time => decide (row.startPoint ≤ time) && decide (time ≤ row.endPoint)) = 0 := by
    rw [countP_eq_zero]
    intro time member
    simp [not_le_of_gt (early time member)]
  have ofLate : (times.drop (lowerBound times row.startPoint)).countP
    (fun time => decide (row.startPoint ≤ time) && decide (time ≤ row.endPoint)) =
    (times.drop (lowerBound times row.startPoint)).countP
      fun time => decide (time ≤ row.endPoint) := by
    apply countP_congr
    intro time member
    simp [late time member]
  rw [frameNum, countFrames_eq_countP (ordered.drop)]
  rw [← ofLate, ← Nat.zero_add (List.countP _ _), ← noneEarly, ← countP_append, parts]

end

end Counting

/--
The number of the frames that end between the points of an animation, or
behind its start when it never finishes.
-/
def framesWithin (events : List Event) (animation : Session Nat UInt64 UInt64) : Nat :=
  (frames events).countP fun frame =>
    frame.closed.any fun time =>
      decide (animation.data ≤ time) && animation.closed.all fun finish => decide (time ≤ finish)

theorem Follows.frameNum_eq {getDataIndex : Bytes → UInt64} {events : List Event}
    {filter : AnimationFilter} (follows : Follows getDataIndex events filter)
    (timeOrdered : (events.filterMap Event.time?).Pairwise (· ≤ ·))
    {row : AnimationRow} {animation : Session Nat UInt64 UInt64}
    (isStart : row.startPoint = animation.data)
    (isEnd : row.endPoint = animation.closed.getD invalidUint64) :
    frameNum filter.frameCountEndTimes row = framesWithin events animation := by
  rw [frameNum_eq_countP (timeOrdered.sublist follows.order),
    follows.times.countP_eq, countP_filterMap, framesWithin, isStart,
    isEnd]
  apply countP_congr
  intro frame _
  cases frame.closed with
  | none => rfl
  | some time =>
    cases animation.closed with
    | some finish => rfl
    | none =>
      have upTo : time ≤ invalidUint64 := by
        rw [UInt64.le_iff_toNat_le]
        exact Nat.le_of_lt_succ time.toNat_lt
      simp [upTo]

/--
After the calls of a trace in the order of their times that start at most
`2 ^ 31` animations, an animation without frame info is given the number of the
frames that end between its points, or behind its start when it never finishes;
the other rows stay as they are.
-/
theorem updateFrameInfo_counts
    (getDataIndex : Bytes → UInt64) (toPrimaryTraceTime : UInt64 → UInt64)
    (events : List Event) (filter : AnimationFilter)
    (few : (animations getDataIndex events).length ≤ 2 ^ 31)
    (timeOrdered : (events.filterMap Event.time?).Pairwise (· ≤ ·))
    (distinctFrames : ((frames events).map Session.key).Nodup)
    (distinctAnimations : ((animations getDataIndex events).map Session.key).Nodup)
    (ran : after getDataIndex toPrimaryTraceTime events = some filter) :
    filter.animation.length = (animations getDataIndex events).length ∧
      ∀ (index : Nat) (animation : Session Nat UInt64 UInt64),
        (animations getDataIndex events)[index]? = some animation →
          ∃ row, filter.animation[index]? = some row ∧ row.startPoint = animation.data ∧
            row.endPoint = animation.closed.getD invalidUint64 ∧
            (filter.updateFrameInfo getDataIndex).animation[index]? =
              some (if row.frameInfo = invalidUint64 then
                { row with
                  frameInfo :=
                    frameInfoOf getDataIndex (framesWithin events animation) }
              else row) := by
  have follows := after_follows few distinctFrames distinctAnimations ran
  have sameLength := congrArg List.length follows.points
  rw [length_map, length_map] at sameLength
  refine ⟨sameLength, ?_⟩
  intro index animation atIndex
  have points := congrArg (fun column => column[index]?) follows.points
  simp only [List.getElem?_map, atIndex, map_some,
    map_eq_some_iff, AnimationRow.points, Prod.mk.injEq] at points
  rcases points with ⟨row, atRow, isStart, isEnd⟩
  refine ⟨row, atRow, isStart, isEnd, ?_⟩
  have counted := follows.frameNum_eq timeOrdered isStart isEnd
  have inTable := (List.getElem?_eq_some_iff.1 atRow).1
  rw [updateFrameInfo, getElem?_foldl_countRow _ _ _ (sameLength.trans_le few), atRow,
    map_some, counted]
  simp only [inTable, true_and]

def exampleEvents : List Event :=
  [.begin ⟨none, 0⟩ { name := ascii "H:Repaint" } 1,
    .start 10 { name := ascii "H:APP_LIST_FLING, 7." } 2,
    .stop 10 1,
    .begin ⟨none, 0⟩ { name := ascii "H:Repaint" } 3,
    .finish 20 2,
    .start 25 { name := ascii "H:APP_LIST_FLING, 8" } 4,
    .stop 30 3]

def exampleIndex (text : Bytes) : UInt64 := UInt64.ofNat text.length

theorem animations_exampleEvents :
    animations exampleIndex exampleEvents = [⟨2, 10, some 20⟩, ⟨4, 25, none⟩] := by
  decide

theorem updateFrameInfo_counts_example :
    ∃ filter, after exampleIndex id exampleEvents = some filter ∧
      ∃ row, filter.animation[1]? = some row ∧ row.startPoint = 25 ∧
        (filter.updateFrameInfo exampleIndex).animation[1]? =
          some (if row.frameInfo = invalidUint64 then
            { row with frameInfo := frameInfoOf exampleIndex 1 } else row) := by
  have returns : (after exampleIndex id exampleEvents).isSome := by decide
  rcases Option.isSome_iff_exists.1 returns with ⟨filter, ran⟩
  have distinctFrames : ((frames exampleEvents).map Session.key).Nodup := by decide
  have distinctAnimations : ((animations exampleIndex exampleEvents).map Session.key).Nodup := by
    rw [animations_exampleEvents]
    decide
  have counts := updateFrameInfo_counts exampleIndex id exampleEvents filter
    (by rw [animations_exampleEvents]; decide) (by decide) distinctFrames distinctAnimations ran
  rw [animations_exampleEvents] at counts
  rcases counts.2 1 ⟨4, 25, none⟩ rfl with ⟨row, atRow, isStart, -, isNew⟩
  have one : framesWithin exampleEvents ⟨4, 25, none⟩ = 1 := by decide
  rw [one] at isNew
  exact ⟨filter, ran, row, atRow, isStart, isNew⟩

/-- `count` animations that start at once, on as many rows of the call stack. -/
def manyStarts (count : Nat) : List Event :=
  (range count).map (.start 0 { name := ascii "H:APP_LIST_FLING, 7" })

theorem manyStarts_succ (count : Nat) : manyStarts (count + 1) =
    manyStarts count ++ [.start 0 { name := ascii "H:APP_LIST_FLING, 7" } count] := by
  simp [manyStarts, range_succ]

theorem infos_manyStarts : splitStringToVec (ascii "H:APP_LIST_FLING, 7") (ascii ", ") =
    [ascii "H:APP_LIST_FLING", ascii "7"] := by
  decide

theorem isStartEvent_manyStarts : isStartEvent exampleIndex (ascii "H:APP_LIST_FLING") = true := by
  decide

theorem animations_manyStarts (count : Nat) : animations exampleIndex (manyStarts count) =
    (range count).map fun row => ⟨row, 0, none⟩ := by
  induction count with
  | zero => rfl
  | succ count induction =>
    rw [manyStarts_succ, animations_concat, induction, range_succ, map_append]
    simp [Event.animationStart, closedBy, Event.animationEnd, Session.pass, infos_manyStarts,
      isStartEvent_manyStarts]

theorem frames_manyStarts (count : Nat) : frames (manyStarts count) = [] := by
  induction count with
  | zero => rfl
  | succ count induction => simp [manyStarts_succ, frames_concat, induction, Event.frameStart]

theorem after_manyStarts (count : Nat) : ∃ filter,
    after exampleIndex id (manyStarts count) = some filter ∧
      filter.animation = replicate count ⟨7000000, 0, invalidUint64, invalidUint64⟩ := by
  induction count with
  | zero => exact ⟨_, rfl, rfl⟩
  | succ count induction =>
    rcases induction with ⟨filter, ran, rows⟩
    have inputTime : inputTimeOf (ascii "7") = some 7 := by decide
    rw [manyStarts_succ, after, foldlM_append, ← after, ran]
    simp [step, startAnimationEvent, infos_manyStarts, isStartEvent_manyStarts, inputTime, rows,
      replicate_succ']

/-- The row behind `2 ^ 31` others has a negative number, and gets no frame info. -/
theorem updateFrameInfo_skips (getDataIndex : Bytes → UInt64) {filter : AnimationFilter}
    {last : Nat} (isLast : last = 2 ^ 31) (many : filter.animation.length = last + 1) :
    (filter.updateFrameInfo getDataIndex).animation[last]? = filter.animation[last]? := by
  have negative : (tableRowId last).toInt < 0 := by
    rw [isLast]
    decide
  have before := getElem?_foldl_countRow getDataIndex filter.frameCountEndTimes filter.animation
    isLast.le last
  simp only [lt_irrefl, false_and, if_false, Option.map_id'] at before
  rw [updateFrameInfo, many, range_succ, foldl_append, foldl_cons, foldl_nil, countRow]
  split
  · exact before
  · rw [updateRow, if_pos negative, ite_self, before]

/-- No frame ends in the last of `2 ^ 31 + 1` animations, which is not given the number 0. -/
theorem updateFrameInfo_misses : ∃ last filter, last = 2 ^ 31 ∧
    after exampleIndex id (manyStarts (last + 1)) = some filter ∧
    ((manyStarts (last + 1)).filterMap Event.time?).Pairwise (· ≤ ·) ∧
    ((frames (manyStarts (last + 1))).map Session.key).Nodup ∧
    ((animations exampleIndex (manyStarts (last + 1))).map Session.key).Nodup ∧
    (animations exampleIndex (manyStarts (last + 1)))[last]? = some ⟨last, 0, none⟩ ∧
    ∃ row, filter.animation[last]? = some row ∧ row.frameInfo = invalidUint64 ∧
      (filter.updateFrameInfo exampleIndex).animation[last]? = some row ∧
      frameInfoOf exampleIndex (framesWithin (manyStarts (last + 1)) ⟨last, 0, none⟩) ≠
        invalidUint64 := by
  obtain ⟨last, isLast⟩ : ∃ last, last = 2 ^ 31 := ⟨_, rfl⟩
  rcases after_manyStarts (last + 1) with ⟨filter, ran, rows⟩
  have atLast : filter.animation[last]? = some ⟨7000000, 0, invalidUint64, invalidUint64⟩ := by
    rw [rows, List.getElem?_replicate, if_pos (Nat.lt_succ_self _)]
  have skips := updateFrameInfo_skips exampleIndex isLast (by rw [rows, length_replicate])
  refine ⟨last, filter, isLast, ran, ?_, ?_, ?_, ?_, _, atLast, rfl, skips.trans atLast, ?_⟩
  · simp [manyStarts, Function.comp_def, Event.time?, filterMap_map, pairwise_replicate]
  · simp [frames_manyStarts]
  · simp [animations_manyStarts, Function.comp_def, nodup_range]
  · simp [animations_manyStarts]
  · rw [framesWithin, frames_manyStarts, countP_nil]
    decide

end AnimationFilter

end SysAnalyzer.Filter
