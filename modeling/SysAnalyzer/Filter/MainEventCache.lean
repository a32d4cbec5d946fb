import SysAnalyzer.Filter.NativeHookFilter
import SysAnalyzer.Foundation.ReorderBuffer
import SysAnalyzer.Foundation.Words

/-!
# The cache of native hook main events

Main events arrive almost in the order of their timestamps.  They are kept in
`tsToMainEventsMap_`, and when the map exceeds `MAX_CACHE_SIZE` its first events
are handed to the `Parse*Event` functions; the rest is handed over at the end.
The cache does not look into the events, so what they are and what parsing does
with them are parameters; it records the events handed over.  It is a
`ReorderBuffer`, and the native hook filter is the cache of its own events.
-/

namespace SysAnalyzer.Filter

open Foundation

universe u v

/-- The cache, with the state that parsing writes and a record of what it was given. -/
structure MainEventCache (State : Type u) (MainEvent : Type v) where
  state : State
  /-- `tsToMainEventsMap_`, in the order of its iterator. -/
  tsToMainEvents : List (UInt64 × MainEvent)
  /-- The events handed to the `Parse*Event` functions, in this order. -/
  handed : List (UInt64 × MainEvent)

namespace MainEventCache

variable {State : Type u} {MainEvent : Type v}
variable (parse : State → UInt64 × MainEvent → State)

def initial (state : State) : MainEventCache State MainEvent := ⟨state, [], []⟩

/-- The body of the loop of `FilterNativeHookMainEvent`. -/
def parseMainEvent (cache : MainEventCache State MainEvent)
    (mainEvent : UInt64 × MainEvent) : MainEventCache State MainEvent :=
  { cache with
    state := parse cache.state mainEvent
    handed := cache.handed ++ [mainEvent] }

/-- `FilterNativeHookMainEvent`: the first `num` events are handed over. -/
def filterNativeHookMainEvent (cache : MainEventCache State MainEvent)
    (num : Nat) : MainEventCache State MainEvent :=
  { run (parseMainEvent parse) cache (cache.tsToMainEvents.take num) with
    tsToMainEvents := cache.tsToMainEvents.drop num }

/-- `MaybeParseNativeHookMainEvent`, without offline symbolization. -/
def maybeParseNativeHookMainEvent (cache : MainEventCache State MainEvent)
    (mainEvent : UInt64 × MainEvent) : MainEventCache State MainEvent :=
  let inserted : MainEventCache State MainEvent :=
    { cache with
      tsToMainEvents := insertByKey cache.tsToMainEvents mainEvent }
  if inserted.tsToMainEvents.length > NativeHookFilter.maxCacheSize then
    inserted.filterNativeHookMainEvent parse
      (inserted.tsToMainEvents.length - NativeHookFilter.maxCacheSize)
  else inserted

/-- What `FinishParseNativeHookData` does with the main events. -/
def finishParseNativeHookData (cache : MainEventCache State MainEvent) :
    MainEventCache State MainEvent :=
  cache.filterNativeHookMainEvent parse cache.tsToMainEvents.length

def buffer (cache : MainEventCache State MainEvent) : ReorderBuffer UInt64 MainEvent :=
  ⟨cache.tsToMainEvents, cache.handed⟩

section

variable (cache : MainEventCache State MainEvent)
include cache

theorem run_parseMainEvent (mainEvents : List (UInt64 × MainEvent)) :
    run (parseMainEvent parse) cache mainEvents = { cache with
      state := run parse cache.state mainEvents
      handed := cache.handed ++ mainEvents } := by
  induction mainEvents generalizing cache with
  | nil => simp
  | cons mainEvent rest induction =>
    rw [run_cons, run_cons, induction]
    simp [parseMainEvent]

theorem buffer_filterNativeHookMainEvent (num : Nat) :
    (cache.filterNativeHookMainEvent parse num).buffer = cache.buffer.release num := by
  simp [filterNativeHookMainEvent, run_parseMainEvent, buffer,
    ReorderBuffer.release]

theorem buffer_maybeParseNativeHookMainEvent (mainEvent : UInt64 × MainEvent) :
    (cache.maybeParseNativeHookMainEvent parse mainEvent).buffer =
      cache.buffer.arrive NativeHookFilter.maxCacheSize mainEvent := by
  unfold maybeParseNativeHookMainEvent ReorderBuffer.arrive
  dsimp only
  split
  · rw [buffer_filterNativeHookMainEvent]
    rfl
  · next within =>
      have noneOver : (insertByKey cache.tsToMainEvents mainEvent).length -
        NativeHookFilter.maxCacheSize = 0 := by
        omega
      simp [buffer, ReorderBuffer.release, noneOver]

theorem buffer_run (arrivals : List (UInt64 × MainEvent)) :
    (run (maybeParseNativeHookMainEvent parse) cache arrivals).buffer =
      run (ReorderBuffer.arrive NativeHookFilter.maxCacheSize) cache.buffer
        arrivals := by
  induction arrivals generalizing cache with
  | nil => rfl
  | cons mainEvent rest induction =>
    rw [run_cons, run_cons, induction, buffer_maybeParseNativeHookMainEvent]

end

/-- Parsing has run over what was handed over, and nothing else. -/
def Parsed (start : State) (cache : MainEventCache State MainEvent) : Prop :=
  cache.state = run parse start cache.handed

theorem Parsed.filterNativeHookMainEvent {start : State} {cache : MainEventCache State MainEvent}
    (parsed : cache.Parsed parse start) (num : Nat) :
    (cache.filterNativeHookMainEvent parse num).Parsed parse start := by
  unfold Parsed at parsed ⊢
  simp [MainEventCache.filterNativeHookMainEvent, run_parseMainEvent,
    run_append, parsed]

theorem parsed_maybeParseNativeHookMainEvent
    {start : State} (cache : MainEventCache State MainEvent)
    (mainEvent : UInt64 × MainEvent) (parsed : cache.Parsed parse start) :
    (cache.maybeParseNativeHookMainEvent parse mainEvent).Parsed parse
      start := by
  have inserted : ({ cache with
    tsToMainEvents := insertByKey cache.tsToMainEvents mainEvent } :
    MainEventCache State MainEvent).Parsed parse start :=
    parsed
  unfold maybeParseNativeHookMainEvent
  dsimp only
  split
  · exact inserted.filterNativeHookMainEvent parse _
  · exact inserted

/--
When no event arrives behind more than `MAX_CACHE_SIZE` events of later
timestamps, the events handed over are the arrivals sorted by their timestamps,
those of one timestamp in arrival order; none is left, and parsing has seen them
in this order.
-/
theorem handed_stableSort (start : State) (arrivals : List (UInt64 × MainEvent)) (delayed :
    ReorderBuffer.DelayBounded NativeHookFilter.maxCacheSize arrivals) :
    let cache :=
      (run (maybeParseNativeHookMainEvent parse) (initial start)
        arrivals).finishParseNativeHookData parse
    StableSortOf cache.handed arrivals ∧ cache.tsToMainEvents = [] ∧
      cache.state = run parse start cache.handed := by
  let arrived := run (maybeParseNativeHookMainEvent parse) (initial start) arrivals
  have asBuffer : (arrived.finishParseNativeHookData parse).buffer =
    arrived.buffer.release arrived.buffer.pending.length :=
    buffer_filterNativeHookMainEvent parse arrived _
  have parsed : arrived.Parsed parse start := by
    refine run_invariant_of_preserves ?_ arrivals rfl
    exact parsed_maybeParseNativeHookMainEvent parse
  refine ⟨?_, ?_, parsed.filterNativeHookMainEvent parse _⟩
  · have sorted := ReorderBuffer.stableSortOf_run delayed
    have sameArrivals := buffer_run parse (initial start) arrivals
    change StableSortOf (arrived.finishParseNativeHookData parse).buffer.released
      arrivals
    rw [asBuffer]
    change arrived.buffer = _ at sameArrivals
    rw [sameArrivals]
    exact sorted
  · exact (congrArg ReorderBuffer.pending asBuffer).trans (List.drop_length)

/-- An event that arrives late, two of one timestamp, and more than the cache holds. -/
theorem handed_stableSort_late :
    let arrivals : List (UInt64 × String) :=
      [(2, "alloc"), (1, "mmap"), (2, "free")] ++
        List.replicate NativeHookFilter.maxCacheSize (3, "alloc")
    let cache :=
      (run (maybeParseNativeHookMainEvent fun log mainEvent =>
        log ++ [mainEvent.2]) (initial [])
        arrivals).finishParseNativeHookData fun log mainEvent => log ++ [mainEvent.2]
    StableSortOf cache.handed arrivals ∧ cache.tsToMainEvents = [] ∧
      cache.state =
        run (fun log mainEvent => log ++ [mainEvent.2]) [] cache.handed :=
  handed_stableSort _ [] _ (ReorderBuffer.DelayBounded.append_replicate (by decide) (by decide) _)

end MainEventCache

namespace NativeHookFilter

theorem parseMainEvent_of_tsToMainEvents (filter : NativeHookFilter)
    (waiting : List (UInt64 × NativeHookMainEvent)) (mainEvent : UInt64 × NativeHookMainEvent) :
    ({ filter with tsToMainEvents := waiting } : NativeHookFilter).parseMainEvent mainEvent =
      { filter.parseMainEvent mainEvent with tsToMainEvents := waiting } := by
  rcases mainEvent with ⟨timeStamp, mainEvent⟩
  cases mainEvent with
  | allocEvent addr size =>
    simp only [parseMainEvent, parseAllocEvent]
    split
    · rfl
    · rfl
  | freeEvent addr =>
    simp only [parseMainEvent, parseFreeEvent]
    cases filter.addrToAllocEventRow addr with
    | none => rfl
    | some allocRow =>
      dsimp only
      cases filter.nativeHook.rows[allocRow]? with
      | none => rfl
      | some allocEvent =>
        dsimp only
        split
        · split
          · rfl
          · rfl
        · rfl
  | mmapEvent addr size type =>
    simp only [parseMainEvent, parseMmapEvent]
    cases type with
    | none =>
      dsimp only
      split
      · rfl
      · rfl
    | some subType =>
      dsimp only
      split
      · rfl
      · rfl
  | munmapEvent addr size =>
    simp only [parseMainEvent, parseMunmapEvent]
    cases filter.addrToMmapEventRow addr with
    | none => rfl
    | some mmapRow =>
      dsimp only
      cases filter.nativeHook.rows[mmapRow]? with
      | none => rfl
      | some mmapEvent =>
        dsimp only
        split
        · split
          · rfl
          · rfl
        · rfl
  | tagEvent addr size tag =>
    simp only [parseMainEvent, parseTagEvent]
    cases filter.anonMmapData (addr, size) with
    | none => rfl
    | some rows => rfl

theorem run_parseMainEvent_of_tsToMainEvents (filter : NativeHookFilter)
    (waiting mainEvents : List (UInt64 × NativeHookMainEvent)) :
    run parseMainEvent { filter with tsToMainEvents := waiting } mainEvents =
      { run parseMainEvent filter mainEvents with tsToMainEvents := waiting } := by
  induction mainEvents generalizing filter with
  | nil => rfl
  | cons mainEvent rest induction =>
    rw [run_cons, run_cons, parseMainEvent_of_tsToMainEvents, induction]

def ofCache (cache : MainEventCache NativeHookFilter NativeHookMainEvent) :
    NativeHookFilter :=
  { cache.state with tsToMainEvents := cache.tsToMainEvents }

theorem ofCache_filterNativeHookMainEvent
    (cache : MainEventCache NativeHookFilter NativeHookMainEvent) (num : Nat) :
    (ofCache cache).filterNativeHookMainEvent num =
      ofCache (cache.filterNativeHookMainEvent parseMainEvent num) := by
  simp [ofCache, NativeHookFilter.filterNativeHookMainEvent,
    MainEventCache.filterNativeHookMainEvent,
    MainEventCache.run_parseMainEvent, run_parseMainEvent_of_tsToMainEvents]

theorem ofCache_maybeParseNativeHookMainEvent
    (cache : MainEventCache NativeHookFilter NativeHookMainEvent)
    (mainEvent : UInt64 × NativeHookMainEvent) :
    (ofCache cache).maybeParseNativeHookMainEvent mainEvent = ofCache
      (cache.maybeParseNativeHookMainEvent parseMainEvent mainEvent) := by
  unfold NativeHookFilter.maybeParseNativeHookMainEvent
    MainEventCache.maybeParseNativeHookMainEvent
  by_cases full :
    (insertByKey cache.tsToMainEvents mainEvent).length > maxCacheSize
  · have filtered :=
      ofCache_filterNativeHookMainEvent { cache with
        tsToMainEvents := insertByKey cache.tsToMainEvents mainEvent }
        ((insertByKey cache.tsToMainEvents mainEvent).length - maxCacheSize)
    rw [if_pos full]
    exact (if_pos full).trans filtered
  · rw [if_neg full]
    exact if_neg full

theorem run_maybeParseNativeHookMainEvent (arrivals : List (UInt64 × NativeHookMainEvent)) :
    run maybeParseNativeHookMainEvent initial arrivals = ofCache
      (run (MainEventCache.maybeParseNativeHookMainEvent parseMainEvent)
        (MainEventCache.initial initial) arrivals) := by
  have simulates : ∀ cache,
    run maybeParseNativeHookMainEvent (ofCache cache) arrivals = ofCache
      (run (MainEventCache.maybeParseNativeHookMainEvent parseMainEvent)
        cache arrivals) := by
    induction arrivals with
    | nil => exact fun _ => rfl
    | cons mainEvent rest induction =>
      intro cache
      rw [run_cons, run_cons, ofCache_maybeParseNativeHookMainEvent, induction]
  exact simulates (MainEventCache.initial initial)

/--
The bounded cache loses nothing against sorting all events first: in whatever
order they arrive, the table is the one of the events in the order of time.
-/
theorem run_maybeParse_eq_sorted (arrivals : List (UInt64 × NativeHookMainEvent))
    (delayed : ReorderBuffer.DelayBounded maxCacheSize arrivals) :
    let arrived := run maybeParseNativeHookMainEvent initial arrivals
    ∃ sorted, StableSortOf sorted arrivals ∧
      arrived.filterNativeHookMainEvent arrived.tsToMainEvents.length =
        run parseMainEvent initial sorted := by
  let cache := run (MainEventCache.maybeParseNativeHookMainEvent parseMainEvent)
    (MainEventCache.initial initial) arrivals
  let finished := cache.filterNativeHookMainEvent parseMainEvent cache.tsToMainEvents.length
  have waiting : cache.Parsed parseMainEvent initial := run_invariant_of_preserves
    (MainEventCache.parsed_maybeParseNativeHookMainEvent parseMainEvent) arrivals rfl
  have parsed : finished.state = run parseMainEvent initial finished.handed :=
    waiting.filterNativeHookMainEvent parseMainEvent _
  refine ⟨finished.handed, ?_, ?_⟩
  · have sort := ReorderBuffer.stableSortOf_run delayed
    have asBuffer : cache.buffer = _ :=
      MainEventCache.buffer_run parseMainEvent (.initial initial) arrivals
    change StableSortOf finished.buffer.released arrivals
    rw [MainEventCache.buffer_filterNativeHookMainEvent]
    change StableSortOf (cache.buffer.release cache.buffer.pending.length).released arrivals
    rw [asBuffer]
    exact sort
  · have none : finished.tsToMainEvents = [] := List.drop_length
    have untouched := run_parseMainEvent_of_tsToMainEvents initial [] finished.handed
    rw [run_maybeParseNativeHookMainEvent]
    refine (ofCache_filterNativeHookMainEvent cache cache.tsToMainEvents.length).trans ?_
    change { finished.state with tsToMainEvents := finished.tsToMainEvents } = _
    rw [none, parsed]
    exact untouched.symm

theorem run_maybeParse_eq_sorted_late :
    let arrivals : List (UInt64 × NativeHookMainEvent) :=
      [(2, .freeEvent 16), (1, .allocEvent 16 8)] ++
        List.replicate maxCacheSize (3, .allocEvent 32 8)
    let arrived := run maybeParseNativeHookMainEvent initial arrivals
    ∃ sorted, StableSortOf sorted arrivals ∧
      arrived.filterNativeHookMainEvent arrived.tsToMainEvents.length =
        run parseMainEvent initial sorted :=
  run_maybeParse_eq_sorted _ (ReorderBuffer.DelayBounded.append_replicate (by decide) (by decide) _)

end NativeHookFilter

end SysAnalyzer.Filter
