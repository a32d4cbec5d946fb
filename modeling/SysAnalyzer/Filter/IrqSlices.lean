import SysAnalyzer.Base.TripleMap
import SysAnalyzer.Base.TsCommon
import SysAnalyzer.Foundation.Run

/-!
# Interrupts

`SliceFilter` keeps a row for each hardware interrupt, inter-processor interrupt
and softirq, and finds the open row of each kind by the CPU.  An interrupt in
which an IPI has finished takes over the duration of the IPI, cut to 32 bits, and
shares its arguments with it; any other one gets the flag `1`.
-/

namespace SysAnalyzer.Filter

open Foundation List Base

/-- `irqCatalog_`, `ipiCatalog_` and `softIrqCatalog_`. -/
inductive IrqCatalog where
  | irq
  | ipi
  | softIrq
  deriving DecidableEq

structure IrqRow where
  timeStamp : UInt64
  dur : UInt64
  callId : UInt32
  cat : IrqCatalog
  name : UInt64
  flag : String
  argSet : UInt32

structure IrqSlices where
  rows : List IrqRow
  /-- The rows of `irqEventMap_`, `ipiEventMap_` and `softIrqEventMap_`, by catalog. -/
  eventMap : StdMap (IrqCatalog × UInt32) Nat
  irqDataLinker : StdMap UInt32 UInt32

inductive IrqEvent where
  | entry (catalog : IrqCatalog) (timeStamp : UInt64) (cpu : UInt32) (nameIndex : UInt64)
  /-- `argSetId` is what `NewArgs` answers. -/
  | exit (catalog : IrqCatalog) (timeStamp : UInt64) (cpu argSetId : UInt32)

namespace IrqSlices

def initial : IrqSlices := ⟨[], fun _ => none, fun _ => none⟩

section Functions

variable (slices : IrqSlices) (timeStamp : UInt64) (cpu argSetId : UInt32) (nameIndex : UInt64)

/-- What the three entries share; an open row is given up. -/
def appendInternalSlice (catalog : IrqCatalog) : IrqSlices :=
  { slices with
    rows := slices.rows ++ [⟨timeStamp, 0, cpu, catalog, nameIndex, "", invalidUint32⟩]
    eventMap := Function.update slices.eventMap (catalog, cpu) (some slices.rows.length) }

/-- `irqDataLinker_.erase`. -/
def unlink : IrqSlices :=
  { slices with irqDataLinker := Function.update slices.irqDataLinker cpu none }

def irqHandlerEntry : IrqSlices :=
  (slices.unlink cpu).appendInternalSlice timeStamp cpu nameIndex .irq

def ipiHandlerEntry : IrqSlices :=
  (slices.unlink cpu).appendInternalSlice timeStamp cpu nameIndex .ipi

def softIrqEntry : IrqSlices := slices.appendInternalSlice timeStamp cpu nameIndex .softIrq

/-- What the three exits share: the open row is changed and no longer open. -/
def close (catalog : IrqCatalog) (row : Nat) (change : IrqRow → IrqRow) : IrqSlices :=
  { slices with
    rows := slices.rows.modify row change
    eventMap := Function.update slices.eventMap (catalog, cpu) none }

def setDurationWithFlag (row : IrqRow) : IrqRow :=
  { row with dur := timeStamp - row.timeStamp, flag := "1" }

def setIrqDurAndArg (row : IrqRow) : IrqRow :=
  { row with dur := timeStamp - row.timeStamp, argSet := argSetId }

/-- What `IrqHandlerExit` does with the row `internalEventRow` of an IPI. -/
def linkRows (rows : List IrqRow) (row : Nat) : (internalEventRow : Option UInt32) → List IrqRow
  | none => rows.modify row fun entry => { entry with flag := "1" }
  | some internalEventRow =>
    match rows[row]?, rows[internalEventRow.toNat]? with
    | some irqRow, some ipiRow =>
      (rows.modify internalEventRow.toNat fun entry =>
        { entry with argSet := irqRow.argSet }).modify row fun entry =>
          { entry with dur := ipiRow.dur.toUInt32.toUInt64 }
    -- the maps hold rows of the table
    | _, _ => rows

def irqHandlerExit : IrqSlices :=
  match slices.eventMap (.irq, cpu) with
  | none => slices
  | some row =>
    let closed := slices.close cpu .irq row (setIrqDurAndArg timeStamp argSetId)
    { closed.unlink cpu with rows := linkRows closed.rows row (slices.irqDataLinker cpu) }

/-- `emplace` keeps a row that is linked, and cuts the number of the new one. -/
def ipiHandlerExit : IrqSlices :=
  match slices.eventMap (.ipi, cpu) with
  | none => slices
  | some row =>
    { slices.close cpu .ipi row (setDurationWithFlag timeStamp) with
      irqDataLinker := Function.update slices.irqDataLinker cpu
        ((slices.irqDataLinker cpu).or (some row.toUInt32)) }

def softIrqExit : IrqSlices :=
  match slices.eventMap (.softIrq, cpu) with
  | none => slices
  | some row => slices.close cpu .softIrq row (setIrqDurAndArg timeStamp argSetId)

end Functions

def step (slices : IrqSlices) : IrqEvent → IrqSlices
  | .entry .irq ts cpu nameIndex => slices.irqHandlerEntry ts cpu nameIndex
  | .entry .ipi ts cpu nameIndex => slices.ipiHandlerEntry ts cpu nameIndex
  | .entry .softIrq ts cpu nameIndex => slices.softIrqEntry ts cpu nameIndex
  | .exit .irq ts cpu argSetId => slices.irqHandlerExit ts cpu argSetId
  | .exit .ipi ts cpu _ => slices.ipiHandlerExit ts cpu
  | .exit .softIrq ts cpu argSetId => slices.softIrqExit ts cpu argSetId

end IrqSlices

/-- The map entry that an event is about, and the row it opens. -/
def IrqEvent.key : IrqEvent → IrqCatalog × UInt32
  | entry catalog _ cpu _ => (catalog, cpu)
  | exit catalog _ cpu _ => (catalog, cpu)

def IrqEvent.opened : IrqEvent → Option IrqRow
  | entry catalog timeStamp cpu nameIndex =>
    some ⟨timeStamp, 0, cpu, catalog, nameIndex, "", invalidUint32⟩
  | exit .. => none

/-- How many rows the events open. -/
def entries (events : List IrqEvent) : Nat := events.countP fun event => event.opened.isSome

def IrqRow.key (row : IrqRow) : IrqCatalog × UInt32 := (row.cat, row.callId)

namespace IrqSlices

section Step

variable (slices : IrqSlices) (event : IrqEvent)

theorem eventMap_step : (slices.step event).eventMap = Function.update slices.eventMap event.key
    (event.opened.map fun _ => slices.rows.length) := by
  cases event with
  | entry catalog timeStamp cpu nameIndex => cases catalog <;> rfl
  | exit catalog timeStamp cpu argSetId =>
    cases atKey : slices.eventMap (catalog, cpu) with
    | none =>
      rw [IrqEvent.opened, Option.map_none, IrqEvent.key, ← atKey, Function.update_eq_self]
      cases catalog <;> simp [step, irqHandlerExit, ipiHandlerExit, softIrqExit, atKey]
    | some row =>
      cases catalog <;> simp [step, irqHandlerExit, ipiHandlerExit, softIrqExit, atKey, close,
        unlink, IrqEvent.opened, IrqEvent.key]

theorem irqDataLinker_step : ∃ link, (slices.step event).irqDataLinker =
      Function.update slices.irqDataLinker event.key.2 link ∧
    ∀ row ∈ link, slices.irqDataLinker event.key.2 = some row ∨ event.key.1 = .ipi ∧
      ∃ opened, slices.eventMap event.key = some opened ∧ opened.toUInt32 = row := by
  have unchanged : slices.irqDataLinker = Function.update slices.irqDataLinker event.key.2
      (slices.irqDataLinker event.key.2) := (Function.update_eq_self ..).symm
  cases event with
  | entry catalog timeStamp cpu nameIndex =>
    cases catalog with
    | irq => exact ⟨none, rfl, nofun⟩
    | ipi => exact ⟨none, rfl, nofun⟩
    | softIrq => exact ⟨_, unchanged, fun _ => .inl⟩
  | exit catalog timeStamp cpu argSetId =>
    cases catalog with
    | irq =>
      simp only [step, irqHandlerExit]
      split
      · exact ⟨_, unchanged, fun _ => .inl⟩
      · exact ⟨none, rfl, nofun⟩
    | ipi =>
      simp only [step, ipiHandlerExit]
      split
      · exact ⟨_, unchanged, fun _ => .inl⟩
      · next row atKey =>
          refine ⟨_, rfl, fun linked isLinked => ?_⟩
          rcases Option.or_eq_some_iff.1 isLinked with before | ⟨-, same⟩
          · exact .inl before
          · exact .inr ⟨rfl, row, atKey, Option.some.inj same⟩
    | softIrq =>
      simp only [step, softIrqExit]
      split <;> exact ⟨_, unchanged, fun _ => .inl⟩

/-- The rows keep their keys, and change only where they are touched. -/
def Rewrites (touched : Nat → Prop) (rows later : List IrqRow) : Prop :=
  ∀ row < rows.length, later[row]?.map IrqRow.key = rows[row]?.map IrqRow.key ∧
    (¬ touched row → later[row]? = rows[row]?)

theorem Rewrites.modify {touched : Nat → Prop} {rows later : List IrqRow}
    (rewrites : Rewrites touched rows later) {number : Nat} (isTouched : touched number)
    {change : IrqRow → IrqRow} (keeps : ∀ row, (change row).key = row.key) :
    Rewrites touched rows (later.modify number change) := by
  intro row inTable
  rcases rewrites row inTable with ⟨same, kept⟩
  rw [getElem?_modify, ← same]
  split
  · next isRow =>
      refine ⟨?_, fun untouched => absurd (isRow ▸ isTouched) untouched⟩
      cases later[row]? <;> simp [keeps]
  · simpa using kept

/-- The open row of an event, and the one linked to it. -/
def Touches (slices : IrqSlices) (event : IrqEvent) (row : Nat) : Prop :=
  slices.eventMap event.key = some row ∨
    event.key.1 = .irq ∧ ∃ linked, slices.irqDataLinker event.key.2 = some linked ∧
      linked.toNat = row

theorem rows_step : Rewrites (slices.Touches event) slices.rows (slices.step event).rows := by
  have unchanged : Rewrites (slices.Touches event) slices.rows slices.rows :=
    fun _ _ => ⟨rfl, fun _ => rfl⟩
  cases event with
  | entry catalog timeStamp cpu nameIndex =>
    have appended : ∀ added : IrqRow,
        Rewrites (slices.Touches (.entry catalog timeStamp cpu nameIndex)) slices.rows
          (slices.rows ++ [added]) := by
      intro added row inTable
      rw [getElem?_append_left inTable]
      exact ⟨rfl, fun _ => rfl⟩
    cases catalog <;> exact appended _
  | exit catalog timeStamp cpu argSetId =>
    cases atKey : slices.eventMap (catalog, cpu) with
    | none =>
      cases catalog <;> simpa [step, irqHandlerExit, ipiHandlerExit, softIrqExit, atKey]
    | some opened =>
      cases catalog with
      | irq =>
        simp only [step, irqHandlerExit, atKey, linkRows, close]
        split
        · refine (unchanged.modify (.inl atKey) ?_).modify (.inl atKey) ?_ <;> exact fun _ => rfl
        · next linked =>
            split
            · refine ((unchanged.modify (.inl atKey) ?_).modify (.inr ⟨rfl, _, linked, rfl⟩) ?_).modify
                (.inl atKey) ?_ <;> exact fun _ => rfl
            · exact unchanged.modify (.inl atKey) (by exact fun _ => rfl)
      | ipi =>
        simp only [step, ipiHandlerExit, atKey, close]
        exact unchanged.modify (.inl atKey) (by exact fun _ => rfl)
      | softIrq =>
        simp only [step, softIrqExit, atKey, close]
        exact unchanged.modify (.inl atKey) (by exact fun _ => rfl)

variable {slices event} {events : List IrqEvent}

theorem length_step : (slices.step event).rows.length + entries events =
    slices.rows.length + entries (event :: events) := by
  cases event with
  | entry catalog timeStamp cpu nameIndex =>
    cases catalog <;> simp [entries, IrqEvent.opened, step, irqHandlerEntry, ipiHandlerEntry,
      softIrqEntry, appendInternalSlice, unlink] <;> omega
  | exit catalog timeStamp cpu argSetId =>
    cases catalog <;> simp only [step, irqHandlerExit, ipiHandlerExit, softIrqExit] <;> split <;>
      simp [entries, IrqEvent.opened, close]
    unfold linkRows
    split
    · simp
    · split <;> simp

theorem opened_step {new : IrqRow} (isNew : event.opened = some new) :
    (slices.step event).rows[slices.rows.length]? = some new ∧ new.key = event.key := by
  cases event with
  | entry catalog timeStamp cpu nameIndex =>
    cases isNew
    cases catalog <;> exact ⟨getElem?_concat_length, rfl⟩
  | exit catalog timeStamp cpu argSetId => cases isNew

end Step

variable {slices : IrqSlices} {event : IrqEvent} {key : IrqCatalog × UInt32} {row : Nat}

def Owns (slices : IrqSlices) (key : IrqCatalog × UInt32) (row : Nat) : Prop :=
  slices.rows[row]?.map IrqRow.key = some key

theorem Owns.lt (owns : slices.Owns key row) : row < slices.rows.length := by
  rcases Option.map_eq_some_iff.1 owns with ⟨entry, found, -⟩
  exact (List.getElem?_eq_some_iff.1 found).1

theorem Owns.step (owns : slices.Owns key row) : (slices.step event).Owns key row :=
  ((rows_step slices event row owns.lt).1).trans owns

/-- The maps hold rows of their catalog and CPU. -/
structure Consistent (slices : IrqSlices) : Prop where
  opened : ∀ key row, slices.eventMap key = some row → slices.Owns key row
  linked : ∀ cpu row, slices.irqDataLinker cpu = some row → slices.Owns (.ipi, cpu) row.toNat

theorem consistent_initial : initial.Consistent :=
  ⟨fun _ _ found => (by cases found), fun _ _ found => (by cases found)⟩

theorem Consistent.step (consistent : slices.Consistent) (few : slices.rows.length ≤ 2 ^ 32) :
    (slices.step event).Consistent := by
  refine ⟨fun key row found => ?_, fun cpu row found => ?_⟩
  · rw [eventMap_step] at found
    by_cases own : key = event.key
    · rw [own, Function.update_self] at found
      rcases Option.map_eq_some_iff.1 found with ⟨new, isNew, rfl⟩
      rcases opened_step isNew with ⟨isRow, isKey⟩
      rw [Owns, isRow, Option.map_some, isKey, own]
    · rw [Function.update_of_ne own] at found
      exact (consistent.opened key row found).step
  · rcases irqDataLinker_step slices event with ⟨link, same, origin⟩
    rw [same] at found
    by_cases own : cpu = event.key.2
    · rw [own, Function.update_self] at found
      rw [own]
      rcases origin row found with before | ⟨ipi, opened, atKey, rfl⟩
      · exact (consistent.linked _ row before).step
      · have owns := consistent.opened _ opened atKey
        rw [← ipi, UInt32.toNat_ofNat_of_lt' (owns.lt.trans_le few)]
        exact owns.step
    · rw [Function.update_of_ne own] at found
      exact (consistent.linked cpu row found).step

theorem Consistent.after (consistent : slices.Consistent) {events : List IrqEvent}
    (few : slices.rows.length + entries events ≤ 2 ^ 32) :
    (run IrqSlices.step slices events).Consistent := by
  induction events generalizing slices with
  | nil => exact consistent
  | cons event rest induction =>
    exact induction (consistent.step (by omega)) (length_step.trans_le few)

theorem length_run (events later : List IrqEvent) :
    (run step slices events).rows.length + entries later =
      slices.rows.length + entries (events ++ later) := by
  induction events generalizing slices with
  | nil => rfl
  | cons event rest induction => exact induction.trans length_step

/-- A row that an event does not reach. -/
theorem Consistent.keeps (consistent : slices.Consistent) (owns : slices.Owns key row)
    (notOpen : event.key = key → slices.eventMap key ≠ some row)
    (notIpi : key.1 = .ipi → event.key ≠ (.irq, key.2)) :
    (slices.step event).rows[row]? = slices.rows[row]? := by
  refine (rows_step slices event row owns.lt).2 ?_
  rintro (atKey | ⟨irq, number, linked, rfl⟩)
  · have same := Option.some.inj ((consistent.opened _ row atKey).symm.trans owns)
    exact notOpen same (same ▸ atKey)
  · have same := Option.some.inj ((consistent.linked _ number linked).symm.trans owns)
    subst same
    exact notIpi rfl (Prod.ext irq rfl)

/-- The open row of a key, while the events are about other keys. -/
theorem Consistent.run_open (consistent : slices.Consistent)
    (isOpen : slices.eventMap key = some row) {events : List IrqEvent}
    (few : slices.rows.length + entries events ≤ 2 ^ 32)
    (others : ∀ event ∈ events, event.key ≠ key ∧ (key.1 = .ipi → event.key ≠ (.irq, key.2))) :
    (run IrqSlices.step slices events).Consistent ∧
      (run IrqSlices.step slices events).eventMap key = some row ∧
      (run IrqSlices.step slices events).rows[row]? = slices.rows[row]? := by
  induction events generalizing slices with
  | nil => exact ⟨consistent, isOpen, rfl⟩
  | cons event rest induction =>
    rcases others event mem_cons_self with ⟨other, notIpi⟩
    have still : (slices.step event).eventMap key = some row := by
      rw [eventMap_step, Function.update_of_ne other.symm, isOpen]
    rw [run_cons, ← consistent.keeps (consistent.opened key row isOpen)
      (fun same => absurd same other) notIpi]
    refine induction (consistent.step (by omega)) still (length_step.trans_le few) ?_
    exact fun later member => others later (mem_cons_of_mem _ member)

theorem Consistent.run_closed (consistent : slices.Consistent) (owns : slices.Owns key row)
    (notIpi : key.1 ≠ .ipi) (closed : slices.eventMap key ≠ some row) (events : List IrqEvent)
    (few : slices.rows.length + entries events ≤ 2 ^ 32) :
    (run IrqSlices.step slices events).rows[row]? = slices.rows[row]? := by
  induction events generalizing slices with
  | nil => rfl
  | cons event rest induction =>
    rw [run_cons, ← consistent.keeps owns (fun _ => closed) fun ipi => absurd ipi notIpi]
    refine induction (consistent.step (by omega)) owns.step ?_ (length_step.trans_le few)
    rw [eventMap_step]
    by_cases same : key = event.key
    · rw [same, Function.update_self]
      cases event.opened with
      | none => nofun
      | some new => simpa using (Nat.ne_of_lt owns.lt).symm
    · rwa [Function.update_of_ne same]

theorem irqDataLinker_run {cpu : UInt32} (noLink : slices.irqDataLinker cpu = none)
    {events : List IrqEvent} (others : ∀ event ∈ events, event.key ≠ (.ipi, cpu)) :
    (run step slices events).irqDataLinker cpu = none := by
  induction events generalizing slices with
  | nil => exact noLink
  | cons event rest induction =>
    refine induction ?_ fun later member => others later (mem_cons_of_mem _ member)
    rcases irqDataLinker_step slices event with ⟨link, same, origin⟩
    rw [same]
    by_cases own : cpu = event.key.2
    · subst own
      rw [Function.update_self, Option.eq_none_iff_forall_ne_some]
      intro row isRow
      rcases origin row isRow with before | ⟨ipi, -⟩
      · exact absurd (noLink.symm.trans before) nofun
      · exact others event mem_cons_self (Prod.ext ipi rfl)
    · rwa [Function.update_of_ne own]

/-- Whatever happens on the other CPUs, the row of a softirq or of an interrupt without
an IPI lasts from its entry to its exit, and stays so, in a run of at most `2 ^ 32` entries. -/
theorem run_handler (catalog : IrqCatalog) (notIpi : catalog ≠ .ipi) (cpu argSetId : UInt32)
    (start stop nameIndex : UInt64) (before between after : List IrqEvent)
    (others : ∀ event ∈ between,
      event.key ≠ (catalog, cpu) ∧ (catalog = .irq → event.key ≠ (.ipi, cpu)))
    (few : entries (before ++ .entry catalog start cpu nameIndex ::
      (between ++ .exit catalog stop cpu argSetId :: after)) ≤ 2 ^ 32) :
    (run step initial (before ++ .entry catalog start cpu nameIndex :: (between ++
        .exit catalog stop cpu argSetId :: after))).rows[(run step initial before).rows.length]? =
      some ⟨start, stop - start, cpu, catalog, nameIndex, if catalog = .irq then "1" else "",
        argSetId⟩ := by
  let begun := run step initial before
  let opened := begun.step (.entry catalog start cpu nameIndex)
  let kept := run step opened between
  let closed := kept.step (.exit catalog stop cpu argSetId)
  have begunFew : begun.rows.length + entries (.entry catalog start cpu nameIndex ::
      (between ++ .exit catalog stop cpu argSetId :: after)) ≤ 2 ^ 32 :=
    (length_run before _).trans_le (by simpa [initial] using few)
  have openedFew : opened.rows.length + _ ≤ 2 ^ 32 := length_step.trans_le begunFew
  have keptFew : kept.rows.length + _ ≤ 2 ^ 32 := (length_run between _).trans_le openedFew
  have betweenFew : opened.rows.length + entries between ≤ 2 ^ 32 := by
    rw [entries, countP_append] at openedFew
    exact le_trans (by rw [entries]; omega) openedFew
  have consistent : begun.Consistent :=
    consistent_initial.after (le_trans (by simp [initial, entries]) few)
  have isOpen : opened.eventMap (catalog, cpu) = some begun.rows.length := by
    rw [eventMap_step]
    exact Function.update_self ..
  have still : kept.Consistent ∧ kept.eventMap (catalog, cpu) = some begun.rows.length ∧
      kept.rows[begun.rows.length]? = opened.rows[begun.rows.length]? :=
    (consistent.step (by omega)).run_open isOpen betweenFew fun event member =>
      ⟨(others event member).1, fun ipi => absurd ipi notIpi⟩
  rcases still with ⟨keptConsistent, keptOpen, keptRow⟩
  rw [(opened_step rfl).1] at keptRow
  have noLink : catalog = .irq → kept.irqDataLinker cpu = none := by
    rintro rfl
    exact irqDataLinker_run (Function.update_self ..) fun event member =>
      (others event member).2 rfl
  have exited : closed.rows[begun.rows.length]? = some ⟨start, stop - start, cpu, catalog,
      nameIndex, if catalog = .irq then "1" else "", argSetId⟩ := by
    cases catalog with
    | irq =>
      simp [closed, step, irqHandlerExit, keptOpen, noLink, linkRows, close, keptRow,
        setIrqDurAndArg]
    | ipi => exact absurd rfl notIpi
    | softIrq => simp [closed, step, softIrqExit, keptOpen, close, keptRow, setIrqDurAndArg]
  have isClosed : closed.eventMap (catalog, cpu) ≠ some begun.rows.length := by
    rw [eventMap_step]
    exact (Function.update_self ..).trans_ne nofun
  have owns : closed.Owns (catalog, cpu) begun.rows.length :=
    (keptConsistent.opened _ _ keptOpen).step
  rw [run_append, run_cons, run_append, run_cons]
  exact ((keptConsistent.step (by omega)).run_closed owns notIpi isClosed after
    (length_step.trans_le keptFew)).trans exited

theorem run_handler_twoCpus :
    (run step initial ([.entry .softIrq 1 1 7] ++ .entry .irq 5 0 9 :: ([.exit .softIrq 6 1 3] ++
        .exit .irq 8 0 4 :: []))).rows[(run step initial [.entry .softIrq 1 1 7]).rows.length]? =
      some ⟨5, 8 - 5, 0, .irq, 9, "1", 4⟩ :=
  run_handler .irq (by decide) 0 4 5 8 9 [.entry .softIrq 1 1 7] [.exit .softIrq 6 1 3] []
    (by decide) (by decide)

/-- While at most `2 ^ 32` rows are opened, the rows in the maps are in the table, and are
of their catalog and CPU. -/
theorem consistent_run (events : List IrqEvent) (few : entries events ≤ 2 ^ 32) :
    (run step initial events).Consistent :=
  consistent_initial.after (by simpa [initial] using few)

theorem consistent_run_ipi :
    (run step initial [.entry .irq 1 0 7, .entry .ipi 2 0 9, .exit .ipi 3 0 0]).Consistent ∧
      (run step initial
        [.entry .irq 1 0 7, .entry .ipi 2 0 9, .exit .ipi 3 0 0]).irqDataLinker 0 = some 1 :=
  ⟨consistent_run _ (by decide), rfl⟩

end IrqSlices
end SysAnalyzer.Filter
