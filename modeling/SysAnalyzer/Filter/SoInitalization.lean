import SysAnalyzer.Base.TripleMap
import SysAnalyzer.Foundation.OrderedMap
import SysAnalyzer.Foundation.Run
import SysAnalyzer.Foundation.Words

/-!
# Lanes of the static initializations

The `dlopen` slices of a process are drawn in lanes.  A lane is kept as an entry
of a map, from the end of its last slice to its depth; a slice takes over a lane
that has ended, the shallowest it finds, and opens a new one when none has.

The depth of a new lane is the number of lanes, so the lanes must be numbered
without gaps, and each must end no earlier than its slices.  Both hold as long
as no lane is lost: the map has one entry for an end, and a slice that ends when
another lane ends is not entered.  The end of a slice that was never finished
wraps around, and its lane looks free at once.
-/

namespace SysAnalyzer.Filter

open Foundation List Function
open Base

/-- A slice, with the process and the thread of its call id. -/
structure InternalSlice where
  name : String
  timeStamp : UInt64
  dur : UInt64
  callId : UInt32
  internalPid : UInt32
  tid : UInt32

/-- A row of the table.  The depth is a `uint32_t` of the source and the loop over
the slices has an `int` index: both hold for tables of fewer than `2 ^ 31` rows. -/
structure SoStaticInitalizationRow where
  ipid : UInt32
  tid : UInt32
  callId : UInt32
  startTime : UInt64
  endTime : UInt64
  soName : String
  depth : Nat

/-- The lanes of a process: the depth of a lane by the end of its last slice. -/
abbrev Lanes := OrderedMap UInt64 Nat

/-- The loop of `CalcDepthByTimeStamp`, from the first lane on. -/
def pickLane (startTime : UInt64) (first : UInt64 × Nat)
    (entries : List (UInt64 × Nat)) : UInt64 × Nat :=
  entries.foldl (fun picked entry =>
    if entry.1 < startTime ∧ picked.2 > entry.2 then entry else picked)
    first

/-- The lane that a slice takes over, if the first one has ended. -/
def takenLane (lanes : Lanes) (startTime : UInt64) : Option (UInt64 × Nat) :=
  match lanes.entries with
  | [] => none
  | first :: rest =>
    if first.1 > startTime then none
    else some (pickLane startTime first (first :: rest))

/-- `CalcDepthByTimeStamp`: the depth of a slice, and the lanes with it. -/
def calcDepthByTimeStamp (lanes : Lanes) (endTime startTime : UInt64) : Nat × Lanes :=
  match takenLane lanes startTime with
  | some lane => (lane.2, (lanes.erase lane.1).insert endTime lane.2)
  | none => (lanes.entries.length, lanes.insert endTime lanes.entries.length)

/-- What the loop of `ParserSoInitalization` changes. -/
structure SoInitalization where
  staticInitalizationData : List SoStaticInitalizationRow
  maxTimeAndDepthWithPid : StdMap UInt32 Lanes

namespace InternalSlice

def dlopen : String := "dlopen:"

/-- `nameString.find(DLOPEN)` finds a place. -/
def isDlopen (slice : InternalSlice) : Bool :=
  slice.name.toList.tails.any fun rest => dlopen.toList.isPrefixOf rest

def endTime (slice : InternalSlice) : UInt64 := slice.timeStamp + slice.dur

def row (slice : InternalSlice) (depth : Nat) : SoStaticInitalizationRow where
  ipid := slice.internalPid
  tid := slice.tid
  callId := slice.callId
  startTime := slice.timeStamp
  endTime := slice.endTime
  soName := slice.name
  depth := depth

/-- The time ranges of two slices overlap. -/
def Overlaps (first second : InternalSlice) : Prop :=
  first.timeStamp.toNat < second.timeStamp.toNat + second.dur.toNat ∧
    second.timeStamp.toNat < first.timeStamp.toNat + first.dur.toNat

instance (first second : InternalSlice) : Decidable (first.Overlaps second) :=
  inferInstanceAs (Decidable (_ ∧ _))

end InternalSlice

namespace SoInitalization

/-- Before the first slice. -/
def initial : SoInitalization := ⟨[], fun _ => none⟩

/-- The body of the loop of `ParserSoInitalization`. -/
def parseSlice (state : SoInitalization) (slice : InternalSlice) : SoInitalization :=
  if slice.isDlopen then
    match state.maxTimeAndDepthWithPid slice.internalPid with
    | none =>
      { staticInitalizationData :=
          state.staticInitalizationData ++ [slice.row 0]
        maxTimeAndDepthWithPid :=
          Function.update state.maxTimeAndDepthWithPid slice.internalPid
            (some (.single slice.endTime 0)) }
    | some lanes =>
      let calculated := calcDepthByTimeStamp lanes slice.endTime slice.timeStamp
      { staticInitalizationData :=
          state.staticInitalizationData ++ [slice.row calculated.1]
        maxTimeAndDepthWithPid :=
          Function.update state.maxTimeAndDepthWithPid slice.internalPid
            (some calculated.2) }
  else state

def parserSoInitalization (slices : List InternalSlice) : List SoStaticInitalizationRow :=
  (run parseSlice initial slices).staticInitalizationData

end SoInitalization

theorem pickLane_mem (startTime : UInt64) {first : UInt64 × Nat}
    {entries : List (UInt64 × Nat)} (start : first.1 ≤ startTime) :
    (pickLane startTime first entries = first ∨ pickLane startTime first entries ∈ entries) ∧
      (pickLane startTime first entries).1 ≤ startTime := by
  unfold pickLane
  induction entries generalizing first with
  | nil => exact ⟨.inl rfl, start⟩
  | cons entry rest induction =>
    rw [foldl_cons]
    by_cases better : entry.1 < startTime ∧ first.2 > entry.2
    · rw [if_pos better]
      rcases induction (le_of_lt better.1) with ⟨same | inRest, ended⟩
      · exact ⟨.inr (by rw [same]; exact mem_cons_self), ended⟩
      · exact ⟨.inr (mem_cons_of_mem _ inRest), ended⟩
    · rw [if_neg better]
      rcases induction start with ⟨same | inRest, ended⟩
      · exact ⟨.inl same, ended⟩
      · exact ⟨.inr (mem_cons_of_mem _ inRest), ended⟩

theorem mem_of_takenLane {lanes : Lanes} {startTime : UInt64} {lane : UInt64 × Nat}
    (taken : takenLane lanes startTime = some lane) :
    lane ∈ lanes.entries ∧ lane.1 ≤ startTime := by
  unfold takenLane at taken
  cases entries : lanes.entries with
  | nil => simp [entries] at taken
  | cons first rest =>
    simp only [entries] at taken
    split at taken
    · exact absurd taken nofun
    · next ended =>
        cases taken
        rcases @pickLane_mem startTime first (first :: rest)
          (le_of_not_gt ended) with ⟨same | member, before⟩
        · rw [same] at before ⊢
          exact ⟨mem_cons_self, before⟩
        · exact ⟨member, before⟩

/-- The slices of a process with the depths they were given. -/
abbrev Assigned := List (InternalSlice × SoStaticInitalizationRow)

/--
The lanes are numbered from zero on without gaps, and the lane of a slice that
was given a depth ends no earlier than the slice.
-/
structure LanesCover (assigned : Assigned) (pid : UInt32) (lanes : Lanes) :
    Prop where
  numbered : ∀ lane ∈ lanes.entries, lane.2 < lanes.entries.length
  single : ∀ lane ∈ lanes.entries, ∀ other ∈ lanes.entries, lane.2 = other.2 → lane = other
  covers : ∀ pair ∈ assigned, pair.1.internalPid = pid →
    ∃ lane ∈ lanes.entries, lane.2 = pair.2.depth ∧
      pair.1.timeStamp.toNat + pair.1.dur.toNat ≤ lane.1.toNat

theorem toNat_endTime {slice : InternalSlice}
    (finished : slice.timeStamp.toNat + slice.dur.toNat < 2 ^ 64) :
    slice.endTime.toNat = slice.timeStamp.toNat + slice.dur.toNat := by
  rw [InternalSlice.endTime, UInt64.toNat_add]
  omega

/-- No lane other than the one that is taken over ends when the slice ends. -/
def KeepsLanes (lanes : Lanes) (slice : InternalSlice) : Prop :=
  ∀ lane ∈ lanes.entries, lane.1 = slice.endTime → takenLane lanes slice.timeStamp = some lane

instance (lanes : Lanes) (slice : InternalSlice) : Decidable (KeepsLanes lanes slice) :=
  inferInstanceAs (Decidable (∀ lane ∈ lanes.entries, _ → _))

/--
A slice that keeps the lanes gets a depth that no overlapping slice of the
process has, and the lanes cover it as well.
-/
theorem LanesCover.calcDepthByTimeStamp
    {assigned : Assigned} {lanes : Lanes} {slice : InternalSlice}
    (cover : LanesCover assigned slice.internalPid lanes)
    (finished : slice.timeStamp.toNat + slice.dur.toNat < 2 ^ 64) (keeps : KeepsLanes lanes slice) :
    let calculated := Filter.calcDepthByTimeStamp lanes slice.endTime slice.timeStamp
    (∀ pair ∈ assigned, pair.1.internalPid = slice.internalPid →
      pair.1.Overlaps slice → pair.2.depth ≠ calculated.1) ∧
      LanesCover (assigned ++ [(slice, slice.row calculated.1)])
        slice.internalPid calculated.2 := by
  have ends := toNat_endTime finished
  unfold Filter.calcDepthByTimeStamp
  cases taken : takenLane lanes slice.timeStamp with
  | some lane =>
    rcases mem_of_takenLane taken with ⟨ofLanes, ended⟩
    have endedBefore : lane.1.toNat ≤ slice.timeStamp.toNat := UInt64.le_iff_toNat_le.1 ended
    have free : ∀ entry ∈ (lanes.erase lane.1).entries, entry.1 ≠ slice.endTime := by
      intro entry member same
      rcases lanes.mem_erase.1 member with ⟨ofMap, other⟩
      have isTaken := keeps entry ofMap same
      rw [taken, Option.some.injEq] at isTaken
      exact other (congrArg Prod.fst isTaken.symm)
    have length : ((lanes.erase lane.1).insert slice.endTime
      lane.2).entries.length = lanes.entries.length := by
      rw [OrderedMap.length_insert_of_not_mem _ _ free, lanes.length_erase_of_mem ofLanes]
    have mem := fun entry => OrderedMap.mem_insert_of_not_mem _ lane.2 free entry
    refine ⟨?_, ?_, ?_, ?_⟩
    · intro pair member ofPid overlaps sameDepth
      rcases cover.covers pair member ofPid with
        ⟨other, ofOther, depth, covered⟩
      have isLane : other = lane := cover.single other ofOther lane ofLanes (depth.trans sameDepth)
      rw [isLane] at covered
      have within := overlaps.2
      omega
    · intro entry member
      rw [length]
      rcases (mem entry).1 member with rfl | kept
      · exact cover.numbered lane ofLanes
      · exact cover.numbered entry (lanes.mem_erase.1 kept).1
    · intro entry member other otherMember sameDepth
      rcases (mem entry).1 member with rfl | kept
      · rcases (mem other).1 otherMember with rfl | otherKept
        · rfl
        · rcases lanes.mem_erase.1 otherKept with ⟨ofMap, notLane⟩
          have isLane := cover.single lane ofLanes other ofMap sameDepth
          exact absurd (congrArg Prod.fst isLane.symm) notLane
      · rcases lanes.mem_erase.1 kept with ⟨ofMap, notLane⟩
        rcases (mem other).1 otherMember with rfl | otherKept
        · have isLane := cover.single entry ofMap lane ofLanes sameDepth
          exact absurd (congrArg Prod.fst isLane) notLane
        · exact cover.single entry ofMap other (lanes.mem_erase.1 otherKept).1 sameDepth
    · intro pair member ofPid
      rcases mem_append.1 member with before | isNew
      · rcases cover.covers pair before ofPid with
          ⟨other, ofOther, depth, covered⟩
        by_cases sameKey : other.1 = lane.1
        · have isLane : other = lane :=
            Prod.ext sameKey (lanes.value_eq_of_mem (sameKey ▸ ofOther) ofLanes)
          rw [isLane] at depth covered
          refine ⟨_, (mem _).2 (.inl rfl), depth, ?_⟩
          rw [ends]
          omega
        · exact ⟨other, (mem _).2 (.inr (lanes.mem_erase.2 ⟨ofOther, sameKey⟩)), depth, covered⟩
      · rw [mem_singleton.1 isNew]
        exact ⟨_, (mem _).2 (.inl rfl), rfl, ends.ge⟩
  | none =>
    have free : ∀ entry ∈ lanes.entries, entry.1 ≠ slice.endTime := by
      intro entry member same
      have isTaken := keeps entry member same
      rw [taken] at isTaken
      exact absurd isTaken nofun
    have length := lanes.length_insert_of_not_mem lanes.entries.length free
    have mem := fun entry => lanes.mem_insert_of_not_mem lanes.entries.length free entry
    refine ⟨?_, ?_, ?_, ?_⟩
    · intro pair member ofPid _ sameDepth
      rcases cover.covers pair member ofPid with
        ⟨other, ofOther, depth, _⟩
      have small := cover.numbered other ofOther
      dsimp only at sameDepth
      omega
    · intro entry member
      dsimp only
      rw [length]
      rcases (mem entry).1 member with rfl | kept
      · exact Nat.lt_succ_self _
      · exact Nat.lt_succ_of_lt (cover.numbered entry kept)
    · intro entry member other otherMember sameDepth
      rcases (mem entry).1 member with rfl | kept
      · rcases (mem other).1 otherMember with rfl | otherKept
        · rfl
        · exact absurd (cover.numbered other otherKept) (by rw [← sameDepth]; exact lt_irrefl _)
      · rcases (mem other).1 otherMember with rfl | otherKept
        · exact absurd (cover.numbered entry kept) (by rw [sameDepth]; exact lt_irrefl _)
        · exact cover.single entry kept other otherKept sameDepth
    · intro pair member ofPid
      rcases mem_append.1 member with before | isNew
      · rcases cover.covers pair before ofPid with
          ⟨other, ofOther, depth, covered⟩
        exact ⟨other, (mem _).2 (.inr ofOther), depth, covered⟩
      · rw [mem_singleton.1 isNew]
        exact ⟨_, (mem _).2 (.inl rfl), rfl, ends.ge⟩

/-! ## Whole runs -/

namespace SoInitalization

/--
The step condition: the range of a `dlopen` slice does not wrap, and no lane of
its process other than the one it takes over ends when it ends.
-/
def LosesNoLane (state : SoInitalization) (slice : InternalSlice) : Prop :=
  slice.isDlopen = true → slice.timeStamp.toNat + slice.dur.toNat < 2 ^ 64 ∧
    ∀ lanes ∈ state.maxTimeAndDepthWithPid slice.internalPid, KeepsLanes lanes slice

instance (state : SoInitalization) (slice : InternalSlice) : Decidable (state.LosesNoLane slice) :=
  inferInstanceAs (Decidable (_ → _ ∧ _))

/-- The `dlopen` slices with the rows that were appended for them. -/
def assigned (slices : List InternalSlice) (state : SoInitalization) : Assigned :=
  (slices.filter InternalSlice.isDlopen).zip state.staticInitalizationData

/-- Overlapping slices of one process have different depths. -/
def DistinctDepths (assigned : Assigned) : Prop :=
  assigned.Pairwise fun first second =>
    first.1.internalPid = second.1.internalPid →
      first.1.Overlaps second.1 → first.2.depth ≠ second.2.depth

instance (assigned : Assigned) : Decidable (DistinctDepths assigned) :=
  inferInstanceAs (Decidable (List.Pairwise _ _))

/-- Rows have been appended for all slices, and the lanes of every process cover them. -/
structure Tracks (slices : List InternalSlice) (state : SoInitalization) :
    Prop where
  rows : state.staticInitalizationData.length = (slices.filter InternalSlice.isDlopen).length
  distinct : DistinctDepths (assigned slices state)
  lanes : ∀ pid, match state.maxTimeAndDepthWithPid pid with
    | none => ∀ pair ∈ assigned slices state, pair.1.internalPid ≠ pid
    | some lanes => LanesCover (assigned slices state) pid lanes

theorem tracks_initial : Tracks [] initial where
  rows := rfl
  distinct := .nil
  lanes := by
    intro pid pair member
    exact absurd member not_mem_nil

variable {slices : List InternalSlice}

variable {state : SoInitalization} {slice : InternalSlice}

theorem assigned_concat (rows :
    state.staticInitalizationData.length = (slices.filter InternalSlice.isDlopen).length)
    (isDlopen : slice.isDlopen = true)
    (row : SoStaticInitalizationRow) (map : StdMap UInt32 Lanes) :
    assigned (slices ++ [slice]) ⟨state.staticInitalizationData ++ [row], map⟩ =
      assigned slices state ++ [(slice, row)] := by
  unfold assigned
  rw [filter_append, filter_cons_of_pos isDlopen, filter_nil, zip_append rows.symm]
  rfl

theorem LanesCover.concat_of_ne {pairs : Assigned} {pid : UInt32} {lanes : Lanes}
    (cover : LanesCover pairs pid lanes) {pair : InternalSlice × SoStaticInitalizationRow}
    (other : pair.1.internalPid ≠ pid) : LanesCover (pairs ++ [pair]) pid lanes where
  numbered := cover.numbered
  single := cover.single
  covers := by
    intro entry member ofPid
    rcases mem_append.1 member with before | isNew
    · exact cover.covers entry before ofPid
    · rw [mem_singleton.1 isNew] at ofPid
      exact absurd ofPid other

theorem Tracks.append (tracks : Tracks slices state) (isDlopen : slice.isDlopen = true)
    {depth : Nat} {lanes : Lanes} (differs : ∀ pair ∈ assigned slices state,
      pair.1.internalPid = slice.internalPid →
        pair.1.Overlaps slice → pair.2.depth ≠ depth) (cover :
      LanesCover (assigned slices state ++ [(slice, slice.row depth)]) slice.internalPid lanes) :
    Tracks (slices ++ [slice])
      { staticInitalizationData :=
          state.staticInitalizationData ++ [slice.row depth]
        maxTimeAndDepthWithPid :=
          Function.update state.maxTimeAndDepthWithPid slice.internalPid
            (some lanes) } where
  rows := by
    rw [length_append, tracks.rows, filter_append, filter_cons_of_pos isDlopen, length_append]
    rfl
  distinct := by
    rw [assigned_concat tracks.rows isDlopen]
    refine pairwise_append.2 ⟨tracks.distinct, pairwise_singleton _ _, ?_⟩
    intro pair member other isNew samePid overlaps
    rw [mem_singleton.1 isNew] at samePid overlaps ⊢
    exact differs pair member samePid overlaps
  lanes := by
    intro pid
    rw [assigned_concat tracks.rows isDlopen]
    by_cases same : pid = slice.internalPid
    · subst same
      simpa using cover
    · have before := tracks.lanes pid
      dsimp only
      rw [update_of_ne same]
      cases ofPid : state.maxTimeAndDepthWithPid pid with
      | none =>
        rw [ofPid] at before
        intro pair member
        rcases mem_append.1 member with ofBefore | isNew
        · exact before pair ofBefore
        · rw [mem_singleton.1 isNew]
          exact Ne.symm same
      | some lanes =>
        rw [ofPid] at before
        exact LanesCover.concat_of_ne before (Ne.symm same)

theorem Tracks.parseSlice (tracks : Tracks slices state) (keeps : state.LosesNoLane slice) :
    Tracks (slices ++ [slice]) (state.parseSlice slice) := by
  unfold SoInitalization.parseSlice
  cases isDlopen : slice.isDlopen with
  | false =>
    have sameSlices : (slices ++ [slice]).filter InternalSlice.isDlopen =
      slices.filter InternalSlice.isDlopen := by
      simp [isDlopen]
    refine ⟨?_, ?_, ?_⟩
    · simpa [sameSlices] using tracks.rows
    · simpa [assigned, sameSlices] using tracks.distinct
    · simpa [assigned, sameSlices] using tracks.lanes
  | true =>
    rcases keeps isDlopen with ⟨finished, keepsLanes⟩
    have before := tracks.lanes slice.internalPid
    rw [if_pos rfl]
    cases ofPid : state.maxTimeAndDepthWithPid slice.internalPid with
    | none =>
      rw [ofPid] at before
      refine tracks.append isDlopen ?_ ⟨?_, ?_, ?_⟩
      · intro pair member samePid
        exact absurd samePid (before pair member)
      · simp [OrderedMap.single]
      · simp [OrderedMap.single]
      · intro pair member samePid
        rcases mem_append.1 member with ofBefore | isNew
        · exact absurd samePid (before pair ofBefore)
        · rw [mem_singleton.1 isNew]
          exact ⟨(slice.endTime, 0), mem_singleton.2 rfl, rfl, (toNat_endTime finished).ge⟩
    | some lanes =>
      rw [ofPid] at before
      have next := before.calcDepthByTimeStamp finished (keepsLanes lanes ofPid)
      exact tracks.append isDlopen next.1 next.2

theorem tracks_run (keeps : EachStep SoInitalization.parseSlice LosesNoLane initial slices) :
    Tracks slices (run SoInitalization.parseSlice initial slices) := by
  induction slices using reverseRecOn with
  | nil => exact tracks_initial
  | append_singleton slices slice induction =>
    rw [eachStep_append] at keeps
    rw [run_append]
    exact (induction keeps.1).parseSlice keeps.2.1

/--
When every `dlopen` slice keeps the lanes, two slices of a process that overlap
are given different depths; every such slice has a row.
-/
theorem distinctDepths_of_losesNoLane {slices : List InternalSlice}
    (keeps : EachStep SoInitalization.parseSlice LosesNoLane initial slices) :
    (parserSoInitalization slices).length = (slices.filter InternalSlice.isDlopen).length ∧
      DistinctDepths ((slices.filter InternalSlice.isDlopen).zip (parserSoInitalization slices)) :=
  ⟨(tracks_run keeps).rows, (tracks_run keeps).distinct⟩

/-- A `dlopen` slice of process 1. -/
def dlopenSlice (timeStamp dur : UInt64) : InternalSlice :=
  ⟨"H:dlopen: lib.so", timeStamp, dur, 0, 1, 100⟩

theorem distinctDepths_of_losesNoLane_nested :
    let slices := [dlopenSlice 0 10, dlopenSlice 1 5, dlopenSlice 6 9]
    (parserSoInitalization slices).length = (slices.filter InternalSlice.isDlopen).length ∧
      DistinctDepths ((slices.filter InternalSlice.isDlopen).zip (parserSoInitalization slices)) :=
  distinctDepths_of_losesNoLane (by decide)

/--
The first two slices end together: the lane of the second is lost, and the third
slice is given its depth.
-/
theorem not_distinctDepths_sameEnd :
    let slices := [dlopenSlice 0 10, dlopenSlice 1 9, dlopenSlice 2 10]
    ¬ DistinctDepths ((slices.filter InternalSlice.isDlopen).zip
      (parserSoInitalization slices)) := by
  decide

end SoInitalization

end SysAnalyzer.Filter
