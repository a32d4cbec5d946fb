import SysAnalyzer.Filter.LastCaller

/-!
# One backward scan over all chains

Inside a chain the scan keeps the first frame that can be attributed and falls
back to the outermost one; at the next chain the flag is down again.  The only
way to fail is to look up a file that the dictionary does not have, which a
deeper frame that can be attributed prevents.
-/

namespace SysAnalyzer.Filter.LastCaller

open Foundation List Option
open Base

section Attribution

variable (invalidLibPathIndexs : IndexSet) (dict : DataDict)

/-- The frame's file is not one of the given libraries nor the shared one. -/
def Attributable (caller : Caller) : Prop :=
  caller.filePath ∉ invalidLibPathIndexs.items ∧
    ∀ filePath, dict.getDataFromDict caller.filePath = some filePath →
      isSharedLibrary filePath = false

instance decidableAttributable (caller : Caller) :
    Decidable (Attributable invalidLibPathIndexs dict caller) :=
  inferInstanceAs (Decidable (_ ∧ ∀ filePath, _ = some filePath → _))

/-- The deepest frame that can be attributed, or else the outermost one. -/
def lastCaller (chain : CallChain) : Caller :=
  (chain.deeper.reverse.find? fun caller =>
    decide (Attributable invalidLibPathIndexs dict caller)).getD
    chain.outermost

structure Attributes (callers : LastCallers) (chains : List CallChain) : Prop where
  each : ∀ chain ∈ chains, callers chain.id = some (lastCaller invalidLibPathIndexs dict chain)
  others : ∀ id, id ∉ chains.map CallChain.id → callers id = none

/--
Below every frame whose file is neither given as a library nor in the dictionary
there is a frame that can be attributed to a file in the dictionary.
-/
def FilesKnown (chain : CallChain) : Prop :=
  ∀ before caller after, chain.deeper = before ++ caller :: after →
    caller.filePath ∉ invalidLibPathIndexs.items →
      dict.getDataFromDict caller.filePath = none → ∃ deeper ∈ after,
        Attributable invalidLibPathIndexs dict deeper ∧
          (dict.getDataFromDict deeper.filePath).isSome

/-- What the scan finds in the frames of a chain but the outermost, the deepest
frame first. -/
def pick : List Caller → Option (Option Caller)
  | [] => some none
  | caller :: rest =>
    if caller.filePath ∈ invalidLibPathIndexs.items then pick rest
    else
      match dict.getDataFromDict caller.filePath with
      | none => none
      | some filePath => if isSharedLibrary filePath then pick rest else some (some caller)

theorem pick_eq_find {deep : List Caller} {found : Option Caller}
    (picked : pick invalidLibPathIndexs dict deep = some found) : found = deep.find? fun caller =>
      decide (Attributable invalidLibPathIndexs dict caller) := by
  induction deep with
  | nil => simpa [pick, eq_comm] using picked
  | cons caller rest induction =>
    unfold pick at picked
    by_cases given : caller.filePath ∈ invalidLibPathIndexs.items
    · have refused : ¬ Attributable invalidLibPathIndexs dict caller :=
        fun attributable => attributable.1 given
      rw [if_pos given] at picked
      rw [find?_cons_of_neg (by simpa using refused)]
      exact induction picked
    · rw [if_neg given] at picked
      cases known : dict.getDataFromDict caller.filePath with
      | none => simp [known] at picked
      | some filePath =>
        by_cases shared : isSharedLibrary filePath = true
        · have refused : ¬ Attributable invalidLibPathIndexs dict caller := by
            intro attributable
            rw [attributable.2 filePath known] at shared
            cases shared
          simp only [known, shared, if_true] at picked
          rw [find?_cons_of_neg (by simpa using refused)]
          exact induction picked
        · have accepted : Attributable invalidLibPathIndexs dict caller := by
            refine ⟨given, fun other same => ?_⟩
            rw [known, some.injEq] at same
            rw [← same]
            simpa using shared
          simp only [known, shared, Bool.false_eq_true, if_false, some.injEq] at picked
          rw [find?_cons_of_pos (by simpa using accepted), ← picked]

theorem isSome_pick_iff (deep : List Caller) :
    (pick invalidLibPathIndexs dict deep).isSome ↔ ∀ before caller after,
      deep = before ++ caller :: after → caller.filePath ∉ invalidLibPathIndexs.items →
        dict.getDataFromDict caller.filePath = none → ∃ deeper ∈ before,
          Attributable invalidLibPathIndexs dict deeper ∧
            (dict.getDataFromDict deeper.filePath).isSome := by
  induction deep with
  | nil => simp [pick]
  | cons first rest induction =>
    have passOver
      (passed : ¬ (Attributable invalidLibPathIndexs dict first ∧
        (dict.getDataFromDict first.filePath).isSome))
      (harmless : first.filePath ∈ invalidLibPathIndexs.items ∨
        dict.getDataFromDict first.filePath ≠ none) :
      (∀ before caller after, first :: rest = before ++ caller :: after →
        caller.filePath ∉ invalidLibPathIndexs.items →
          dict.getDataFromDict caller.filePath = none → ∃ deeper ∈ before,
            Attributable invalidLibPathIndexs dict deeper ∧
              (dict.getDataFromDict deeper.filePath).isSome) ↔
        (pick invalidLibPathIndexs dict rest).isSome := by
      rw [induction]
      constructor
      · intro known before caller after split given missing
        rcases known (first :: before) caller after (by rw [split]; rfl)
          given missing with ⟨deeper, listed, attributable⟩
        rcases mem_cons.1 listed with rfl | later
        · exact absurd attributable passed
        · exact ⟨deeper, later, attributable⟩
      · intro known before caller after split given missing
        cases before with
        | nil =>
          rcases List.cons.inj split with ⟨rfl, -⟩
          rcases harmless with listed | found
          · exact absurd listed given
          · exact absurd missing found
        | cons other before =>
          rcases List.cons.inj split with ⟨rfl, rest⟩
          rcases known before caller after rest given missing with
            ⟨deeper, listed, attributable⟩
          exact ⟨deeper, mem_cons_of_mem _ listed, attributable⟩
    unfold pick
    by_cases given : first.filePath ∈ invalidLibPathIndexs.items
    · rw [if_pos given]
      exact (passOver (fun attributable => attributable.1.1 given) (Or.inl given)).symm
    · rw [if_neg given]
      cases known : dict.getDataFromDict first.filePath with
      | none =>
        simp only [isSome_none, Bool.false_eq_true, false_iff, not_forall]
        exact ⟨[], first, rest, rfl, given, known, by simp⟩
      | some filePath =>
        by_cases shared : isSharedLibrary filePath = true
        · rw [known] at passOver
          simp only [shared, if_true]
          refine (passOver ?_ (Or.inr (by simp))).symm
          rintro ⟨attributable, -⟩
          rw [attributable.2 filePath known] at shared
          cases shared
        · simp only [shared, Bool.false_eq_true, if_false, isSome_some, true_iff]
          intro before caller after split other missing
          cases before with
          | nil =>
            rcases List.cons.inj split with ⟨rfl, -⟩
            rw [known] at missing
            cases missing
          | cons front before =>
            rcases List.cons.inj split with ⟨rfl, -⟩
            refine ⟨first, by simp, ⟨given, fun name same => ?_⟩, by rw [known]; rfl⟩
            rw [known, some.injEq] at same
            rw [← same]
            simpa using shared

theorem isSome_pick_reverse_iff (chain : CallChain) :
    (pick invalidLibPathIndexs dict chain.deeper.reverse).isSome ↔
      FilesKnown invalidLibPathIndexs dict chain := by
  rw [isSome_pick_iff]
  constructor
  · intro known before caller after split given missing
    have reversed : chain.deeper.reverse = after.reverse ++ caller :: before.reverse := by
      rw [split]
      simp
    rcases known _ _ _ reversed given missing with ⟨deeper, listed, found⟩
    exact ⟨deeper, mem_reverse.1 listed, found⟩
  · intro known before caller after split given missing
    have straight : chain.deeper = after.reverse ++ caller :: before.reverse := by
      rw [← reverse_reverse chain.deeper, split]
      simp
    rcases known _ _ _ straight given missing with ⟨deeper, listed, found⟩
    exact ⟨deeper, mem_reverse.1 listed, found⟩

/-! ## Scanning one chain -/

def enter (scan : Scan) (id : Nat) : Scan := { scan with lastCallChainId := id, foundLast := false }

def settle (scan : Scan) (id : Nat) (caller : Caller) : Scan where
  lastCallChainId := id
  foundLast := true
  callIdToLastCallerPathIndex := Function.update scan.callIdToLastCallerPathIndex id (some caller)

variable (scan : Scan)

@[simp]
theorem settle_self (id : Nat) (caller : Caller) :
    (settle scan id caller).callIdToLastCallerPathIndex id = some caller := by
  simp [settle]

theorem settle_of_ne {id other : Nat} (caller : Caller) (different : other ≠ id) :
    (settle scan id caller).callIdToLastCallerPathIndex other =
      scan.callIdToLastCallerPathIndex other := by
  simp [settle, different]

theorem scanFrame_enter {scan : Scan} {frame : NativeHookFrame}
    (ready : scan.lastCallChainId = frame.callChainId → scan.foundLast = false) :
    scanFrame invalidLibPathIndexs dict scan frame =
      scanFrame invalidLibPathIndexs dict (enter scan frame.callChainId) frame := by
  by_cases same : scan.lastCallChainId = frame.callChainId
  · have entered : enter scan frame.callChainId = scan := by
      rw [enter, ← same, ← ready same]
    rw [entered]
  · have other : ¬ frame.callChainId = scan.lastCallChainId :=
      fun equal => same equal.symm
    simp [scanFrame, enter, other]

variable {frames : List NativeHookFrame}

theorem run_settled (id : Nat) (caller : Caller)
    (sameChain : ∀ frame ∈ frames, frame.callChainId = id) :
    runPartial (scanFrame invalidLibPathIndexs dict) (settle scan id caller) frames =
      some (settle scan id caller) := by
  induction frames with
  | nil => rfl
  | cons frame rest induction =>
    rw [forall_mem_cons] at sameChain
    have passed : scanFrame invalidLibPathIndexs dict (settle scan id caller) frame =
      some (settle scan id caller) := by
      simp [scanFrame, settle, sameChain.1]
    simp only [runPartial, passed]
    exact induction sameChain.2

theorem scanFrame_outermost (id : Nat) (caller : Caller)
    (absent : scan.callIdToLastCallerPathIndex id = none) :
    scanFrame invalidLibPathIndexs dict (enter scan id)
      ⟨id, 0, caller.filePath, caller.symbolName⟩ = some (settle scan id caller) := by
  simp [scanFrame, enter, settle, insertNew, absent]

def NativeHookFrame.caller (frame : NativeHookFrame) : Caller := ⟨frame.filePath, frame.symbolName⟩

theorem run_deeper (id : Nat) (outermost : Caller)
    (absent : scan.callIdToLastCallerPathIndex id = none)
    (inside : ∀ frame ∈ frames, frame.callChainId = id ∧ frame.depth ≠ 0) :
    runPartial (scanFrame invalidLibPathIndexs dict) (enter scan id)
      (frames ++ [⟨id, 0, outermost.filePath, outermost.symbolName⟩]) =
      (pick invalidLibPathIndexs dict (frames.map NativeHookFrame.caller)).map
        fun found => settle scan id (found.getD outermost) := by
  induction frames with
  | nil =>
    simp [runPartial, pick, scanFrame_outermost invalidLibPathIndexs dict scan id outermost absent]
  | cons frame rest induction =>
    rw [forall_mem_cons] at inside
    rcases inside with ⟨⟨sameChain, deep⟩, later⟩
    have induction := induction later
    have others : ∀ other ∈ rest ++ [⟨id, 0, outermost.filePath, outermost.symbolName⟩],
      other.callChainId = id := by
      intro other member
      rcases mem_append.1 member with here | last
      · exact (later other here).1
      · rw [mem_singleton.1 last]
    have settled := run_settled invalidLibPathIndexs dict scan id frame.caller others
    rw [map_cons]
    unfold pick
    simp only [cons_append, runPartial]
    by_cases given : frame.filePath ∈ invalidLibPathIndexs.items
    · have passed : scanFrame invalidLibPathIndexs dict (enter scan id) frame =
        some (enter scan id) := by
        have bound := (invalidLibPathIndexs.lowerBound_eq_iff frame.filePath).2 given
        simp [scanFrame, enter, sameChain, deep, bound]
      simp only [passed, NativeHookFrame.caller, given, if_true]
      exact induction
    · have bound : ¬ invalidLibPathIndexs.lowerBound frame.filePath = some frame.filePath := by
        rw [invalidLibPathIndexs.lowerBound_eq_iff]
        exact given
      cases known : dict.getDataFromDict frame.filePath with
      | none =>
        have failed : scanFrame invalidLibPathIndexs dict (enter scan id) frame = none := by
          simp [scanFrame, enter, sameChain, deep, bound, known]
        simp [failed, NativeHookFrame.caller, given, known]
      | some filePath =>
        by_cases shared : isSharedLibrary filePath = true
        · have passed : scanFrame invalidLibPathIndexs dict (enter scan id) frame =
            some (enter scan id) := by
            simp [scanFrame, enter, sameChain, deep, bound, known, shared]
          simp only [passed, NativeHookFrame.caller, given, known, shared, if_true, if_false]
          exact induction
        · have found : scanFrame invalidLibPathIndexs dict (enter scan id) frame =
            some (settle scan id frame.caller) := by
            simp [scanFrame, enter, settle, NativeHookFrame.caller,
              sameChain, deep, bound, known, shared, insertNew, absent]
          have picked : pick invalidLibPathIndexs dict
            (frame.caller :: rest.map NativeHookFrame.caller) = some (some frame.caller) := by
            simp [pick, NativeHookFrame.caller, given, known, shared]
          simp only [found, settled]
          change _ = (pick invalidLibPathIndexs dict
            (frame.caller :: rest.map NativeHookFrame.caller)).map _
          rw [picked]
          rfl

theorem rowsFrom_inside (id depth : Nat) (callers : List Caller) :
    ∀ frame ∈ rowsFrom id (depth + 1) callers, frame.callChainId = id ∧ frame.depth ≠ 0 := by
  induction callers generalizing depth with
  | nil => simp [rowsFrom]
  | cons caller rest induction =>
    rw [rowsFrom, forall_mem_cons]
    exact ⟨⟨rfl, Nat.succ_ne_zero depth⟩, induction (depth + 1)⟩

theorem map_caller_rowsFrom (id depth : Nat) (callers : List Caller) :
    (rowsFrom id depth callers).map NativeHookFrame.caller = callers := by
  induction callers generalizing depth with
  | nil => rfl
  | cons caller rest induction =>
    rw [rowsFrom, map_cons, induction]
    rfl

theorem run_chain (chain : CallChain)
    (ready : scan.lastCallChainId = chain.id → scan.foundLast = false)
    (absent : scan.callIdToLastCallerPathIndex chain.id = none) :
    runPartial (scanFrame invalidLibPathIndexs dict) scan chain.rows.reverse =
      (pick invalidLibPathIndexs dict chain.deeper.reverse).map fun found =>
        settle scan chain.id (found.getD chain.outermost) := by
  have rows : chain.rows.reverse = (rowsFrom chain.id 1 chain.deeper).reverse ++
    [⟨chain.id, 0, chain.outermost.filePath, chain.outermost.symbolName⟩] := by
    rw [CallChain.rows, rowsFrom, reverse_cons]
  have inside : ∀ frame ∈ (rowsFrom chain.id 1 chain.deeper).reverse,
    frame.callChainId = chain.id ∧ frame.depth ≠ 0 := by
    intro frame member
    exact rowsFrom_inside chain.id 0 chain.deeper frame (mem_reverse.1 member)
  have scanned := run_deeper invalidLibPathIndexs dict scan chain.id chain.outermost absent inside
  rw [map_reverse, map_caller_rowsFrom, ← rows] at scanned
  rw [← scanned]
  -- The first row that is scanned enters the chain.
  cases first : chain.rows.reverse with
  | nil => simp [rows] at first
  | cons frame rest =>
    have sameChain : frame.callChainId = chain.id := by
      have member : frame ∈ chain.rows.reverse := by rw [first]; simp
      rw [rows] at member
      rcases mem_append.1 member with deep | last
      · exact (inside frame deep).1
      · rw [mem_singleton.1 last]
    have entered : scanFrame invalidLibPathIndexs dict scan frame =
      scanFrame invalidLibPathIndexs dict (enter scan chain.id) frame := by
      rw [← sameChain]
      exact scanFrame_enter invalidLibPathIndexs dict (by rwa [sameChain])
    simp only [runPartial, entered]

theorem run_chains {chains : List CallChain}
    (distinct : (chains.map CallChain.id).Nodup) (ready : ∀ chain ∈ chains,
      scan.lastCallChainId = chain.id → scan.foundLast = false)
    (absent : ∀ chain ∈ chains, scan.callIdToLastCallerPathIndex chain.id = none) :
    ((runPartial (scanFrame invalidLibPathIndexs dict) scan
      (chains.flatMap fun chain => chain.rows.reverse)).isSome ↔
      ∀ chain ∈ chains, FilesKnown invalidLibPathIndexs dict chain) ∧
      ∀ final, runPartial (scanFrame invalidLibPathIndexs dict) scan
        (chains.flatMap fun chain => chain.rows.reverse) = some final →
        (∀ chain ∈ chains, final.callIdToLastCallerPathIndex chain.id =
          some (lastCaller invalidLibPathIndexs dict chain)) ∧
        ∀ id, id ∉ chains.map CallChain.id → final.callIdToLastCallerPathIndex id =
          scan.callIdToLastCallerPathIndex id := by
  induction chains generalizing scan with
  | nil =>
    refine ⟨by simp [runPartial], fun final scanned => ?_⟩
    cases scanned
    simp
  | cons chain rest induction =>
    rw [map_cons, nodup_cons] at distinct
    have here := run_chain invalidLibPathIndexs dict scan chain
      (ready chain (by simp)) (absent chain (by simp))
    have known := isSome_pick_reverse_iff invalidLibPathIndexs dict chain
    rw [flatMap_cons, runPartial_append, here]
    cases picked : pick invalidLibPathIndexs dict chain.deeper.reverse with
    | none =>
      rw [picked] at known
      constructor
      · simp only [map_none, bind_none, isSome_none, Bool.false_eq_true, false_iff]
        intro all
        exact absurd (known.2 (all chain (by simp))) (by simp)
      · intro final scanned
        cases scanned
    | some found =>
      have last : found.getD chain.outermost = lastCaller invalidLibPathIndexs dict chain := by
        rw [lastCaller, pick_eq_find invalidLibPathIndexs dict picked]
      rw [picked] at known
      have apart : ∀ other ∈ rest, other.id ≠ chain.id := by
        intro other member same
        exact distinct.1 (mem_map.2 ⟨other, member, same⟩)
      have later := induction (settle scan chain.id (found.getD chain.outermost)) distinct.2
        (fun other member same => absurd same.symm (apart other member))
        (fun other member => by
          rw [settle_of_ne scan _ (apart other member)]
          exact absent other (by simp [member]))
      simp only [map_some, bind_some]
      constructor
      · rw [later.1, forall_mem_cons]
        exact (and_iff_right (known.1 rfl)).symm
      · intro final scanned
        rcases later.2 final scanned with ⟨each, others⟩
        constructor
        · rw [forall_mem_cons]
          refine ⟨?_, each⟩
          rw [others chain.id distinct.1, settle_self, last]
        · intro id outside
          rw [map_cons, mem_cons, not_or] at outside
          rw [others id outside.2, settle_of_ne scan _ outside.1]

theorem rows_reverse (table : FrameTable) :
    table.rows.reverse = table.chains.reverse.flatMap fun chain => chain.rows.reverse := by
  rw [FrameTable.rows, reverse_flatMap]
  rfl

/--
The scan gives every chain its last caller, and nothing else one, exactly when
it does not come to a frame whose file is not in the dictionary.
-/
theorem getCallIdToLastLibId_iff (table : FrameTable) :
    (∃ callers, getCallIdToLastLibId invalidLibPathIndexs dict table.rows = some callers ∧
      Attributes invalidLibPathIndexs dict callers table.chains) ↔
      ∀ chain ∈ table.chains, FilesKnown invalidLibPathIndexs dict chain := by
  have distinct : (table.chains.reverse.map CallChain.id).Nodup :=
    ((reverse_perm table.chains).map CallChain.id).nodup_iff.2 table.distinct
  have scanned := run_chains invalidLibPathIndexs dict
    ⟨invalidUint32, false, fun _ => none⟩ distinct (fun _ _ _ => rfl)
    (fun _ _ => rfl)
  rw [← rows_reverse] at scanned
  simp only [mem_reverse, map_reverse] at scanned
  rw [← scanned.1, getCallIdToLastLibId]
  cases result : runPartial (scanFrame invalidLibPathIndexs dict)
    ⟨invalidUint32, false, fun _ => none⟩ table.rows.reverse with
  | none => simp
  | some final =>
    rcases scanned.2 final result with ⟨each, others⟩
    simp only [map_some, some.injEq, exists_eq_left', isSome_some, iff_true]
    exact ⟨each, fun id outside => others id outside⟩

end Attribution

def unknownFile : FrameTable where
  chains := [⟨1, ⟨0, 0⟩, [⟨invalidUint64, 1⟩]⟩]
  distinct := by simp

/-- The file of the deeper frame is looked up, and it is not in the dictionary. -/
theorem not_attributed_unknownFile : ¬ ∃ callers,
    getCallIdToLastLibId ⟨[], by simp⟩ ⟨["a"], fun _ => none⟩ unknownFile.rows = some callers ∧
      Attributes ⟨[], by simp⟩ ⟨["a"], fun _ => none⟩ callers unknownFile.chains := by
  rintro ⟨callers, scanned, -⟩
  simp [getCallIdToLastLibId, unknownFile, FrameTable.rows, CallChain.rows,
    rowsFrom, runPartial, scanFrame, IndexSet.lowerBound, invalidUint32,
    invalidUint64, DataDict.getDataFromDict] at scanned

end SysAnalyzer.Filter.LastCaller
