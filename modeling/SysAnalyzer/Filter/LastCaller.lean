import SysAnalyzer.Filter.DataDict
import SysAnalyzer.Foundation.ByteSearch
import Mathlib

/-!
# The last caller of a call chain

The rows of a call chain stand together in the frame table, the outermost frame
first.  `NativeHookFilter::GetCallIdToLastLibId` scans the table backwards and
notes for each chain its deepest frame that is not in a library of the C++
runtime, or the outermost one.

The scan looks files up in the dictionary.  A frame whose file was not found has
the index `INVALID_UINT64`, which is not in the dictionary, and looking it up is
undefined.
-/

namespace SysAnalyzer.Filter.LastCaller

open Foundation List
open Base

/-- A row of the table of frames, as far as the scan reads it. -/
structure NativeHookFrame where
  callChainId : Nat
  depth : Nat
  filePath : Nat
  symbolName : Nat

/-- The file and symbol of a frame. -/
structure Caller where
  filePath : Nat
  symbolName : Nat

/-- A `std::set` of indexes, in its order. -/
structure IndexSet where
  items : List Nat
  ordered : items.Pairwise (· < ·)

namespace IndexSet

/-- `std::lower_bound`; `none` is the end of the set. -/
def lowerBound (indexes : IndexSet) (index : Nat) : Option Nat := indexes.items.find? (index ≤ ·)

theorem lowerBound_eq_iff (indexes : IndexSet) (index : Nat) :
    indexes.lowerBound index = some index ↔ index ∈ indexes.items := by
  constructor
  · exact List.mem_of_find?_eq_some
  · intro member
    rcases append_of_mem member with ⟨before, after, split⟩
    have ordered := indexes.ordered
    rw [split, pairwise_append] at ordered
    have smaller : before.find? (index ≤ ·) = none := by
      rw [List.find?_eq_none]
      intro other listed
      have less := ordered.2.2 other listed index (by simp)
      simpa using less
    rw [lowerBound, split, List.find?_append, smaller]
    simp

end IndexSet

abbrev LastCallers := StdMap Nat Caller

/-- `std::unordered_map::insert`, which keeps the value a key has. -/
def insertNew (callers : LastCallers) (id : Nat) (caller : Caller) : LastCallers :=
  if (callers id).isSome then callers else Function.update callers id (some caller)

structure Scan where
  lastCallChainId : Nat
  foundLast : Bool
  callIdToLastCallerPathIndex : LastCallers

def invalidUint32 : Nat := 2 ^ 32 - 1

def invalidUint64 : Nat := 2 ^ 64 - 1

def isSharedLibrary (filePath : String) : Bool :=
  (find "libc++_shared.so".toList filePath.toList).isSome

section Scanning

variable (invalidLibPathIndexs : IndexSet) (dict : DataDict)

/-- A turn of the loop; it is undefined for a file outside the dictionary. -/
def scanFrame (scan : Scan) (frame : NativeHookFrame) : Option Scan :=
  if frame.callChainId = scan.lastCallChainId ∧ scan.foundLast = true then some scan
  else
    let entered :=
      if frame.callChainId ≠ scan.lastCallChainId then
        { scan with lastCallChainId := frame.callChainId, foundLast := false }
      else scan
    let found :=
      { entered with
        foundLast := true
        callIdToLastCallerPathIndex :=
          insertNew entered.callIdToLastCallerPathIndex frame.callChainId
            ⟨frame.filePath, frame.symbolName⟩ }
    if frame.depth = 0 then some found
    else if invalidLibPathIndexs.lowerBound frame.filePath = some frame.filePath then some entered
    else
      match dict.getDataFromDict frame.filePath with
      | none => none
      | some filePath => if isSharedLibrary filePath then some entered else some found

def getCallIdToLastLibId (rows : List NativeHookFrame) : Option LastCallers :=
  (runPartial (scanFrame invalidLibPathIndexs dict)
    ⟨invalidUint32, false, fun _ => none⟩ rows.reverse).map
    (·.callIdToLastCallerPathIndex)

end Scanning

structure CallChain where
  id : Nat
  outermost : Caller
  deeper : List Caller

def rowsFrom (id : Nat) : Nat → List Caller → List NativeHookFrame
  | _, [] => []
  | depth, caller :: rest =>
    ⟨id, depth, caller.filePath, caller.symbolName⟩ :: rowsFrom id (depth + 1) rest

/-- The frames of a chain, the one of depth 0 first. -/
def CallChain.callers (chain : CallChain) : List Caller := chain.outermost :: chain.deeper

def CallChain.rows (chain : CallChain) : List NativeHookFrame :=
  rowsFrom chain.id 0 (chain.outermost :: chain.deeper)

/-- A table in which the rows of each chain stand together. -/
structure FrameTable where
  chains : List CallChain
  distinct : (chains.map CallChain.id).Nodup

def FrameTable.rows (table : FrameTable) : List NativeHookFrame :=
  table.chains.flatMap CallChain.rows

section Filling

/-- A chain of frames, the outermost first, unless there is none. -/
def chainOf (id : Nat) (callers : List Caller) : List CallChain :=
  match callers with
  | [] => []
  | outermost :: deeper => [⟨id, outermost, deeper⟩]

theorem rows_chainOf (id : Nat) (callers : List Caller) :
    (chainOf id callers).flatMap CallChain.rows = rowsFrom id 0 callers := by
  cases callers with
  | nil => rfl
  | cons outermost deeper => simp [chainOf, CallChain.rows]

theorem mem_chainOf (chain : CallChain) (id : Nat) (callers : List Caller) :
    chain ∈ chainOf id callers ↔ (chain.id, chain.callers) = (id, callers) := by
  rcases chain with ⟨chainId, outermost, deeper⟩
  cases callers <;> simp [chainOf, CallChain.callers]

theorem exists_frameTable (groups : List (Nat × List Caller)) (keys : (groups.map Prod.fst).Nodup) :
    ∃ table : FrameTable, table.rows = groups.flatMap (fun group => rowsFrom group.1 0 group.2) ∧
      ∀ chain, chain ∈ table.chains ↔ (chain.id, chain.callers) ∈ groups := by
  have listed : ((groups.flatMap fun group => chainOf group.1 group.2).map CallChain.id)
    |>.Sublist (groups.map Prod.fst) := by
    induction groups with
    | nil => simp
    | cons group rest induction =>
      have later := induction (List.nodup_cons.1 keys).2
      rcases group with ⟨id, callers⟩
      cases callers with
      | nil => exact later.cons id
      | cons outermost deeper => exact later.cons_cons id
  refine ⟨⟨groups.flatMap fun group => chainOf group.1 group.2, keys.sublist listed⟩, ?_, ?_⟩
  · rw [FrameTable.rows, flatMap_assoc]
    exact flatMap_congr fun group _ => rows_chainOf group.1 group.2
  · simp [List.mem_flatMap, mem_chainOf]

/-- A frame message of the compressed mode: what its reader says of the two
fields. -/
structure FrameMessage where
  filePathId : Option UInt32
  symbolNameId : Option UInt32

section Compressed

variable (frameIdToFrameBytes : StdMap UInt32 FrameMessage)
variable (filePathIdToFileIndex symbolIdToSymbolIndex : StdMap UInt32 Nat)

/-- The frame of an id, which is cut to the width of the keys, unless a field or
an entry is missing. -/
def knownFrame (frameId : UInt64) : Option Caller := do
  let reader ← frameIdToFrameBytes frameId.toUInt32
  let filePathId ← reader.filePathId
  let symbolNameId ← reader.symbolNameId
  let filePathIndex ← filePathIdToFileIndex filePathId
  let symbolIndex ← symbolIdToSymbolIndex symbolNameId
  return ⟨filePathIndex, symbolIndex⟩

/-- A turn of the inner loop over the rows written and `depth`. -/
def writeFrame (stackId : Nat) (loop : List NativeHookFrame × Nat) (frameId : UInt64) :
    List NativeHookFrame × Nat :=
  match knownFrame frameIdToFrameBytes filePathIdToFileIndex symbolIdToSymbolIndex frameId with
  | none => loop -- continue
  | some caller =>
    (loop.1 ++ [⟨stackId, loop.2, caller.filePath, caller.symbolName⟩], loop.2 + 1)

/-- The stacks are the entries of `stackIdToFramesMap_` in the order of its keys. -/
def parseFramesInCallStackCompressedMode (stackIdToFramesMap : List (Nat × List UInt64)) :
    List NativeHookFrame :=
  run (fun rows (stack : Nat × List UInt64) =>
    (run (writeFrame frameIdToFrameBytes filePathIdToFileIndex symbolIdToSymbolIndex stack.1)
      (rows, 0) stack.2.reverse).1) [] stackIdToFramesMap

theorem run_writeFrame (stackId : Nat) (rows : List NativeHookFrame) (depth : Nat)
    (frameIds : List UInt64) :
    (run (writeFrame frameIdToFrameBytes filePathIdToFileIndex symbolIdToSymbolIndex stackId)
      (rows, depth) frameIds).1 = rows ++ rowsFrom stackId depth (frameIds.filterMap
        (knownFrame frameIdToFrameBytes filePathIdToFileIndex symbolIdToSymbolIndex)) := by
  induction frameIds generalizing rows depth with
  | nil => simp [rowsFrom]
  | cons frameId rest induction =>
    rw [run_cons, writeFrame]
    cases known : knownFrame frameIdToFrameBytes filePathIdToFileIndex symbolIdToSymbolIndex
      frameId with
    | none => simp [induction, known]
    | some caller => simp [induction, known, rowsFrom]

/-- The table of the compressed mode: a chain for each stack with a known frame,
its known frames with the depths 0, 1, 2 and so on from the outermost. -/
theorem exists_frameTable_compressed (stackIdToFramesMap : List (Nat × List UInt64))
    (keys : (stackIdToFramesMap.map Prod.fst).Nodup) :
    ∃ table : FrameTable, table.rows = parseFramesInCallStackCompressedMode frameIdToFrameBytes
        filePathIdToFileIndex symbolIdToSymbolIndex stackIdToFramesMap ∧
      ∀ chain, chain ∈ table.chains ↔ ∃ frameIds, (chain.id, frameIds) ∈ stackIdToFramesMap ∧
        frameIds.reverse.filterMap (knownFrame frameIdToFrameBytes filePathIdToFileIndex
          symbolIdToSymbolIndex) = chain.callers := by
  let known := knownFrame frameIdToFrameBytes filePathIdToFileIndex symbolIdToSymbolIndex
  have written : ∀ rows, run (fun rows (stack : Nat × List UInt64) =>
      (run (writeFrame frameIdToFrameBytes filePathIdToFileIndex symbolIdToSymbolIndex stack.1)
        (rows, 0) stack.2.reverse).1) rows stackIdToFramesMap = rows ++
      stackIdToFramesMap.flatMap fun stack =>
        rowsFrom stack.1 0 (stack.2.reverse.filterMap known) := by
    clear keys
    induction stackIdToFramesMap with
    | nil => simp
    | cons stack rest induction =>
      intro rows
      rw [run_cons, induction, run_writeFrame, flatMap_cons, append_assoc]
  rcases exists_frameTable (stackIdToFramesMap.map fun stack =>
    (stack.1, stack.2.reverse.filterMap known)) (by simpa [Function.comp_def] using keys) with
    ⟨table, same, chains⟩
  refine ⟨table, ?_, fun chain => (chains chain).trans (by simp [known])⟩
  rw [same, flatMap_map, parseFramesInCallStackCompressedMode, written, nil_append]

end Compressed

theorem exists_frameTable_compressed_twoStacks : ∃ table : FrameTable, table.rows =
      parseFramesInCallStackCompressedMode (fun id => some ⟨some id, some id⟩)
        (fun id => some id.toNat) (fun id => some id.toNat) [(1, [4, 5]), (2, [4])] ∧
    ∀ chain, chain ∈ table.chains ↔ ∃ frameIds, (chain.id, frameIds) ∈ [(1, [4, 5]), (2, [4])] ∧
      frameIds.reverse.filterMap (knownFrame (fun id => some ⟨some id, some id⟩)
        (fun id => some id.toNat) (fun id => some id.toNat)) = chain.callers :=
  exists_frameTable_compressed (fun id => some ⟨some id, some id⟩) (fun id => some id.toNat)
    (fun id => some id.toNat) _ (by decide)

section WithOut

variable (stackHashValueToFramesHashMap : StdMap Nat (List Nat))
variable (frameHashToFrameInfoMap : StdMap Nat Caller)

end WithOut

end Filling

end SysAnalyzer.Filter.LastCaller
