import Mathlib

/-!
# The frame that native memory is attributed to

`fillNativeHook` names a sample by a frame of its call chain, and
`combineStatisticAndCallChain` attributes it to the library and the symbol of one.
Both look for the innermost frame that is not in a runtime library of C or C++.
They differ where there is none: one falls back to the outermost frame and the
other to the innermost.

A frame goes with its place in the chain, which tells it from an equal one.
-/

namespace SysAnalyzer.LogicWorker

open List Option

/-- `HeapTreeDataBean`, a frame of a call chain. -/
structure HeapTreeDataBean where
  AllocationFunction : String := ""
  symbolId : Nat
  fileId : Nat

abbrev PlacedFrame := HeapTreeDataBean × Nat

def includes (text part : String) : Bool := decide (part.toList <:+: text.toList)

def behindSlash (path : String) : String :=
  .ofList (path.toList.reverse.takeWhile (· ≠ '/')).reverse

/-- `symbol` and `library` of a `NativeMemory`. -/
structure NativeMemoryNames where
  symbol : String
  library : String

/-- The attribution of an `AnalysisSample`. -/
structure Attribution where
  libId : Int
  libName : String
  symbolId : Int
  symbolName : String

/-- What the worker for native memory has loaded. -/
structure NativeHookCache where
  dataDict : Nat → Option String := fun _ => none
  nmHeapFrameMap : Int → List HeapTreeDataBean := fun _ => []
  nmFileDict : Nat → Option String := fun _ => none

namespace NativeHookCache

variable (cache : NativeHookCache)

/-- `groupCutFilePath`: a path is cut once, and found by its number afterwards. -/
def groupCutFilePath (fileId : Nat) (path : String) : String × NativeHookCache :=
  match cache.nmFileDict fileId with
  | some name => (if name = "" then "-" else name, cache)
  | none =>
    let currentPath := behindSlash path
    (if currentPath = "" then "-" else currentPath, { cache with
      nmFileDict := Function.update cache.nmFileDict fileId (some currentPath) })

/-- A text of the dictionary, another one where it is missing or empty. -/
def textOr (id : Nat) (other : String) : String :=
  let text := (cache.dataDict id).getD ""
  if text = "" then other else text

/-- The frame that `fillNativeHook` finds in a call chain. -/
def frameOfMemory (arr : List HeapTreeDataBean) : Option PlacedFrame :=
  let frame := arr.zipIdx.reverse.find? fun item =>
    let fileName := (cache.dataDict item.1.fileId).getD ""
    !(includes fileName "libc++" || includes fileName "musl")
  match frame with
  | some frame => some frame
  | none => arr.zipIdx.head?

def fillNativeHook (eventId : Int) : NativeMemoryNames × NativeHookCache :=
  match cache.frameOfMemory (cache.nmHeapFrameMap eventId) with
  | some (frame, _) =>
    let (symbol, cache) := cache.groupCutFilePath frame.symbolId (cache.textOr frame.symbolId "")
    let (library, cache) :=
      cache.groupCutFilePath frame.fileId (cache.textOr frame.fileId "Unknown Path")
    (⟨symbol, library⟩, cache)
  | none => (⟨"-", "-"⟩, cache)

/-- The loop of `combineStatisticAndCallChain` on the frames below an index. -/
def lastFilterCallChain (callChains : List PlacedFrame) : (frames : Nat) → Option PlacedFrame
  | 0 => callChains.getLast?
  | index + 1 =>
    match callChains[index]? with
    | none => none
    | some frame =>
      let libPath := cache.dataDict frame.1.fileId
      if libPath.any (includes · "musl") || libPath.any (includes · "libc++") then
        lastFilterCallChain callChains index
      else some frame

/-- The frame that `combineStatisticAndCallChain` finds in a call chain. -/
def frameOfSample (callChains : List HeapTreeDataBean) : Option PlacedFrame :=
  cache.lastFilterCallChain callChains.zipIdx callChains.length

/-- The attribution of a sample in `combineStatisticAndCallChain`. -/
def attributionOf (eventId : Int) (addr : String) : Attribution :=
  match cache.frameOfSample (cache.nmHeapFrameMap eventId) with
  | none => ⟨-1, "Unknown", -1, "Unknown"⟩
  | some (frame, _) =>
    let libName := behindSlash ((cache.dataDict frame.fileId).getD "")
    { libId := frame.fileId
      libName := libName
      symbolId := frame.symbolId
      symbolName := cache.textOr frame.symbolId (libName ++ " (" ++ addr ++ ")") }

def isRuntime (frame : HeapTreeDataBean) : Bool :=
  includes ((cache.dataDict frame.fileId).getD "") "libc++" ||
    includes ((cache.dataDict frame.fileId).getD "") "musl"

theorem frameOfMemory_eq (arr : List HeapTreeDataBean) :
    cache.frameOfMemory arr = (arr.zipIdx.reverse.find? fun item => !cache.isRuntime item.1).or
      arr.zipIdx.head? := by
  unfold frameOfMemory isRuntime
  cases arr.zipIdx.reverse.find? fun item =>
    !(includes ((cache.dataDict item.1.fileId).getD "") "libc++" ||
      includes ((cache.dataDict item.1.fileId).getD "") "musl") <;> rfl

theorem lastFilterCallChain_eq (callChains : List PlacedFrame) (frames : Nat)
    (within : frames ≤ callChains.length) : cache.lastFilterCallChain callChains frames =
      ((callChains.take frames).reverse.find? fun item =>
        !cache.isRuntime item.1).or callChains.getLast? := by
  induction frames with
  | zero => rfl
  | succ index induction =>
    have here := getElem?_eq_getElem within
    have test : ((cache.dataDict callChains[index].1.fileId).any (includes · "musl") ||
      (cache.dataDict callChains[index].1.fileId).any (includes · "libc++")) =
        cache.isRuntime callChains[index].1 := by
      unfold isRuntime
      cases cache.dataDict callChains[index].1.fileId with
      | none => decide
      | some path => exact Bool.or_comm _ _
    rw [lastFilterCallChain, here, take_add_one, here,
      toList_some, reverse_append, reverse_singleton,
      singleton_append, find?_cons]
    dsimp only
    rw [test]
    cases runtime : cache.isRuntime callChains[index].1 with
    | true => exact induction (Nat.le_of_succ_le within)
    | false => rfl

theorem frameOfSample_eq (callChains : List HeapTreeDataBean) :
    cache.frameOfSample callChains = (callChains.zipIdx.reverse.find? fun item =>
      !cache.isRuntime item.1).or callChains.zipIdx.getLast? := by
  unfold frameOfSample
  rw [lastFilterCallChain_eq _ _ _ (by simp), take_of_length_le (by simp)]

/-- Both find the same frame just where a chain has a frame outside of the runtime
libraries, or no second frame. -/
theorem frameOfMemory_eq_frameOfSample_iff (callChains : List HeapTreeDataBean) :
    cache.frameOfMemory callChains = cache.frameOfSample callChains ↔
      (∃ frame ∈ callChains, cache.isRuntime frame = false) ∨ callChains.length ≤ 1 := by
  rw [frameOfMemory_eq, frameOfSample_eq]
  cases found : callChains.zipIdx.reverse.find? fun item =>
    !cache.isRuntime item.1 with
  | some item =>
    have member := mem_of_find?_eq_some found
    rw [mem_reverse] at member
    refine iff_of_true rfl (.inl ⟨item.1, ?_, ?_⟩)
    · exact fst_mem_of_mem_zipIdx member
    · simpa using find?_some found
  | none =>
    have all : ¬ ∃ frame ∈ callChains, cache.isRuntime frame = false := by
      rintro ⟨frame, member, outside⟩
      rcases mem_iff_getElem.1 member with ⟨place, within, rfl⟩
      have placed : (callChains[place], place) ∈ callChains.zipIdx :=
        mem_zipIdx_iff_getElem?.2 (getElem?_eq_getElem within)
      have runtime := find?_eq_none.1 found _ (mem_reverse.2 placed)
      simp [outside] at runtime
    rw [or_iff_right all, none_or, none_or]
    cases callChains using reverseRecOn with
    | nil => simp
    | append_singleton others last =>
      cases others with
      | nil => simp
      | cons first others =>
        rw [zipIdx_append, zipIdx_singleton, getLast?_concat]
        simp

def runtimeOnly : NativeHookCache where
  dataDict _ := some ("/lib/ld-" ++ "musl" ++ ".so.1")

theorem isRuntime_runtimeOnly (frame : HeapTreeDataBean) : runtimeOnly.isRuntime frame = true := by
  have isPart : "musl".toList <:+: ("/lib/ld-" ++ "musl" ++ ".so.1").toList :=
    ⟨"/lib/ld-".toList, ".so.1".toList, by simp⟩
  unfold isRuntime includes runtimeOnly
  rw [getD_some, decide_eq_true isPart, Bool.or_true]

theorem runtimeOnly_differ : runtimeOnly.frameOfMemory [⟨"", 1, 9⟩, ⟨"", 2, 9⟩] ≠
    runtimeOnly.frameOfSample [⟨"", 1, 9⟩, ⟨"", 2, 9⟩] := by
  rw [frameOfMemory_eq, frameOfSample_eq]
  simp [isRuntime_runtimeOnly]

/-- The names that are kept are cut from the texts of their numbers. -/
def KeepsCut : Prop :=
  ∀ fileId name, cache.nmFileDict fileId = some name → name = behindSlash (cache.textOr fileId "")

def orDash (name : String) : String := if name = "" then "-" else name

variable {cache}

theorem textOr_of_nmFileDict (names : Nat → Option String) :
    ({ cache with nmFileDict := names } : NativeHookCache).textOr = cache.textOr := by
  unfold textOr
  rfl

/-- What has been cut before changes no name. -/
theorem KeepsCut.groupCutFilePath (keeps : cache.KeepsCut) (fileId : Nat) :
    let cut := cache.groupCutFilePath fileId (cache.textOr fileId "")
    cut.1 = orDash (behindSlash (cache.textOr fileId "")) ∧
      cut.2.KeepsCut ∧ cut.2.textOr = cache.textOr := by
  unfold NativeHookCache.groupCutFilePath orDash
  cases kept : cache.nmFileDict fileId with
  | some name =>
    dsimp only
    rw [keeps fileId name kept]
    exact ⟨rfl, keeps, rfl⟩
  | none =>
    dsimp only
    refine ⟨rfl, ?_, textOr_of_nmFileDict _⟩
    intro other name isName
    rw [textOr_of_nmFileDict]
    by_cases isSame : other = fileId
    · subst isSame
      have isCut : some (behindSlash (cache.textOr other "")) = some name := by simpa using isName
      exact (some_inj.1 isCut).symm
    · exact keeps other name (by simpa [Function.update_of_ne isSame] using isName)

theorem textOr_of_ne {id : Nat} (known : cache.textOr id "" ≠ "") (other : String) :
    cache.textOr id other = cache.textOr id "" := by
  unfold textOr at known ⊢
  dsimp only at known ⊢
  by_cases missing : (cache.dataDict id).getD "" = ""
  · exact absurd (if_pos missing) known
  · rw [if_neg missing, if_neg missing]

/--
Where both find one frame, whose file and symbol have a text, a memory shows the
library of the sample, and the symbol of the sample cut like a path.
-/
theorem fillNativeHook_eq (keeps : cache.KeepsCut) {eventId : Int} (addr : String)
    {frame : HeapTreeDataBean} {place : Nat}
    (ofMemory : cache.frameOfMemory (cache.nmHeapFrameMap eventId) = some (frame, place))
    (ofSample : cache.frameOfSample (cache.nmHeapFrameMap eventId) = some (frame, place))
    (file : cache.textOr frame.fileId "" ≠ "") (symbol : cache.textOr frame.symbolId "" ≠ "") :
    (cache.fillNativeHook eventId).1 =
        ⟨orDash (behindSlash (cache.attributionOf eventId addr).symbolName),
          orDash (cache.attributionOf eventId addr).libName⟩ ∧
      (cache.fillNativeHook eventId).2.KeepsCut := by
  have text : (cache.dataDict frame.fileId).getD "" = cache.textOr frame.fileId "" := by
    unfold textOr
    dsimp only
    split_ifs with empty
    · exact empty
    · rfl
  rcases keeps.groupCutFilePath frame.symbolId with ⟨symbolName, afterSymbol, sameTexts⟩
  have library := afterSymbol.groupCutFilePath frame.fileId
  rw [fillNativeHook, attributionOf, ofMemory, ofSample]
  dsimp only at library ⊢
  rw [sameTexts] at library ⊢
  rw [textOr_of_ne file "Unknown Path", textOr_of_ne symbol (_ ++ ")"), text, symbolName, library.1]
  exact ⟨rfl, library.2.1⟩

end NativeHookCache

end SysAnalyzer.LogicWorker
