import SysAnalyzer.Foundation.PrefixCode
import Mathlib.Data.List.Range
import Mathlib.Data.Set.Insert

/-!
# The coding of a text

`IsUTF8` looks at the bytes of a text from its start on.  A lead byte says how
many bytes follow it, and `IsUTF8` reads that many without looking at the length
of the text.  It is given the bytes of the memory, in which the text is followed
by bytes that are not its own; a result has the places that were read beside the
answer.
-/

namespace SysAnalyzer.Base

open Foundation List

/-- What a scan answers, with the places it has read. -/
structure Scan where
  reads : List Nat
  answer : Bool
deriving DecidableEq

def Scan.behind (reads : List Nat) (scan : Scan) : Scan := ⟨reads ++ scan.reads, scan.answer⟩

/-- The rounds of `PreNum` that are left, with their mask. -/
def preNumFrom (byte : UInt8) : (rounds : Nat) → (mask : UInt8) → Nat
  | 0, _ => 0
  | rounds + 1, mask =>
    if byte &&& mask = mask then preNumFrom byte rounds (mask >>> 1) + 1
    else 0

/-- `PreNum`: the leading one bits of a byte. -/
def preNum (byte : UInt8) : Nat := preNumFrom byte 8 0x80

/--
The inner loop of `IsUTF8`: the places read and the place behind the last byte,
or `none` where a byte does not continue the sequence.
-/
def continuationBytes (data : Nat → UInt8) : (count i : Nat) → List Nat × Option Nat
  | 0, i => ([], some i)
  | count + 1, i =>
    if data i &&& 0xc0 ≠ 0x80 then ([i], none)
    else
      let next := continuationBytes data count (i + 1)
      (i :: next.1, next.2)

theorem lt_of_continuationBytes {data : Nat → UInt8} {count i next : Nat}
    (isNext : (continuationBytes data count i).2 = some next) : i ≤ next := by
  induction count generalizing i with
  | zero => exact le_of_eq (Option.some.inj isNext)
  | succ count induction =>
    rw [continuationBytes] at isNext
    split_ifs at isNext with stops
    exact Nat.le_of_succ_le (induction isNext)

/-- `IsUTF8` from a place on. -/
def isUTF8From (data : Nat → UInt8) (len i : Nat) : Scan :=
  if i < len then
    if data i &&& 0x80 = 0 then (isUTF8From data len (i + 1)).behind [i]
    else if preNum (data i) ≤ 2 then ⟨[i], false⟩
    else
      match found : (continuationBytes data (preNum (data i) - 1) (i + 1)).2 with
      | none => ⟨i :: (continuationBytes data (preNum (data i) - 1) (i + 1)).1, false⟩
      | some next =>
        (isUTF8From data len next).behind
          (i :: (continuationBytes data (preNum (data i) - 1) (i + 1)).1)
  else ⟨[], true⟩
termination_by len - i
decreasing_by
  · omega
  · have further := lt_of_continuationBytes found
    omega

def isUTF8 (data : Nat → UInt8) (len : Nat) : Scan := isUTF8From data len 0

/-! ## The words of a text -/

/-- The highest `count` bits are ones, and the next bit is not. -/
def HasLeadingOnes (count : Nat) (byte : UInt8) : Prop :=
  count ≤ 8 ∧ (∀ place < count, byte.toNat.testBit (7 - place)) ∧
    (count < 8 → ¬ byte.toNat.testBit (7 - count))

/-- The byte is `10xxxxxx`. -/
def IsContinuation (byte : UInt8) : Prop := byte &&& 0xc0 = 0x80

/--
A complete sequence: a lead byte with this many leading ones and one
continuation byte less.  An ASCII byte is the sequence without leading ones.
-/
def IsSequence (ones : Nat) (bytes : List UInt8) : Prop :=
  ∃ lead continuations, bytes = lead :: continuations ∧
    HasLeadingOnes ones lead ∧ continuations.length = ones - 1 ∧
      ∀ byte ∈ continuations, IsContinuation byte

instance (count : Nat) (byte : UInt8) : Decidable (HasLeadingOnes count byte) :=
  inferInstanceAs (Decidable (_ ∧ _ ∧ _))

theorem hasLeadingOnes_preNum (byte : UInt8) : HasLeadingOnes (preNum byte) byte := by
  have each : ∀ number < 256,
    HasLeadingOnes (preNum (UInt8.ofNat number)) (UInt8.ofNat number) := by
    decide +kernel
  have same := each byte.toNat byte.toNat_lt
  rwa [UInt8.ofNat_toNat] at same

theorem HasLeadingOnes.unique {first second : Nat} {byte : UInt8}
    (ofFirst : HasLeadingOnes first byte)
    (ofSecond : HasLeadingOnes second byte) : first = second := by
  rcases ofFirst with ⟨bound, ones, stops⟩
  rcases ofSecond with ⟨bound', ones', stops'⟩
  rcases lt_trichotomy first second with less | same | greater
  · exact absurd (ones' first less) (stops (by omega))
  · exact same
  · exact absurd (ones second greater) (stops' (by omega))

theorem hasLeadingOnes_iff {count : Nat} {byte : UInt8} :
    HasLeadingOnes count byte ↔ preNum byte = count := by
  constructor
  · intro ones
    exact (hasLeadingOnes_preNum byte).unique ones
  · rintro rfl
    exact hasLeadingOnes_preNum byte

theorem preNum_eq_zero_iff (byte : UInt8) : preNum byte = 0 ↔ byte &&& 0x80 = 0 := by
  have each : ∀ number < 256, preNum (UInt8.ofNat number) = 0 ↔
    UInt8.ofNat number &&& 0x80 = 0 := by
    decide +kernel
  have same := each byte.toNat byte.toNat_lt
  rwa [UInt8.ofNat_toNat] at same

theorem isContinuation_iff (data : Nat → UInt8) (i : Nat) :
    ¬ data i &&& 0xc0 ≠ 0x80 ↔ IsContinuation (data i) := by
  rw [not_not, IsContinuation]

/-- The sequences with these numbers of leading ones, as words of a text. -/
def sequences (sizes : Set Nat) : PrefixCode UInt8 where
  IsWord bytes := ∃ ones ∈ sizes, IsSequence ones bytes
  ne_nil := by
    rintro _ ⟨ones, -, lead, continuations, rfl, -⟩
    exact cons_ne_nil _ _
  prefixFree := by
    rintro _ _ firstRest secondRest ⟨ones, -, lead, continuations, rfl, leading, length, -⟩
      ⟨ones', -, lead', continuations', rfl, leading', length', -⟩ same
    rw [cons_append, cons_append, List.cons.injEq] at same
    rcases same with ⟨rfl, same⟩
    have sameOnes := leading.unique leading'
    have sameLength : continuations.length = continuations'.length := by
      rw [length, length', sameOnes]
    rw [(append_inj same sameLength).1]

theorem splits_mono {sizes more : Set Nat} (subset : sizes ⊆ more) {text rest : List UInt8}
    {words : List (List UInt8)} (splits : (sequences sizes).Splits text words rest) :
    (sequences more).Splits text words rest where
  areWords word member := by
    rcases splits.areWords word member with ⟨ones, inSizes, isSequence⟩
    exact ⟨ones, subset inSizes, isSequence⟩
  joined := splits.joined

theorem IsSequence.unique {first second : Nat} {bytes : List UInt8}
    (ofFirst : IsSequence first bytes) (ofSecond : IsSequence second bytes) : first = second := by
  rcases ofFirst with ⟨lead, continuations, rfl, leading, -⟩
  rcases ofSecond with ⟨lead', continuations', same, leading', -⟩
  rw [List.cons.injEq] at same
  rw [← same.1] at leading'
  exact leading.unique leading'

theorem words_unique {sizes others : Set Nat} {text : List UInt8} {first second : List (List UInt8)}
    (splits : (sequences sizes).Splits text first [])
    (other : (sequences others).Splits text second []) : first = second := by
  have stuck : ∀ word behind, (sequences Set.univ).IsWord word →
    ([] : List UInt8) ≠ word ++ behind := by
    intro word behind isWord nothing
    exact (sequences _).ne_nil isWord (append_eq_nil_iff.1 nothing.symm).1
  have isLongest := (splits_mono (Set.subset_univ _) splits).longest_of_stuck stuck
  have otherLongest := (splits_mono (Set.subset_univ _) other).longest_of_stuck stuck
  exact otherLongest.words_unique isLongest

/-! ## The scan of a text -/

section Scan

variable (data : Nat → UInt8) (len : Nat)

def bytesFrom (i : Nat) : List UInt8 := (range' i (len - i)).map data

variable {i : Nat}

theorem bytesFrom_of_lt (inside : i < len) :
    bytesFrom data len i = data i :: bytesFrom data len (i + 1) := by
  have more : len - i = (len - (i + 1)) + 1 := by omega
  rw [bytesFrom, more, range'_succ]
  rfl

theorem bytesFrom_of_le (atEnd : len ≤ i) : bytesFrom data len i = [] := by
  rw [bytesFrom, Nat.sub_eq_zero_of_le atEnd]
  rfl

theorem bytesFrom_add_of_append {part behind : List UInt8}
    (split : bytesFrom data len i = part ++ behind) :
    bytesFrom data len (i + part.length) = behind := by
  have dropped := congrArg (List.drop part.length) split
  rw [drop_left] at dropped
  rw [← dropped, bytesFrom, bytesFrom, ← map_drop, drop_range']
  rw [Nat.mul_one, Nat.sub_sub]

/-- The places are places of the text. -/
def Inside (reads : List Nat) : Prop := ∀ read ∈ reads, read < len

variable {len} in
theorem inside_append {first second : List Nat} :
    Inside len (first ++ second) ↔ Inside len first ∧ Inside len second :=
  forall_mem_append

variable {len} in
theorem inside_cons {place : Nat} {rest : List Nat} :
    Inside len (place :: rest) ↔ place < len ∧ Inside len rest :=
  forall_mem_cons

/-- What the inner loop can do with a text at some place. -/
inductive Continued (text : List UInt8) (count i : Nat) :
    List Nat × Option Nat → Prop
  | complete
    (continuations behind : List UInt8) (reads : List Nat)
    (split : text = continuations ++ behind)
    (length : continuations.length = count)
    (continued : ∀ byte ∈ continuations, IsContinuation byte)
    (inside : Inside len reads) :
    Continued text count i (reads, some (i + count))
  | cut
    (reads : List Nat) (next : Option Nat)
    (shorter : text.length < count)
    (continued : ∀ byte ∈ text, IsContinuation byte)
    (outside : ¬ Inside len reads) :
    Continued text count i (reads, next)
  | stopped
    (reads : List Nat)
    (stops : ∃ byte ∈ text.take count, ¬ IsContinuation byte)
    (inside : Inside len reads) :
    Continued text count i (reads, none)

theorem continuationBytes_cases (count i : Nat) :
    Continued len (bytesFrom data len i) count i (continuationBytes data count i) := by
  induction count generalizing i with
  | zero => exact .complete [] _ [] rfl rfl (by simp) (by simp [Inside])
  | succ count induction =>
    rw [continuationBytes]
    by_cases inText : i < len
    · rw [bytesFrom_of_lt data len inText]
      by_cases isContinuation : IsContinuation (data i)
      · rw [if_neg ((isContinuation_iff data i).2 isContinuation)]
        dsimp only
        have next := induction (i + 1)
        generalize continuationBytes data count (i + 1) = result at next
        cases next with
        | complete continuations behind reads split length continued inside =>
          rw [Nat.add_right_comm, Nat.add_assoc]
          apply Continued.complete (data i :: continuations) behind
          · rw [split, cons_append]
          · rw [length_cons, length]
          · exact forall_mem_cons.2 ⟨isContinuation, continued⟩
          · exact inside_cons.2 ⟨inText, inside⟩
        | cut reads next shorter continued outside =>
          apply Continued.cut
          · rw [length_cons]
            omega
          · exact forall_mem_cons.2 ⟨isContinuation, continued⟩
          · intro inside
            exact outside (inside_cons.1 inside).2
        | stopped reads stops inside =>
          rcases stops with ⟨byte, member, isOther⟩
          apply Continued.stopped
          · rw [take_succ_cons]
            exact ⟨byte, mem_cons_of_mem _ member, isOther⟩
          · exact inside_cons.2 ⟨inText, inside⟩
      · have stops : data i &&& 0xc0 ≠ 0x80 := isContinuation
        rw [if_pos stops]
        apply Continued.stopped
        · exact ⟨data i, by simp, isContinuation⟩
        · exact inside_cons.2 ⟨inText, by simp [Inside]⟩
    · -- The text is at its end, and the byte behind it is read.
      rw [bytesFrom_of_le data len (Nat.le_of_not_lt inText)]
      have outside : ∀ reads, ¬ Inside len (i :: reads) := by
        intro reads inside
        exact inText (inside_cons.1 inside).1
      split_ifs with stops
      · exact .cut _ _ (Nat.succ_pos count) (by simp) (outside _)
      · exact .cut _ _ (Nat.succ_pos count) (by simp) (outside _)

variable {data len}

/-- The numbers of leading ones that the scan goes on behind. -/
def scannedOnes : Set Nat := {ones | ones = 0 ∨ 3 ≤ ones}

/-- A lead byte of three ones or more with too few bytes behind it. -/
def IsCut (bytes : List UInt8) : Prop :=
  ∃ lead continuations, bytes = lead :: continuations ∧ 3 ≤ preNum lead ∧
    continuations.length < preNum lead - 1 ∧ ∀ byte ∈ continuations, IsContinuation byte

theorem isUTF8From_sequence {word behind : List UInt8}
    (split : bytesFrom data len i = word ++ behind) (isWord : (sequences scannedOnes).IsWord word) :
    ∃ reads, Inside len reads ∧ isUTF8From data len i =
      (isUTF8From data len (i + word.length)).behind reads := by
  rcases isWord with
    ⟨ones, scanned, lead, continuations, rfl, leading, length, continued⟩
  have inText : i < len := by
    by_contra atEnd
    rw [bytesFrom_of_le data len (Nat.le_of_not_lt atEnd)] at split
    exact absurd split.symm (by simp)
  rw [bytesFrom_of_lt data len inText, cons_append, List.cons.injEq] at split
  rcases split with ⟨rfl, split⟩
  rw [hasLeadingOnes_iff] at leading
  rw [isUTF8From, if_pos inText]
  rcases scanned with rfl | several
  · rw [length_eq_zero_iff] at length
    rw [if_pos ((preNum_eq_zero_iff _).1 leading), length]
    exact ⟨[i], inside_cons.2 ⟨inText, by simp [Inside]⟩, rfl⟩
  · have notAscii : ¬ data i &&& 0x80 = 0 := by
      rw [← preNum_eq_zero_iff]
      omega
    have notShort : ¬ preNum (data i) ≤ 2 := by omega
    rw [if_neg notAscii, if_neg notShort, leading]
    have cases := continuationBytes_cases data len (ones - 1) (i + 1)
    rw [split] at cases
    generalize continuationBytes data (ones - 1) (i + 1) = result at cases
    cases cases with
    | complete others rest reads _ _ _ inside =>
      refine ⟨i :: reads, inside_cons.2 ⟨inText, inside⟩, ?_⟩
      dsimp only
      rw [length_cons, length, Nat.add_assoc i 1, Nat.add_comm 1]
    | cut reads next shorter =>
      rw [length_append] at shorter
      omega
    | stopped reads stops =>
      rcases stops with ⟨byte, member, isOther⟩
      rw [← length, take_left] at member
      exact absurd (continued byte member) isOther

theorem isUTF8From_cut (isCut : IsCut (bytesFrom data len i)) :
    ¬ Inside len (isUTF8From data len i).reads := by
  rcases isCut with ⟨lead, continuations, split, several, shorter, continued⟩
  have inText : i < len := by
    by_contra atEnd
    rw [bytesFrom_of_le data len (Nat.le_of_not_lt atEnd)] at split
    exact absurd split.symm (by simp)
  rw [bytesFrom_of_lt data len inText, List.cons.injEq] at split
  rcases split with ⟨rfl, split⟩
  have notAscii : ¬ data i &&& 0x80 = 0 := by
    rw [← preNum_eq_zero_iff]
    omega
  have notShort : ¬ preNum (data i) ≤ 2 := by omega
  rw [isUTF8From, if_pos inText, if_neg notAscii, if_neg notShort]
  have cases := continuationBytes_cases data len (preNum (data i) - 1) (i + 1)
  rw [split] at cases
  generalize continuationBytes data (preNum (data i) - 1) (i + 1) = result
    at cases
  cases cases with
  | complete others rest reads split length =>
    rw [split, length_append] at shorter
    omega
  | cut reads next _ _ outside =>
    intro inside
    cases next with
    | none => exact outside (inside_cons.1 inside).2
    | some next => exact outside (inside_cons.1 (inside_append.1 inside).1).2
  | stopped reads stops =>
    rcases stops with ⟨byte, member, isOther⟩
    exact absurd (continued byte (mem_of_mem_take member)) isOther

theorem isUTF8From_stuck (inText : i < len)
    (stuck : ∀ word behind, (sequences scannedOnes).IsWord word →
      bytesFrom data len i ≠ word ++ behind) (notCut : ¬ IsCut (bytesFrom data len i)) :
    Inside len (isUTF8From data len i).reads ∧ (isUTF8From data len i).answer = false := by
  have split := bytesFrom_of_lt data len inText
  rw [isUTF8From, if_pos inText]
  have notAscii : ¬ data i &&& 0x80 = 0 := by
    intro isAscii
    rw [← preNum_eq_zero_iff] at isAscii
    refine stuck [data i] _ ⟨0, Or.inl rfl, data i, [], rfl, ?_⟩ split
    exact ⟨hasLeadingOnes_iff.2 isAscii, rfl, by simp⟩
  rw [if_neg notAscii]
  by_cases short : preNum (data i) ≤ 2
  · rw [if_pos short]
    exact ⟨inside_cons.2 ⟨inText, by simp [Inside]⟩, rfl⟩
  · rw [if_neg short]
    have cases := continuationBytes_cases data len (preNum (data i) - 1) (i + 1)
    generalize continuationBytes data (preNum (data i) - 1) (i + 1) = result
      at cases
    cases cases with
    | complete others rest reads behind length continued =>
      rw [behind, ← cons_append] at split
      refine absurd split (stuck _ _ ⟨preNum (data i), ?_, ?_⟩)
      · exact Or.inr (by omega)
      · exact ⟨data i, others, rfl, hasLeadingOnes_preNum _, length, continued⟩
    | cut reads next shorter continued =>
      exact absurd ⟨data i, _, split, by omega, shorter, continued⟩ notCut
    | stopped reads stops inside => exact ⟨inside_cons.2 ⟨inText, inside⟩, rfl⟩

theorem isUTF8From_splits {words : List (List UInt8)} {rest : List UInt8}
    (splits : (sequences scannedOnes).Splits (bytesFrom data len i) words rest) :
    ∃ reads stop, Inside len reads ∧ bytesFrom data len stop = rest ∧
      isUTF8From data len i = (isUTF8From data len stop).behind reads := by
  induction words generalizing i with
  | nil => exact ⟨[], i, by simp [Inside], splits.joined, rfl⟩
  | cons word words induction =>
    have split := splits.joined
    rw [flatten_cons, append_assoc] at split
    have isWord := splits.areWords word mem_cons_self
    rcases isUTF8From_sequence split isWord with ⟨first, inside, goesOn⟩
    have next := bytesFrom_add_of_append data len split
    rw [split] at splits
    have tail := splits.tail
    rw [← next] at tail
    rcases induction tail with ⟨reads, stop, insideRest, isRest, goesOnRest⟩
    refine ⟨first ++ reads, stop, ?_, isRest, ?_⟩
    · exact inside_append.2 ⟨inside, insideRest⟩
    · rw [goesOn, goesOnRest, Scan.behind, Scan.behind, Scan.behind, append_assoc]

end Scan

/-- The numbers of leading ones in the grammar of UTF-8 texts. -/
def grammarOnes : Set Nat := {0, 2, 3, 4}

/--
The scan reads the text alone, and the answer is whether the text is made of
ASCII bytes and complete sequences of two, three or four bytes.
-/
def DetectsUTF8 (data : Nat → UInt8) (len : Nat) : Prop :=
  Inside len (isUTF8 data len).reads ∧ ((isUTF8 data len).answer = true ↔
    (sequences grammarOnes).Made (bytesFrom data len 0))

def HasTwoBytes (text : List UInt8) : Prop :=
  ∃ words, (sequences grammarOnes).Splits text words [] ∧ ∃ word ∈ words, IsSequence 2 word

/-- A text of complete sequences one of which is longer than four bytes. -/
def HasOverlong (text : List UInt8) : Prop :=
  ∃ words, (sequences scannedOnes).Splits text words [] ∧
    ∃ word ∈ words, ∃ ones, 4 < ones ∧ IsSequence ones word

/-- A text of complete sequences whose last one is cut at the end. -/
def IsCutShort (text : List UInt8) : Prop :=
  ∃ words cut, (sequences scannedOnes).Splits text words cut ∧ IsCut cut

theorem IsCut.ne_append {cut word behind : List UInt8} (isCut : IsCut cut)
    (isWord : (sequences scannedOnes).IsWord word) : cut ≠ word ++ behind := by
  rintro rfl
  rcases isCut with ⟨lead, others, split, several, shorter, -⟩
  rcases isWord with ⟨ones, -, lead', continuations, rfl, leading, length, -⟩
  rw [cons_append, List.cons.injEq] at split
  rcases split with ⟨rfl, rfl⟩
  rw [hasLeadingOnes_iff] at leading
  rw [length_append, length, leading] at shorter
  omega

section Longest

variable {text rest : List UInt8} {words : List (List UInt8)}

theorem isCutShort_iff (longest : (sequences scannedOnes).Longest text words rest) :
    IsCutShort text ↔ IsCut rest := by
  constructor
  · rintro ⟨others, cut, splits, isCut⟩
    have cutLongest := splits.longest_of_stuck fun word behind isWord => isCut.ne_append isWord
    rw [← cutLongest.rest_unique longest] at isCut
    exact isCut
  · intro isCut
    exact ⟨words, rest, longest.toSplits, isCut⟩

theorem isUTF8_of_longest {data : Nat → UInt8} {len : Nat} (longest :
    (sequences scannedOnes).Longest (bytesFrom data len 0) words rest) :
    (Inside len (isUTF8 data len).reads ↔ ¬ IsCut rest) ∧
      (¬ IsCut rest → ((isUTF8 data len).answer = true ↔ rest = [])) := by
  rcases isUTF8From_splits longest.toSplits with
    ⟨reads, stop, inside, isRest, goesOn⟩
  have readsAll : Inside len (isUTF8 data len).reads ↔
    Inside len (isUTF8From data len stop).reads := by
    rw [isUTF8, goesOn, Scan.behind, inside_append]
    exact and_iff_right inside
  have sameAnswer : (isUTF8 data len).answer = (isUTF8From data len stop).answer := by
    rw [isUTF8, goesOn, Scan.behind]
  rw [readsAll, sameAnswer]
  by_cases inText : stop < len
  · have nonempty : rest ≠ [] := by
      rw [← isRest, bytesFrom_of_lt data len inText]
      exact cons_ne_nil _ _
    by_cases isCut : IsCut rest
    · have outside := isUTF8From_cut (isRest ▸ isCut)
      exact ⟨iff_of_false outside (not_not_intro isCut), absurd isCut⟩
    · rw [← isRest] at isCut
      have stuck := isUTF8From_stuck inText
        (fun word behind isWord => isRest ▸ longest.ne_append isWord) isCut
      rw [isRest] at isCut
      constructor
      · exact iff_of_true stuck.1 isCut
      · intro _
        rw [stuck.2]
        exact iff_of_false Bool.false_ne_true nonempty
  · have nothing : rest = [] := by
      rw [← isRest, bytesFrom_of_le data len (Nat.le_of_not_lt inText)]
    have notCut : ¬ IsCut rest := by
      rintro ⟨lead, continuations, split, -⟩
      rw [nothing] at split
      exact absurd split (by simp)
    rw [isUTF8From, if_neg inText]
    constructor
    · exact iff_of_true (by simp [Inside]) notCut
    · intro _
      exact iff_of_true rfl nothing

end Longest

theorem made_iff_made (text : List UInt8) :
    ((sequences scannedOnes).Made text ↔ (sequences grammarOnes).Made text) ↔
      ¬ HasTwoBytes text ∧ ¬ HasOverlong text := by
  constructor
  · intro same
    constructor
    · rintro ⟨words, splits, word, member, isTwo⟩
      rcases same.2 ⟨words, splits⟩ with ⟨others, scanned⟩
      rw [words_unique splits scanned] at member
      rcases scanned.areWords word member with ⟨ones, isScanned, isSequence⟩
      rw [isSequence.unique isTwo] at isScanned
      rcases isScanned with isZero | several <;> omega
    · rintro ⟨words, splits, word, member, ones, long, isLong⟩
      rcases same.1 ⟨words, splits⟩ with ⟨others, ofGrammar⟩
      rw [words_unique splits ofGrammar] at member
      rcases ofGrammar.areWords word member with ⟨other, isOnes, isSequence⟩
      rw [isSequence.unique isLong] at isOnes
      rcases isOnes with rfl | rfl | rfl | rfl <;> omega
  · rintro ⟨noTwo, noLong⟩
    constructor
    · rintro ⟨words, splits⟩
      refine ⟨words, ?_, splits.joined⟩
      intro word member
      rcases splits.areWords word member with ⟨ones, isScanned, isSequence⟩
      have notLong : ¬ 4 < ones := fun long =>
        noLong ⟨words, splits, word, member, ones, long, isSequence⟩
      refine ⟨ones, ?_, isSequence⟩
      have cases : ones = 0 ∨ ones = 3 ∨ ones = 4 := by
        rcases isScanned with isZero | several <;> omega
      rcases cases with rfl | rfl | rfl <;> simp [grammarOnes]
    · rintro ⟨words, splits⟩
      refine ⟨words, ?_, splits.joined⟩
      intro word member
      rcases splits.areWords word member with ⟨ones, isOnes, isSequence⟩
      refine ⟨ones, ?_, isSequence⟩
      rcases isOnes with rfl | rfl | rfl | rfl
      · exact Or.inl rfl
      · exact absurd ⟨words, splits, word, member, isSequence⟩ noTwo
      · exact Or.inr (by omega)
      · exact Or.inr (by omega)

/--
The detection is right exactly for the texts that are no text of the grammar
with a sequence of two bytes, have no sequence of more than four bytes among
complete ones, and are not cut inside a sequence behind complete ones.
-/
theorem detectsUTF8_iff (data : Nat → UInt8) (len : Nat) :
    DetectsUTF8 data len ↔ ¬ HasTwoBytes (bytesFrom data len 0) ∧
      ¬ HasOverlong (bytesFrom data len 0) ∧ ¬ IsCutShort (bytesFrom data len 0) := by
  rcases (sequences scannedOnes).exists_longest (bytesFrom data len 0) with
    ⟨words, rest, longest⟩
  rcases isUTF8_of_longest longest with ⟨inside_iff, answer_iff⟩
  rw [DetectsUTF8, isCutShort_iff longest, inside_iff, ← and_assoc, ← made_iff_made, and_comm]
  apply and_congr_left
  intro notCut
  rw [answer_iff notCut, longest.rest_eq_nil_iff]

theorem not_detectsUTF8_twoBytes : ¬ DetectsUTF8 (fun i => if i = 0 then 0xC3 else 0xA9) 2 := by
  rintro ⟨-, answer⟩
  have refused : (isUTF8 (fun i => if i = 0 then 0xC3 else 0xA9) 2).answer = false := by
    rw [isUTF8, isUTF8From]
    rfl
  rw [refused] at answer
  refine Bool.false_ne_true (answer.2 ⟨[[0xC3, 0xA9]], ?_, rfl⟩)
  intro word member
  rw [mem_singleton.1 member]
  refine ⟨2, by simp [grammarOnes], 0xC3, [0xA9], rfl, by decide, rfl, ?_⟩
  intro byte isLast
  rw [mem_singleton.1 isLast]
  rfl

end SysAnalyzer.Base
