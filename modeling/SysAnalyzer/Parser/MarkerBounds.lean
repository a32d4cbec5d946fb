import SysAnalyzer.Parser.PrintEventParser

/-!
# Which markers are taken apart inside their bounds

The parts of counters and of asynchronous slices are found by searching, so they
lie inside the marker.  The name of a begin marker is what is left behind the
process id and one bar, and when nothing is left its length is negative.
-/

namespace SysAnalyzer.Parser.PrintEventParser

open Foundation List Option

/-- A part that lies between the ends of the string is inside. -/
def Permits (inside : Inside) : Prop :=
  ∀ start length size, start + length ≤ size → inside start length size = true

theorem permits_charactersInside : Permits charactersInside := by
  intro start length size bounded
  simp [charactersInside, bounded]

theorem permits_spanInside : Permits spanInside := by
  intro start length size bounded
  simp [spanInside, bounded]

variable {inside : Inside}

theorem part?_of_le (permits : Permits inside) {text : Bytes}
    {start length : Nat} (bounded : start + length ≤ text.length) :
    part? inside text start length = some ((text.drop start).take length) := by
  rw [part?, if_pos (permits start length text.length bounded)]

theorem minus?_of_le {size part : Nat} (smaller : part ≤ size) :
    minus? size part = some (size - part) := by
  rw [minus?, if_pos smaller]

theorem findFrom_bound {byte : UInt8} {text : Bytes} {position place : Nat}
    (found : findFrom byte text position = some place) (bounded : position ≤ text.length) :
    position ≤ place ∧ place < text.length := by
  rcases map_eq_some_iff.1 found with ⟨offset, later, rfl⟩
  have room := find_bound later
  rw [length_drop, length_singleton] at room
  omega

/-- The decimal digits a process id is read from. -/
def groupDigits (pointStr : Bytes) : Bytes := (pointStr.drop maxPointLength).takeWhile isDigit

theorem threadGroupIdLoop_eq (pointStr : Bytes) {remaining : Nat} (index length : Nat)
    (rest : remaining = pointStr.length - index) :
    ∃ digits, threadGroupIdLoop pointStr remaining index length =
      some (length + ((pointStr.drop index).takeWhile isDigit).length, digits) ∧
      (remaining = 0 → digits = true) := by
  induction remaining generalizing index length with
  | zero =>
    have behind : pointStr.drop index = [] := drop_eq_nil_of_le (by omega)
    exact ⟨true, by simp [threadGroupIdLoop, behind], fun _ => rfl⟩
  | succ remaining induction =>
    have bound : index < pointStr.length := by omega
    have front := drop_eq_getElem_cons bound
    unfold threadGroupIdLoop
    rw [getElem?_eq_getElem bound, bind_some, front]
    by_cases ends : pointStr[index] = bar ∨ pointStr[index] = newline
    · have noDigit : isDigit pointStr[index] = false := by
        rcases ends with isBar | isNewline
        · rw [isBar]; rfl
        · rw [isNewline]; rfl
      exact ⟨true, by simp [ends, noDigit], by simp⟩
    · rw [if_neg ends]
      by_cases digit : isDigit pointStr[index] = true
      · rcases induction (index + 1) (length + 1) (by omega) with
          ⟨digits, counted, -⟩
        refine ⟨digits, ?_, by simp⟩
        rw [if_neg (by simpa using digit), counted, takeWhile_cons_of_pos digit, length_cons]
        congr 2
        omega
      · refine ⟨false, ?_, by simp⟩
        rw [if_pos (by simpa using digit), takeWhile_cons_of_neg digit]
        rfl

theorem getThreadGroupId_isSome (permits : Permits inside) {pointStr : Bytes}
    (long : maxPointLength ≤ pointStr.length) :
    ∃ tgid, getThreadGroupId inside pointStr = some (tgid, (groupDigits pointStr).length) := by
  rcases threadGroupIdLoop_eq pointStr maxPointLength 0 rfl with
    ⟨digits, counted, -⟩
  rw [zero_add] at counted
  have bounded : maxPointLength + (groupDigits pointStr).length ≤ pointStr.length := by
    have prefixed : (groupDigits pointStr).length ≤ (pointStr.drop maxPointLength).length :=
      ( takeWhile_prefix isDigit).length_le
    rw [length_drop] at prefixed
    omega
  have str := part?_of_le permits bounded
  unfold groupDigits at str
  unfold getThreadGroupId
  rw [counted]
  cases digits with
  | true => exact ⟨_, by simp [str, groupDigits]; rfl⟩
  | false => exact ⟨0, rfl⟩

theorem getThreadGroupId_letter (inside : Inside) (letter : UInt8) :
    getThreadGroupId inside [letter] = if inside maxPointLength 0 1 then some (0, 0) else none := by
  by_cases allowed : inside maxPointLength 0 1 = true
  · simp [getThreadGroupId, threadGroupIdLoop, part?, maxPointLength,
      strToInt, Base.strToInt] at allowed ⊢
    simp [allowed]
  · simp [getThreadGroupId, threadGroupIdLoop, part?, maxPointLength]
      at allowed ⊢
    simp [allowed]

theorem nameLengthLoop_bound (pointStr : Bytes) (nameIndex : Nat) {remaining index namelength : Nat}
    (rest : remaining = pointStr.length - index) (behind : nameIndex ≤ index)
    (bounded : namelength = 0 ∨ nameIndex + namelength < pointStr.length) :
    ∃ length, nameLengthLoop pointStr nameIndex remaining index namelength = some length ∧
      (length = 0 ∨ nameIndex + length < pointStr.length) := by
  induction remaining generalizing index namelength with
  | zero => exact ⟨namelength, rfl, bounded⟩
  | succ remaining induction =>
    have bound : index < pointStr.length := by omega
    unfold nameLengthLoop
    rw [getElem?_eq_getElem bound, bind_some]
    split
    · exact ⟨index - nameIndex, rfl, Or.inr (by omega)⟩
    · apply induction
      · omega
      · omega
      · split
        · exact Or.inr (by omega)
        · exact bounded

theorem getNameLength_bound (pointStr : Bytes) (nameIndex : Nat) :
    ∃ length, getNameLength pointStr nameIndex = some length ∧
      (length = 0 ∨ nameIndex + length < pointStr.length) :=
  nameLengthLoop_bound pointStr nameIndex rfl (le_refl _) (Or.inl rfl)

theorem getValueLength_bound {pointStr : Bytes} {valueIndex : Nat}
    (bounded : valueIndex ≤ pointStr.length) :
    ∃ length, getValueLength pointStr valueIndex = some length ∧
      valueIndex + length ≤ pointStr.length := by
  have measured : ∃ whole, wholeValueLength pointStr valueIndex = some whole ∧
    valueIndex + whole ≤ pointStr.length := by
    unfold wholeValueLength
    cases found : findFrom bar pointStr valueIndex with
    | none => exact ⟨_, minus?_of_le bounded, by omega⟩
    | some place =>
      have inRange := findFrom_bound found bounded
      exact ⟨_, minus?_of_le inRange.1, by omega⟩
  rcases measured with ⟨whole, measured, room⟩
  rw [getValueLength, measured, bind_some]
  by_cases empty : whole = 0
  · exact ⟨0, by rw [if_pos empty], by omega⟩
  · have last : valueIndex + whole - pointLength < pointStr.length := by
      rw [pointLength]
      omega
    rw [if_neg empty, getElem?_eq_getElem last, map_some]
    split
    · exact ⟨_, rfl, by omega⟩
    · exact ⟨_, rfl, room⟩

theorem handlerCSF_isSome (permits : Permits inside) (pointStr : Bytes)
    (outPoint : TracePoint) (tGidlength : Nat) :
    (handlerCSF inside pointStr outPoint tGidlength).isSome := by
  rcases getNameLength_bound pointStr (maxPointLength + tGidlength + pointLength) with
    ⟨namelength, named, inName⟩
  simp only [handlerCSF, named, bind_eq_bind, bind_some]
  by_cases noName : namelength = 0
  · simp [noName]
  · have inName := inName.resolve_left noName
    have valueBound : maxPointLength + tGidlength + pointLength + namelength +
      pointLength ≤ pointStr.length := by
      rw [pointLength] at inName ⊢
      omega
    rcases getValueLength_bound valueBound with ⟨valueLen, valued, inValue⟩
    rw [if_neg noName, part?_of_le permits (le_of_lt inName)]
    simp only [bind_some, valued]
    by_cases noValue : valueLen = 0
    · simp [noValue]
    · rw [if_neg noValue, part?_of_le permits inValue, bind_some]
      split
      · rfl
      · split
        · rfl
        · rename_i valuePipe found
          have inGroup := findFrom_bound found valueBound
          have one : pointLength = 1 := rfl
          have behind : pointLength ≤ pointStr.length - valuePipe := by omega
          have last : pointStr.length - pointLength < pointStr.length := by
            rw [pointLength]
            omega
          rw [minus?_of_le (le_of_lt inGroup.2), bind_some, minus?_of_le behind, bind_some]
          split
          · rfl
          · rw [getElem?_eq_getElem last, bind_some, part?_of_le permits (by split <;> omega)]
            rfl

theorem handlerB_isSome_iff (permits : Permits inside)
    (distributeMatcher : DistributeMatcher) (pointStr : Bytes)
    (outPoint : TracePoint) (tGidlength : Nat) :
    (handlerB inside distributeMatcher pointStr outPoint tGidlength).isSome ↔
      maxPointLength + tGidlength + pointLength +
        (if pointStr.getLast? = some newline then 1 else 0) ≤
        pointStr.length := by
  constructor
  · intro defined
    by_contra short
    have undefined : getPointNameForBegin inside pointStr tGidlength = none := by
      unfold getPointNameForBegin
      by_cases front : maxPointLength + tGidlength + pointLength ≤ pointStr.length
      · simp only [minus?_of_le front, bind_eq_bind, bind_some]
        rw [minus?, if_neg (by omega), bind_none]
      · simp [minus?, front]
    simp [handlerB, undefined] at defined
  · intro long
    have named : ∃ name, getPointNameForBegin inside pointStr tGidlength = some name := by
      simp only [getPointNameForBegin, bind_eq_bind]
      rw [minus?_of_le (by omega), bind_some, minus?_of_le (by omega),
        bind_some, part?_of_le permits (by omega)]
      exact ⟨_, rfl⟩
    rcases named with ⟨name, named⟩
    simp only [handlerB, named, bind_eq_bind, bind_some]
    split
    · rfl
    · split
      · split <;> rfl
      · split <;> rfl

/-- The mark behind the phase letter. -/
def IsMark (byte : UInt8) : Prop := byte = bar ∨ byte = newline

/--
A begin marker that ends right behind its process id, or behind the newline
there.
-/
def EndsBehindGroupId (pointStr : Bytes) : Prop :=
  ∃ mark digits, IsMark mark ∧ (∀ digit ∈ digits, isDigit digit = true) ∧
    (pointStr = 0x42 :: mark :: digits ∨ pointStr = 0x42 :: mark :: (digits ++ [newline]))

theorem takeWhile_digits {digits : Bytes} (digit : ∀ byte ∈ digits, isDigit byte = true) :
    digits.takeWhile isDigit = digits := by
  rwa [takeWhile_eq_self_iff]

theorem noRoom_iff {mark : UInt8} (isMark : IsMark mark) (rest : Bytes) :
    ¬ (maxPointLength + (groupDigits (0x42 :: mark :: rest)).length + pointLength +
      (if (0x42 :: mark :: rest).getLast? = some newline then 1 else 0) ≤
      (0x42 :: mark :: rest).length) ↔ EndsBehindGroupId (0x42 :: mark :: rest) := by
  have counted : (groupDigits (0x42 :: mark :: rest)) = rest.takeWhile isDigit := rfl
  have parts := takeWhile_append_dropWhile (p := isDigit) (l := rest)
  have sizes := congrArg List.length parts
  rw [length_append] at sizes
  have one : pointLength = 1 := rfl
  have two : maxPointLength = 2 := rfl
  simp only [counted, length_cons, one, two]
  constructor
  · intro short
    have digit : ∀ byte ∈ rest.takeWhile isDigit, isDigit byte = true :=
      fun byte member => mem_takeWhile_imp member
    cases behind : rest.dropWhile isDigit with
    | nil =>
      rw [behind, append_nil] at parts
      exact ⟨mark, rest, isMark, parts ▸ digit, Or.inl rfl⟩
    | cons last more =>
      rw [behind, length_cons] at sizes
      have ended : (0x42 :: mark :: rest).getLast? = some newline := by
        by_contra other
        rw [if_neg other] at short
        omega
      rw [if_pos ended] at short
      have single : more = [] := by
        rw [← length_eq_zero_iff]
        omega
      rw [behind, single] at parts
      rw [← parts] at ended
      simp only [← cons_append, getLast?_concat, some.injEq] at ended
      rw [ended] at parts
      exact ⟨mark, _, isMark, digit, Or.inr (by rw [parts])⟩
  · rintro ⟨other, digits, -, digit, same | same⟩
    · rcases List.cons.inj same with ⟨-, same⟩
      rcases List.cons.inj same with ⟨-, rfl⟩
      rw [takeWhile_digits digit]
      omega
    · rcases List.cons.inj same with ⟨-, same⟩
      rcases List.cons.inj same with ⟨-, rfl⟩
      have noDigit : isDigit newline = false := by decide
      have ended : (0x42 :: mark :: (digits ++ [newline])).getLast? = some newline := by
        simp only [← cons_append, getLast?_concat]
      rw [if_pos ended, takeWhile_append_of_pos digit, takeWhile_cons_of_neg (by simp [noDigit])]
      simp only [length_append, length_cons, length_nil]
      omega

theorem checkTracePoint_long (letter second : UInt8) (rest : Bytes) :
    checkTracePoint (letter :: second :: rest) = some .parseError ∨
      (checkTracePoint (letter :: second :: rest) = some .parseSuccess ∧
        letter ∈ ascii "BECSF" ∧ IsMark second) := by
  unfold checkTracePoint
  rw [if_neg (by simp)]
  by_cases clockSync : (ascii "trace_event_clock_sync").isPrefixOf (letter :: second :: rest) = true
  · exact Or.inl (by rw [if_pos clockSync])
  · rw [if_neg clockSync]
    by_cases phase : letter ∈ ascii "BECSF"
    · rw [if_neg (by simpa using phase), if_neg (by simp), if_pos (by simp [maxPointLength])]
      by_cases mark : IsMark second
      · refine Or.inr ⟨?_, phase, mark⟩
        rcases mark with rfl | rfl <;> rfl
      · rw [IsMark, not_or] at mark
        exact Or.inl (by simp [mark])
    · exact Or.inl (by rw [if_pos (by simpa using phase)])

theorem checkTracePoint_begin {mark : UInt8} (isMark : IsMark mark) (rest : Bytes) :
    checkTracePoint (0x42 :: mark :: rest) = some .parseSuccess := by
  rcases isMark with rfl | rfl <;> rfl

theorem checkTracePoint_letter (letter : UInt8) :
    checkTracePoint [letter] = some (if letter = 0x45 then .parseSuccess else .parseError) := by
  by_cases ends : letter = 0x45
  · subst ends
    rfl
  · have notPrefix : (ascii "trace_event_clock_sync").isPrefixOf [letter] = false := by
      rw [Bool.eq_false_iff]
      intro prefixed
      have size : (ascii "trace_event_clock_sync").length = 22 := by decide
      have fits := ( isPrefixOf_iff_prefix.1 prefixed).length_le
      rw [size, length_singleton] at fits
      omega
    simp [checkTracePoint, notPrefix, ends]

/--
A marker is taken apart inside its bounds exactly when it is not a begin marker
that ends right behind its process id; and the letter `E` alone only when an
empty string may stand behind the end.
-/
theorem getTracePoint_isSome_iff (permits : Permits inside)
    (distributeMatcher : DistributeMatcher) (pointStr : Bytes) :
    (getTracePoint inside distributeMatcher pointStr).isSome ↔ ¬ EndsBehindGroupId pointStr ∧
      (pointStr = [0x45] → inside maxPointLength 0 1 = true) := by
  have short {text : Bytes} (few : text.length < 2) : ¬ EndsBehindGroupId text := by
    rintro ⟨mark, digits, -, -, rfl | rfl⟩ <;> simp at few
  rcases pointStr with _ | ⟨letter, _ | ⟨second, rest⟩⟩
  · have refused : checkTracePoint [] = some .parseError := rfl
    simp [getTracePoint, refused, short]
  · by_cases ends : letter = 0x45
    · subst ends
      have group := getThreadGroupId_letter inside 0x45
      have accepted := checkTracePoint_letter 0x45
      rw [if_pos rfl] at accepted
      by_cases allowed : inside maxPointLength 0 1 = true
      · rw [if_pos allowed] at group
        simp [getTracePoint, accepted, group, short, allowed]
      · rw [if_neg allowed] at group
        simp [getTracePoint, accepted, group, allowed]
    · have refused := checkTracePoint_letter letter
      rw [if_neg ends] at refused
      simp [getTracePoint, refused, short, ends]
  · have long : maxPointLength ≤ (letter :: second :: rest).length := by
      simp [maxPointLength]
    have other : letter :: second :: rest ≠ [0x45] := by simp
    rw [and_iff_left fun same => absurd same other]
    rcases checkTracePoint_long letter second rest with
      refused | ⟨accepted, phase, isMark⟩
    · have notBegin : ¬ EndsBehindGroupId (letter :: second :: rest) := by
        rintro ⟨mark, digits, isMark, -, same | same⟩
        · rw [same, checkTracePoint_begin isMark] at refused
          cases refused
        · rw [same, checkTracePoint_begin isMark] at refused
          cases refused
      simp [getTracePoint, refused, notBegin]
    · rcases getThreadGroupId_isSome permits long with ⟨tgid, group⟩
      by_cases begins : letter = 0x42
      · subst begins
        rw [← noRoom_iff isMark rest, not_not, ← handlerB_isSome_iff permits distributeMatcher _
          { phase := 0x42, tgid := tgid }]
        simp [getTracePoint, accepted, group]
      · have notBegin : ¬ EndsBehindGroupId (letter :: second :: rest) := by
          rintro ⟨mark, digits, -, -, same | same⟩
          · exact begins (List.cons.inj same).1
          · exact begins (List.cons.inj same).1
        simp only [notBegin, not_false_eq_true, iff_true]
        by_cases ends : letter = 0x45
        · subst ends
          simp [getTracePoint, accepted, group]
        · have handled := handlerCSF_isSome permits
            (letter :: second :: rest) { phase := letter, tgid := tgid }
            (groupDigits (letter :: second :: rest)).length
          simpa [getTracePoint, accepted, group, begins, ends] using handled

/--
Every character is read inside the marker exactly when it is not a begin marker
that ends behind its process id.  For every string to lie inside it as well, it
must not be a single `E` either, of which an empty string is taken behind the
end.
-/
theorem marker_inBounds_iff (distributeMatcher : DistributeMatcher) (pointStr : Bytes) :
    ((getTracePoint charactersInside distributeMatcher pointStr).isSome ↔
      ¬ EndsBehindGroupId pointStr) ∧
      ((getTracePoint spanInside distributeMatcher pointStr).isSome ↔
        ¬ EndsBehindGroupId pointStr ∧ pointStr ≠ [0x45]) := by
  have empty : charactersInside maxPointLength 0 1 = true := rfl
  have behind : spanInside maxPointLength 0 1 = false := rfl
  constructor
  · rw [getTracePoint_isSome_iff permits_charactersInside]
    simp [empty]
  · rw [getTracePoint_isSome_iff permits_spanInside]
    simp [behind]

/-- The length of the name of `B|1298` is negative. -/
theorem getTracePoint_noName :
    ¬ (getTracePoint charactersInside (fun _ => none) (ascii "B|1298")).isSome := by
  decide

end SysAnalyzer.Parser.PrintEventParser
