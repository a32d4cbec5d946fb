import Mathlib.Tactic

/-!
# Decoding UTF-8 into UTF-16 strings

The UTF-8 decoder of the Encoding Standard, as `TextDecoder` runs it: one byte
at a time, with the number of continuation bytes still owed and the bounds the
next one has to keep.  Malformed input is never refused, each fault is replaced
by U+FFFD.  The decoded code points are stored as UTF-16 code units.

On the UTF-8 bytes of a text the decoder gives back the text.
-/

namespace SysAnalyzer.Foundation

open List

abbrev UnitString := List UInt16

def utf16Point (point : Nat) : UnitString :=
  if point < 0x10000 then [UInt16.ofNat point]
  else
    [UInt16.ofNat (0xD800 + (point - 0x10000) / 0x400),
      UInt16.ofNat (0xDC00 + (point - 0x10000) % 0x400)]

def utf16 (text : List Char) : UnitString :=
  text.flatMap fun character => utf16Point character.toNat

def utf8 (text : List Char) : List UInt8 := text.flatMap String.utf8EncodeChar

@[simp]
theorem utf16_nil : utf16 [] = [] := rfl

@[simp]
theorem utf16_cons (character : Char) (text : List Char) :
    utf16 (character :: text) = utf16Point character.toNat ++ utf16 text := by
  simp [utf16]

@[simp]
theorem utf16_append (first second : List Char) :
    utf16 (first ++ second) = utf16 first ++ utf16 second := by
  simp [utf16]

@[simp]
theorem utf8_nil : utf8 [] = [] := rfl

theorem utf16_ascii {text : List Char} (ascii : ∀ character ∈ text, character.toNat < 0x80) :
    utf16 text = text.map fun character => UInt16.ofNat character.toNat := by
  induction text with
  | nil => rfl
  | cons character rest induction =>
    have small := ascii character (by simp)
    have later := induction fun character member => ascii character (by simp [member])
    rw [utf16_cons, later, utf16Point, if_pos (by omega)]
    rfl

@[simp]
theorem utf8_cons (character : Char) (text : List Char) :
    utf8 (character :: text) = String.utf8EncodeChar character ++ utf8 text := by
  simp [utf8]

@[simp]
theorem utf8_append (first second : List Char) :
    utf8 (first ++ second) = utf8 first ++ utf8 second := by
  simp [utf8]

namespace TextDecoder

/-- The decoder between two bytes. -/
structure State where
  needed : Nat
  codePoint : Nat
  lower : Nat
  upper : Nat

/-- The decoder between two code points. -/
def start : State := ⟨0, 0, 0x80, 0xBF⟩

/-- A byte read between two code points. -/
def leadByte (byte : Nat) : List Nat × State :=
  if byte ≤ 0x7F then ([byte], start)
  else if 0xC2 ≤ byte ∧ byte ≤ 0xDF then ([], ⟨1, byte % 0x20, 0x80, 0xBF⟩)
  else if 0xE0 ≤ byte ∧ byte ≤ 0xEF then
    ([], ⟨2, byte % 0x10, if byte = 0xE0 then 0xA0 else 0x80, if byte = 0xED then 0x9F else 0xBF⟩)
  else if 0xF0 ≤ byte ∧ byte ≤ 0xF4 then
    ([], ⟨3, byte % 0x08, if byte = 0xF0 then 0x90 else 0x80, if byte = 0xF4 then 0x8F else 0xBF⟩)
  else ([0xFFFD], start)

def nextByte (state : State) (byte : Nat) : List Nat × State :=
  if state.needed = 0 then leadByte byte
  else if byte < state.lower ∨ state.upper < byte then
    -- the sequence is broken off, and the byte is read again as a first one
    (0xFFFD :: (leadByte byte).1, (leadByte byte).2)
  else if state.needed = 1 then ([state.codePoint * 0x40 + byte % 0x40], start)
  else ([], ⟨state.needed - 1, state.codePoint * 0x40 + byte % 0x40, 0x80, 0xBF⟩)

def points : State → List UInt8 → List Nat
  | state, [] => if state.needed = 0 then [] else [0xFFFD]
  | state, byte :: rest =>
    (nextByte state byte.toNat).1 ++ points (nextByte state byte.toNat).2 rest

/-- `TextDecoder.decode`; a byte order mark at the start is dropped. -/
def decode (bytes : List UInt8) : UnitString :=
  match points start bytes with
  | 0xFEFF :: rest => rest.flatMap utf16Point
  | all => all.flatMap utf16Point

theorem points_cons (state : State) (byte : UInt8) (rest : List UInt8) :
    points state (byte :: rest) = (nextByte state byte.toNat).1 ++
      points (nextByte state byte.toNat).2 rest :=
  rfl

theorem points_continuation (needed : Nat) {codePoint lower upper payload : Nat} (rest : List UInt8)
    (small : payload < 0x40) (above : lower ≤ payload + 0x80) (below : payload + 0x80 ≤ upper) :
    points ⟨needed + 2, codePoint, lower, upper⟩ (UInt8.ofNat (payload + 0x80) :: rest) =
      points ⟨needed + 1, codePoint * 0x40 + payload, 0x80, 0xBF⟩ rest := by
  have value : (UInt8.ofNat (payload + 0x80)).toNat = payload + 0x80 := by
    simp only [UInt8.toNat_ofNat']
    omega
  have low : (payload + 0x80) % 0x40 = payload := by omega
  have inside : ¬ (payload + 0x80 < lower ∨ upper < payload + 0x80) := by omega
  rw [points_cons, value]
  simp [nextByte, inside, low]

theorem points_lastContinuation {codePoint lower upper payload : Nat} (rest : List UInt8)
    (small : payload < 0x40) (above : lower ≤ payload + 0x80) (below : payload + 0x80 ≤ upper) :
    points ⟨1, codePoint, lower, upper⟩ (UInt8.ofNat (payload + 0x80) :: rest) =
      (codePoint * 0x40 + payload) :: points start rest := by
  have value : (UInt8.ofNat (payload + 0x80)).toNat = payload + 0x80 := by
    simp only [UInt8.toNat_ofNat']
    omega
  have low : (payload + 0x80) % 0x40 = payload := by omega
  have inside : ¬ (payload + 0x80 < lower ∨ upper < payload + 0x80) := by omega
  rw [points_cons, value]
  simp [nextByte, inside, low]

theorem points_lead {lead : Nat} (small : lead < 0x100) (rest : List UInt8) :
    points start (UInt8.ofNat lead :: rest) =
      (leadByte lead).1 ++ points (leadByte lead).2 rest := by
  have value : (UInt8.ofNat lead).toNat = lead := by
    simp only [UInt8.toNat_ofNat']
    omega
  rw [points_cons, value]
  simp [nextByte, start]

theorem char_valid (character : Char) :
    character.toNat < 0xD800 ∨ 0xDFFF < character.toNat ∧ character.toNat < 0x110000 :=
  character.valid

theorem points_utf8EncodeChar (character : Char) (rest : List UInt8) :
    points start (String.utf8EncodeChar character ++ rest) =
      character.toNat :: points start rest := by
  have valid := char_valid character
  have value : character.val.toNat = character.toNat := rfl
  generalize character.toNat = point at valid value
  unfold String.utf8EncodeChar
  simp only [value]
  -- the four lengths of a sequence; a surrogate has no sequence of length three
  split_ifs with one two three
  · rw [singleton_append, points_lead (by omega)]
    simp [leadByte, one]
  · have lead : leadByte (point / 64 % 0x20 + 0xC0) = ([], ⟨1, point / 64, 0x80, 0xBF⟩) := by
      unfold leadByte
      rw [if_neg (by omega), if_pos (by omega)]
      congr 2
      omega
    rw [cons_append, singleton_append, points_lead (by omega), lead, nil_append,
      points_lastContinuation rest (by omega) (by omega) (by omega)]
    congr 1
    omega
  · have lead : leadByte (point / 4096 % 0x10 + 0xE0) = ([], ⟨2, point / 4096,
      if point / 4096 = 0 then 0xA0 else 0x80,
      if point / 4096 = 0xD then 0x9F else 0xBF⟩) := by
      have whole : point / 4096 % 0x10 = point / 4096 := by omega
      unfold leadByte
      rw [if_neg (by omega), if_neg (by omega), if_pos (by omega), whole]
      have low : (point / 4096 + 0xE0) % 0x10 = point / 4096 := by omega
      have isE0 : point / 4096 + 0xE0 = 0xE0 ↔ point / 4096 = 0 := by omega
      have isED : point / 4096 + 0xE0 = 0xED ↔ point / 4096 = 0xD := by omega
      simp only [low, isE0, isED]
    rw [cons_append, cons_append, singleton_append, points_lead (by omega), lead, nil_append,
      points_continuation 0 _ (by omega) (by split <;> omega) (by split <;> omega),
      points_lastContinuation rest (by omega) (by omega) (by omega)]
    congr 1
    omega
  · have lead : leadByte (point / 262144 % 0x08 + 0xF0) =
      ([], ⟨3, point / 262144, if point / 262144 = 0 then 0x90 else 0x80,
        if point / 262144 = 4 then 0x8F else 0xBF⟩) := by
      have whole : point / 262144 % 0x08 = point / 262144 := by omega
      unfold leadByte
      rw [if_neg (by omega), if_neg (by omega), if_neg (by omega), if_pos (by omega), whole]
      have low : (point / 262144 + 0xF0) % 0x08 = point / 262144 := by omega
      have isF0 : point / 262144 + 0xF0 = 0xF0 ↔ point / 262144 = 0 := by omega
      have isF4 : point / 262144 + 0xF0 = 0xF4 ↔ point / 262144 = 4 := by omega
      simp only [low, isF0, isF4]
    rw [cons_append, cons_append, cons_append,
      singleton_append, points_lead (by omega), lead, nil_append,
      points_continuation 1 _ (by omega) (by split <;> omega) (by split <;> omega),
      points_continuation 0 _ (by omega) (by omega) (by omega),
      points_lastContinuation rest (by omega) (by omega) (by omega)]
    congr 1
    omega

theorem points_utf8 (text : List Char) : points start (utf8 text) = text.map Char.toNat := by
  induction text with
  | nil => rfl
  | cons character rest induction => rw [utf8_cons, points_utf8EncodeChar, induction, map_cons]

theorem decode_utf8 {text : List Char} (noMark : text.head?.map Char.toNat ≠ some 0xFEFF) :
    decode (utf8 text) = utf16 text := by
  have flat : (text.map Char.toNat).flatMap utf16Point = utf16 text := by simp [utf16, flatMap_map]
  unfold decode
  rw [points_utf8]
  split
  · next rest equation =>
      refine absurd ?_ noMark
      rw [← List.head?_map, equation, List.head?_cons]
  · exact flat

/-- A sequence that has begun goes on with bytes beyond ASCII only. -/
def State.Sound (state : State) : Prop := state.needed = 0 ∨ 0x80 ≤ state.lower

theorem sound_nextByte (state : State) (byte : Nat) : (nextByte state byte).2.Sound := by
  have lead : (leadByte byte).2.Sound := by
    unfold leadByte State.Sound
    split_ifs <;> simp [start]
  unfold nextByte
  split_ifs
  · exact lead
  · exact lead
  · exact Or.inl rfl
  · exact Or.inr (le_refl 0x80)

theorem nextByte_ascii {state : State} (sound : state.Sound) {byte : Nat} (ascii : byte < 0x80) :
    ∃ front, nextByte state byte = (front ++ [byte], start) := by
  have lead : leadByte byte = ([byte], start) := if_pos (by omega)
  unfold nextByte
  split_ifs with done broken
  · exact ⟨[], lead⟩
  · exact ⟨[0xFFFD], by rw [lead]; rfl⟩
  · have lower := sound.resolve_left done
    omega
  · have lower := sound.resolve_left done
    omega

theorem points_ascii {bytes : List UInt8} (ascii : ∀ byte ∈ bytes, byte.toNat < 0x80) :
    points start bytes = bytes.map UInt8.toNat := by
  induction bytes with
  | nil => rfl
  | cons byte rest induction =>
    have first : nextByte start byte.toNat = ([byte.toNat], start) := by
      have small := ascii byte (by simp)
      have lead : leadByte byte.toNat = ([byte.toNat], start) := if_pos (by omega)
      exact lead
    rw [points_cons, first, induction fun byte member => ascii byte (by simp [member])]
    rfl

theorem points_append_ascii {state : State} (sound : state.Sound) (bytes : List UInt8)
    {suffix : List UInt8} (some_ : suffix ≠ []) (ascii : ∀ byte ∈ suffix, byte.toNat < 0x80) :
    ∃ front, points state (bytes ++ suffix) = front ++ suffix.map UInt8.toNat := by
  induction bytes generalizing state with
  | nil =>
    rcases exists_cons_of_ne_nil some_ with ⟨byte, rest, rfl⟩
    rcases nextByte_ascii sound (ascii byte (by simp)) with ⟨front, next⟩
    refine ⟨front, ?_⟩
    rw [nil_append, points_cons, next,
      points_ascii fun byte member => ascii byte (by simp [member])]
    simp
  | cons byte rest induction =>
    rcases induction (sound_nextByte state byte.toNat) with ⟨front, later⟩
    rw [cons_append, points_cons, later]
    exact ⟨_, (append_assoc _ _ _).symm⟩

theorem decode_append_ascii (bytes : List UInt8) {suffix : List UInt8} (some_ : suffix ≠ [])
    (ascii : ∀ byte ∈ suffix, byte.toNat < 0x80) : ∃ front, decode (bytes ++ suffix) =
      front ++ suffix.map fun byte => UInt16.ofNat byte.toNat := by
  have single : (suffix.map UInt8.toNat).flatMap utf16Point =
    suffix.map fun byte => UInt16.ofNat byte.toNat := by
    rw [flatMap_map, map_eq_flatMap]
    refine flatMap_congr fun byte member => ?_
    have small := ascii byte member
    exact if_pos (by omega)
  have sound : start.Sound := Or.inl rfl
  rcases points_append_ascii sound bytes some_ ascii with ⟨front, all⟩
  unfold decode
  rw [all]
  split
  · rename_i later marked
    cases front with
    | nil =>
      rcases exists_cons_of_ne_nil some_ with ⟨byte, rest, rfl⟩
      have small := ascii byte (by simp)
      simp only [nil_append, map_cons, List.cons.injEq] at marked
      omega
    | cons first front =>
      have rest : later = front ++ suffix.map UInt8.toNat := by
        simpa using (List.cons.inj marked).2.symm
      refine ⟨front.flatMap utf16Point, ?_⟩
      rw [rest, flatMap_append, single]
  · refine ⟨front.flatMap utf16Point, ?_⟩
    rw [flatMap_append, single]

end TextDecoder

theorem utf8EncodeChar_ascii {character : Char} (ascii : character.toNat < 0x80) :
    String.utf8EncodeChar character = [UInt8.ofNat character.toNat] := by
  have value : character.val.toNat = character.toNat := rfl
  unfold String.utf8EncodeChar
  simp only [value]
  rw [if_pos (by omega)]

theorem le_of_mem_utf8EncodeChar {character : Char} (wide : 0x80 ≤ character.toNat) {byte : UInt8}
    (member : byte ∈ String.utf8EncodeChar character) : 0x80 ≤ byte.toNat := by
  have value : character.val.toNat = character.toNat := rfl
  unfold String.utf8EncodeChar at member
  simp only [value] at member
  split_ifs at member with one two three
  · omega
  all_goals
    simp only [mem_cons, not_mem_nil, or_false] at member
    rcases member with rfl | rfl | rfl | rfl <;> simp only [UInt8.toNat_ofNat'] <;> omega

theorem mem_utf16_iff {text : List Char} {unit : UInt16} (basic : unit.toNat < 0xD800) :
    unit ∈ utf16 text ↔ ∃ character ∈ text, character.toNat = unit.toNat := by
  have single (character : Char) :
    unit ∈ utf16Point character.toNat ↔ character.toNat = unit.toNat := by
    have valid := TextDecoder.char_valid character
    have bound := unit.toNat_lt
    unfold utf16Point
    split_ifs with small
    · simp only [mem_singleton, ← UInt16.toNat_inj, UInt16.toNat_ofNat']
      omega
    · simp only [mem_cons, not_mem_nil, or_false, ← UInt16.toNat_inj, UInt16.toNat_ofNat']
      omega
  simp [utf16, single]

end SysAnalyzer.Foundation
