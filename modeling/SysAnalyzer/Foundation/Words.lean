import SysAnalyzer.Foundation.VarInt

/-!
# Words in memory

Little-endian words of eight bytes, read and written at a place of some bytes.
-/

namespace SysAnalyzer.Foundation

open List

/-- Words of eight bytes in the order of their numbers. -/
instance linearOrderUInt64 : LinearOrder UInt64 where
  le_refl := UInt64.le_refl
  le_trans _ _ _ := UInt64.le_trans
  le_antisymm _ _ := UInt64.le_antisymm
  le_total := UInt64.le_total
  lt_iff_le_not_ge first second := by
    rw [UInt64.not_le]
    exact ⟨fun less => ⟨UInt64.le_of_lt less, less⟩, fun both => both.2⟩
  toDecidableLE := inferInstance
  toDecidableEq := inferInstance
  toDecidableLT := inferInstance

/-- The lowest `count` bytes of a number, lowest first. -/
def littleEndianBytes : (count : Nat) → (number : Nat) → List UInt8
  | 0, _ => []
  | count + 1, number => UInt8.ofNat number :: littleEndianBytes count (number / 256)

@[simp]
theorem length_littleEndianBytes (count number : Nat) :
    (littleEndianBytes count number).length = count := by
  induction count generalizing number with
  | zero => rfl
  | succ count induction => rw [littleEndianBytes, length_cons, induction]

theorem littleEndian_littleEndianBytes {count number : Nat} (small : number < 256 ^ count) :
    littleEndian (littleEndianBytes count number) = number := by
  induction count generalizing number with
  | zero =>
    rw [pow_zero, Nat.lt_one_iff] at small
    rw [small]
    rfl
  | succ count induction =>
    have smaller : number / 256 < 256 ^ count := by
      rw [pow_succ] at small
      omega
    rw [littleEndianBytes, littleEndian, induction smaller, UInt8.toNat_ofNat']
    omega

def word (bytes : List UInt8) (place : Nat) : Nat := littleEndian ((bytes.drop place).take 8)

def setWord (bytes : List UInt8) (place value : Nat) : List UInt8 :=
  bytes.take place ++ littleEndianBytes 8 value ++ bytes.drop (place + 8)

theorem word_lt (bytes : List UInt8) (place : Nat) : word bytes place < 2 ^ 64 := by
  refine lt_of_lt_of_le (littleEndian_lt _) ?_
  calc
    256 ^ ((bytes.drop place).take 8).length ≤ 256 ^ 8 :=
      Nat.pow_le_pow_right (by decide) (by
        rw [length_take]
        exact min_le_left _ _)
    _ = 2 ^ 64 := by decide

def subWord (value size : Nat) : Nat := (value + (2 ^ 64 - size)) % 2 ^ 64

theorem subWord_of_le {value size : Nat} (small : value < 2 ^ 64) (inside : size ≤ value) :
    subWord value size = value - size := by
  rw [subWord]
  omega

section SetWord

variable {bytes : List UInt8} {place value : Nat}

section

variable (inside : place + 8 ≤ bytes.length)
include inside

theorem length_setWord : (setWord bytes place value).length = bytes.length := by
  simp only [setWord, length_append, length_take, length_drop, length_littleEndianBytes]
  omega

theorem take_setWord {count : Nat} (front : count ≤ place) :
    (setWord bytes place value).take count = bytes.take count := by
  have length : (bytes.take place).length = place := length_take_of_le (by omega)
  rw [setWord, append_assoc, take_append_of_le_length (by omega), take_take, min_eq_left front]

theorem drop_setWord {count : Nat} (behind : place + 8 ≤ count) :
    (setWord bytes place value).drop count = bytes.drop count := by
  have length : (bytes.take place ++ littleEndianBytes 8 value).length = place + 8 := by
    rw [length_append, length_take_of_le (by omega), length_littleEndianBytes]
  rw [setWord, drop_append, drop_eq_nil_of_le (by omega), length,
    drop_drop, nil_append, Nat.add_sub_cancel' behind]

theorem word_setWord (small : value < 2 ^ 64) : word (setWord bytes place value) place = value := by
  have length : (bytes.take place).length = place := length_take_of_le (by omega)
  have dropped : (setWord bytes place value).drop place =
    littleEndianBytes 8 value ++ bytes.drop (place + 8) := by
    rw [setWord, append_assoc]
    exact drop_left' length
  rw [word, dropped, take_left' (length_littleEndianBytes 8 value)]
  exact littleEndian_littleEndianBytes small

theorem word_setWord_front {other : Nat} (front : other + 8 ≤ place) :
    word (setWord bytes place value) other = word bytes other := by
  rw [word, word, take_drop, take_drop, take_setWord inside front]

theorem word_setWord_behind {other : Nat} (behind : place + 8 ≤ other) :
    word (setWord bytes place value) other = word bytes other := by
  rw [word, word, drop_setWord inside behind]

end

end SetWord

theorem word_take {bytes : List UInt8} {place count : Nat} (inside : place + 8 ≤ count) :
    word (bytes.take count) place = word bytes place := by
  rw [word, word, take_drop, take_drop, take_take, min_eq_left inside]

theorem word_drop (bytes : List UInt8) (start place : Nat) :
    word (bytes.drop start) place = word bytes (start + place) := by
  rw [word, word, drop_drop]

theorem word_append_left {bytes rest : List UInt8} {place : Nat}
    (inside : place + 8 ≤ bytes.length) : word (bytes ++ rest) place = word bytes place := by
  rw [word, word, drop_append_of_le_length (by omega), take_append_of_le_length]
  rw [length_drop]
  omega

theorem word_append_right {bytes rest : List UInt8} {start place : Nat}
    (length : bytes.length = start) : word (bytes ++ rest) (start + place) = word rest place := by
  rw [word, word, ← drop_drop, ← length, drop_left]

end SysAnalyzer.Foundation
