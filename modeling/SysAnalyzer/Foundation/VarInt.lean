import Mathlib.Data.Nat.Bitwise

/-!
# Base-128 integers

A variable-length integer is written seven bits a byte, lowest first, and every
byte but the last has its high bit set.  At most ten bytes are allowed, and what
exceeds 64 bits is dropped.
-/

namespace SysAnalyzer.Foundation

open List

/-- Every byte has its high bit set but the last one. -/
def Terminated : List UInt8 → Prop
  | [] => False
  | [last] => last.toNat < 128
  | more :: next :: rest => 128 ≤ more.toNat ∧ Terminated (next :: rest)

/-- The number that seven bits a byte spell, lowest first. -/
def base128 : List UInt8 → Nat
  | [] => 0
  | byte :: rest => byte.toNat % 128 + 128 * base128 rest

/-- The bytes of a variable-length integer. -/
structure VarInt where
  bytes : List UInt8
  terminated : Terminated bytes
  short : bytes.length ≤ 10

/-- The value of a variable-length integer, in 64 bits. -/
def VarInt.value (varInt : VarInt) : UInt64 := UInt64.ofNat (base128 varInt.bytes)

theorem Terminated.ne_nil {bytes : List UInt8} (terminated : Terminated bytes) : bytes ≠ [] := by
  rintro rfl
  exact terminated

theorem and_high_bit_eq_zero_iff (byte : UInt8) : byte &&& 0x80 = 0 ↔ byte.toNat < 128 := by
  rw [← UInt8.toNat_inj, UInt8.toNat_and]
  show byte.toNat &&& 2 ^ 7 = 0 ↔ byte.toNat < 2 ^ 7
  have bound : byte.toNat < 2 ^ 8 := byte.toNat_lt
  rw [Nat.and_two_pow, Nat.toNat_testBit]
  omega

theorem toNat_and_low_bits (byte : UInt8) : (byte &&& 0x7f).toNat = byte.toNat % 128 := by
  rw [UInt8.toNat_and]
  exact Nat.and_two_pow_sub_one_eq_mod byte.toNat 7

def shortestBytes (number : Nat) : List UInt8 :=
  if number < 128 then [UInt8.ofNat number]
  else UInt8.ofNat (number % 128 + 128) :: shortestBytes (number / 128)
termination_by number

theorem shortestBytes_small {number : Nat} (small : number < 128) :
    shortestBytes number = [UInt8.ofNat number] := by
  rw [shortestBytes, if_pos small]

theorem shortestBytes_large {number : Nat} (large : ¬ number < 128) :
    shortestBytes number = UInt8.ofNat (number % 128 + 128) :: shortestBytes (number / 128) := by
  rw [shortestBytes, if_neg large]

theorem terminated_cons {more : UInt8} {rest : List UInt8} (high : 128 ≤ more.toNat)
    (terminated : Terminated rest) : Terminated (more :: rest) := by
  cases rest with
  | nil => cases terminated
  | cons next rest => exact ⟨high, terminated⟩

variable (number : Nat)

theorem terminated_shortestBytes : Terminated (shortestBytes number) := by
  fun_induction shortestBytes number with
  | case1 number small =>
    show (UInt8.ofNat number).toNat < 128
    rw [UInt8.toNat_ofNat']
    omega
  | case2 number large induction =>
    apply terminated_cons _ induction
    rw [UInt8.toNat_ofNat']
    omega

theorem base128_shortestBytes : base128 (shortestBytes number) = number := by
  fun_induction shortestBytes number with
  | case1 number small =>
    simp only [base128, UInt8.toNat_ofNat']
    omega
  | case2 number large induction =>
    simp only [base128, UInt8.toNat_ofNat', induction]
    omega

theorem length_shortestBytes_le (count : Nat) (small : number < 128 ^ (count + 1)) :
    (shortestBytes number).length ≤ count + 1 := by
  induction count generalizing number with
  | zero =>
    rw [shortestBytes_small (by simpa using small)]
    simp
  | succ count induction =>
    by_cases large : number < 128
    · rw [shortestBytes_small large]
      simp
    · rw [shortestBytes_large large, length_cons]
      have quotientSmall : number / 128 < 128 ^ (count + 1) := by
        rw [Nat.div_lt_iff_lt_mul (by decide)]
        rwa [← Nat.pow_succ]
      exact Nat.succ_le_succ (induction (number / 128) quotientSmall)

/-- The shortest form of a number of 64 bits. -/
def VarInt.ofNat (number : Nat) (small : number < 2 ^ 64) : VarInt where
  bytes := shortestBytes number
  terminated := terminated_shortestBytes number
  short := length_shortestBytes_le number 9 (Nat.lt_of_lt_of_le small (by decide))

theorem VarInt.value_ofNat (small : number < 2 ^ 64) :
    (VarInt.ofNat number small).value = UInt64.ofNat number := by
  rw [VarInt.value, VarInt.ofNat, base128_shortestBytes]

theorem VarInt.toNat_value_ofNat (small : number < 2 ^ 64) :
    (VarInt.ofNat number small).value.toNat = number := by
  rw [VarInt.value_ofNat, UInt64.toNat_ofNat']
  exact Nat.mod_eq_of_lt small

/-- The number that bytes spell, lowest first. -/
def littleEndian : List UInt8 → Nat
  | [] => 0
  | byte :: rest => byte.toNat + 256 * littleEndian rest

theorem littleEndian_lt (bytes : List UInt8) : littleEndian bytes < 256 ^ bytes.length := by
  induction bytes with
  | nil => exact Nat.one_pos
  | cons byte rest induction =>
    have small := byte.toNat_lt
    rw [littleEndian, length_cons, Nat.pow_succ]
    omega

end SysAnalyzer.Foundation
