/-
# A counter with a flag in its top bit

A 32-bit word whose lower 31 bits count and whose top bit is a flag.  As long as the count stays
below `2^31` the two do not interfere.
-/

import Mathlib.Data.Nat.Bitwise

namespace Lib.FlagCounter

/-- The word that counts `n` with flag `b`. -/
def word (n : ℕ) (b : Bool) : UInt32 := UInt32.ofNat (n + if b then 2 ^ 31 else 0)

variable {n : ℕ}

theorem toNat_word (h : n < 2 ^ 31) (b : Bool) : (word n b).toNat = n + if b then 2 ^ 31 else 0 := by
  unfold word
  refine Nat.mod_eq_of_lt ?_
  cases b <;> simp <;> omega

/-- Counting. -/
theorem word_add_one (h : n + 1 < 2 ^ 31) (b : Bool) : word n b + 1 = word (n + 1) b := by
  apply UInt32.toNat.inj
  rw [UInt32.toNat_add, toNat_word (by omega), toNat_word h]
  have : (1 : UInt32).toNat = 1 := rfl
  rw [this, Nat.mod_eq_of_lt (by cases b <;> simp <;> omega)]
  omega

/-- Reading the count. -/
theorem word_and_low (h : n < 2 ^ 31) (b : Bool) : word n b &&& 0x7fffffff = UInt32.ofNat n := by
  apply UInt32.toNat.inj
  rw [UInt32.toNat_and, toNat_word h, UInt32.toNat_ofNat', Nat.mod_eq_of_lt (by omega)]
  have : (0x7fffffff : UInt32).toNat = 2 ^ 31 - 1 := rfl
  rw [this, Nat.and_two_pow_sub_one_eq_mod]
  cases b <;> simp <;> omega

/-- Reading the flag. -/
theorem word_and_high (h : n < 2 ^ 31) (b : Bool) : word n b &&& 0x80000000 = 0 ↔ b = false := by
  have hmask : (0x80000000 : UInt32).toNat = 2 ^ 31 := rfl
  rw [← UInt32.toNat_inj, UInt32.toNat_and, toNat_word h, hmask, Nat.and_two_pow]
  cases b
  · simp [Nat.testBit_lt_two_pow h]
  · have hbit : (n + 2 ^ 31).testBit 31 = true := by
      rw [Nat.add_comm, Nat.testBit_two_pow_add_eq, Nat.testBit_lt_two_pow h]
      rfl
    rw [if_pos rfl, hbit]
    simp

/-- Raising the flag. -/
theorem word_or_high (h : n < 2 ^ 31) (b : Bool) : word n b ||| 0x80000000 = word n true := by
  have hmask : (0x80000000 : UInt32).toNat = 2 ^ 31 := rfl
  have hor : 2 ^ 31 ||| n = n + 2 ^ 31 := by
    have := Nat.two_pow_add_eq_or_of_lt h 1
    rw [Nat.mul_one] at this
    omega
  apply UInt32.toNat.inj
  rw [UInt32.toNat_or, toNat_word h, toNat_word h, hmask, Nat.or_comm]
  cases b
  · rw [if_neg (by simp), if_pos rfl, Nat.add_zero, hor]
  · rw [if_pos rfl, ← hor, ← Nat.or_assoc, Nat.or_self]

theorem ofNat_inj {m : ℕ} (hm : m < 2 ^ 31) (hn : n < 2 ^ 31) : UInt32.ofNat m = UInt32.ofNat n ↔ m = n := by
  rw [← UInt32.toNat_inj, UInt32.toNat_ofNat', UInt32.toNat_ofNat', Nat.mod_eq_of_lt (by omega),
    Nat.mod_eq_of_lt (by omega)]

end Lib.FlagCounter
