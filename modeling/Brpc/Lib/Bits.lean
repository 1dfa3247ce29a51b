/-
# Bits of numbers and bytes, highest first

`bitsOf w x` are the `w` low bits of `x`, the highest first.  Numbers written behind one another in
binary are lists appended (`bitsOf_append`), which is how a writer that packs codes into bytes and a
reader that takes them out again are compared.
-/

import Mathlib.Data.List.Basic
import Mathlib.Data.Nat.Bitwise

namespace Lib

open List

/-- The `w` low bits of `x`, the highest first. -/
def bitsOf : ℕ → ℕ → List Bool
  | 0, _ => []
  | w + 1, x => x.testBit w :: bitsOf w x

@[simp] theorem length_bitsOf (w x : ℕ) : (bitsOf w x).length = w := by
  induction w with
  | zero => rfl
  | succ w ih => rw [bitsOf, length_cons, ih]

theorem bitsOf_congr {w x y : ℕ} (h : ∀ i < w, x.testBit i = y.testBit i) : bitsOf w x = bitsOf w y := by
  induction w with
  | zero => rfl
  | succ w ih => rw [bitsOf, bitsOf, h w (by omega), ih fun i hi => h i (by omega)]

theorem bitsOf_mod (w x : ℕ) : bitsOf w (x % 2 ^ w) = bitsOf w x :=
  bitsOf_congr fun i hi => by rw [Nat.testBit_mod_two_pow]; simp [hi]

/-- The bits of a number, in two parts. -/
theorem bitsOf_add (a b x : ℕ) : bitsOf (a + b) x = bitsOf a (x / 2 ^ b) ++ bitsOf b x := by
  induction a with
  | zero => rw [Nat.zero_add, bitsOf, nil_append]
  | succ a ih =>
    rw [show a + 1 + b = (a + b) + 1 by omega, bitsOf, ih, bitsOf, Nat.testBit_div_two_pow,
      cons_append, Nat.add_comm a b]

/-- **Two numbers written behind one another.** -/
theorem bitsOf_append {a b v c : ℕ} (hc : c < 2 ^ b) : bitsOf (a + b) (v * 2 ^ b + c) = bitsOf a v ++ bitsOf b c := by
  have hpos : 0 < 2 ^ b := Nat.two_pow_pos b
  rw [bitsOf_add, Nat.mul_comm, Nat.mul_add_div hpos, Nat.div_eq_of_lt hc, Nat.add_zero,
    ← bitsOf_mod b (2 ^ b * v + c), Nat.mul_add_mod, Nat.mod_eq_of_lt hc]

theorem bitsOf_ones (w : ℕ) : bitsOf w (2 ^ w - 1) = List.replicate w true := by
  have h : ∀ k, k ≤ w → bitsOf k (2 ^ w - 1) = List.replicate k true := by
    intro k
    induction k with
    | zero => exact fun _ => rfl
    | succ k ih =>
      intro hk
      rw [bitsOf, ih (by omega), Nat.testBit_two_pow_sub_one, decide_eq_true (by omega), replicate_succ]
  exact h w le_rfl

/-- The bits of a string of bytes. -/
def byteBits (bs : List UInt8) : List Bool := bs.flatMap fun b => bitsOf 8 b.toNat

theorem length_byteBits (bs : List UInt8) : (byteBits bs).length = 8 * bs.length := by
  induction bs with
  | nil => rfl
  | cons b bs =>
    rw [byteBits, flatMap_cons, length_append, length_bitsOf, length_cons]
    show 8 + (byteBits bs).length = _
    omega

end Lib
