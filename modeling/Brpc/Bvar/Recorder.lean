/-
# Reducers and `IntRecorder`

`Reducer` of `bvar/reducer.h`, whose results, elements and samples are of one type, and
`IntRecorder` of `bvar/recorder.h`, whose element is one word, the number of samples above a sum of
44 bits in two's complement, committed before either part overflows.  `samples_counted_once`: no
sample is lost or counted twice.
-/

import Brpc.Bvar.Combiner
import Mathlib.Data.BitVec
import Mathlib.Data.Nat.Bitwise
import Mathlib.Tactic.FinCases

namespace Brpc.Bvar

open State

/-- A reducer over an operation with an identity, here written as addition. -/
def reducer (α : Type) [AddCommMonoid α] (atomical : Bool) : Combiner α α α where
  elementIdentity := 0
  resultIdentity := 0
  op := (· + ·)
  next e x := some (e + x)
  first := id
  atomical := atomical

theorem reducer_lawful (α : Type) [AddCommMonoid α] (atomical : Bool) : (reducer α atomical).Lawful id id where
  resultIdentity := rfl
  elementIdentity := rfl
  op _ _ := rfl
  next h := (Option.some.inj h).symm
  first _ := rfl

/-! ## `IntRecorder` -/

namespace IntRecorder

abbrev SUM_BIT_WIDTH := 44

def MAX_SUM_PER_THREAD : BitVec 64 := (1 <<< SUM_BIT_WIDTH) - 1

def MAX_NUM_PER_THREAD : BitVec 64 := (1 <<< (64 - SUM_BIT_WIDTH)) - 1

/-- `Stat`: `sum` and `num`, two `int64_t`. -/
abbrev Stat := BitVec 64 × BitVec 64

def getSum (n : BitVec 64) : BitVec 64 := n &&& MAX_SUM_PER_THREAD

def getNum (n : BitVec 64) : BitVec 64 := n >>> SUM_BIT_WIDTH

def extendSignBit (sum : BitVec 64) : BitVec 64 :=
  ((1 <<< (64 - SUM_BIT_WIDTH + 1)) - 1) * ((1 <<< (SUM_BIT_WIDTH - 1)) &&& sum) ||| sum

def getComplement (n : ℤ) : BitVec 64 := BitVec.ofInt 64 n &&& MAX_SUM_PER_THREAD

def compress (num sum : BitVec 64) : BitVec 64 :=
  (num <<< SUM_BIT_WIDTH) ||| (sum &&& MAX_SUM_PER_THREAD)

def willOverflow (lhs rhs : ℤ) : Bool :=
  (decide (lhs > 0) && decide (rhs > 0) && decide (lhs + rhs > MAX_SUM_PER_THREAD.toInt / 2))
    || (decide (lhs < 0) && decide (rhs < 0) && decide (lhs + rhs < -(MAX_SUM_PER_THREAD.toInt / 2) - 1))

/-- The sample, truncated to `int`. -/
def clamp (sample : ℤ) : ℤ := max (-2 ^ 31) (min sample (2 ^ 31 - 1))

/-- The body of the loop of `operator<<`; `none` where `commit_and_clear` is called. -/
def next (n : BitVec 64) (sample : ℤ) : Option (BitVec 64) :=
  if getNum n + 1 > MAX_NUM_PER_THREAD ∨ willOverflow (extendSignBit (getSum n)).toInt (clamp sample) then none
  else some (compress (getNum n + 1) (getSum n + getComplement (clamp sample)))

/-- What the element of one word is worth: `AddToStat`. -/
def weight (n : BitVec 64) : Stat := (extendSignBit (getSum n), getNum n)

def recorder : Combiner Stat (BitVec 64) ℤ where
  elementIdentity := 0
  resultIdentity := (0, 0)
  op s n := (s.1 + extendSignBit (getSum n), s.2 + getNum n)
  next := next
  first sample := compress (0 + 1) (0 + getComplement (clamp sample))
  atomical := true

/-- What a sample is worth. -/
def value (sample : ℤ) : Stat := (BitVec.ofInt 64 (clamp sample), 1)

/-! ## The two parts of the word -/

theorem toNat_getSum (n : BitVec 64) : (getSum n).toNat = n.toNat % 2 ^ 44 := by
  exact Nat.and_two_pow_sub_one_eq_mod _ 44

theorem toNat_getNum (n : BitVec 64) : (getNum n).toNat = n.toNat / 2 ^ 44 := by
  rw [getNum, BitVec.toNat_ushiftRight, Nat.shiftRight_eq_div_pow]

theorem toNat_compress {num : BitVec 64} (hnum : num.toNat < 2 ^ 20) (sum : BitVec 64) :
    (compress num sum).toNat = num.toNat * 2 ^ 44 + sum.toNat % 2 ^ 44 := by
  have hsum := toNat_getSum sum
  rw [getSum] at hsum
  have hlow : sum.toNat % 2 ^ 44 < 2 ^ 44 := Nat.mod_lt _ (by decide)
  have hfit : num.toNat * 2 ^ 44 < 2 ^ 64 := by omega
  rw [compress, BitVec.toNat_or, BitVec.toNat_shiftLeft, hsum, Nat.shiftLeft_eq,
    Nat.mod_eq_of_lt hfit, Nat.mul_comm, ← Nat.two_pow_add_eq_or_of_lt hlow]

theorem toNat_signBit (sum : BitVec 64) :
    ((1 <<< (SUM_BIT_WIDTH - 1)) &&& sum).toNat = 2 ^ 43 * (sum.toNat / 2 ^ 43 % 2) := by
  show 2 ^ 43 &&& sum.toNat = _
  rw [Nat.and_comm, Nat.and_two_pow, Nat.testBit_eq_decide_div_mod_eq]
  rcases Nat.mod_two_eq_zero_or_one (sum.toNat / 2 ^ 43) with h | h <;> rw [h] <;> rfl

theorem toNat_extendSignBit {sum : BitVec 64} (h : sum.toNat < 2 ^ 44) : (extendSignBit sum).toNat
      = if sum.toNat < 2 ^ 43 then sum.toNat else 2 ^ 64 - 2 ^ 44 + sum.toNat := by
  rw [extendSignBit, BitVec.toNat_or, BitVec.toNat_mul, toNat_signBit]
  show (2 ^ 21 - 1) * (2 ^ 43 * (sum.toNat / 2 ^ 43 % 2)) % 2 ^ 64 ||| sum.toNat = _
  split
  next hlt =>
    rw [Nat.div_eq_of_lt hlt]
    exact Nat.zero_or _
  next hge =>
    obtain ⟨r, hr⟩ : ∃ r, sum.toNat = 2 ^ 43 * 1 + r := ⟨sum.toNat - 2 ^ 43, by omega⟩
    have hlow : r < 2 ^ 43 := by omega
    have hbit : sum.toNat / 2 ^ 43 % 2 = 1 := by omega
    have htop : (2 ^ 21 - 1) * (2 ^ 43 * 1) % 2 ^ 64 ||| 2 ^ 43 * 1 = 2 ^ 43 * (2 ^ 21 - 1) := by
      decide
    rw [hbit, hr, Nat.two_pow_add_eq_or_of_lt hlow, ← Nat.or_assoc, htop,
      ← Nat.two_pow_add_eq_or_of_lt hlow, ← Nat.two_pow_add_eq_or_of_lt hlow]
    omega

theorem toInt_sum (n : BitVec 64) : (extendSignBit (getSum n)).toInt = Int.bmod n.toNat (2 ^ 44) := by
  have hlt : (getSum n).toNat < 2 ^ 44 := by
    rw [toNat_getSum]
    exact Nat.mod_lt _ (by decide)
  have h := toNat_extendSignBit hlt
  rw [toNat_getSum] at h
  rw [BitVec.toInt_eq_toNat_cond, Int.bmod_def]
  split at h <;> split <;> split <;> omega

theorem bmod_of_willOverflow {lhs rhs : ℤ} (hl : -2 ^ 43 ≤ lhs) (hl' : lhs < 2 ^ 43)
    (hr : -2 ^ 31 ≤ rhs) (hr' : rhs < 2 ^ 31) (h : willOverflow lhs rhs = false) :
    (lhs + rhs).bmod (2 ^ 44) = lhs + rhs := by
  have hmax : MAX_SUM_PER_THREAD.toInt / 2 = 2 ^ 43 - 1 := by decide
  simp only [willOverflow, hmax, Bool.or_eq_false_iff, Bool.and_eq_false_iff, decide_eq_false_iff_not] at h
  exact Int.bmod_eq_of_le (by omega) (by omega)

theorem clamp_range (x : ℤ) : -2 ^ 31 ≤ clamp x ∧ clamp x < 2 ^ 31 := by
  unfold clamp
  omega

theorem toNat_getComplement (x : ℤ) : ((getComplement x).toNat : ℤ) = x % 2 ^ 44 := by
  show ((getSum (BitVec.ofInt 64 x)).toNat : ℤ) = _
  rw [toNat_getSum, BitVec.toNat_ofInt]
  omega

theorem bmod_congr {a b : ℤ} (h : a % (2 ^ 44 : ℕ) = b % (2 ^ 44 : ℕ)) : a.bmod (2 ^ 44) = b.bmod (2 ^ 44) := by
  rw [← Int.emod_bmod, h, Int.emod_bmod]

theorem weight_compress {num sum : BitVec 64} (hnum : num.toNat < 2 ^ 20) :
    weight (compress num sum) = (BitVec.ofInt 64 ((sum.toNat : ℤ).bmod (2 ^ 44)), num) := by
  have hword := toNat_compress hnum sum
  have hsum : ((compress num sum).toNat : ℤ).bmod (2 ^ 44) = (sum.toNat : ℤ).bmod (2 ^ 44) := by
    exact bmod_congr (by omega)
  refine Prod.ext ?_ (BitVec.eq_of_toNat_eq ?_)
  · show extendSignBit (getSum _) = _
    rw [← hsum, ← toInt_sum, BitVec.ofInt_toInt]
  · show (getNum _).toNat = num.toNat
    rw [toNat_getNum, hword]
    omega

theorem weight_add (num sum : BitVec 64) {x : ℤ} (hnum : (num + 1).toNat < 2 ^ 20)
    (hsum : ((sum.toNat : ℤ).bmod (2 ^ 44) + clamp x).bmod (2 ^ 44) = (sum.toNat : ℤ).bmod (2 ^ 44) + clamp x) :
    weight (compress (num + 1) (sum + getComplement (clamp x)))
      = (BitVec.ofInt 64 ((sum.toNat : ℤ).bmod (2 ^ 44)), num) + value x := by
  have hadd : ((sum + getComplement (clamp x)).toNat : ℤ).bmod (2 ^ 44) = (sum.toNat : ℤ).bmod (2 ^ 44) + clamp x := by
    have hc := toNat_getComplement (clamp x)
    rw [← hsum, Int.bmod_add_bmod, BitVec.toNat_add]
    refine bmod_congr ?_
    omega
  rw [weight_compress hnum, hadd, BitVec.ofInt_add]
  rfl

theorem weight_next {n e : BitVec 64} {x : ℤ} (h : next n x = some e) : weight e = weight n + value x := by
  obtain ⟨hx, hx'⟩ := clamp_range x
  unfold next at h
  split at h
  next => simp at h
  next hfit =>
    obtain ⟨hnum, hover⟩ := not_or.1 hfit
    rw [← Option.some.inj h]
    have hsum : ((getSum n).toNat : ℤ).bmod (2 ^ 44) = (extendSignBit (getSum n)).toInt := by
      rw [toInt_sum, toNat_getSum]
      exact bmod_congr (by omega)
    have hlow : -2 ^ 43 ≤ (extendSignBit (getSum n)).toInt ∧ (extendSignBit (getSum n)).toInt < 2 ^ 43 := by
      rw [toInt_sum, Int.bmod_def]
      split <;> omega
    have hmax : MAX_NUM_PER_THREAD.toNat = 2 ^ 20 - 1 := by decide
    rw [weight_add, hsum, BitVec.ofInt_toInt]
    · rfl
    · rw [gt_iff_lt, BitVec.lt_def, hmax] at hnum
      omega
    · rw [hsum]
      exact bmod_of_willOverflow hlow.1 hlow.2 hx hx' (by simpa using hover)

theorem recorder_lawful : recorder.Lawful weight value where
  resultIdentity := rfl
  elementIdentity := by decide
  op _ _ := rfl
  next := weight_next
  first x := by
    obtain ⟨hx, hx'⟩ := clamp_range x
    have h := weight_add 0 0 (x := x) (by decide) (by
      simpa using Int.bmod_eq_of_le (by omega) (by omega))
    have hzero : BitVec.ofInt 64 (((0 : BitVec 64).toNat : ℤ).bmod (2 ^ 44)) = 0 := by simp
    rw [hzero] at h
    exact h.trans (zero_add (value x))

theorem sum_value (l : List ℤ) :
    (l.map value).sum = (BitVec.ofInt 64 (l.map clamp).sum, BitVec.ofInt 64 l.length) := by
  induction l with
  | nil => rfl
  | cons x l ih =>
    rw [List.map_cons, List.sum_cons, ih, List.map_cons, List.sum_cons, List.length_cons, value,
      BitVec.ofInt_add, Nat.cast_add, BitVec.ofInt_add, add_comm (BitVec.ofInt 64 (l.length : ℤ))]
    rfl

/-- `k` is an `int64_t`. -/
def Fits (k : ℤ) : Prop := -2 ^ 63 ≤ k ∧ k < 2 ^ 63

instance (k : ℤ) : Decidable (Fits k) := inferInstanceAs (Decidable (_ ∧ _))

theorem toInt_ofInt {k : ℤ} (h : Fits k) : (BitVec.ofInt 64 k).toInt = k := by
  rw [BitVec.toInt_ofInt]
  exact Int.bmod_eq_of_le h.1 h.2

end IntRecorder

open IntRecorder in
/-- **Every sample is counted exactly once**: when nothing runs, the values returned by the resets
and that of `get_value` make up the samples; for `IntRecorder`, their sum and their number. -/
theorem samples_counted_once {τ : Type} [DecidableEq τ] [Fintype τ] :
    (∀ (α : Type) [AddCommMonoid α] [DecidableEq α] (atomical : Bool) (is : List (Input α τ)),
      let s := Lib.run (step (reducer α atomical)) (init (reducer α atomical)) is
      s.Quiet → s.resets.sum + s.combineAgents (reducer α atomical) = s.samples.sum) ∧
    ∀ is : List (Input ℤ τ), let s := Lib.run (step recorder) (init recorder) is
      s.Quiet → Fits (s.samples.map clamp).sum → Fits s.samples.length →
        (s.resets.sum + s.combineAgents recorder).1.toInt = (s.samples.map clamp).sum
        ∧ (s.resets.sum + s.combineAgents recorder).2.toInt = s.samples.length := by
  refine ⟨?_, ?_⟩
  · intro α _ _ atomical is s hq
    simpa using combined_eq_samples (reducer_lawful α atomical) is hq
  · intro is s hq hsum hnum
    have h := combined_eq_samples recorder_lawful is hq
    rw [sum_value] at h
    exact ⟨by rw [h]; exact toInt_ofInt hsum, by rw [h]; exact toInt_ofInt hnum⟩

/-- Two threads, and a reset that comes between a load and its compare-exchange. -/
def mixedRun : List (Input ℤ (Fin 2)) :=
  [.add 0 5, .run 0 false, .run 0 false, .run 0 false, .add 1 (-7), .run 1 false, .run 1 false,
    .add 0 9, .run 0 false, .resetAllAgents, .walk, .run 0 false, .run 0 true, .run 0 false,
    .walk, .walk, .run 1 false, .run 1 false, .exit 1]

theorem mixedRun_counted :
    let s := Lib.run (step IntRecorder.recorder) (init IntRecorder.recorder) mixedRun
    (s.resets.sum + s.combineAgents IntRecorder.recorder).1.toInt = 7
      ∧ (s.resets.sum + s.combineAgents IntRecorder.recorder).2.toInt = 3 :=
  samples_counted_once.2 mixedRun ⟨rfl, fun t => by fin_cases t <;> rfl⟩ (by decide) (by decide)

end Brpc.Bvar
