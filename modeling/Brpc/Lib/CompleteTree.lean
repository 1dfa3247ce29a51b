/-
# The complete binary tree of an array

Node `i` of an array has the children `2 * i + 1` and `2 * i + 2`.  `Below i j` says that `j` is
in the subtree of `i`; `treeSum` is the sum over a subtree (`treeSum_node`).
-/

import Mathlib.Algebra.BigOperators.Intervals

namespace Lib

/-- Whether `i` is met on the way up from `j`, within a number of steps. -/
def belowWithin (i : ℕ) : ℕ → ℕ → Bool
  | 0, j => j == i
  | fuel + 1, j => j == i || (j != 0 && belowWithin i fuel ((j - 1) / 2))

/-- Node `j` is in the subtree of node `i`. -/
def Below (i j : ℕ) : Prop := belowWithin i j j = true

instance (i j : ℕ) : Decidable (Below i j) := inferInstanceAs (Decidable (_ = true))

theorem belowWithin_of_le (i : ℕ) : ∀ (fuel j : ℕ), j ≤ fuel → belowWithin i fuel j = belowWithin i j j := by
  intro fuel
  induction fuel using Nat.strong_induction_on with
  | _ fuel ih =>
    intro j hj
    cases j with
    | zero =>
      cases fuel with
      | zero => rfl
      | succ => simp [belowWithin]
    | succ j =>
      cases fuel with
      | zero => omega
      | succ fuel =>
        have hup : (j + 1 - 1) / 2 = j / 2 := by rw [Nat.add_sub_cancel]
        rw [belowWithin, belowWithin, hup, ih fuel (by omega) (j / 2) (by omega), ih j (by omega) (j / 2) (by omega)]

variable {i j : ℕ}

/-- The root is in its own subtree only. -/
theorem below_zero : Below i 0 ↔ i = 0 := by
  rw [Below, belowWithin, beq_iff_eq]
  exact eq_comm

/-- **The way up.**  A node is in the subtrees that its parent is in, and in its own. -/
theorem below_succ : Below i (j + 1) ↔ i = j + 1 ∨ Below i (j / 2) := by
  rw [Below, belowWithin, Bool.or_eq_true, Bool.and_eq_true, beq_iff_eq, Nat.add_sub_cancel,
    belowWithin_of_le i j (j / 2) (by omega)]
  constructor
  · rintro (h | ⟨-, h⟩)
    · exact .inl h.symm
    · exact .inr h
  · rintro (h | h)
    · exact .inl h.symm
    · exact .inr ⟨by simp, h⟩

theorem Below.refl (i : ℕ) : Below i i := by
  cases i with
  | zero => exact below_zero.2 rfl
  | succ => exact below_succ.2 (.inl rfl)

theorem Below.le (h : Below i j) : i ≤ j := by
  induction j using Nat.strong_induction_on with
  | _ j ih =>
    cases j with
    | zero => exact Nat.le_of_eq (below_zero.1 h)
    | succ j =>
      rcases below_succ.1 h with rfl | h
      · exact Nat.le_refl _
      · have := ih (j / 2) (by omega) h
        omega

/-- Every node is in the tree. -/
theorem below_root (j : ℕ) : Below 0 j := by
  induction j using Nat.strong_induction_on with
  | _ j ih =>
    cases j with
    | zero => exact Below.refl 0
    | succ j => exact below_succ.2 (.inr (ih (j / 2) (by omega)))

/-- **A subtree is its root and the subtrees of its children.** -/
theorem below_iff : Below i j ↔ j = i ∨ Below (2 * i + 1) j ∨ Below (2 * i + 2) j := by
  induction j using Nat.strong_induction_on with
  | _ j ih =>
    cases j with
    | zero =>
      rw [below_zero, below_zero, below_zero]
      omega
    | succ j =>
      rw [below_succ, below_succ, below_succ, ih (j / 2) (by omega)]
      constructor
      · rintro (h | h | h | h)
        · exact .inl h.symm
        · rcases Nat.mod_two_eq_zero_or_one j with hj | hj
          · exact .inr (.inl (.inl (by omega)))
          · exact .inr (.inr (.inl (by omega)))
        · exact .inr (.inl (.inr h))
        · exact .inr (.inr (.inr h))
      · rintro (h | (h | h) | (h | h))
        · exact .inl h.symm
        · exact .inr (.inl (by omega))
        · exact .inr (.inr (.inl h))
        · exact .inr (.inl (by omega))
        · exact .inr (.inr (.inr h))

/-- The two subtrees have no node in common. -/
theorem not_below_both (hl : Below (2 * i + 1) j) (hr : Below (2 * i + 2) j) : False := by
  induction j using Nat.strong_induction_on with
  | _ j ih =>
    cases j with
    | zero => exact absurd (below_zero.1 hl) (by omega)
    | succ j =>
      have hle := hr.le
      rcases below_succ.1 hl with h | hl
      · omega
      · rcases below_succ.1 hr with h | hr
        · have := hl.le
          omega
        · exact ih (j / 2) (by omega) hl hr

section
variable {M : Type*} [AddCommMonoid M]

/-- The sum over the nodes of a subtree, of an array of `n` values. -/
def treeSum (w : ℕ → M) (n i : ℕ) : M := ∑ j ∈ Finset.range n, if Below i j then w j else 0

theorem treeSum_of_le (w : ℕ → M) {n i : ℕ} (h : n ≤ i) : treeSum w n i = 0 := by
  refine Finset.sum_eq_zero fun j hj => ?_
  rw [Finset.mem_range] at hj
  rw [if_neg fun hb => absurd hb.le (by omega)]

/-- **The sum of a node.** -/
theorem treeSum_node (w : ℕ → M) {n i : ℕ} (h : i < n) :
    treeSum w n i = w i + treeSum w n (2 * i + 1) + treeSum w n (2 * i + 2) := by
  have hself : w i = ∑ j ∈ Finset.range n, if j = i then w j else 0 := by
    rw [Finset.sum_ite_eq' (Finset.range n) i w, if_pos (Finset.mem_range.2 h)]
  rw [hself, treeSum, treeSum, treeSum, ← Finset.sum_add_distrib, ← Finset.sum_add_distrib]
  refine Finset.sum_congr rfl fun j _ => ?_
  rcases eq_or_ne j i with rfl | hne
  · rw [if_pos (Below.refl j), if_pos rfl, if_neg fun hb => absurd hb.le (by omega),
      if_neg fun hb => absurd hb.le (by omega), add_zero, add_zero]
  · rw [if_neg hne, zero_add]
    by_cases hl : Below (2 * i + 1) j
    · rw [if_pos (below_iff.2 (.inr (.inl hl))), if_pos hl, if_neg fun hr => not_below_both hl hr, add_zero]
    · rw [if_neg hl, zero_add]
      by_cases hr : Below (2 * i + 2) j
      · rw [if_pos (below_iff.2 (.inr (.inr hr))), if_pos hr]
      · rw [if_neg hr, if_neg]
        intro hb
        rcases below_iff.1 hb with h | h | h
        · exact hne h
        · exact hl h
        · exact hr h

/-- The sum of the whole tree. -/
theorem treeSum_root (w : ℕ → M) (n : ℕ) : treeSum w n 0 = ∑ j ∈ Finset.range n, w j :=
  Finset.sum_congr rfl fun j _ => if_pos (below_root j)

end

end Lib
