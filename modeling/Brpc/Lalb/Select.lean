/-
# Locality-aware selection by weight

`LocalityAwareLoadBalancer::SelectServer` (`policy/locality_aware_load_balancer.cpp`) draws a number
below `_total` and goes down the complete binary tree of the servers by the stored sums of the left
subtrees: `select_proportional`.  The weights do not change here.
-/

import Brpc.Lib.CompleteTree
import Mathlib.Algebra.Order.BigOperators.Group.Finset
import Mathlib.Data.Int.ConditionallyCompleteOrder
import Mathlib.Data.Int.Interval
import Mathlib.Tactic.Ring

namespace Brpc.Lalb

open Lib

/-- `ServerInfo`, with the values its pointers lead to. -/
structure ServerInfo where
  serverId : ℕ
  left : ℤ
  weight : ℤ

/-- How a descent ends, with the turns of the loop that are left. -/
inductive Descent
  | at (index loops : ℕ)
  /-- The child it turns to does not exist. -/
  | off (loops : ℕ)
  /-- `A selection runs too long!` -/
  | tooLong

def Descent.index : Descent → Option ℕ
  | .at index _ => some index
  | _ => none

/-- Why no server is given. -/
inductive Errno
  | noData
  | hostDown

/-- The turns of the loop that `nloop` allows. -/
def maxLoops : ℕ := 10000

/-- The way from a node down, of `dice`. -/
def descend (tree : List ServerInfo) : ℕ → ℤ → ℕ → Descent
  | 0, _, _ => .tooLong
  | loops + 1, dice, index =>
    match tree[index]? with
    | none => .off loops
    | some info =>
      if dice < info.left then
        if index * 2 + 1 < tree.length then descend tree loops dice (index * 2 + 1)
        else .off loops
      else if info.left + info.weight ≤ dice then
        if index * 2 + 2 < tree.length then
          descend tree loops (dice - (info.left + info.weight)) (index * 2 + 2)
        else .off loops
      else .at index loops

/-- The loop of `SelectServer`, of the numbers that `fast_rand_less_than` gives. -/
def selectLoop (tree : List ServerInfo) (total : ℤ) (available excluded : ℕ → Bool) :
    List ℤ → ℕ → ℕ → Option (Except Errno ℕ)
  | [], _, _ => none
  | dice :: draws, ntry, loops =>
    if total ≤ 0 then some (.error .hostDown)
    else
      match descend tree loops dice 0 with
      | .tooLong => some (.error .hostDown)
      | .off loops => selectLoop tree total available excluded draws ntry loops
      | .at index loops =>
        let id := (tree[index]?.map (·.serverId)).getD 0
        if available id ∧ (ntry + 1 = tree.length ∨ excluded id = false) then some (.ok index)
        else if tree.length ≤ ntry + 1 then some (.error .hostDown)
        else selectLoop tree total available excluded draws (ntry + 1) loops

/-- `SelectServer` without `changable_weights`; `none` when the numbers do not suffice. -/
def selectServer (tree : List ServerInfo) (total : ℤ) (available excluded : ℕ → Bool)
    (draws : List ℤ) : Option (Except Errno ℕ) :=
  if tree.length = 0 then some (.error .noData)
  else selectLoop tree total available excluded draws 0 maxLoops

/-- The weight of a position. -/
def weightAt (tree : List ServerInfo) (i : ℕ) : ℤ := (tree[i]?.map (·.weight)).getD 0

/-- Every node stores the sum of the weights in its left subtree. -/
def Consistent (tree : List ServerInfo) : Prop :=
  ∀ i info, tree[i]? = some info → info.left = treeSum (weightAt tree) tree.length (2 * i + 1)

section
variable {tree : List ServerInfo}

theorem treeSum_nonneg (hpos : ∀ i, 0 ≤ weightAt tree i) (n i : ℕ) : 0 ≤ treeSum (weightAt tree) n i := by
  refine Finset.sum_nonneg fun j _ => ?_
  split
  · exact hpos j
  · exact le_rfl

variable {i loops : ℕ}

theorem lt_of_treeSum_pos {n : ℕ} (h : 0 < treeSum (weightAt tree) n i) : i < n := by
  by_contra hle
  rw [treeSum_of_le _ (Nat.le_of_not_lt hle)] at h
  exact absurd h (lt_irrefl 0)

/-- The weights of a subtree, of the left subtree of a node, and of that with the node. -/
abbrev subSum (tree : List ServerInfo) (i : ℕ) : ℤ := treeSum (weightAt tree) tree.length i

def leftSum (tree : List ServerInfo) (i : ℕ) : ℤ := subSum tree (2 * i + 1)

def selfSum (tree : List ServerInfo) (i : ℕ) : ℤ := leftSum tree i + weightAt tree i

theorem treeSum_eq (hi : i < tree.length) : subSum tree i
      = selfSum tree i + subSum tree (2 * i + 2) := by
  rw [subSum, treeSum_node _ hi, selfSum, leftSum, add_comm (weightAt tree i)]

variable {dice : ℤ}

/-- **One turn of the loop.**  With consistent sums a number below the sum of a node goes left,
right, or stays there; the child exists. -/
theorem descend_cases (hc : Consistent tree) (loops : ℕ) (hi : i < tree.length)
    (h0 : 0 ≤ dice) (hlt : dice < subSum tree i) :
    (dice < leftSum tree i ∧ 2 * i + 1 < tree.length
        ∧ descend tree (loops + 1) dice i = descend tree loops dice (2 * i + 1))
      ∨ (selfSum tree i ≤ dice ∧ 2 * i + 2 < tree.length
        ∧ dice - selfSum tree i < subSum tree (2 * i + 2)
        ∧ descend tree (loops + 1) dice i = descend tree loops (dice - selfSum tree i) (2 * i + 2))
      ∨ (leftSum tree i ≤ dice ∧ dice < selfSum tree i ∧ descend tree (loops + 1) dice i = .at i loops) := by
  have hget : tree[i]? = some tree[i] := List.getElem?_eq_getElem hi
  have hleft : tree[i].left = leftSum tree i := hc i _ hget
  have hself : tree[i].left + tree[i].weight = selfSum tree i := by
    rw [hleft, selfSum, weightAt, hget]
    rfl
  rw [treeSum_eq hi] at hlt
  rw [descend, hget, Nat.mul_comm i 2]
  dsimp only
  rw [hself, hleft]
  rcases lt_or_ge dice (leftSum tree i) with hl | hl
  · have hchild : 2 * i + 1 < tree.length := lt_of_treeSum_pos (lt_of_le_of_lt h0 hl)
    rw [if_pos hl, if_pos hchild]
    exact .inl ⟨hl, hchild, rfl⟩
  · rw [if_neg (not_lt.2 hl)]
    rcases lt_or_ge dice (selfSum tree i) with hs | hs
    · rw [if_neg (not_le.2 hs)]
      exact .inr (.inr ⟨hl, hs, rfl⟩)
    · have hright : dice - selfSum tree i < subSum tree (2 * i + 2) := by
        omega
      have hchild := lt_of_treeSum_pos (lt_of_le_of_lt (Int.sub_nonneg_of_le hs) hright)
      rw [if_pos hs, if_pos hchild]
      exact .inr (.inl ⟨hs, hchild, hright, rfl⟩)

theorem child_depth {n child : ℕ} (h : n < (i + 1) * 2 ^ (loops + 1))
    (hchild : 2 * (i + 1) ≤ child + 1) : n < (child + 1) * 2 ^ loops := by
  calc n < (i + 1) * 2 ^ (loops + 1) := h
    _ = 2 * (i + 1) * 2 ^ loops := by ring
    _ ≤ (child + 1) * 2 ^ loops := Nat.mul_le_mul_right _ hchild

variable (hc : Consistent tree) (hi : i < tree.length) (hn : tree.length < (i + 1) * 2 ^ loops)
include hc hi hn

/-- **A descent ends at a node of the subtree**, of every number below its sum. -/
theorem descend_ends (h0 : 0 ≤ dice) (hlt : dice < subSum tree i) :
    ∃ j < tree.length, Below i j ∧ (descend tree loops dice i).index = some j := by
  induction loops generalizing i dice with
  | zero => omega
  | succ loops ih =>
    rcases descend_cases hc loops hi h0 hlt with ⟨hl, hchild, heq⟩ | ⟨hs, hchild, hr, heq⟩
      | ⟨-, -, heq⟩
    · obtain ⟨j, hj, hb, hend⟩ := ih hchild (child_depth hn (by omega)) h0 hl
      exact ⟨j, hj, below_iff.2 (.inr (.inl hb)), by rw [heq, hend]⟩
    · obtain ⟨j, hj, hb, hend⟩ := ih hchild (child_depth hn (by omega)) (Int.sub_nonneg_of_le hs) hr
      exact ⟨j, hj, below_iff.2 (.inr (.inr hb)), by rw [heq, hend]⟩
    · exact ⟨i, hi, Below.refl i, by rw [heq]; rfl⟩

theorem descend_not_ends (h0 : 0 ≤ dice)
    (hlt : dice < subSum tree i) {j : ℕ} (hj : ¬ Below i j) :
    (descend tree loops dice i).index ≠ some j := by
  intro hend
  obtain ⟨j', -, hb, hend'⟩ := descend_ends hc hi hn h0 hlt
  cases hend.symm.trans hend'
  exact hj hb

/-- **The numbers that end at a node are an interval of the length of its weight.** -/
theorem descend_interval (hpos : ∀ i, 0 ≤ weightAt tree i) {j : ℕ} (hj : j < tree.length)
    (hb : Below i j) : ∃ a, 0 ≤ a ∧ a + weightAt tree j ≤ subSum tree i ∧
      ∀ dice, 0 ≤ dice → dice < subSum tree i →
        ((descend tree loops dice i).index = some j ↔ a ≤ dice ∧ dice < a + weightAt tree j) := by
  induction loops generalizing i with
  | zero => omega
  | succ loops ih =>
    have hL : 0 ≤ leftSum tree i := treeSum_nonneg hpos _ _
    have hR : 0 ≤ subSum tree (2 * i + 2) := treeSum_nonneg hpos _ _
    have hW : leftSum tree i + weightAt tree i = selfSum tree i := rfl
    have hwi := hpos i
    have hdl : tree.length < (2 * i + 1 + 1) * 2 ^ loops := child_depth hn (by omega)
    have hdr : tree.length < (2 * i + 2 + 1) * 2 ^ loops := child_depth hn (by omega)
    -- a number whose turn leads away from `j` does not end there
    have haway {a dice : ℤ} {d : Descent} (heq : descend tree (loops + 1) dice i = d) (hno : d.index ≠ some j)
        (hout : ¬ (a ≤ dice ∧ dice < a + weightAt tree j)) :
        (descend tree (loops + 1) dice i).index = some j ↔ a ≤ dice ∧ dice < a + weightAt tree j :=
      ⟨fun h => absurd (heq ▸ h) hno, fun h => absurd h hout⟩
    rw [treeSum_eq hi]
    rcases below_iff.1 hb with rfl | hl | hr
    · refine ⟨leftSum tree j, hL, by omega, fun dice h0 hlt => ?_⟩
      rw [← treeSum_eq hi] at hlt
      rcases descend_cases hc loops hi h0 hlt with ⟨hl, hchild, heq⟩
        | ⟨hs, hchild, hr, heq⟩ | ⟨hl, hs, heq⟩
      · exact haway heq (descend_not_ends hc hchild hdl h0 hl fun hb => absurd hb.le (by omega)) (by omega)
      · exact haway heq (descend_not_ends hc hchild hdr (Int.sub_nonneg_of_le hs) hr fun hb =>
          absurd hb.le (by omega)) (by omega)
      · rw [heq, hW]
        exact ⟨fun _ => ⟨hl, hs⟩, fun _ => rfl⟩
    · obtain ⟨a, ha, hle, hiff⟩ := ih (lt_of_le_of_lt hl.le hj) hdl hl
      rw [← leftSum] at hle hiff
      refine ⟨a, ha, by omega, fun dice h0 hlt => ?_⟩
      rw [← treeSum_eq hi] at hlt
      rcases descend_cases hc loops hi h0 hlt with ⟨hl', -, heq⟩
        | ⟨hs, hchild, hr, heq⟩ | ⟨hl', hs, heq⟩
      · rw [heq]
        exact hiff dice h0 hl'
      · have hno := descend_not_ends hc hchild hdr (Int.sub_nonneg_of_le hs) hr (not_below_both hl)
        exact haway heq hno (by omega)
      · refine haway heq ?_ (by omega)
        rintro ⟨⟩
        exact absurd hl.le (by omega)
    · obtain ⟨a, ha, hle, hiff⟩ := ih (lt_of_le_of_lt hr.le hj) hdr hr
      refine ⟨selfSum tree i + a, by omega, by omega, fun dice h0 hlt => ?_⟩
      rw [← treeSum_eq hi] at hlt
      rcases descend_cases hc loops hi h0 hlt with ⟨hl, hchild, heq⟩
        | ⟨hs, -, hlt', heq⟩ | ⟨hl, hs, heq⟩
      · have hno := descend_not_ends hc hchild hdl h0 hl fun hl => not_below_both hl hr
        exact haway heq hno (by omega)
      · rw [heq, hiff _ (Int.sub_nonneg_of_le hs) hlt']
        omega
      · refine haway heq ?_ (by omega)
        rintro ⟨⟩
        exact absurd hr.le (by omega)

end

/-! ## The whole selection -/

/-- `_total` -/
def totalWeight (tree : List ServerInfo) : ℤ := (tree.map (·.weight)).sum

/-- The server that a selection gives when `fast_rand_less_than` gives `dice` first. -/
def selected (tree : List ServerInfo) (dice : ℤ) : Option ℕ :=
  (descend tree maxLoops dice 0).index

theorem totalWeight_eq (tree : List ServerInfo) : totalWeight tree = treeSum (weightAt tree) tree.length 0 := by
  rw [treeSum_root]
  induction tree with
  | nil => rfl
  | cons info tree ih =>
    rw [List.length_cons, Finset.sum_range_succ', add_comm, totalWeight, List.map_cons, List.sum_cons]
    exact congrArg (info.weight + ·) ih

theorem weightAt_nonneg {tree : List ServerInfo} (hpos : ∀ info ∈ tree, 0 < info.weight) (i : ℕ) :
    0 ≤ weightAt tree i := by
  rw [weightAt]
  cases h : tree[i]? with
  | none => exact le_rfl
  | some info => exact le_of_lt (hpos info (List.mem_of_getElem? h))

theorem depth_lt {n : ℕ} (h : n < 2 ^ 64) : n < (0 + 1) * 2 ^ maxLoops := by
  have hpow : 2 ^ 64 ≤ 2 ^ maxLoops := Nat.pow_le_pow_right (by omega) (by rw [maxLoops]; omega)
  omega

theorem selectServer_eq {tree : List ServerInfo} {total dice : ℤ} {i : ℕ} (htotal : 0 < total)
    (hsize : 0 < tree.length) (hi : selected tree dice = some i) (draws : List ℤ) :
    selectServer tree total (fun _ => true) (fun _ => false) (dice :: draws) = some (.ok i) := by
  rw [selectServer, if_neg (by omega), selectLoop, if_neg (not_le.2 htotal)]
  rw [selected] at hi
  cases hd : descend tree maxLoops dice 0 with
  | tooLong | off =>
    rw [hd] at hi
    cases hi
  | «at» j loops =>
    rw [hd] at hi
    cases hi
    exact if_pos ⟨rfl, .inr rfl⟩

/-- **Selection is proportional to weight.**  With positive weights and consistent sums, the
descent of every number below `_total` ends at a server, and server `i` is given for exactly
`weight_i` numbers. -/
theorem select_proportional (tree : List ServerInfo) (hsize : 0 < tree.length ∧ tree.length < 2 ^ 64)
    (hpos : ∀ info ∈ tree, 0 < info.weight) (hc : Consistent tree) :
    (∀ dice, 0 ≤ dice → dice < totalWeight tree → ∃ i < tree.length, selected tree dice = some i ∧
      ∀ draws, selectServer tree (totalWeight tree) (fun _ => true) (fun _ => false) (dice :: draws)
        = some (.ok i)) ∧ ∀ i < tree.length,
        (((Finset.Ico 0 (totalWeight tree)).filter fun dice => selected tree dice = some i).card : ℤ)
          = weightAt tree i := by
  have hn := depth_lt hsize.2
  constructor
  · intro dice h0 hlt
    rw [totalWeight_eq] at hlt
    obtain ⟨i, hi, -, hend⟩ := descend_ends hc hsize.1 hn h0 hlt
    rw [← totalWeight_eq] at hlt
    exact ⟨i, hi, hend, selectServer_eq (lt_of_le_of_lt h0 hlt) hsize.1 hend⟩
  · intro i hi
    have hw := weightAt_nonneg hpos
    obtain ⟨a, ha, hle, hiff⟩ := descend_interval hc hsize.1 hn hw hi (below_root i)
    rw [subSum, ← totalWeight_eq] at hle hiff
    have hinterval : (Finset.Ico 0 (totalWeight tree)).filter (fun dice => selected tree dice = some i)
        = Finset.Ico a (a + weightAt tree i) := by
      ext dice
      rw [Finset.mem_filter, Finset.mem_Ico, Finset.mem_Ico]
      constructor
      · rintro ⟨⟨h0, hlt⟩, hsel⟩
        exact (hiff dice h0 hlt).1 hsel
      · rintro ⟨hge, hlt⟩
        have hrange : 0 ≤ dice ∧ dice < totalWeight tree := ⟨by omega, by omega⟩
        exact ⟨hrange, (hiff dice hrange.1 hrange.2).2 ⟨hge, hlt⟩⟩
    rw [hinterval, Int.card_Ico, Int.toNat_of_nonneg (by have := hw i; omega)]
    omega

/-- Three servers of weights 3, 1 and 2. -/
theorem three_proportional : let tree : List ServerInfo := [⟨10, 1, 3⟩, ⟨11, 0, 1⟩, ⟨12, 0, 2⟩]
    (((Finset.Ico 0 (totalWeight tree)).filter fun dice => selected tree dice = some 2).card : ℤ) = 2 := by
  refine (select_proportional _ ⟨by decide, by decide⟩ (by decide) fun i info h => ?_).2 2 (by decide)
  rcases i with _ | _ | _ | i
  · cases h
    decide
  · cases h
    decide
  · cases h
    decide
  · cases h

end Brpc.Lalb
