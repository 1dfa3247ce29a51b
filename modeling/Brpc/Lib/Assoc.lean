/-
# Sums over association lists

A list of pairs with distinct keys, and the sum of its values: what it becomes when the value of a key is replaced, or
the key is erased.
-/

import Mathlib.Algebra.BigOperators.Group.List.Basic
import Mathlib.Data.List.Nodup
import Mathlib.Tactic.Abel

namespace Lib

open List

variable {κ α : Type*} [DecidableEq κ]

/-- The value of a key is replaced. -/
def assocSet (k : κ) (v : α) (l : List (κ × α)) : List (κ × α) := l.map fun x => if x.1 = k then (x.1, v) else x

/-- A key is erased. -/
def assocErase (k : κ) (l : List (κ × α)) : List (κ × α) := l.filter fun x => x.1 ≠ k

@[simp] theorem assocSet_keys (k : κ) (v : α) (l : List (κ × α)) : (assocSet k v l).map Prod.fst = l.map Prod.fst := by
  rw [assocSet, map_map]
  refine map_congr_left fun x _ => ?_
  simp only [Function.comp_apply]
  split_ifs <;> rfl

variable {l : List (κ × α)}

theorem assocSet_of_notMem {k : κ} (h : k ∉ l.map Prod.fst) (v : α) : assocSet k v l = l := by
  conv_rhs => rw [← map_id l]
  refine map_congr_left fun x hx => if_neg fun hk => h ?_
  exact hk ▸ mem_map_of_mem hx

theorem assocErase_of_notMem {k : κ} (h : k ∉ l.map Prod.fst) : assocErase k l = l := by
  refine filter_eq_self.2 fun x hx => decide_eq_true fun hk => h ?_
  exact hk ▸ mem_map_of_mem hx

@[simp] theorem assocErase_assocSet (k : κ) (v : α) (l : List (κ × α)) :
    assocErase k (assocSet k v l) = assocErase k l := by
  induction l with
  | nil => rfl
  | cons x l ih =>
    simp only [assocErase, assocSet, map_cons, filter_cons] at ih ⊢
    rw [ih]
    by_cases hx : x.1 = k <;> simp [hx]

/-- Where a key is found, if keys are distinct. -/
theorem exists_assoc_split {k : κ} {v : α} (hl : (l.map Prod.fst).Nodup)
    (h : l.lookup k = some v) : ∃ l₁ l₂, l = l₁ ++ (k, v) :: l₂ ∧
      (∀ v', assocSet k v' l = l₁ ++ (k, v') :: l₂) ∧ assocErase k l = l₁ ++ l₂ := by
  obtain ⟨l₁, l₂, rfl, -⟩ := lookup_eq_some_iff.1 h
  rw [map_append, map_cons, nodup_middle, nodup_cons, mem_append, not_or] at hl
  obtain ⟨⟨h₁, h₂⟩, -⟩ := hl
  refine ⟨l₁, l₂, rfl, fun v' => ?_, ?_⟩
  · have hset : assocSet k v' (l₁ ++ (k, v) :: l₂) = assocSet k v' l₁ ++ (k, v') :: assocSet k v' l₂ := by
      simp [assocSet]
    rw [hset, assocSet_of_notMem h₁, assocSet_of_notMem h₂]
  · have herase : assocErase k (l₁ ++ (k, v) :: l₂) = assocErase k l₁ ++ assocErase k l₂ := by
      simp [assocErase]
    rw [herase, assocErase_of_notMem h₁, assocErase_of_notMem h₂]

variable [AddCommGroup α] {k : κ} {v : α} {l : List (κ × α)}

/-- **The sum when a value is replaced.** -/
theorem sum_assocSet (hl : (l.map Prod.fst).Nodup) (h : l.lookup k = some v) (v' : α) :
    ((assocSet k v' l).map Prod.snd).sum = (l.map Prod.snd).sum - v + v' := by
  obtain ⟨l₁, l₂, rfl, hset, -⟩ := exists_assoc_split hl h
  rw [hset]
  simp only [map_append, map_cons, sum_append, sum_cons]
  abel

/-- **The sum when a key is erased.** -/
theorem sum_assocErase (hl : (l.map Prod.fst).Nodup) (h : l.lookup k = some v) :
    ((assocErase k l).map Prod.snd).sum = (l.map Prod.snd).sum - v := by
  obtain ⟨l₁, l₂, rfl, -, herase⟩ := exists_assoc_split hl h
  rw [herase]
  simp only [map_append, map_cons, sum_append, sum_cons]
  abel

omit [DecidableEq κ] in
/-- Pairs without value may go. -/
theorem sum_filter_snd (p : κ × α → Bool) (h : ∀ x ∈ l, p x = false → x.2 = 0) :
    ((l.filter p).map Prod.snd).sum = (l.map Prod.snd).sum := by
  induction l with
  | nil => rfl
  | cons x l ih =>
    have htail := ih fun y hy => h y (mem_cons_of_mem _ hy)
    cases hx : p x with
    | true => simp [hx, htail]
    | false => simp [hx, htail, h x mem_cons_self hx]

end Lib
