/-
# Operations in progress

The operations a system has in progress are kept in a list, and a step replaces one of
them by what it goes on with: nothing, or one operation.  `replaceAt` is that step and
`exists_replaceAt` the rule every proof about it starts from.
-/

import Mathlib.Algebra.BigOperators.Group.List.Basic
import Mathlib.Tactic.Abel

namespace Lib

open List

variable {α : Type*}

/-- `l` with its element at `k` replaced by the elements of `new`. -/
def replaceAt (l : List α) (k : ℕ) (new : List α) : List α := l.take k ++ (new ++ l.drop (k + 1))

/-- **The element at `k` is replaced where it stands.** -/
theorem exists_replaceAt {l : List α} {k : ℕ} {a : α} (h : l[k]? = some a) :
    ∃ pre post, l = pre ++ a :: post ∧ ∀ new, replaceAt l k new = pre ++ (new ++ post) := by
  obtain ⟨-, rfl⟩ := List.getElem?_eq_some_iff.1 h
  refine ⟨l.take k, l.drop (k + 1), ?_, fun _ => rfl⟩
  rw [getElem_cons_drop, take_append_drop]

variable {l new : List α} {k : ℕ} {a : α}

/-- What holds of all elements and of the new ones holds of all elements after it. -/
theorem forall_mem_replaceAt {P : α → Prop} (h : ∀ x ∈ l, P x)
    (hnew : ∀ x ∈ new, P x) : ∀ x ∈ replaceAt l k new, P x := by
  intro x hx
  rw [replaceAt, mem_append, mem_append] at hx
  rcases hx with hx | hx | hx
  · exact h x (mem_of_mem_take hx)
  · exact hnew x hx
  · exact h x (mem_of_mem_drop hx)

theorem mem_replaceAt {x : α} : x ∈ replaceAt l k new ↔ x ∈ replaceAt l k [] ∨ x ∈ new := by
  simp only [replaceAt, mem_append, nil_append]
  tauto

/-- The other elements stay. -/
theorem mem_replaceAt_of_ne {x : α} (h : l[k]? = some a) (hx : x ∈ l) (hne : x ≠ a) : x ∈ replaceAt l k new := by
  obtain ⟨pre, post, rfl, hnew⟩ := exists_replaceAt h
  rw [hnew]
  rcases mem_append.1 hx with hx | hx
  · exact mem_append_left _ hx
  · rcases mem_cons.1 hx with rfl | hx
    · exact absurd rfl hne
    · exact mem_append_right _ (mem_append_right _ hx)

theorem any_replaceAt (h : l[k]? = some a) (p : α → Bool) : l.any p = (p a || (replaceAt l k []).any p)
      ∧ (replaceAt l k new).any p = (new.any p || (replaceAt l k []).any p) := by
  obtain ⟨pre, post, rfl, hnew⟩ := exists_replaceAt h
  rw [hnew, hnew]
  simp only [any_append, any_cons, nil_append]
  exact ⟨Bool.or_left_comm _ _ _, Bool.or_left_comm _ _ _⟩

theorem replaceAt_perm (h : l[k]? = some a) : (replaceAt l k new ++ [a]).Perm (l ++ new) := by
  obtain ⟨pre, post, rfl, hnew⟩ := exists_replaceAt h
  rw [hnew, append_assoc pre, append_assoc pre]
  exact ((perm_append_singleton a _).trans (perm_append_comm.cons a)).append_left pre

theorem sum_replaceAt {M : Type*} [AddCommMonoid M] {l new : List α} {k : ℕ} {a : α} (h : l[k]? = some a) (f : α → M) :
    ((replaceAt l k new).map f).sum + f a = (l.map f).sum + (new.map f).sum := by
  simpa using ((@replaceAt_perm _ l new k a h).map f).sum_eq

theorem countP_replaceAt (h : l[k]? = some a) (p : α → Bool) :
    (replaceAt l k new).countP p + (if p a then 1 else 0) = l.countP p + new.countP p := by
  simpa [countP_singleton] using (@replaceAt_perm _ l new k a h).countP_eq p

end Lib
