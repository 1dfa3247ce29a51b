/-
# Loops that may be left

`while (cond) body` with a number of turns, where the body goes on with a new state or
leaves the loop; and functions that go on with a shorter list each turn.
-/

import Mathlib.Data.List.Basic

namespace Lib

variable {σ : Type*} {cond : σ → Bool} {body : σ → Except σ σ} {s s' : σ} {n : ℕ}

/-- The state at the end of the loop, an error if the body has left it or the turns are
used up. -/
def whileLoop (cond : σ → Bool) (body : σ → Except σ σ) : ℕ → σ → Except σ σ
  | 0, s => .error s
  | n + 1, s =>
    if cond s then
      match body s with
      | .error s' => .error s'
      | .ok s' => whileLoop cond body n s'
    else .ok s

theorem whileLoop_done (h : cond s = false) : whileLoop cond body (n + 1) s = .ok s := by
  rw [whileLoop, h, if_neg Bool.false_ne_true]

theorem whileLoop_error (h : cond s = true) (hbody : body s = .error s') :
    whileLoop cond body (n + 1) s = .error s' := by
  rw [whileLoop, if_pos h, hbody]

theorem whileLoop_ok (h : cond s = true) (hbody : body s = .ok s') :
    whileLoop cond body (n + 1) s = whileLoop cond body n s' := by
  rw [whileLoop, if_pos h, hbody]

/-- `while (1) body`, where the body leaves the loop with an answer or goes on. -/
def loop {β : Type*} (body : σ → σ × Option β) : ℕ → σ → σ × Option β
  | 0, s => (s, none)
  | n + 1, s =>
    match body s with
    | (s', none) => loop body n s'
    | (s', some b) => (s', some b)

/-- A loop whose turns keep `I` and make `m` smaller ends, with what its last turn gives. -/
theorem loop_spec {β : Type*} {body : σ → σ × Option β} {I : σ → Prop} {Q : σ → β → Prop}
    {m : σ → ℕ} (hbody : ∀ s, I s → (∃ s', body s = (s', none) ∧ I s' ∧ m s' < m s) ∨
      ∃ s' b, body s = (s', some b) ∧ Q s' b) (hs : I s) (hn : m s < n) :
    ∃ s' b, loop body n s = (s', some b) ∧ Q s' b := by
  induction n generalizing s with
  | zero => omega
  | succ n ih =>
    rcases hbody s hs with ⟨s', heq, hs', hlt⟩ | ⟨s', b, heq, hQ⟩
    · rw [loop, heq]
      exact ih hs' (by omega)
    · rw [loop, heq]
      exact ⟨s', b, rfl, hQ⟩

/-- As many turns as the list has elements are enough. -/
theorem turns_eq {α β : Type*} {f : ℕ → σ → List α → β} (hnil : ∀ n m s, f n s [] = f m s [])
    (hcons : ∀ n m s a l, (∀ s' l', l'.length ≤ l.length → f n s' l' = f m s' l') →
      f (n + 1) s (a :: l) = f (m + 1) s (a :: l)) {m : ℕ} {l : List α} (hn : l.length ≤ n)
    (hm : l.length ≤ m) : f n s l = f m s l := by
  induction n generalizing m s l with
  | zero =>
    obtain rfl := List.length_eq_zero_iff.1 (Nat.le_zero.1 hn)
    exact hnil 0 m s
  | succ n ih =>
    cases l with
    | nil => exact hnil _ m s
    | cons a l =>
      rw [List.length_cons] at hn hm
      obtain ⟨m, rfl⟩ : ∃ k, m = k + 1 := ⟨m - 1, by omega⟩
      exact hcons n m s a l fun s' l' hl => ih (by omega) (by omega)

/-! ## A stream that arrives in pieces -/

open List

variable {α : Type*} {buf rem first second : List α}

/-- A buffer that is as long as the first part begins with it. -/
theorem exists_append_of_split (hsplit : buf ++ rem = first ++ second)
    (hlen : first.length ≤ buf.length) : ∃ buf', buf = first ++ buf' ∧ buf' ++ rem = second := by
  rcases append_eq_append_iff.1 hsplit with ⟨mid, rfl, hrem⟩ | ⟨mid, rfl, hsecond⟩
  · rw [length_append] at hlen
    have hmid : mid = [] := eq_nil_of_length_eq_zero (by omega)
    subst hmid
    exact ⟨[], by rw [append_nil, append_nil], hrem⟩
  · exact ⟨mid, rfl, hsecond.symm⟩

theorem rem_ne_nil_of_split (hsplit : buf ++ rem = first ++ second) (hlen : buf.length < first.length) : rem ≠ [] := by
  rintro rfl
  have h := congrArg List.length hsplit
  rw [append_nil, length_append] at h
  omega

end Lib
