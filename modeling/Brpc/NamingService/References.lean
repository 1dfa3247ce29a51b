/-
# References to the shared connections

The global `SocketMap` as a naming service sees it: its thread and all other users take and give
up references.  `health_check_interval` is positive, so sockets are never replaced: as long as
the thread has a reference, `SocketMapFind` finds the same id.
-/

import Brpc.SocketMap.Sharing

namespace Brpc.NamingService

open Function Option SocketMap
open SocketMap (Map find)

variable {N : Type} [DecidableEq N]

/-- The map, and the references of the thread (`true`) and of the others (`false`). -/
structure Shares (N : Type) where
  map : Map N
  refs : Bool → N → ℤ

/-- `refs who n` changes by `d`. -/
def Shares.count (s : Shares N) (who : Bool) (n : N) (d : ℤ) : Bool → N → ℤ :=
  fun w k => if w = who ∧ k = n then s.refs w k + d else s.refs w k

/-- `SocketMapInsert`. -/
def Shares.take (who : Bool) (n : N) (s : Shares N) : Shares N :=
  ⟨(insert n (some true) s.map).2, s.count who n 1⟩

/-- `SocketMapRemove`. -/
def Shares.give (who : Bool) (n : N) (defer now : ℤ) (s : Shares N) : Shares N :=
  ⟨removeInternal n none false defer now s.map, s.count who n (-1)⟩

/-- The watcher of the map removes an orphan. -/
def Shares.sweep (n : N) (now : ℤ) (s : Shares N) : Shares N :=
  { s with map := removeInternal n none true 0 now s.map }

/-- The counts of the map are the references there are. -/
structure Shares.Inv (s : Shares N) : Prop where
  wf : s.map.Wf
  hc : ∀ id, (s.map.socket id).hcEnabled = true
  nonneg : ∀ who n, 0 ≤ s.refs who n
  count : ∀ n, ((s.map.map n).elim 0 fun sc => sc.refCount) = s.refs true n + s.refs false n

variable {s : Shares N} {n k : N} {id : ℕ}

omit [DecidableEq N] in
theorem Shares.Inv.find_isSome (h : s.Inv) (hn : 0 < s.refs true n) : ∃ id, find n s.map = some id := by
  have hcount := h.count n
  have hnonneg := h.nonneg false n
  cases hk : s.map.map n with
  | none =>
    rw [hk, elim_none] at hcount
    omega
  | some sc => exact ⟨sc.socket, by simp [find, hk]⟩

omit [DecidableEq N] in
theorem Shares.Inv.eq_of_find (h : s.Inv) (hn : find n s.map = some id) (hk : find k s.map = some id) : n = k := by
  obtain ⟨sc, hsc, rfl⟩ := map_eq_some_iff.1 hn
  obtain ⟨sc', hsc', heq⟩ := map_eq_some_iff.1 hk
  exact h.wf.injective hsc hsc' heq.symm

theorem Shares.Inv.insert_cases (h : s.Inv) (n : N) :
    (∃ sc, s.map.map n = some sc ∧ insert n (some true) s.map = (some sc.socket,
      { s.map with map := update s.map.map n (some { sc with refCount := sc.refCount + 1 }) })) ∨
    s.map.map n = none ∧ insert n (some true) s.map = create n (some true) s.map := by
  have hc := h.hc
  cases hk : s.map.map n with
  | none => simp [SocketMap.insert, hk]
  | some => simp [SocketMap.insert, hk, hc]

theorem Shares.Inv.take (h : s.Inv) (who : Bool) (n : N) : (s.take who n).Inv := by
  have hwf := h.wf.insert n (some true)
  have hcases := h.insert_cases n
  obtain ⟨_, hc, hnonneg, hcount⟩ := h
  rcases hcases with ⟨sc, hk, heq⟩ | ⟨hk, heq⟩ <;>
    refine ⟨hwf, ?_, ?_, ?_⟩ <;>
    simp only [Shares.take, Shares.count, heq, create, update_apply] <;>
    grind

theorem find_take (h : s.Inv) (who : Bool) (n : N) (hk : 0 < s.refs true k) :
    find k (s.take who n).map = find k s.map := by
  obtain ⟨id, hid⟩ := h.find_isSome hk
  rcases h.insert_cases n with ⟨sc, hn, heq⟩ | ⟨hn, heq⟩ <;>
    simp only [Shares.take, heq, create, find, update_apply] at hid ⊢ <;>
    grind

theorem find_take_self (h : s.Inv) (who : Bool) (n : N) :
    find n (s.take who n).map = (insert n (some true) s.map).1 := by
  rcases h.insert_cases n with ⟨sc, hn, heq⟩ | ⟨hn, heq⟩ <;>
    simp [Shares.take, heq, create, find]

section

variable {o : Bool} {defer now : ℤ} (h : s.Inv)
include h

theorem hc_removeInternal (id : ℕ) :
    ((removeInternal n none o defer now s.map).socket id).hcEnabled = true := by
  have hc := h.hc
  unfold removeInternal erase
  dsimp only
  repeat' split
  all_goals simp only [update_apply, hc]
  all_goals grind [Sock.dereference, Sock.releaseAdditional]

omit h in
theorem find_removal {refs : Bool → N → ℤ}
    (h' : (⟨removeInternal n none o defer now s.map, refs⟩ : Shares N).Inv) (hk : 0 < refs true k) :
    find k (removeInternal n none o defer now s.map) = find k s.map := by
  obtain ⟨id, hid⟩ := h'.find_isSome hk
  obtain ⟨sc, hsc, rfl⟩ := map_eq_some_iff.1 hid
  obtain ⟨sc₀, hsc₀, heq⟩ := removeInternal_inv hsc
  rw [hid, find, hsc₀]
  grind [release_socket]

theorem Shares.Inv.give {who : Bool} (hn : 0 < s.refs who n) : (s.give who n defer now).Inv := by
  have hnonneg := h.nonneg
  refine ⟨h.wf.removeInternal .., hc_removeInternal h, ?_, fun k => ?_⟩ <;>
    simp only [Shares.give, Shares.count]
  · grind
  · have hcount := h.count k
    by_cases hk : k = n
    · subst hk
      cases hm : s.map.map k with
      | none => cases who <;> grind
      | some =>
        rw [removeInternal_map hm]
        cases who <;> grind [SingleConnection.release]
    · simp [hk, hcount]

theorem Shares.Inv.sweep : (s.sweep n now).Inv := by
  refine ⟨h.wf.removeInternal .., hc_removeInternal h, h.nonneg, fun k => ?_⟩
  have hcount := h.count k
  simp only [Shares.sweep]
  by_cases hk : k = n
  · subst hk
    cases hm : s.map.map k with
    | none => grind [removeInternal]
    | some =>
      rw [removeInternal_map hm]
      grind [SingleConnection.release]
  · simp [hk, hcount]

end

end Brpc.NamingService
