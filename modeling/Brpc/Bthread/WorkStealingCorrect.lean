/-
# Work stealing neither loses nor duplicates

The items in the queue are those from `_top` up to `State.limit`, one beyond `_bottom` while it is
open who gets the last item.  Every value pushed is returned, held by the owner's `pop`, or in the
queue (`Inv.account`); every `push` has returned or is in progress (`Asked.count`); and the owner's
calls end (`left_step`).  From these come `tasks_conserved` and `volatileSize_bounds`.
-/

import Mathlib.Data.List.Intervals
import Brpc.Bthread.WorkStealing

namespace Brpc.WorkStealing

open Lib List Function State

theorem Capacity.eq_two_pow (c : Capacity) : ∃ n, c.val = 2 ^ n := by
  refine ⟨Nat.log2 c.val, ?_⟩
  have hle : 2 ^ Nat.log2 c.val ≤ c.val := Nat.log2_self_le c.pos
  have hlt : c.val < 2 ^ (Nat.log2 c.val + 1) := Nat.lt_log2_self
  by_contra hne
  -- Otherwise the highest bit is set in both operands of `&`.
  have hbit : ∀ m, 2 ^ Nat.log2 c.val ≤ m → m < 2 ^ (Nat.log2 c.val + 1) → m.testBit (Nat.log2 c.val) = true := by
    intro m hm hm'
    rw [Nat.testBit_eq_decide_div_mod_eq, decide_eq_true_iff,
      Nat.div_eq_of_lt_le (by rwa [Nat.one_mul]) (by rwa [Nat.mul_comm, ← Nat.pow_succ])]
  have hand : (c.val &&& (c.val - 1)).testBit (Nat.log2 c.val) = true := by
    rw [Nat.testBit_and, hbit _ hle hlt, hbit (c.val - 1) (by omega) (by omega)]
    rfl
  rw [c.pow, Nat.zero_testBit] at hand
  cases hand

theorem Capacity.slot_eq_mod (c : Capacity) (i : ℕ) : c.slot i = i % c.val := by
  obtain ⟨n, hn⟩ := c.eq_two_pow
  rw [slot, hn, Nat.and_two_pow_sub_one_eq_mod]

theorem Capacity.slot_inj (c : Capacity) {i j : ℕ} (hij : i < j) (hj : j < i + c.val) : c.slot i ≠ c.slot j := by
  rw [slot_eq_mod, slot_eq_mod]
  intro heq
  have hdvd : c.val ∣ j - i := Nat.dvd_of_mod_eq_zero (Nat.sub_mod_eq_zero_of_mod_eq heq.symm)
  exact absurd (Nat.le_of_dvd (by omega) hdvd) (by omega)

variable {α : Type*} {c : Capacity} {s s' : State α}

namespace State

variable (c)

/-- The end of the items that are in the queue. -/
def limit (s : State α) : ℕ :=
  match s.owner with
  | .popTopAgain b | .popRestore b | .popCas b .. | .popEnd b _ => b
  | .popRead b t => if t = b - 1 then b else b - 1
  | _ => s.bottom

/-- What the owner's `pop` has taken and not yet returned. -/
def held (s : State α) : List α :=
  match s.owner with
  | .popRead b t => if t = b - 1 then [] else [s.item c (b - 1)]
  | .popEnd _ popped => popped.toList
  | _ => []

/-- What the owner knows. -/
def OwnerOk (s : State α) : Prop :=
  match s.owner with
  | .idle | .pushBottom _ | .popBottom => True
  | .pushTop _ b | .popTop b => b = s.bottom
  | .pushWrite _ b => b = s.bottom ∧ b < s.top + c.val
  | .pushStore x b => b = s.bottom ∧ b < s.top + c.val ∧ s.item c b = x
  | .popStore b => b = s.bottom ∧ 0 < b
  | .popTopAgain b => b = s.bottom + 1
  | .popRestore b | .popEnd b _ => b = s.bottom + 1 ∧ s.top = b
  | .popRead b t => b = s.bottom + 1 ∧ t ≤ s.top ∧ t ≤ s.bottom
  | .popCas b t val => b = s.bottom + 1 ∧ t = s.bottom ∧ t ≤ s.top ∧ val = s.item c t

/-- What a thief knows. -/
def ThiefOk (s : State α) : Thief α → Prop
  | .loadTop => True
  | .loadBottom t | .loop t => t ≤ s.top
  | .read t => t ≤ s.top ∧ (t = s.top → t < s.limit)
  | .cas t val => t ≤ s.top ∧ (t = s.top → t < s.limit ∧ val = s.item c t)

/-- The items in the queue. -/
def items (s : State α) : List α := (Ico s.top s.limit).map (s.item c)

end State

/-- The value of the `push` in progress. -/
def Owner.arg : Owner α → Option α
  | .pushBottom x | .pushTop x _ | .pushWrite x _ | .pushStore x _ => some x
  | _ => none

/-- The `push` in progress is the last one called, and all before have returned. -/
structure Asked (s : State α) : Prop where
  arg : ∀ x ∈ s.owner.arg, s.asked.getLast? = some x
  count : s.asked.length = s.pushed.length + s.refused.length + s.owner.arg.toList.length

/-- **The invariant of the queue.** -/
structure Inv (c : Capacity) (s : State α) : Prop where
  owner : s.OwnerOk c
  top_le : s.top ≤ s.limit
  le_capacity : s.limit ≤ s.top + c.val
  thieves : ∀ th ∈ s.thieves, s.ThiefOk c th
  account : s.pushed.Perm (s.returned ++ (s.held c ++ s.items c))
  refused : ∀ p ∈ s.refused, p.1 = p.2 + c.val

theorem inv_init (fill : ℕ → α) : Inv c (init fill) :=
  ⟨trivial, Nat.le_refl 1, Nat.le_add_right 1 _, nofun, .refl _, nofun⟩

section

variable (h : Inv c s)
include h

theorem Inv.bottom_le_limit : s.bottom ≤ s.limit := by
  have hok := h.owner
  rw [OwnerOk] at hok
  rw [limit]
  cases howner : s.owner with
  | popRead =>
    rw [howner] at hok
    simp only
    split <;> omega
  | popTopAgain | popRestore | popEnd | popCas =>
    rw [howner] at hok
    simp only
    omega
  | _ => exact Nat.le_refl _

/-- The steps of the owner that leave `_top` alone.  A thief can rely on the item at
`_top` as long as it is in the queue. -/
theorem Inv.byOwner (hthieves : s'.thieves = s.thieves) (htop : s'.top = s.top)
    (hkeep : s.top < s.limit → s.top < s'.limit ∧ s'.item c s.top = s.item c s.top)
    (howner : s'.OwnerOk c) (htop_le : s.top ≤ s'.limit) (hcap : s'.limit ≤ s.top + c.val)
    (haccount : s'.pushed.Perm (s'.returned ++ (s'.held c ++ s'.items c)))
    (hrefused : ∀ p ∈ s'.refused, p.1 = p.2 + c.val) : Inv c s' := by
  refine ⟨howner, htop.symm ▸ htop_le, htop.symm ▸ hcap, fun th hth => ?_, haccount, hrefused⟩
  have hok := h.thieves th (hthieves ▸ hth)
  cases th with
  | loadTop => trivial
  | loadBottom | loop =>
    rw [ThiefOk, htop]
    exact hok
  | read =>
    rw [ThiefOk, htop]
    exact ⟨hok.1, fun heq => heq ▸ (hkeep (heq ▸ hok.2 heq)).1⟩
  | cas =>
    rw [ThiefOk, htop]
    refine ⟨hok.1, fun heq => ?_⟩
    obtain ⟨hlt, hval⟩ := hok.2 heq
    subst heq
    exact ⟨(hkeep hlt).1, hval.trans (hkeep hlt).2.symm⟩

theorem Inv.ownerMove {o : Owner α} {b : ℕ} (hlimit : { s with bottom := b, owner := o }.limit = s.limit)
    (hheld : { s with bottom := b, owner := o }.held c = s.held c)
    (howner : { s with bottom := b, owner := o }.OwnerOk c) : Inv c { s with bottom := b, owner := o } := by
  refine h.byOwner rfl rfl (fun hlt => ⟨hlimit.symm ▸ hlt, rfl⟩) howner (hlimit.symm ▸ h.top_le)
    (hlimit.symm ▸ h.le_capacity) ?_ h.refused
  rw [hheld, items, hlimit]
  exact h.account

/-- The owner returns what it holds. -/
theorem Inv.giveBack {b : ℕ} {out : List α} (hlimit : s.limit = b) (hheld : s.held c = out) :
    Inv c { s with bottom := b, owner := .idle, returned := s.returned ++ out } := by
  have haccount := h.account
  rw [hheld, items, hlimit, ← append_assoc] at haccount
  exact h.byOwner rfl rfl (fun hlt => ⟨hlimit ▸ hlt, rfl⟩) trivial (hlimit ▸ h.top_le)
    (hlimit ▸ h.le_capacity) haccount h.refused

theorem Inv.thief_stale {th : Thief α} (hth : th ∈ s.thieves) (htop : s'.top = s.top + 1) : s'.ThiefOk c th := by
  have hok := h.thieves th hth
  cases th with
  | loadTop => trivial
  | loadBottom | loop =>
    rw [ThiefOk, htop]
    exact Nat.le_succ_of_le hok
  | read | cas =>
    rw [ThiefOk, htop]
    have := hok.1
    exact ⟨Nat.le_succ_of_le this, fun heq => by omega⟩

variable {b : ℕ}

theorem Inv.pushLoadTop {x : α} (howner : s.owner = .pushTop x b) : Inv c (s.record (s.pushLoadTop c x b)) := by
  have hb := h.owner
  rw [OwnerOk, howner] at hb
  have hlimit : s.limit = s.bottom := by rw [limit, howner]
  have hheld : s.held c = [] := by rw [held, howner]
  rw [State.pushLoadTop]
  split
  next hfull =>
    have hmove : Inv c { s with owner := .idle } := h.ownerMove hlimit.symm hheld.symm trivial
    have hle := h.le_capacity
    exact hmove.byOwner rfl rfl (fun hlt => ⟨hlt, rfl⟩) trivial hmove.top_le hmove.le_capacity
      hmove.account (forall_mem_append.2 ⟨h.refused, forall_mem_singleton.2 (by simp only; omega)⟩)
  next hroom =>
    exact h.ownerMove hlimit.symm hheld.symm ⟨hb, Nat.lt_of_not_le hroom⟩

theorem Inv.pushWrite {x : α} (howner : s.owner = .pushWrite x b) :
    Inv c { s with buffer := update s.buffer (c.slot b) x, owner := .pushStore x b } := by
  have hb := h.owner
  rw [OwnerOk, howner] at hb
  have hlimit : s.limit = s.bottom := by rw [limit, howner]
  have hheld : s.held c = [] := by rw [held, howner]
  -- The slot written is that of none of the items in the queue.
  have hitem : ∀ i, s.top ≤ i → i < s.bottom → update s.buffer (c.slot b) x (c.slot i) = s.buffer (c.slot i) := by
    intro i hi hib
    exact update_of_ne (c.slot_inj (by omega) (by omega)) _ _
  refine h.byOwner rfl rfl (fun hlt => ?_) ⟨hb.1, hb.2, update_self ..⟩
    (hlimit ▸ h.top_le) (hlimit ▸ h.le_capacity) ?_ h.refused
  · rw [hlimit] at hlt
    exact ⟨hlt, hitem _ (Nat.le_refl _) hlt⟩
  · have haccount := h.account
    rw [hheld, items, hlimit] at haccount
    refine haccount.trans (.of_eq ?_)
    congr 2
    refine (map_congr_left fun i hi => ?_).symm
    rw [Ico.mem] at hi
    exact hitem i hi.1 hi.2

theorem Inv.pushStore {x : α} (howner : s.owner = .pushStore x b) (hlast : s.asked.getLast? = some x) :
    Inv c (s.record ({ s with bottom := b + 1, owner := .idle }, some (.push true))) := by
  have hok := h.owner
  rw [OwnerOk, howner] at hok
  obtain ⟨hb, hroom, hx⟩ := hok
  have hlimit : s.limit = b := by rw [limit, howner, hb]
  have hheld : s.held c = [] := by rw [held, howner]
  have hle : s.top ≤ b := hlimit ▸ h.top_le
  refine h.byOwner rfl rfl (fun hlt => ⟨Nat.lt_succ_of_le hle, rfl⟩) trivial (Nat.le_succ_of_le hle) hroom ?_ h.refused
  have haccount := h.account
  rw [hheld, items, hlimit] at haccount
  show (s.pushed ++ s.asked.getLast?.toList).Perm (s.returned ++ ([] ++ (Ico s.top (b + 1)).map (s.item c)))
  rw [hlast, Ico.succ_top hle, map_append, map_singleton, hx, nil_append, ← append_assoc]
  exact haccount.append_right [x]

/-- `pop` has lowered `_bottom` and looks at `_top` again: it gets the item without a
contest if there is another one below it. -/
theorem Inv.popLoadTopAgain (howner : s.owner = .popTopAgain b) : Inv c (s.popLoadTopAgain b) := by
  have hb := h.owner
  rw [OwnerOk, howner] at hb
  have hlimit : s.limit = b := by rw [limit, howner]
  have hheld : s.held c = [] := by rw [held, howner]
  have hle := h.top_le
  rw [State.popLoadTopAgain]
  split
  · have htop : s.top = b := by omega
    exact h.ownerMove hlimit.symm hheld.symm ⟨hb, htop⟩
  have htop : s.top ≤ s.bottom := by omega
  by_cases hlast : s.top = b - 1
  · refine h.ownerMove ?_ ?_ ⟨hb, Nat.le_refl _, htop⟩
    · rw [hlimit]
      exact if_pos hlast
    · rw [hheld]
      exact if_pos hlast
  · have hnew : { s with owner := .popRead b s.top }.limit = b - 1 := if_neg hlast
    have hnewHeld : { s with owner := .popRead b s.top }.held c = [s.item c (b - 1)] := if_neg hlast
    refine h.byOwner rfl rfl (fun _ => ⟨by rw [hnew]; omega, rfl⟩)
      ⟨hb, Nat.le_refl _, htop⟩ (by rw [hnew]; omega)
      (by rw [hnew]; have := h.le_capacity; omega) ?_ h.refused
    have haccount := h.account
    rw [hheld, items, hlimit, show b = b - 1 + 1 by omega,
      Ico.succ_top (by omega), map_append, map_singleton, nil_append] at haccount
    rw [hnewHeld, items, hnew]
    exact haccount.trans (perm_append_comm.append_left s.returned)

theorem Inv.popReadItem {b t : ℕ} (howner : s.owner = .popRead b t) : Inv c (s.record (s.popReadItem c b t)) := by
  have hok := h.owner
  rw [OwnerOk, howner] at hok
  obtain ⟨hb, ht, htb⟩ := hok
  have hlimit : s.limit = if t = b - 1 then b else b - 1 := by rw [limit, howner]
  have hheld : s.held c = if t = b - 1 then [] else [s.item c (b - 1)] := by
    rw [held, howner]
  rw [State.popReadItem]
  by_cases hlast : t = b - 1
  · rw [if_pos hlast] at hlimit hheld
    have hbottom : b - 1 = s.bottom := by omega
    simp only [ne_eq, hlast, not_true, if_false]
    exact h.ownerMove hlimit.symm hheld.symm ⟨hb, hbottom, hlast ▸ ht, rfl⟩
  · simp only [ne_eq, hlast, not_false_eq_true, if_true]
    rw [if_neg hlast] at hlimit hheld
    have hbottom : s.limit = s.bottom := by omega
    exact h.giveBack hbottom hheld

theorem Inv.popCompete {b t : ℕ} {val : α} (howner : s.owner = .popCas b t val) : Inv c (s.popCompete b t val) := by
  have hok := h.owner
  rw [OwnerOk, howner] at hok
  obtain ⟨hb, ht, htop, hval⟩ := hok
  have hlimit : s.limit = b := by rw [limit, howner]
  have hheld : s.held c = [] := by rw [held, howner]
  have hle := h.top_le
  rw [State.popCompete]
  split
  next heq =>
    refine ⟨⟨hb, ?_⟩, ?_, ?_, fun th hth => h.thief_stale hth ?_, ?_, h.refused⟩
    · show t + 1 = b
      omega
    · show t + 1 ≤ b
      omega
    · show b ≤ t + 1 + c.val
      omega
    · rw [heq]
    · have haccount := h.account
      rw [hheld, items, hlimit, Ico.eq_cons (by omega), map_cons, heq,
        show t + 1 = b by omega, ← hval] at haccount
      rw [show t + 1 = b by omega]
      exact haccount
  · have hlost : s.top = b := by omega
    exact h.ownerMove hlimit.symm hheld.symm ⟨hb, hlost⟩

theorem Inv.popEnd {popped : Option α} (howner : s.owner = .popEnd b popped) :
    Inv c (s.record ({ s with bottom := b, owner := .idle }, some (.take popped))) := by
  have hlimit : s.limit = b := by rw [limit, howner]
  have hheld : s.held c = popped.toList := by rw [held, howner]
  cases popped with
  | some => exact h.giveBack hlimit hheld
  | none => exact h.ownerMove hlimit.symm hheld.symm trivial

theorem Inv.popStore (howner : s.owner = .popStore b) : Inv c { s with bottom := b - 1, owner := .popTopAgain b } := by
  have hok := h.owner
  rw [OwnerOk, howner] at hok
  obtain ⟨hb, hpos⟩ := hok
  have hlimit : s.limit = b := by rw [limit, howner, hb]
  exact h.ownerMove hlimit.symm (by rw [held, held, howner]) (Nat.sub_add_cancel hpos).symm

theorem Inv.popRestore (howner : s.owner = .popRestore b) : Inv c { s with bottom := b, owner := .idle } :=
  h.ownerMove (by rw [limit, limit, howner]) (by rw [held, held, howner]) trivial

theorem Inv.popLoadTop (howner : s.owner = .popTop b) : Inv c (s.record (s.popLoadTop b)) := by
  have hb := h.owner
  rw [OwnerOk, howner] at hb
  have hlimit : s.limit = s.bottom := by rw [limit, howner]
  have hheld : s.held c = [] := by rw [held, howner]
  rw [State.popLoadTop]
  split
  · exact h.ownerMove hlimit.symm hheld.symm trivial
  next hlt =>
    exact h.ownerMove hlimit.symm hheld.symm ⟨hb, Nat.lt_of_le_of_lt (Nat.zero_le _) (Nat.lt_of_not_le hlt)⟩

/-- **A step of the owner keeps the invariant.** -/
theorem Inv.stepOwner (hasked : Asked s) : Inv c (s.record (s.stepOwner c)) := by
  rw [State.stepOwner]
  cases howner : s.owner with
  | idle => exact h
  | pushBottom | popBottom =>
    exact h.ownerMove (by rw [limit, limit, howner]) (by rw [held, held, howner]) rfl
  | pushTop => exact h.pushLoadTop howner
  | pushWrite => exact h.pushWrite howner
  | pushStore x => exact h.pushStore howner (hasked.arg x (by rw [howner]; rfl))
  | popTop => exact h.popLoadTop howner
  | popStore => exact h.popStore howner
  | popTopAgain => exact h.popLoadTopAgain howner
  | popRestore => exact h.popRestore howner
  | popRead => exact h.popReadItem howner
  | popCas => exact h.popCompete howner
  | popEnd => exact h.popEnd howner

end

/-! ## Thieves, and whole runs -/

section

variable (h : Inv c s)
include h

variable {k : ℕ}

theorem Inv.thiefMove {new : List (Thief α)} (hnew : ∀ th ∈ new, s.ThiefOk c th) : Inv c (s.goOn k new) :=
  { h with thieves := forall_mem_replaceAt h.thieves hnew }

theorem Inv.unlessEmpty {t : ℕ} {th : Thief α} (hth : t < s.bottom → s.ThiefOk c th) :
    Inv c (s.record (s.unlessEmpty k t th)) := by
  rw [State.unlessEmpty]
  split
  · exact h.thiefMove nofun
  next hlt => exact h.thiefMove (forall_mem_singleton.2 (hth (Nat.lt_of_not_le hlt)))

theorem Inv.ownerOk_stolen (hlt : s.top < s.limit) {th : List (Thief α)} {r : List α} :
    OwnerOk c { s with thieves := th, top := s.top + 1, returned := r } := by
  have hok := h.owner
  have hmore : s.top + c.val ≤ s.top + 1 + c.val := by omega
  rw [limit] at hlt
  rw [OwnerOk] at hok ⊢
  cases howner : s.owner with
  | idle | pushBottom | popBottom => trivial
  | pushTop | popTop | popStore | popTopAgain =>
    rw [howner] at hok
    exact hok
  | pushWrite =>
    rw [howner] at hok
    exact ⟨hok.1, Nat.lt_of_lt_of_le hok.2 hmore⟩
  | pushStore =>
    rw [howner] at hok
    exact ⟨hok.1, Nat.lt_of_lt_of_le hok.2.1 hmore, hok.2.2⟩
  | popRestore | popEnd =>
    rw [howner] at hok hlt
    exact absurd hok.2 (Nat.ne_of_lt hlt)
  | popRead =>
    rw [howner] at hok
    exact ⟨hok.1, Nat.le_succ_of_le hok.2.1, hok.2.2⟩
  | popCas =>
    rw [howner] at hok
    exact ⟨hok.1, hok.2.1, Nat.le_succ_of_le hok.2.2.1, hok.2.2.2⟩

theorem Inv.stolen {val : α} (hth : .cas s.top val ∈ s.thieves) :
    Inv c (s.record ({ s.goOn k [] with top := s.top + 1 }, some (.take (some val)))) := by
  obtain ⟨-, hwin⟩ := h.thieves _ hth
  obtain ⟨hlt, hval⟩ := hwin rfl
  have hcap := h.le_capacity
  refine ⟨h.ownerOk_stolen hlt, hlt, ?_, ?_, ?_, h.refused⟩
  · show s.limit ≤ s.top + 1 + c.val
    omega
  · exact forall_mem_replaceAt (fun th hth => h.thief_stale hth rfl) nofun
  · have haccount := h.account
    rw [items, List.Ico.eq_cons hlt, map_cons, ← hval] at haccount
    have hgiven := haccount.trans (perm_middle.append_left s.returned)
    rw [append_cons] at hgiven
    exact hgiven

/-- **A step of a thief keeps the invariant.** -/
theorem Inv.stepThief {th : Thief α} (hk : s.thieves[k]? = some th) :
    Inv c (s.record (s.stepThief c k th)) := by
  have hmem := mem_of_getElem? hk
  have hok := h.thieves th hmem
  have hone : ∀ new : Thief α, s.ThiefOk c new → ∀ th ∈ [new], s.ThiefOk c th := fun _ => forall_mem_singleton.2
  cases th with
  | loadTop => exact h.thiefMove (hone _ (Nat.le_refl _))
  | loadBottom => exact h.unlessEmpty fun _ => hok
  | loop =>
    exact h.unlessEmpty fun hlt => ⟨hok, fun _ => Nat.lt_of_lt_of_le hlt h.bottom_le_limit⟩
  | read => exact h.thiefMove (hone _ ⟨hok.1, fun heq => ⟨hok.2 heq, rfl⟩⟩)
  | cas =>
    rw [State.stepThief]
    split
    next heq =>
      subst heq
      exact h.stolen hmem
    · exact h.thiefMove (hone _ (Nat.le_refl _))

theorem Inv.call {o : Owner α} (ho : o = .popBottom ∨ ∃ x, o = .pushBottom x) (asked : List α) :
    Inv c (s.call o asked) := by
  rw [State.call]
  cases howner : s.owner with
  | idle =>
    have hmove : Inv c { s with owner := o } := by
      refine h.ownerMove ?_ ?_ ?_ <;> rcases ho with rfl | ⟨x, rfl⟩
      · rw [limit, limit, howner]
      · rw [limit, limit, howner]
      · rw [held, held, howner]
      · rw [held, held, howner]
      · trivial
      · trivial
    exact { hmove with }
  | _ => exact h

/-- **Every step keeps the invariant.** -/
theorem Inv.step (hasked : Asked s) (i : Input α) : Inv c (s.step c i) := by
  cases i with
  | push x => exact h.call (.inr ⟨x, rfl⟩) _
  | pop => exact h.call (.inl rfl) _
  | runOwner => exact h.stepOwner hasked
  | steal =>
    exact { h with thieves := forall_mem_append.2 ⟨h.thieves, forall_mem_singleton.2 trivial⟩ }
  | runThief k =>
    rw [State.step]
    cases hk : s.thieves[k]? with
    | none => exact h
    | some => exact h.stepThief hk

end

/-! ## Calls and their answers -/

/-- A step of a thief leaves the owner alone. -/
theorem record_stepThief (s : State α) (k : ℕ) (th : Thief α) :
    let s' := s.record (s.stepThief c k th)
    s'.owner = s.owner ∧ s'.asked = s.asked ∧ s'.pushed = s.pushed ∧ s'.refused = s.refused := by
  cases th <;> grind [State.stepThief, record, unlessEmpty, goOn]

theorem Asked.step (h : Asked s) (i : Input α) : Asked (s.step c i) := by
  obtain ⟨harg, hcount⟩ := h
  cases i with
  | push | pop =>
    rw [State.step, call]
    cases howner : s.owner <;> constructor <;> grind [Owner.arg]
  | runOwner =>
    rw [State.step, State.stepOwner]
    cases howner : s.owner <;> constructor <;>
      grind [record, Owner.arg, State.pushLoadTop, State.popLoadTop, State.popLoadTopAgain,
        State.popReadItem, State.popCompete]
  | steal => exact ⟨harg, hcount⟩
  | runThief k =>
    rw [State.step]
    cases hk : s.thieves[k]? with
    | none => exact ⟨harg, hcount⟩
    | some th =>
      obtain ⟨h₁, h₂, h₃, h₄⟩ := @record_stepThief _ c s k th
      exact ⟨by rwa [h₁, h₂], by rw [h₁, h₂, h₃, h₄, hcount]⟩

/-- The steps that are left of the owner's call, at most. -/
def Owner.left : Owner α → ℕ
  | .idle => 0
  | .pushStore .. | .popRestore _ | .popEnd .. => 1
  | .pushWrite .. | .popCas .. => 2
  | .pushTop .. | .popRead .. => 3
  | .pushBottom _ | .popTopAgain _ => 4
  | .popStore _ => 5
  | .popTop _ => 6
  | .popBottom => 7

theorem Owner.eq_idle {o : Owner α} (h : o.left = 0) : o = .idle := by
  cases o with
  | idle => rfl
  | _ => cases h

/-- The owner is called. -/
def Input.isCall : Input α → Bool
  | .push _ | .pop => true
  | _ => false

def Input.isRunOwner : Input α → Bool
  | .runOwner => true
  | _ => false

theorem left_step (s : State α) (i : Input α) (hi : i.isCall = false) :
    (s.step c i).owner.left ≤ s.owner.left - if i.isRunOwner then 1 else 0 := by
  cases i with
  | push | pop => cases hi
  | runOwner =>
    rw [State.step, State.stepOwner]
    cases howner : s.owner <;>
      grind [record, Owner.left, Input.isRunOwner, State.pushLoadTop, State.popLoadTop,
        State.popLoadTopAgain, State.popReadItem, State.popCompete]
  | steal => exact Nat.le_refl _
  | runThief k =>
    rw [State.step]
    cases hk : s.thieves[k]? with
    | none => exact Nat.le_refl _
    | some th => exact Nat.le_of_eq (congrArg Owner.left (record_stepThief s k th).1)

namespace State

theorem inv_run (c : Capacity) (fill : ℕ → α) (is : List (Input α)) :
    Inv c (Lib.run (step c) (init fill) is) ∧ Asked (Lib.run (step c) (init fill) is) :=
  Lib.run_invariant' (I := fun s => Inv c s ∧ Asked s) (fun _ i hs => ⟨hs.1.step hs.2 i, hs.2.step i⟩) is
    ⟨inv_init fill, nofun, rfl⟩

def queue (c : Capacity) (s : State α) : List α := (List.Ico s.top s.bottom).map (s.item c)

/-- **Work stealing neither loses nor duplicates tasks.**  What `pop` and `steal` have returned is
part of what `push` returned true for; when no call is in progress the rest is in the queue; `push`
has returned false only at a full queue; it has returned as often as it was called; and the
owner's calls return after seven of its steps, whatever the thieves do. -/
theorem tasks_conserved (c : Capacity) (fill : ℕ → α) (is : List (Input α)) : let s := Lib.run (step c) (init fill) is
    (∃ rest, s.pushed.Perm (s.returned ++ rest)) ∧
      (s.owner = .idle → s.thieves = [] → s.pushed.Perm (s.returned ++ s.queue c)) ∧
      (∀ p ∈ s.refused, p.1 = p.2 + c.val) ∧
      (s.owner = .idle → s.asked.length = s.pushed.length + s.refused.length) ∧
      ∀ js : List (Input α), (∀ i ∈ js, i.isCall = false) → 7 ≤ js.countP Input.isRunOwner →
        (Lib.run (step c) s js).owner = .idle := by
  intro s
  obtain ⟨h, hasked⟩ : Inv c s ∧ Asked s := inv_run c fill is
  refine ⟨⟨_, h.account⟩, fun howner _ => ?_, h.refused, fun howner => ?_, fun js hjs hlen => ?_⟩
  · have haccount := h.account
    rw [held, items, limit, howner] at haccount
    exact haccount
  · have hcount := hasked.count
    rw [howner] at hcount
    exact hcount
  · have hle := Lib.run_lowers (p := Input.isRunOwner) (f := fun s => s.owner.left) (left_step (c := c)) js s hjs
    have hseven : s.owner.left ≤ 7 := by cases s.owner <;> simp [Owner.left]
    exact Owner.eq_idle (Nat.le_zero.1 (hle.trans (by omega)))

end State
end Brpc.WorkStealing
