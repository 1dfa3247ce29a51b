/-
# The sections under the mutex

Each section of a function on a bthread_id, and each step behind one, keeps the invariant
(`Inv.call` and `Inv.goOn`), so that a bthread_id is an exclusive lock that delivers errors once:
`id_exclusive`.
-/

import Brpc.BthreadId.Id

namespace Brpc.BthreadId.State

open Lib List Op Delivery

variable {s : State}

/-! ## The word -/

variable {ver : ℕ}

theorem hasVersion_iff : s.hasVersion ver = true ↔ s.firstVer ≤ ver ∧ ver < s.lockedVer := by
  simp [hasVersion]

theorem Inv.unlocked (h : Inv s) (hver : s.hasVersion ver = true)
    (hbutex : s.butex = s.firstVer) : s.firstVer < s.lockedVer ∧ s.holders = [] := by
  rw [hasVersion_iff] at hver
  cases h.word with
  | dead | locked => omega
  | unlocked h₁ _ h₃ => exact ⟨h₁, h₃⟩

theorem Inv.locked (h : Inv s) (hver : s.hasVersion ver = true)
    (hbutex : s.butex ≠ s.firstVer) : s.firstVer < s.lockedVer ∧ ∃ t, s.holders = [t] := by
  rw [hasVersion_iff] at hver
  cases h.word with
  | dead => omega
  | unlocked _ h₂ => exact absurd h₂ hbutex
  | locked h₁ _ t h₃ => exact ⟨h₁, t, h₃⟩

theorem Inv.unheld (h : Inv s) (hholders : s.holders = []) :
    s.hands = [] ∧ s.delivered.map error = s.issued := by
  have hhands : s.hands = [] := by
    rcases h.errors.inHand with hnil | ⟨t, e, -, ht⟩
    · exact hnil
    · rw [hholders] at ht
      cases ht
  have haccount := h.errors.account
  rw [hhands, h.errors.unheld hholders] at haccount
  exact ⟨hhands, by simpa using haccount⟩

theorem Slot.grow {firstVer lockedVer lockedVer' : ℕ} {inUse : Bool} {n : ℕ}
    (h : Slot firstVer lockedVer inUse n) (hlive : firstVer < lockedVer)
    (hle : lockedVer ≤ lockedVer') : Slot firstVer lockedVer' inUse n := by
  refine ⟨fun _ => h.live hlive, ?_⟩
  rw [h.count, if_neg (by omega), if_neg (by omega)]

theorem Inv.take (h : Inv s) {lockedVer butex : ℕ} (hver : s.hasVersion ver = true)
    (hfirst : s.butex = s.firstVer) (hle : s.lockedVer ≤ lockedVer)
    (hbutex : butex = lockedVer ∨ butex = lockedVer + 1) (t : ℕ) :
    Inv { s with lockedVer := lockedVer, butex := butex, holders := t :: s.holders } := by
  obtain ⟨hlive, hholders⟩ := h.unlocked hver hfirst
  refine ⟨h.threads, ?_, ⟨.inl (h.unheld hholders).1, fun hnil => (nomatch hnil),
    h.errors.account, h.errors.held⟩, h.slot.grow hlive hle, h.past, h.retired⟩
  refine .locked (Nat.lt_of_lt_of_le hlive hle) ?_ t (by rw [hholders])
  rcases hbutex with hbutex | hbutex
  · exact .inl hbutex
  · exact .inr (.inl hbutex)

theorem Inv.mark (h : Inv s) {butex : ℕ} (hver : s.hasVersion ver = true)
    (hfirst : s.butex ≠ s.firstVer) (hbutex : butex = s.contendedVer ∨ butex = s.unlockableVer) :
    Inv { s with butex := butex } := by
  obtain ⟨hlive, t, ht⟩ := h.locked hver hfirst
  exact { h with word := .locked hlive (.inr hbutex) t ht }

theorem le_lockedVerFor (s : State) (range : ℤ) : s.lockedVer ≤ s.lockedVerFor range := by
  unfold lockedVerFor
  split
  · exact Nat.le_refl _
  · split
    · exact Nat.le_refl _
    · omega

/-! ## The functions -/

/-- Most functions leave the slot alone unless the id exists and the word is as they need it. -/
theorem of_guards {P : State × Errno → Prop} {p : Prop} [Decidable p] {x : State × Errno} {e e' : Errno}
    (h : P (s, e)) (h' : P (s, e')) (hx : s.hasVersion ver = true → ¬ p → P x) :
    P (if !s.hasVersion ver then (s, e) else if p then (s, e') else x) := by
  cases hver : s.hasVersion ver with
  | false => exact h
  | true =>
    rw [if_neg (by decide)]
    split
    next => exact h'
    next hp => exact hx hver hp

variable {t : ℕ}

section

variable (h : Inv s)
include h

section

variable (hidle : s.idle t = true)
include hidle

theorem Inv.lockSection (ver : ℕ) (range : ℤ)
    (everContended : Bool) : Inv (s.lockSection t ver range everContended).1 := by
  unfold State.lockSection
  by_cases hver : s.hasVersion ver = true
  · rw [if_pos hver]
    by_cases hfirst : s.butex = s.firstVer
    · rw [if_pos hfirst]
      refine h.take hver hfirst (s.le_lockedVerFor range) ?_ t
      cases everContended with
      | false => exact .inl rfl
      | true => exact .inr rfl
    · split_ifs with hunlock
      · exact (h.mark hver hfirst (.inl rfl)).push_quiet rfl hidle
      · exact h
  · rw [if_neg hver]
    exact h

omit hidle in
theorem Inv.trylock (t ver : ℕ) : Inv (s.trylock t ver).1 := by
  unfold State.trylock
  refine of_guards (P := fun r => Inv r.1) h h fun hver hne => ?_
  have hfirst := not_not.1 hne
  exact h.take hver hfirst (Nat.le_refl _) (.inl rfl) t

theorem Inv.error2 (ver : ℕ) (errorCode : ℤ) (errorText : String) :
    Inv (s.record (.error2 ver errorCode errorText) (s.error2 t ⟨ver, errorCode, errorText⟩)) := by
  cases hver : s.hasVersion ver with
  | false => simpa [record, State.error2, hver] using h
  | true =>
    simp only [record, State.error2, hver, Bool.not_true, if_true, Bool.false_eq_true, if_false]
    generalize (⟨ver, errorCode, errorText⟩ : PendingError) = e
    by_cases hfirst : s.butex = s.firstVer
    · -- The error is passed to `on_error` at once, and all before have been.
      rw [if_pos hfirst]
      obtain ⟨hlive, hholders⟩ := h.unlocked hver hfirst
      obtain ⟨hhands, hall⟩ := h.unheld hholders
      refine ⟨threads_push h.threads hidle, .locked hlive (.inl rfl) t ?_, ⟨?_, ?_, ?_,
        h.errors.held⟩, h.slot, h.past, h.retired⟩
      · show t :: s.holders = [t]
        rw [hholders]
      · refine .inr ⟨t, e, ?_, ?_⟩
        · show (t, e) :: s.hands = _
          rw [hhands]
        · show t :: s.holders = [t]
          rw [hholders]
      · exact fun hnil => nomatch hnil
      · show s.delivered.map error ++ (e :: s.hands.map Prod.snd ++ s.pendingQ.toList) = s.issued ++ [e]
        rw [hall, hhands, h.errors.unheld hholders]
        rfl
    · rw [if_neg hfirst]
      obtain ⟨-, t', ht'⟩ := h.locked hver hfirst
      refine { h with errors := ⟨h.errors.inHand, fun hnil => ?_, ?_, h.errors.held⟩ }
      · rw [hnil] at ht'
        cases ht'
      · show s.delivered.map error ++ (s.hands.map Prod.snd ++ (s.pendingQ.push e).toList) = s.issued ++ [e]
        rw [SmallQueue.toList_push, ← h.errors.account, append_assoc, append_assoc]

theorem Inv.aboutToDestroy (ver : ℕ) : Inv (s.aboutToDestroy t ver).1 := by
  refine of_guards (P := fun r => Inv r.1) h h fun hver hfirst => ?_
  have hmark := h.mark hver hfirst (.inr rfl)
  split_ifs with hcontended
  · exact hmark.push_quiet rfl hidle
  · exact hmark

omit hidle in
theorem Inv.holder (hver : s.hasVersion ver = true) (hfirst : s.butex ≠ s.firstVer)
    (hallowed : (!s.hasVersion ver || s.holders.contains t) = true) : s.holders = [t] := by
  obtain ⟨-, t', ht'⟩ := h.locked hver hfirst
  rw [hver, ht'] at hallowed
  have : t = t' := by simpa using hallowed
  rw [ht', this]

theorem Inv.unlock (hallowed : s.allowed t (.unlock ver) = true) : Inv (s.unlock t ver).1 := by
  refine of_guards (P := fun r => Inv r.1) h h fun hver hfirst => ?_
  have hholders := h.holder hver hfirst hallowed
  have hhands := h.hands_of_idle hidle hholders
  obtain ⟨hlive, -⟩ := h.locked hver hfirst
  have haccount := h.errors.account
  rw [hhands] at haccount
  cases hpop : s.pendingQ.pop with
  | some p =>
    obtain ⟨front, pendingQ⟩ := p
    -- The lock is kept for `on_error`.
    rw [SmallQueue.toList_of_pop hpop] at haccount
    refine { h with threads := threads_push h.threads hidle, errors := ⟨.inr ⟨t, front, ?_, hholders⟩,
      fun hnil => ?_, ?_, h.errors.held⟩ }
    · show (t, front) :: s.hands = _
      rw [hhands]
    · change s.holders = [] at hnil
      rw [hnil] at hholders
      cases hholders
    · show s.delivered.map error ++ (front :: s.hands.map Prod.snd ++ pendingQ.toList) = s.issued
      rw [hhands]
      exact haccount
  | none =>
    have hqueue := SmallQueue.toList_of_pop_none hpop
    have hreleased : Inv { s with butex := s.firstVer, holders := s.holders.erase t } := by
      have hnil : s.holders.erase t = [] := by
        rw [hholders, erase_cons_head]
      exact { h with word := .unlocked hlive rfl hnil, errors := ⟨.inl hhands, fun _ => hqueue,
        h.errors.account, h.errors.held⟩ }
    split_ifs with hcontended
    · exact hreleased.push_quiet rfl hidle
    · exact hreleased

omit hidle in
theorem Inv.delivered : Delivered s.issued s.delivered := by
  refine ⟨?_, h.errors.held⟩
  rw [← h.errors.account]
  exact prefix_append _ _

omit hidle in
theorem Inv.destroy (op : Op) (hlive : s.firstVer < s.lockedVer)
    (hhands : s.hands = []) (hidle : s.idle op.thread = true) (hfin : op.isFinishing = true)
    (hhand : op.hand = none) (pendingQ : SmallQueue PendingError 2)
    (hqueue : pendingQ.toList = []) (hholders : s.holders.erase t = []) : Inv (s.record (.cancel 0)
      ({ s.retire with pendingQ := pendingQ, holders := s.holders.erase t }.push op, .running)) := by
  have hend : s.lockedVer < s.endVer := by
    unfold endVer unlockableVer
    omega
  have hnone : (op :: s.ops).filterMap hand = [] := by
    rw [filterMap_cons_none hhand]
    exact hhands
  refine ⟨threads_push h.threads hidle, .dead rfl rfl hholders, ⟨.inl hnone, fun _ => hqueue,
    ?_, fun d hd => (nomatch hd)⟩, ⟨fun hlt => absurd hlt (Nat.lt_irrefl _), ?_⟩, ?_, ?_⟩
  · show [] ++ (((op :: s.ops).filterMap hand).map Prod.snd ++ pendingQ.toList) = []
    rw [hnone, hqueue]
    rfl
  · show (op :: s.ops).countP isFinishing = if s.inUse ∧ s.endVer = s.endVer then 1 else 0
    rw [countP_cons_of_pos hfin, h.slot.count, if_neg (by omega), if_pos ⟨h.slot.live hlive, rfl⟩]
  · exact forall_mem_cons.2 ⟨h.delivered, h.past⟩
  · intro ver hver
    show ver < s.endVer
    rcases mem_append.1 hver with hver | hver
    · have := mem_range'_1.1 hver
      omega
    · have := h.retired ver hver
      omega

theorem Inv.unlockAndDestroy (hallowed : s.allowed t (.unlockAndDestroy ver) = true) :
    Inv (s.record (.unlockAndDestroy ver) (s.unlockAndDestroy t ver)) := by
  refine of_guards (P := fun r => Inv (s.record _ r)) h h fun hver hfirst => ?_
  have hholders := h.holder hver hfirst hallowed
  refine h.destroy (.destroyed t) (h.locked hver hfirst).1 (h.hands_of_idle hidle hholders) hidle
    rfl rfl _ (SmallQueue.toList_clear _) ?_
  rw [hholders, erase_cons_head]

theorem Inv.cancel (ver : ℕ) : Inv (s.record (.cancel ver) (s.cancel t ver)) := by
  refine of_guards (P := fun r => Inv (s.record _ r)) h h fun hver hne => ?_
  have hfirst := not_not.1 hne
  obtain ⟨hlive, hholders⟩ := h.unlocked hver hfirst
  have hnil : s.holders.erase t = s.holders := by rw [hholders, erase_nil]
  have hdestroy := h.destroy (.returning t) hlive (h.unheld hholders).1 hidle rfl rfl s.pendingQ
    (h.errors.unheld hholders) (hnil.trans hholders)
  rw [hnil] at hdestroy
  exact hdestroy

omit hidle in
theorem Inv.create (hfree : s.inUse = false) (range : ℤ) : Inv (s.create range).1 := by
  unfold State.create
  by_cases hrange : range < 1 ∨ idMaxRange < range
  · rw [if_pos hrange]
    exact h
  · rw [if_neg hrange]
    obtain ⟨hver, hbutex, hholders⟩ : s.firstVer = s.lockedVer ∧ s.butex = s.firstVer ∧ s.holders = [] := by
      cases h.word with
      | dead h₁ h₂ h₃ => exact ⟨h₁, h₂, h₃⟩
      | unlocked h₁ | locked h₁ => exact absurd (h.slot.live h₁) (by rw [hfree]; decide)
    have hle : s.firstVer ≤ if s.butex = 0 then 1 else s.butex := by
      split <;> omega
    generalize (if s.butex = 0 then 1 else s.butex) = butex at hle
    have hlt : butex < butex + range.toNat := by omega
    refine ⟨h.threads, .unlocked hlt rfl hholders, h.errors, ⟨fun _ => rfl, ?_⟩, h.past,
      fun ver hmem => Nat.lt_of_lt_of_le (h.retired ver hmem) hle⟩
    show s.ops.countP isFinishing = if true = true ∧ butex = butex + range.toNat then 1 else 0
    rw [h.slot.count, hfree, if_neg (by simp), if_neg (by omega)]

theorem Inv.call {c : Call} (hallowed : s.allowed t c = true) : Inv (s.record c (s.call t c)) := by
  cases c with
  | lock ver range => exact h.lockSection hidle ver range false
  | trylock ver => exact h.trylock t ver
  | error2 ver errorCode errorText => exact h.error2 hidle ver errorCode errorText
  | aboutToDestroy ver => exact h.aboutToDestroy hidle ver
  | unlock => exact h.unlock hidle hallowed
  | unlockAndDestroy => exact h.unlockAndDestroy hidle hallowed
  | cancel ver => exact h.cancel hidle ver

end

end

/-! ## The steps behind a section -/

variable {k : ℕ}

section

variable (h : Inv s)
include h

theorem Inv.hands_of_onError {e : PendingError} (hk : s.ops[k]? = some (.onError t e)) :
    s.hands = [(t, e)] ∧ (replaceAt s.ops k []).filterMap hand = [] := by
  obtain ⟨pre, post, hops, hnew⟩ := exists_replaceAt hk
  have hhands : s.hands = pre.filterMap hand ++ (t, e) :: post.filterMap hand := by
    rw [State.hands, hops, filterMap_append]
    rfl
  have hlen : s.hands.length ≤ 1 := by
    rcases h.errors.inHand with hnil | ⟨t', e', hone, -⟩
    · rw [hnil]
      exact Nat.zero_le _
    · rw [hone]
      exact Nat.le_refl _
  rw [hhands, length_append, length_cons] at hlen
  have hpre : pre.filterMap hand = [] := eq_nil_of_length_eq_zero (by omega)
  have hpost : post.filterMap hand = [] := eq_nil_of_length_eq_zero (by omega)
  rw [hhands, hnew, nil_append, filterMap_append, hpre, hpost]
  exact ⟨rfl, rfl⟩

theorem Inv.deliver {e : PendingError} (hk : s.ops[k]? = some (.onError t e)) :
    Inv ((s.remove k).callOnError t e) := by
  obtain ⟨hhands, hnone⟩ := h.hands_of_onError hk
  have hholders : s.holders = [t] := by
    rcases h.errors.inHand with hnil | ⟨t', e', hone, ht'⟩
    · rw [hhands] at hnil
      cases hnil
    · rw [hhands] at hone
      cases hone
      exact ht'
  refine ⟨h.threads_removed hk, h.word, ⟨.inl hnone, h.errors.unheld, ?_, ?_⟩, ?_, h.past, h.retired⟩
  · have haccount := h.errors.account
    rw [hhands] at haccount
    show (s.delivered ++ [_]).map error
      ++ (((replaceAt s.ops k []).filterMap hand).map Prod.snd ++ s.pendingQ.toList) = s.issued
    rw [hnone, map_append, append_assoc]
    exact haccount
  · exact forall_mem_append.2 ⟨h.errors.held, forall_mem_singleton.2 hholders⟩
  · have hcount := @countP_replaceAt _ s.ops [] k _ hk isFinishing
    have hslot := h.slot
    show Slot _ _ _ ((replaceAt s.ops k []).countP isFinishing)
    rw [show (replaceAt s.ops k []).countP isFinishing = s.ops.countP isFinishing from
      hcount]
    exact hslot

theorem Inv.returned (hk : s.ops[k]? = some (.returning t)) : Inv { s.remove k with inUse := false } := by
  have hcount := @countP_replaceAt _ s.ops [] k _ hk isFinishing
  rw [countP_nil, h.slot.count] at hcount
  change _ + 1 = _ at hcount
  obtain ⟨pre, post, hops, hnew⟩ := exists_replaceAt hk
  refine ⟨h.threads_removed hk, h.word, ?_, ⟨fun hlive => ?_, ?_⟩, h.past, h.retired⟩
  · have hhands : (replaceAt s.ops k []).filterMap hand = s.hands := by
      rw [State.hands, hnew, hops, nil_append, filterMap_append, filterMap_append]
      rfl
    show Errors _ ((replaceAt s.ops k []).filterMap hand) _ _ _
    rw [hhands]
    exact h.errors
  · change s.firstVer < s.lockedVer at hlive
    rw [if_neg (by omega)] at hcount
    omega
  · show (replaceAt s.ops k []).countP isFinishing = if false = true ∧ _ then 1 else 0
    rw [if_neg (by simp)]
    split at hcount
    · omega
    · omega

theorem Inv.destroyed (hk : s.ops[k]? = some (.destroyed t)) :
    Inv ((s.remove k).butexWakeAll.push (.returning t)) := by
  have hcount := @countP_replaceAt _ s.ops [] k _ hk isFinishing
  rw [countP_nil] at hcount
  change _ + 1 = _ at hcount
  obtain ⟨pre, post, hops, hnew⟩ := exists_replaceAt hk
  have hmoved : Inv { s with ops := .returning t :: replaceAt s.ops k [] } := by
    refine h.of_ops ?_ ?_ ?_
    · have hidle : (s.remove k).idle t = true := h.idle_removed hk
      exact threads_push (s := s.remove k) (h.threads_removed hk) hidle
    · rw [State.hands, hnew, hops]
      simp [filterMap_append, filterMap_cons, hand]
    · rw [countP_cons_of_pos rfl]
      omega
  exact hmoved.wakeAll

theorem Inv.butexWake (hidle : s.idle t = true) (j : ℕ) : Inv (s.butexWake t j) := by
  unfold State.butexWake
  split
  · split
    next t' ver range hj =>
      -- The waiter goes on as the same thread.
      obtain ⟨pre, post, hops, hnew⟩ := exists_replaceAt hj
      refine h.of_ops ?_ ?_ ?_
      · have hthreads := h.threads
        rw [hops] at hthreads
        rw [hnew, map_append]
        rw [map_append] at hthreads
        exact hthreads
      · rw [State.hands, hnew, hops]
        simp [filterMap_append, filterMap_cons, hand]
      · rw [hnew, hops]
        simp [countP_append, isFinishing]
    · exact h.push_quiet rfl hidle
  · exact h

theorem Inv.goOn {op : Op} (hk : s.ops[k]? = some op) (j : ℕ) : Inv ((s.remove k).goOn op j) := by
  have hidle := h.idle_removed hk
  cases op with
  | waiting =>
    have hremoved := h.remove_quiet hk rfl
    rw [State.goOn, butexWait]
    split
    all_goals exact hremoved.push_quiet rfl hidle
  | blocked => exact (h.remove_quiet hk rfl).push_quiet rfl hidle
  | retry t ver range => exact (h.remove_quiet hk rfl).lockSection hidle ver range true
  | onError => exact h.deliver hk
  | wakeOne => exact (h.remove_quiet hk rfl).butexWake hidle j
  | wakeAll => exact (h.remove_quiet hk rfl).wakeAll
  | destroyed => exact h.destroyed hk
  | returning => exact h.returned hk

/-- **Every step keeps the invariant.** -/
theorem Inv.step (i : Input) : Inv (s.step i) := by
  cases i with
  | create range =>
    rw [State.step]
    cases hfree : s.inUse with
    | false => exact h.create hfree range
    | true => exact h
  | call =>
    rw [State.step]
    split
    next hcall =>
      rw [Bool.and_eq_true] at hcall
      exact h.call hcall.1 hcall.2
    · exact h
  | goOn k j =>
    rw [State.step]
    cases hk : s.ops[k]? with
    | none => exact h
    | some => exact h.goOn hk j

end

/-! ## A bthread_id is an exclusive lock that delivers errors once -/

end Brpc.BthreadId.State
