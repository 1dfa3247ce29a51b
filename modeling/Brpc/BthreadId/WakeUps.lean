/-
# No wake-up is lost

As long as lockers are blocked, the word is `contended_ver`, or one of them has been woken and not
gone on yet, or a thread is about to wake one (`Wake.token`).  So in every run whose steps meet
`Careful` no locker stays blocked on an id that is unlocked, unless one is being woken:
`no_lost_wakeup`.
-/

import Brpc.BthreadId.Sections

namespace Brpc.BthreadId

open Lib List Op

/-- `unlock` is about to wake a waiter. -/
def Op.isWakeOne : Op → Bool
  | wakeOne _ => true
  | _ => false

/-- `about_to_destroy` is about to wake all waiters. -/
def Op.isWakeAll : Op → Bool
  | wakeAll _ => true
  | _ => false

/-- `unlock_and_destroy` is about to wake all waiters. -/
def Op.isDestroyed : Op → Bool
  | destroyed _ => true
  | _ => false

/-- A locker of the id has been woken. -/
def Op.isWoken (firstVer lockedVer : ℕ) : Op → Bool
  | retry _ ver _ woken => woken && firstVer ≤ ver && ver < lockedVer
  | _ => false

/-- The value a locker is about to wait for. -/
def Op.expected : Op → Option ℕ
  | waiting _ _ _ e => some e
  | _ => none

/-- A locker about to wait blocks only on `contended_ver`; blocked lockers are those of the id;
only its holder has marked the id. -/
def Op.Ok (firstVer lockedVer : ℕ) (holders : List ℕ) : Op → Prop
  | waiting _ ver _ e => e ≤ lockedVer + 1 ∧ e ≠ lockedVer ∧ e ≠ firstVer
      ∧ (firstVer ≤ ver ∧ ver < lockedVer ∨ e < firstVer)
  | blocked _ ver _ => firstVer < lockedVer → firstVer ≤ ver ∧ ver < lockedVer
  | wakeAll t => t ∈ holders
  | _ => True

namespace State

/-- What is known of the lockers that wait, up to a token `extra` that is in hand. -/
structure Wake (firstVer lockedVer butex : ℕ) (holders : List ℕ) (ops : List Op) (extra : Prop) : Prop where
  ok : ∀ op ∈ ops, op.Ok firstVer lockedVer holders
  /-- Lockers of a destroyed id are still to be woken. -/
  destroyed : firstVer = lockedVer → ops.any isBlocked = true → ops.any isDestroyed = true
  /-- Somebody wakes the blocked lockers. -/
  token : firstVer < lockedVer → ops.any isBlocked = true →
    butex = lockedVer + 1 ∨ ops.any (isWoken firstVer lockedVer) = true
      ∨ ops.any isWakeOne = true ∨ ops.any isWakeAll = true ∨ extra
  /-- All are woken when the id is marked as about to be destroyed. -/
  unlockable : firstVer < lockedVer → butex = lockedVer + 2 → ops.any isBlocked = true → ops.any isWakeAll = true

variable {firstVer lockedVer butex : ℕ} {holders : List ℕ} {ops : List Op} {extra extra' : Prop}

theorem wake_init : Wake 0 0 0 [] [] False where
  ok _ h := nomatch h
  destroyed _ h := nomatch h
  token h _ := absurd h (Nat.lt_irrefl _)
  unlockable h _ _ := absurd h (Nat.lt_irrefl _)

/-! ## Calls that come and go -/

section

variable (h : Wake firstVer lockedVer butex holders ops extra)
include h

theorem Wake.push (op : Op) (hok : op.Ok firstVer lockedVer holders) (hblocked : op.isBlocked = false)
    (hextra : extra → op.isWoken firstVer lockedVer = true ∨ op.isWakeOne = true ∨ op.isWakeAll = true ∨ extra') :
    Wake firstVer lockedVer butex holders (op :: ops) extra' := by
  refine ⟨forall_mem_cons.2 ⟨hok, h.ok⟩, fun hdead => ?_, fun hlive => ?_, fun hlive hmark => ?_⟩
  · rw [any_cons, any_cons, hblocked, Bool.false_or, Bool.or_eq_true]
    exact fun hb => .inr (h.destroyed hdead hb)
  · rw [any_cons, hblocked, Bool.false_or]
    intro hb
    simp only [any_cons, Bool.or_eq_true]
    rcases h.token hlive hb with hmark | hwoken | hone | hall | hex
    · exact .inl hmark
    · exact .inr (.inl (.inr hwoken))
    · exact .inr (.inr (.inl (.inr hone)))
    · exact .inr (.inr (.inr (.inl (.inr hall))))
    · rcases hextra hex with hop | hop | hop | hop
      · exact .inr (.inl (.inl hop))
      · exact .inr (.inr (.inl (.inl hop)))
      · exact .inr (.inr (.inr (.inl (.inl hop))))
      · exact .inr (.inr (.inr (.inr hop)))
  · rw [any_cons, any_cons, hblocked, Bool.false_or, Bool.or_eq_true]
    exact fun hb => .inr (h.unlockable hlive hmark hb)

theorem Wake.remove {k : ℕ} {op : Op}
    (hk : ops[k]? = some op) (hall : op.isWakeAll = false) (hdestroyed : op.isDestroyed = false) :
    Wake firstVer lockedVer butex holders (replaceAt ops k [])
      (extra ∨ op.isWoken firstVer lockedVer = true ∨ op.isWakeOne = true) := by
  have hany : ∀ p : Op → Bool, ops.any p = (p op || (replaceAt ops k []).any p) := fun p =>
    (@any_replaceAt _ ops [] k op hk p).1
  have hb : (replaceAt ops k []).any isBlocked = true → ops.any isBlocked = true := by
    intro hb
    rw [hany, hb, Bool.or_true]
  refine ⟨forall_mem_replaceAt h.ok (fun _ hx => nomatch hx), fun hdead hblocked => ?_,
    fun hlive hblocked => ?_, fun hlive hmark hblocked => ?_⟩
  · have := h.destroyed hdead (hb hblocked)
    rwa [hany, hdestroyed, Bool.false_or] at this
  · have := h.token hlive (hb hblocked)
    rw [hany (isWoken _ _), hany isWakeOne, hany isWakeAll, hall] at this
    simp only [Bool.or_eq_true, Bool.false_eq_true, false_or] at this
    tauto
  · have := h.unlockable hlive hmark (hb hblocked)
    rwa [hany, hall, Bool.false_or] at this

theorem Wake.weaken (hextra : extra → butex = lockedVer + 2 ∨ extra') :
    Wake firstVer lockedVer butex holders ops extra' := by
  refine { h with token := fun hlive hb => ?_ }
  rcases h.token hlive hb with h₁ | h₂ | h₃ | h₄ | hex
  · exact .inl h₁
  · exact .inr (.inl h₂)
  · exact .inr (.inr (.inl h₃))
  · exact .inr (.inr (.inr (.inl h₄)))
  · rcases hextra hex with hmark | hex
    · exact .inr (.inr (.inr (.inl (h.unlockable hlive hmark hb))))
    · exact .inr (.inr (.inr (.inr hex)))

end

theorem any_isBlocked_wake (ops : List Op) : (ops.map wake).any isBlocked = false := by
  rw [any_map, any_eq_false]
  intro op _
  cases op <;> simp [wake, isBlocked]

theorem Wake.of_none (hok : ∀ op ∈ ops, op.Ok firstVer lockedVer holders)
    (hnone : ops.any isBlocked = false) : Wake firstVer lockedVer butex holders ops extra where
  ok := hok
  destroyed _ hb := by rw [hnone] at hb; cases hb
  token _ hb := by rw [hnone] at hb; cases hb
  unlockable _ _ hb := by rw [hnone] at hb; cases hb

theorem ok_wake {op : Op} (h : op.Ok firstVer lockedVer holders) : op.wake.Ok firstVer lockedVer holders := by
  cases op with
  | blocked => trivial
  | _ => exact h

/-! ## The word -/

section

variable (h : Wake firstVer lockedVer butex holders ops extra)
include h

/-- The range grows as a thread takes the id: nobody may be about to wait for the new
`locked_ver`. -/
theorem Wake.take {lockedVer' butex' t : ℕ}
    (hlive : firstVer < lockedVer) (hfirst : butex = firstVer) (hle : lockedVer ≤ lockedVer')
    (hgrow : ∀ op ∈ ops, op.expected ≠ some lockedVer')
    (hbutex : butex' = lockedVer' + 1 ∨ butex' = lockedVer' ∧ (extra → extra')) :
    Wake firstVer lockedVer' butex' (t :: holders) ops extra' := by
  refine ⟨fun op hop => ?_, fun hdead => ?_, fun _ hb => ?_, fun _ hmark => ?_⟩
  · have hok := h.ok op hop
    have hne := hgrow op hop
    cases op with
    | waiting t ver range e =>
      obtain ⟨h₁, h₂, h₃, h₄⟩ := hok
      have hne' : e ≠ lockedVer' := fun heq => hne (congrArg some heq)
      exact ⟨by omega, hne', h₃, by omega⟩
    | blocked =>
      have := hok hlive
      exact fun _ => by omega
    | wakeAll => exact mem_cons_of_mem _ hok
    | _ => trivial
  · omega
  · rcases hbutex with hmark | ⟨-, hextra⟩
    · exact .inl hmark
    · rcases h.token hlive hb with hmark | hwoken | hone | hall | hex
      · omega
      · refine .inr (.inl ?_)
        obtain ⟨op, hop, hw⟩ := any_eq_true.1 hwoken
        refine any_eq_true.2 ⟨op, hop, ?_⟩
        cases op with
        | retry =>
          simp only [isWoken, Bool.and_eq_true, decide_eq_true_eq] at hw ⊢
          exact ⟨hw.1, by omega⟩
        | _ => cases hw
      · exact .inr (.inr (.inl hone))
      · exact .inr (.inr (.inr (.inl hall)))
      · exact .inr (.inr (.inr (.inr (hextra hex))))
  · omega

theorem Wake.contend : Wake firstVer lockedVer (lockedVer + 1) holders ops extra' :=
  ⟨h.ok, h.destroyed, fun _ _ => .inl rfl, fun _ hmark => by omega⟩

theorem Wake.mark (hall : ops.any isBlocked = true → ops.any isWakeAll = true) :
    Wake firstVer lockedVer (lockedVer + 2) holders ops extra' :=
  ⟨h.ok, h.destroyed, fun _ hb => .inr (.inr (.inr (.inl (hall hb)))), fun _ _ hb => hall hb⟩

omit h in
theorem ok_unheld {op : Op} (h : op.Ok firstVer lockedVer holders) (hall : op.isWakeAll = false)
    (holders' : List ℕ) : op.Ok firstVer lockedVer holders' := by
  cases op with
  | wakeAll => cases hall
  | _ => exact h

omit h in
theorem Wake.release (h : Wake firstVer lockedVer butex holders ops False)
    (hall : ops.any isWakeAll = false) (holders' : List ℕ) :
    Wake firstVer lockedVer firstVer holders' ops (butex = lockedVer + 1) := by
  refine ⟨fun op hop => ok_unheld (h.ok op hop) ?_ _, h.destroyed, fun hlive hb => ?_, fun hlive hmark => ?_⟩
  · exact Bool.eq_false_iff.2 (any_eq_false.1 hall op hop)
  · rcases h.token hlive hb with hmark | hwoken | hone | hall' | hfalse
    · exact .inr (.inr (.inr (.inr hmark)))
    · exact .inr (.inl hwoken)
    · exact .inr (.inr (.inl hone))
    · exact .inr (.inr (.inr (.inl hall')))
    · exact hfalse.elim
  · omega

theorem Wake.retire (hall : ops.any isWakeAll = false) {ver : ℕ} (hver : lockedVer + 3 ≤ ver)
    (hdestroyed : ops.any isBlocked = true → ops.any isDestroyed = true)
    (holders' : List ℕ) : Wake ver ver ver holders' ops extra' := by
  refine ⟨fun op hop => ?_, fun _ => hdestroyed, fun hlt => absurd hlt (Nat.lt_irrefl _),
    fun hlt => absurd hlt (Nat.lt_irrefl _)⟩
  have hok := h.ok op hop
  cases op with
  | waiting =>
    obtain ⟨h₁, -, -, -⟩ := hok
    exact ⟨by omega, by omega, by omega, by omega⟩
  | blocked => exact fun hlt => absurd hlt (Nat.lt_irrefl _)
  | wakeAll =>
    have := any_eq_false.1 hall _ hop
    exact absurd rfl this
  | _ => trivial

end

theorem Wake.create (h : Wake firstVer firstVer butex holders ops extra)
    (hnone : ops.any isBlocked = false) {ver lockedVer' : ℕ} (hle : firstVer ≤ ver)
    (hlive : ver < lockedVer') : Wake ver lockedVer' ver holders ops extra' := by
  refine .of_none (fun op hop => ?_) hnone
  have hok := h.ok op hop
  cases op with
  | waiting =>
    obtain ⟨-, -, -, h₄⟩ := hok
    exact ⟨by omega, by omega, by omega, by omega⟩
  | blocked => exact absurd rfl (any_eq_false.1 hnone _ hop)
  | wakeAll => exact hok
  | _ => trivial

end State
end Brpc.BthreadId

/-! ## Every careful step keeps the invariant -/

namespace Brpc.BthreadId.State

open Lib List Wake Op

variable {s : State} {extra : Prop}

/-- The invariant about the lockers of a slot. -/
def Waking (s : State) (extra : Prop) : Prop :=
  Wake s.firstVer s.lockedVer s.butex s.holders s.ops extra

/-- If the lock takes the id, nobody is about to wait for the `locked_ver` it sets. -/
def growsPast (s : State) (ver : ℕ) (range : ℤ) : Bool :=
  !s.hasVersion ver || s.butex != s.firstVer
    || s.ops.all fun op => op.expected != some (s.lockedVerFor range)

/-- The condition on a step: the holder marks an id as about to be destroyed only with the word at
`contended_ver` if lockers are blocked, an id is not cancelled while lockers are blocked, and the
range does not grow to a value a locker is about to wait for. -/
def careful (s : State) : Input → Bool
  | .create _ => true
  | .call t (.aboutToDestroy ver) =>
    !s.hasVersion ver || s.butex == s.firstVer
      || s.holders.contains t && (s.butex == s.contendedVer || !s.ops.any isBlocked)
  | .call _ (.cancel ver) => !s.hasVersion ver || !s.ops.any isBlocked
  | .call _ (.lock ver range) => s.growsPast ver range
  | .call _ _ => true
  | .goOn k _ =>
    match s.ops[k]? with
    | some (.retry _ ver range _) => s.growsPast ver range
    | _ => true

/-! ## Sections -/

variable {t ver : ℕ}

theorem growsPast_iff {range : ℤ} : s.growsPast ver range = true ↔ s.hasVersion ver = true →
    s.butex = s.firstVer → ∀ op ∈ s.ops, op.expected ≠ some (s.lockedVerFor range) := by
  simp [growsPast, or_assoc, imp_iff_not_or]

theorem Waking.expected_ne (h : s.Waking extra) : ∀ op ∈ s.ops, op.expected ≠ some s.lockedVer := by
  intro op hop
  have hok := h.ok op hop
  cases op with
  | waiting =>
    intro heq
    exact hok.2.1 (Option.some.inj heq)
  | _ => exact fun heq => nomatch heq

theorem Waking.lockSection (h : s.Waking extra) (hinv : Inv s) {range : ℤ}
    {everContended : Bool} (hgrow : s.growsPast ver range = true)
    (hextra : extra → everContended = true ∧ s.hasVersion ver = true) :
    Waking (s.lockSection t ver range everContended).1 False := by
  unfold State.lockSection
  by_cases hver : s.hasVersion ver = true
  · rw [if_pos hver]
    have hver' := hasVersion_iff.1 hver
    by_cases hfirst : s.butex = s.firstVer
    · rw [if_pos hfirst]
      refine take h (hinv.unlocked hver hfirst).1 hfirst (s.le_lockedVerFor range)
        (growsPast_iff.1 hgrow hver hfirst) ?_
      cases everContended with
      | true => exact .inl rfl
      | false => exact .inr ⟨rfl, fun hex => absurd (hextra hex).1 (by decide)⟩
    · split_ifs with hunlock
      · -- The locker waits, and the word says so.
        refine Wake.push (Wake.contend h) _ ?_ rfl (fun hfalse : False => hfalse.elim)
        refine ⟨Nat.le_refl _, ?_, ?_, .inl hver'⟩
        · show s.lockedVer + 1 ≠ s.lockedVer
          omega
        · show s.lockedVer + 1 ≠ s.firstVer
          omega
      · exact weaken h fun _ => .inl (not_not.1 hunlock)
  · rw [if_neg hver]
    exact weaken h fun hex => absurd (hextra hex).2 hver

section

variable (h : s.Waking False)
include h

theorem Waking.trylock (hinv : Inv s) (t ver : ℕ) : Waking (s.trylock t ver).1 False := by
  refine of_guards (P := fun r => Waking r.1 False) h h fun hver hne => ?_
  have hfirst := not_not.1 hne
  exact take h (hinv.unlocked hver hfirst).1 hfirst (Nat.le_refl _) h.expected_ne (.inr ⟨rfl, id⟩)

theorem Waking.error2 (hinv : Inv s) (t : ℕ) (e : PendingError) : Waking (s.error2 t e).1 False := by
  unfold State.error2
  cases hver : s.hasVersion e.id with
  | false => exact h
  | true =>
    rw [if_neg (by decide)]
    split_ifs with hfirst
    · have htake : Wake s.firstVer s.lockedVer s.lockedVer (t :: s.holders) s.ops False :=
        take h (hinv.unlocked hver hfirst).1 hfirst (Nat.le_refl _) h.expected_ne (.inr ⟨rfl, id⟩)
      exact htake.push (.onError t e) trivial rfl False.elim
    · exact h

omit h in
theorem Waking.no_wakeAll (h : s.Waking extra) {t : ℕ} (hidle : s.idle t = true)
    (hholders : ∀ t' ∈ s.holders, t' = t) : s.ops.any isWakeAll = false := by
  rw [any_eq_false]
  intro op hop hall
  cases op with
  | wakeAll t' => exact idle_iff.1 hidle _ hop (hholders t' (h.ok _ hop))
  | _ => cases hall

theorem Waking.aboutToDestroy (hcareful : s.careful (.call t (.aboutToDestroy ver)) = true) :
    Waking (s.aboutToDestroy t ver).1 False := by
  refine of_guards (P := fun r => Waking r.1 False) h h fun hver hfirst => ?_
  simp only [careful, hver, Bool.not_true, Bool.false_or, Bool.or_eq_true, beq_iff_eq, hfirst,
    false_or, Bool.and_eq_true, contains_iff_mem, Bool.not_eq_true'] at hcareful
  obtain ⟨hholder, hmark⟩ := hcareful
  by_cases hcontended : s.butex = s.contendedVer
  · -- All lockers are woken.
    rw [if_pos hcontended]
    have hpush : Wake s.firstVer s.lockedVer s.butex s.holders (.wakeAll t :: s.ops) False :=
      Wake.push h _ hholder rfl False.elim
    exact mark hpush fun _ => rfl
  · rw [if_neg hcontended]
    have hnone := hmark.resolve_left hcontended
    exact mark h fun hb => absurd hb (by rw [hnone]; decide)

theorem Waking.unlock (hinv : Inv s) (hidle : s.idle t = true)
    (hallowed : s.allowed t (.unlock ver) = true) : Waking (s.unlock t ver).1 False := by
  refine of_guards (P := fun r => Waking r.1 False) h h fun hver hfirst => ?_
  have hholders := hinv.holder hver hfirst hallowed
  cases hpop : s.pendingQ.pop with
  | some p => exact Wake.push h (.onError t p.1) trivial rfl False.elim
  | none =>
    have hall := h.no_wakeAll hidle (by rw [hholders]; simp)
    have hrelease := release h hall (s.holders.erase t)
    split_ifs with hcontended
    · exact hrelease.push (.wakeOne t) trivial rfl fun _ => .inr (.inl rfl)
    · exact hrelease.weaken fun heq => absurd heq hcontended

theorem Waking.unlockAndDestroy (hinv : Inv s)
    (hidle : s.idle t = true) (hallowed : s.allowed t (.unlockAndDestroy ver) = true) :
    Waking (s.unlockAndDestroy t ver).1 False := by
  refine of_guards (P := fun r => Waking r.1 False) h h fun hver hfirst => ?_
  have hholders := hinv.holder hver hfirst hallowed
  have hall := h.no_wakeAll hidle (by rw [hholders]; simp)
  have hpush : Wake s.firstVer s.lockedVer s.butex s.holders (.destroyed t :: s.ops) False :=
    Wake.push h _ trivial rfl False.elim
  exact hpush.retire hall (Nat.le_refl _) (fun _ => rfl) _

theorem Waking.cancel (hinv : Inv s)
    (hcareful : s.careful (.call t (.cancel ver)) = true) : Waking (s.cancel t ver).1 False := by
  refine of_guards (P := fun r => Waking r.1 False) h h fun hver hne => ?_
  have hfirst := not_not.1 hne
  have hnone : s.ops.any isBlocked = false := by
    simpa [careful, hver] using hcareful
  have hall : s.ops.any isWakeAll = false := by
    rw [any_eq_false]
    intro op hop hall
    cases op with
    | wakeAll t' =>
      have hmem : t' ∈ s.holders := h.ok _ hop
      rw [(hinv.unlocked hver hfirst).2] at hmem
      cases hmem
    | _ => cases hall
  have hretire : Wake s.endVer s.endVer s.endVer s.holders s.ops False :=
    Wake.retire h hall (Nat.le_refl _) (fun hb => absurd hb (by rw [hnone]; decide)) _
  exact hretire.push (.returning t) trivial rfl False.elim

theorem Waking.create (hinv : Inv s) (hfree : s.inUse = false) (range : ℤ) : Waking (s.create range).1 False := by
  unfold State.create
  by_cases hrange : range < 1 ∨ idMaxRange < range
  · rw [if_pos hrange]
    exact h
  · rw [if_neg hrange]
    have hcount := hinv.slot.count
    rw [hfree, if_neg (by simp), countP_eq_zero] at hcount
    have hver : s.firstVer = s.lockedVer := by
      cases hinv.word with
      | dead h₁ => exact h₁
      | unlocked h₁ | locked h₁ =>
        exact absurd (hinv.slot.live h₁) (by rw [hfree]; decide)
    have hnone : s.ops.any isBlocked = false := by
      rw [Bool.eq_false_iff]
      intro hb
      obtain ⟨op, hop, hdestroyed⟩ := any_eq_true.1 (h.destroyed hver hb)
      refine hcount op hop ?_
      cases op with
      | destroyed => rfl
      | _ => cases hdestroyed
    have hbutex : s.butex = s.firstVer := by
      cases hinv.word with
      | dead _ h₂ | unlocked _ h₂ => exact h₂
      | locked => omega
    have hle : s.firstVer ≤ if s.butex = 0 then 1 else s.butex := by
      split <;> omega
    have h' : Wake s.firstVer s.firstVer s.butex s.holders s.ops False := by
      have h' := h
      unfold Waking at h'
      rwa [← hver] at h'
    have hlt : (if s.butex = 0 then 1 else s.butex) < (if s.butex = 0 then 1 else s.butex) + range.toNat := by omega
    exact h'.create hnone hle hlt

end

/-! ## The steps behind a section -/

theorem Waking.butexWait (h : s.Waking False) (hinv : Inv s) {t ver e : ℕ} {range : ℤ}
    (hok : (waiting t ver range e).Ok s.firstVer s.lockedVer s.holders) :
    Waking (s.butexWait t ver range e) False := by
  unfold State.butexWait
  obtain ⟨h₁, h₂, h₃, h₄⟩ := hok
  split_ifs with hwait
  · obtain ⟨hlive, hmark⟩ : s.firstVer < s.lockedVer ∧ s.butex = s.lockedVer + 1 := by
      cases hinv.word with
      | dead | unlocked => omega
      | locked hlive => exact ⟨hlive, by omega⟩
    have hver : s.firstVer ≤ ver ∧ ver < s.lockedVer := by omega
    exact ⟨forall_mem_cons.2 ⟨fun _ => hver, h.ok⟩,
      fun hdead => absurd hdead (Nat.ne_of_lt hlive), fun _ _ => .inl hmark,
      fun _ hb => absurd (hmark.symm.trans hb) (Nat.ne_of_lt (Nat.lt_succ_self _))⟩
  · exact Wake.push h _ trivial rfl False.elim

theorem Waking.butexWake (h : s.Waking True) (t j : ℕ) : Waking (s.butexWake t j) False := by
  unfold State.butexWake
  cases hblocked : s.ops.any isBlocked with
  | false => exact of_none h.ok hblocked
  | true =>
    rw [if_pos rfl]
    split
    next t' ver range hj =>
      have hany : ∀ p : Op → Bool, p (.blocked t' ver range) = false → p (.retry t' ver range true)
          = false → (replaceAt s.ops j [.retry t' ver range true]).any p = s.ops.any p := by
        intro p hp hp'
        obtain ⟨h₁, h₂⟩ := @any_replaceAt _ s.ops [.retry t' ver range true] j _ hj p
        rw [h₁, h₂, any_cons, any_nil, hp, hp']
        rfl
      refine ⟨forall_mem_replaceAt h.ok (by simp [Ok]), fun hdead _ => ?_, fun hlive _ => ?_,
        fun hlive hmark _ => ?_⟩
      · exact (hany _ rfl rfl).trans (h.destroyed hdead hblocked)
      · refine .inr (.inl ?_)
        obtain ⟨hle, hlt⟩ := h.ok _ (mem_of_getElem? hj) hlive
        refine any_eq_true.2 ⟨.retry t' ver range true, ?_, ?_⟩
        · exact mem_replaceAt.2 (.inr (mem_singleton_self _))
        · simp [isWoken, hle, hlt]
      · exact (hany _ rfl rfl).trans (h.unlockable hlive hmark hblocked)
    · exact Wake.push h _ trivial rfl fun _ => .inr (.inl rfl)

theorem Waking.butexWakeAll (h : ∀ op ∈ s.ops, op.Ok s.firstVer s.lockedVer s.holders) :
    Waking s.butexWakeAll False := by
  refine of_none ?_ (any_isBlocked_wake _)
  intro op hop
  obtain ⟨op', hop', rfl⟩ := mem_map.1 hop
  exact ok_wake (h op' hop')

theorem Waking.goOn (h : s.Waking False) (hinv : Inv s) {k : ℕ} {op : Op}
    (hk : s.ops[k]? = some op) (j : ℕ) (hcareful : s.careful (.goOn k j) = true) :
    Waking ((s.remove k).goOn op j) False := by
  have hok := h.ok op (mem_of_getElem? hk)
  have hremoved : ∀ op' ∈ (s.remove k).ops, op'.Ok s.firstVer s.lockedVer s.holders :=
    forall_mem_replaceAt h.ok fun _ hx => nomatch hx
  have hremove : op.isWakeAll = false → op.isDestroyed = false →
      (s.remove k).Waking (False ∨ op.isWoken s.firstVer s.lockedVer = true ∨ op.isWakeOne = true) :=
    Wake.remove h hk
  -- A call that wakes nobody and has not been woken leaves nothing in hand.
  have hquiet : op.isWakeAll = false → op.isDestroyed = false →
      op.isWoken s.firstVer s.lockedVer = false → op.isWakeOne = false →
      (s.remove k).Waking False := by
    intro h₁ h₂ h₃ h₄
    refine weaken (hremove h₁ h₂) ?_
    rw [h₃, h₄]
    simp
  cases op with
  | waiting =>
    exact (hquiet rfl rfl rfl rfl).butexWait (hinv.remove_quiet hk rfl) hok
  | blocked => exact Wake.push (hquiet rfl rfl rfl rfl) _ trivial rfl False.elim
  | retry t ver range =>
    have hgrow : s.growsPast ver range = true := by
      rw [careful, hk] at hcareful
      exact hcareful
    have hgrow' : (s.remove k).growsPast ver range = true := by
      rw [growsPast_iff] at hgrow ⊢
      exact fun hver hfirst => forall_mem_replaceAt (hgrow hver hfirst) fun _ hx => nomatch hx
    refine (hremove rfl rfl).lockSection (hinv.remove_quiet hk rfl) hgrow' ?_
    intro hextra
    refine ⟨rfl, hasVersion_iff.2 ?_⟩
    simp only [isWoken, isWakeOne, false_or, Bool.false_eq_true, or_false, Bool.and_eq_true,
      decide_eq_true_eq] at hextra
    exact ⟨hextra.1.2, hextra.2⟩
  | onError | returning => exact hquiet rfl rfl rfl rfl
  | wakeOne t =>
    have hwake : (s.remove k).Waking True := weaken (hremove rfl rfl) fun _ => .inr trivial
    exact hwake.butexWake t j
  | wakeAll => exact Waking.butexWakeAll hremoved
  | destroyed => exact Wake.push (Waking.butexWakeAll hremoved) _ trivial rfl False.elim

theorem Waking.record {c : Call} {r : State × Errno} (h : r.1.Waking False) : (s.record c r).Waking False := by
  unfold State.record
  split
  · split <;> exact h
  · split <;> exact h
  · split <;> exact h
  · exact h

theorem Waking.step (h : s.Waking False) (hinv : Inv s) (i : Input)
    (hcareful : s.careful i = true) : Waking (s.step i) False := by
  cases i with
  | create range =>
    rw [State.step]
    cases hfree : s.inUse with
    | false => exact h.create hinv hfree range
    | true => exact h
  | call t c =>
    rw [State.step]
    split
    next hcall =>
      obtain ⟨hidle, hallowed⟩ := (Bool.and_eq_true _ _).mp hcall
      refine Waking.record ?_
      cases c with
      | lock => exact h.lockSection hinv hcareful False.elim
      | trylock ver => exact h.trylock hinv t ver
      | error2 => exact h.error2 hinv t _
      | aboutToDestroy => exact h.aboutToDestroy hcareful
      | unlock => exact h.unlock hinv hidle hallowed
      | unlockAndDestroy => exact h.unlockAndDestroy hinv hidle hallowed
      | cancel => exact h.cancel hinv hcareful
    · exact h
  | goOn k j =>
    rw [State.step]
    cases hk : s.ops[k]? with
    | none => exact h
    | some => exact h.goOn hinv hk j hcareful

/-- **In every run whose steps meet the condition, whenever an id is unlocked and a locker is
blocked on it, a locker of the id has been woken or `unlock` is about to wake one.** -/
theorem no_lost_wakeup (is : List Input)
    (hcareful : Along step (fun s i => s.careful i = true) init is) {t ver : ℕ} {range : ℤ}
    (hblocked : blocked t ver range ∈ (run step init is).ops) (hver : (run step init is).hasVersion ver = true)
    (hunlocked : (run step init is).butex = (run step init is).firstVer) :
    (∃ t' ver' range', retry t' ver' range' true ∈ (run step init is).ops
        ∧ (run step init is).hasVersion ver' = true) ∨ ∃ t', wakeOne t' ∈ (run step init is).ops := by
  obtain ⟨hinv, hwaking⟩ := run_invariant
    (fun s i (hs : Inv s ∧ s.Waking False) hc => ⟨hs.1.step i, hs.2.step hs.1 i hc⟩) is init
    ⟨inv_init, wake_init⟩ hcareful
  generalize run step init is = s at *
  obtain ⟨hlive, hholders⟩ := hinv.unlocked hver hunlocked
  have hb : s.ops.any isBlocked = true := any_eq_true.2 ⟨_, hblocked, rfl⟩
  rcases hwaking.token hlive hb with hmark | hwoken | hone | hall | hfalse
  · omega
  · obtain ⟨op, hop, hw⟩ := any_eq_true.1 hwoken
    cases op with
    | retry t' ver' range' =>
      simp only [isWoken, Bool.and_eq_true, decide_eq_true_eq] at hw
      obtain ⟨⟨rfl, hle⟩, hlt⟩ := hw
      exact .inl ⟨t', ver', range', hop, hasVersion_iff.2 ⟨hle, hlt⟩⟩
    | _ => cases hw
  · obtain ⟨op, hop, hw⟩ := any_eq_true.1 hone
    cases op with
    | wakeOne t' => exact .inr ⟨t', hop⟩
    | _ => cases hw
  · -- Only the holder is about to wake all, and nobody holds the id.
    obtain ⟨op, hop, hw⟩ := any_eq_true.1 hall
    cases op with
    | wakeAll t' =>
      have hmem : t' ∈ s.holders := hwaking.ok _ hop
      rw [hholders] at hmem
      cases hmem
    | _ => cases hw
  · exact hfalse.elim

/-- Thread 1 has unlocked the id thread 2 waits for, and is about to wake it. -/
theorem unlocked_before_waking :
    let s := run step init [.create 1, .call 1 (.lock 1 0), .call 2 (.lock 1 0), .goOn 0 0, .call 1 (.unlock 1)]
    (∃ t' ver' range', retry t' ver' range' true ∈ s.ops ∧ s.hasVersion ver' = true)
      ∨ ∃ t', wakeOne t' ∈ s.ops :=
  no_lost_wakeup _ ⟨rfl, rfl, rfl, rfl, rfl, trivial⟩ (show blocked 2 1 0 ∈ _ by decide) (by decide) (by decide)

/-- Threads 2 and 3 wait for the id of thread 1, which unlocks it and wakes thread 2.  Thread 4 is
faster and marks the id, so that thread 2 returns EPERM, and unlocks it: thread 3 is blocked for
ever. -/
theorem waiter_left_behind : let s := run step init [.create 1, .call 1 (.lock 1 0), .call 2 (.lock 1 0), .goOn 0 0,
      .call 3 (.lock 1 0), .goOn 0 0, .call 1 (.unlock 1), .goOn 0 1, .call 4 (.trylock 1),
      .call 4 (.aboutToDestroy 1), .goOn 1 0, .call 4 (.unlock 1)]
    s.ops = [.blocked 3 1 0] ∧ s.hasVersion 1 = true ∧ s.butex = s.firstVer := by
  decide

end Brpc.BthreadId.State
