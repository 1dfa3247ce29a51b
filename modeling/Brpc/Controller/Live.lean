/-
# The invariant of an RPC

`Live` holds from `CallMethod` until the id is destroyed, `Closed` after that, whatever the
inputs are.  Both speak of the milestones: attempts are issued in order, each under its own
version, and the end comes last.
-/

import Brpc.Controller.Issued

namespace Brpc.Controller

open List Effect

/-- The attempts issued, with the versions of the id they were issued under. -/
def attempts (es : List Effect) : List (ℕ × ℕ) :=
  es.filterMap fun
    | .issue n id => some (n, id)
    | _ => none

@[simp] theorem attempts_append (es es' : List Effect) :
    attempts (es ++ es') = attempts es ++ attempts es' := filterMap_append

/-- What `EndRPC` adds to the milestones. -/
def finale (cfg : Config) (id : ℕ) : List Effect :=
  .endRPC id :: (if cfg.done then [.runDone] else []) ++ [.unlockAndDestroy]

/-- The milestones of an RPC that has not ended. -/
inductive Effect.open : Effect → Prop
  | issue (n id : ℕ) : Effect.open (.issue n id)
  | checkFailed (c : Check) : Effect.open (.checkFailed c)

namespace State

section

variable (s : State)

theorem milestones_emit (es : List Effect) :
    (s.emit es).milestones = s.milestones ++ es.filter milestone := filter_append ..

@[simp] theorem setFailed_milestones (ec : ErrorCode) : (s.setFailed ec).milestones = s.milestones := by
  unfold setFailed
  split <;> simp [milestones, emit, milestone]

@[simp] theorem handleSocketFailed_milestones (id : ℕ) (ec : ErrorCode) :
    (s.handleSocketFailed id ec).milestones = s.milestones := setFailed_milestones s ec

@[simp] theorem afterUnlock_milestones : s.afterUnlock.milestones = s.milestones := by
  unfold afterUnlock
  split
  · rfl
  · rw [handleSocketFailed_milestones]
    rfl

theorem attempts_milestones : attempts s.milestones = attempts s.log := by
  unfold attempts milestones
  rw [filterMap_filter]
  congr 1
  funext e
  cases e <;> simp [milestone]

end

/-- Attempts up to number `n` are issued in order, each under its own version, and
`es` holds nothing else but failed assertions. -/
structure Attempted (correlationId n : ℕ) (es : List Effect) : Prop where
  isOpen : ∀ e ∈ es, e.open
  sorted : (attempts es).Pairwise (·.1 < ·.1)
  own : ∀ p ∈ attempts es, p.2 = correlationId + p.1 + 1 ∧ p.1 ≤ n

/-- The part of the invariant that does not look at the phase. -/
structure Core (s : State) : Prop where
  range : s.maxRetry + 2 ≤ s.range
  nretry_le : s.currentCall.nretry ≤ s.maxRetry
  pending : ∀ e ∈ s.pendingQ, s.hasVersion e.id
  attempted : Attempted s.correlationId s.currentCall.nretry s.milestones

/-- What the phase of an RPC that has not ended promises. -/
def PhaseOk (s : State) : Phase → Prop
  | .unlocked => True
  | .returned info _ _ => s.hasVersion info.id
  | .issuing => ∀ p ∈ attempts s.milestones, p.1 < s.currentCall.nretry
  | .ending info => s.hasVersion info.id ∧ (s.ofPrevious info → s.ofUnfinished info)
  | .destroyed => False

/-- The invariant of an RPC that has not ended. -/
structure Live (s : State) : Prop where
  core : s.Core
  phaseOk : s.PhaseOk s.phase

/-- The invariant of an RPC that has ended. -/
structure Closed (cfg : Config) (s : State) : Prop where
  phase : s.phase = .destroyed
  range : s.maxRetry + 2 ≤ s.range
  nretry_le : s.currentCall.nretry ≤ s.maxRetry
  milestones : ∃ es id, s.milestones = es ++ finale cfg id ∧ Attempted s.correlationId s.currentCall.nretry es

/-- The invariant of an RPC. -/
def Inv (cfg : Config) (s : State) : Prop := s.Live ∨ s.Closed cfg

variable {id : ℕ} {s : State}

theorem hasVersion_iff : s.hasVersion id ↔ s.correlationId ≤ id ∧ id < s.correlationId + s.range := by
  simp [hasVersion]

theorem Core.hasVersion_currentId (h : s.Core) : s.hasVersion s.currentId := by
  have h₁ := h.range
  have h₂ := h.nretry_le
  rw [hasVersion_iff, currentId]
  omega

theorem Core.hasVersion_correlationId (h : s.Core) : s.hasVersion s.correlationId := by
  have h₁ := h.range
  rw [hasVersion_iff]
  omega

theorem Live.locked (h : s.Live) (hp : s.phase ≠ .unlocked) : s.locked :=
  ⟨hp, fun hd => by simpa [hd, PhaseOk] using h.phaseOk⟩

variable {es : List Effect}

theorem Attempted.append {c n n' : ℕ} {es' : List Effect} (h : Attempted c n es) (hn : n ≤ n')
    (ho : ∀ e ∈ es', e.open) (ha : attempts es' = []) : Attempted c n' (es ++ es') where
  isOpen := fun e he => (mem_append.1 he).elim (h.isOpen e) (ho e)
  sorted := by rw [attempts_append, ha, append_nil]; exact h.sorted
  own := fun p hp => by
    rw [attempts_append, ha, append_nil] at hp
    exact ⟨(h.own p hp).1, Nat.le_trans (h.own p hp).2 hn⟩

theorem Core.extend {s' : State} (h : s.Core) (hc : s'.correlationId = s.correlationId)
    (hr : s'.range = s.range) (hm : s'.maxRetry = s.maxRetry)
    (hn : s.currentCall.nretry ≤ s'.currentCall.nretry) (hn' : s'.currentCall.nretry ≤ s.maxRetry)
    (hp : ∀ e ∈ s'.pendingQ, e ∈ s.pendingQ)
    (hms : s'.milestones = s.milestones ++ es) (ho : ∀ e ∈ es, e.open) (ha : attempts es = []) : s'.Core where
  range := by rw [hm, hr]; exact h.range
  nretry_le := by rw [hm]; exact hn'
  pending := fun e he => by
    have := h.pending e (hp e he)
    rw [hasVersion_iff] at this ⊢
    rw [hc, hr]
    exact this
  attempted := by rw [hc, hms]; exact h.attempted.append hn ho ha

theorem Core.congr {s' : State} (h : s.Core) (hc : s'.correlationId = s.correlationId)
    (hr : s'.range = s.range) (hm : s'.maxRetry = s.maxRetry)
    (hn : s'.currentCall.nretry = s.currentCall.nretry)
    (hp : ∀ e ∈ s'.pendingQ, e ∈ s.pendingQ) (hms : s'.milestones = s.milestones) : s'.Core := by
  have hms' : s'.milestones = s.milestones ++ [] := by rw [hms, append_nil]
  exact h.extend hc hr hm (Nat.le_of_eq hn.symm) (hn ▸ h.nretry_le) hp hms' (by simp) rfl

theorem Core.afterUnlock (h : s.Core) : s.afterUnlock.Live := by
  have hm := afterUnlock_milestones s
  unfold State.afterUnlock at hm ⊢
  split
  · exact ⟨h.congr rfl rfl rfl rfl (fun _ he => he) rfl, trivial⟩
  next e q hq =>
    simp only [hq] at hm
    have he : s.hasVersion e.id := h.pending e (by simp [hq])
    unfold handleSocketFailed at hm ⊢
    rw [setFailed_eq] at hm ⊢
    exact ⟨h.congr rfl rfl rfl rfl (fun e' he' => by simp [hq, he']) hm, he⟩

theorem Core.lt_next (h : s.Core) {ms : List Effect} (hms : ms = s.milestones ++ es)
    (ha : attempts es = []) : ∀ p ∈ attempts ms, p.1 < s.currentCall.nretry + 1 := by
  intro p hp
  rw [hms, attempts_append, ha, append_nil] at hp
  exact Nat.lt_succ_of_le (h.attempted.own p hp).2

theorem Core.checkedUnlock (h : s.Core) (hid : s.hasVersion id)
    (hl : s.locked) : (s.checkedUnlock id).Live ∧ (s.checkedUnlock id).milestones = s.milestones := by
  rw [checkedUnlock_of_locked hid hl]
  exact ⟨h.afterUnlock, afterUnlock_milestones s⟩

theorem failedChecks_open (cfg : Config) (env : ReturnEnv) (s : State) (info : CompletionInfo) :
    ∀ e ∈ s.failedChecks cfg env info, e.open := by
  intro e he
  rcases mem_append.1 he with he | he <;> split at he
  · exact mem_singleton.1 he ▸ .checkFailed _
  · exact absurd he not_mem_nil
  · exact mem_singleton.1 he ▸ .checkFailed _
  · exact absurd he not_mem_nil

theorem failedChecks_attempts (cfg : Config) (env : ReturnEnv) (s : State) (info : CompletionInfo) :
    attempts (s.failedChecks cfg env info) = [] := by
  unfold failedChecks
  split <;> split <;> rfl

section Returned

variable {cfg : Config} {env : ReturnEnv} {s s' : State} {info : CompletionInfo} {nb : Bool} {saved : ErrorCode}

/-- **`OnVersionedRPCReturned` keeps the invariant**, and the milestones it adds
are its failed assertions. -/
theorem Live.returned (h : s.Live) (hp : s.phase = .returned info nb saved) (hr : Returned cfg env s info saved s') :
    s'.Live ∧ s'.milestones = s.milestones ++ s.failedChecks cfg env info := by
  have hid : s.hasVersion info.id := by simpa [hp, PhaseOk] using h.phaseOk
  have hl : s.locked := h.locked (by simp [hp])
  have hopen := failedChecks_open cfg env s info
  have hatt := failedChecks_attempts cfg env s info
  cases hr with
  | stale hprev hu =>
    have hno : s.failedChecks cfg env info = [] := failedChecks_of_not_mayGoOn fun hg => hu (hg.1 hprev).1
    rw [hno, append_nil]
    exact Core.checkedUnlock (h.core.congr rfl rfl rfl rfl (fun _ he => he) rfl) hid hl
  | unfinishedFailed u hprev hu huid hf =>
    have hno : s.failedChecks cfg env info = [] := failedChecks_of_not_mayGoOn fun hg => hf (hg.1 hprev).2
    have hms : (s.log ++ u.onComplete s s.errorCode info.responded false).filter milestone =
        s.milestones := by simp [milestones]
    rw [hno, append_nil, ← hms]
    exact Core.checkedUnlock (h.core.congr rfl rfl rfl rfl (fun _ he => he) hms) hid hl
  | ends ec acc t unf es hd hec hu hes =>
    have hms : (s.log ++ es).filter milestone =
        s.milestones ++ s.failedChecks cfg env info := by rw [filter_append, hes.2]; rfl
    refine ⟨⟨h.core.extend rfl rfl rfl (Nat.le_refl _) h.core.nretry_le (fun _ he => he) hms
      hopen hatt, hid, fun hprev => ?_⟩, hms⟩
    rcases hu with rfl | ⟨-, hb⟩
    · exact (hd hprev).1
    · -- a backup request is an error, so it is not the success of the unfinished attempt
      have := (hd hprev).2
      rw [hb.2.1] at this
      exact absurd this (by decide)
  | backup acc t es hg hec hu hes =>
    have hms : (s.log ++ es).filter milestone =
        s.milestones ++ s.failedChecks cfg env info := by rw [filter_append, hes.2]; rfl
    exact ⟨⟨h.core.extend rfl rfl rfl (Nat.le_succ _) hg.2.2 (fun _ he => he) hms hopen hatt,
      h.core.lt_next hms hatt⟩, hms⟩
  | retries acc es hg hes =>
    have hms : (s.log ++ es ++
        s.currentCall.onComplete s s.errorCode info.responded false).filter milestone =
        s.milestones ++ s.failedChecks cfg env info := by
      rw [filter_append, filter_append, hes.2, Call.onComplete_milestones, append_nil]
      rfl
    exact ⟨⟨h.core.extend rfl rfl rfl (Nat.le_succ _) hg.1.2.2 (fun _ he => he) hms hopen hatt,
      h.core.lt_next hms hatt⟩, hms⟩

theorem Reached.milestones {c : Call} {sent : List Effect} (h : Reached cfg s c sent) :
    sent.filter milestone = [] := by
  cases h <;> simp [Effect.milestone]

theorem Core.issue (h : s.Core) (hlt : ∀ p ∈ attempts s.milestones, p.1 < s.currentCall.nretry)
    (hc : s'.correlationId = s.correlationId) (hr : s'.range = s.range)
    (hm : s'.maxRetry = s.maxRetry) (hn : s'.currentCall.nretry = s.currentCall.nretry)
    (hp : s'.pendingQ = s.pendingQ)
    (hms : s'.milestones = s.milestones ++ [.issue s.currentCall.nretry s.currentId]) : s'.Core where
  range := by rw [hm, hr]; exact h.range
  nretry_le := by rw [hm, hn]; exact h.nretry_le
  pending := fun e he => by
    have := h.pending e (hp ▸ he)
    rw [hasVersion_iff] at this ⊢
    rw [hc, hr]
    exact this
  attempted := by
    have hatt : attempts s'.milestones = attempts s.milestones ++ [(s.currentCall.nretry, s.currentId)] := by
      rw [hms, attempts_append]
      rfl
    refine ⟨?_, ?_, ?_⟩
    · intro e he
      rw [hms] at he
      exact forall_mem_append.2 ⟨h.attempted.isOpen, forall_mem_singleton.2 (.issue _ _)⟩ e he
    · rw [hatt]
      refine pairwise_append.2 ⟨h.attempted.sorted, pairwise_singleton _ _, fun p hp => ?_⟩
      exact forall_mem_singleton.2 (hlt p hp)
    · intro p hp
      rw [hatt] at hp
      rw [hc, hn]
      exact forall_mem_append.2 ⟨h.attempted.own, forall_mem_singleton.2 ⟨rfl, Nat.le_refl _⟩⟩ p hp

/-- **`IssueRPC` keeps the invariant** and adds one attempt. -/
theorem Live.issued (h : s.Live) (hp : s.phase = .issuing) (hi : Issued cfg s s') :
    s'.Live ∧ s'.milestones = s.milestones ++ [.issue s.currentCall.nretry s.currentId] := by
  have hlt : ∀ p ∈ attempts s.milestones, p.1 < s.currentCall.nretry := by
    simpa [hp, PhaseOk] using h.phaseOk
  have hid := h.core.hasVersion_currentId
  have hl : s.locked := h.locked (by simp [hp])
  have hms : ∀ {c : Call} {sent : List Effect} (es : List Effect), Reached cfg s c sent →
      es.filter milestone = [] →
      (s.log ++ issue s.currentCall.nretry s.currentId :: sent ++ es).filter
        milestone = s.milestones ++ [.issue s.currentCall.nretry s.currentId] := by
    intro c sent es hc hes
    rw [filter_append, filter_append, filter_cons_of_pos rfl, hc.milestones, hes, append_nil]
    rfl
  cases hi with
  | failed c sent es ec nb hc hec hes =>
    have hms := hms es hc hes.milestones
    exact ⟨⟨h.core.issue hlt rfl rfl rfl hc.nretry rfl hms, hid⟩, hms⟩
  | written c sent hc =>
    have hms := hms [.write s.currentCall.nretry s.currentId] hc rfl
    rw [← hms]
    refine Core.checkedUnlock ?_ hid hl
    exact h.core.issue hlt rfl rfl rfl hc.nretry rfl hms

theorem settleCurrent_milestones (lost : Bool) : (s.settleCurrent cfg lost info).filter milestone = [] := by
  unfold settleCurrent
  cases s.unfinishedCall <;> simp

theorem settleUnfinished_milestones (lost : Bool) (u : Call) :
    (s.settleUnfinished cfg lost info u).filter milestone = [] := by
  simp [settleUnfinished]

theorem Ended.milestones {lost : Bool} (h : Ended cfg lost s info s') :
    s'.milestones = s.milestones ++ [.endRPC info.id] := by
  have hend : ∀ {pre mid post : List Effect}, Quiet pre → mid.filter milestone = [] →
      Quiet post → (s.log ++ (Effect.endRPC info.id :: pre ++ mid ++ post)).filter Effect.milestone =
        s.milestones ++ [.endRPC info.id] := by
    intro pre mid post hpre hmid hpost
    rw [filter_append, filter_append, filter_append, filter_cons_of_pos rfl, hpre.milestones, hmid, hpost.milestones]
    rfl
  cases h with
  | current pre post hp hpre hpost => exact hend hpre (settleCurrent_milestones lost) hpost
  | unfinished u pre post hp hu hid hpre hpost =>
    exact hend hpre (settleUnfinished_milestones lost u) hpost

theorem Ended.frame {lost : Bool} (h : Ended cfg lost s info s') :
    s'.correlationId = s.correlationId ∧ s'.range = s.range ∧ s'.maxRetry = s.maxRetry ∧
      s'.currentCall.nretry = s.currentCall.nretry ∧ s'.pendingQ = s.pendingQ ∧ s'.phase = s.phase := by
  cases h <;> exact ⟨rfl, rfl, rfl, rfl, rfl, rfl⟩

theorem endRPC_eq (lost : Bool) (h : (s.endCalls cfg lost info).hasVersion (s.endCalls cfg lost info).correlationId) :
    s.endRPC cfg lost info = { s.endCalls cfg lost info with
        phase := .destroyed
        pendingQ := []
        log := (s.endCalls cfg lost info).log ++ ((if cfg.done then [.runDone] else []) ++ [.unlockAndDestroy]) } := by
  unfold State.endRPC unlockAndDestroy
  cases cfg.done <;> simp [check, emit, hasVersion_iff.1 h, hasVersion]

/-- **`EndRPC` closes the RPC.** -/
theorem Live.endRPC (cfg : Config) (h : s.Live) (hp : s.phase = .ending info) (lost : Bool) :
    (s.endRPC cfg lost info).Closed cfg ∧
      (s.endRPC cfg lost info).milestones = s.milestones ++ finale cfg info.id := by
  have hof : s.ofPrevious info → s.ofUnfinished info := by
    have := h.phaseOk
    rw [hp] at this
    exact this.2
  have hended := endCalls_ended cfg lost hof
  obtain ⟨hc, hr, hm, hn, -, -⟩ := hended.frame
  have hv : (s.endCalls cfg lost info).hasVersion (s.endCalls cfg lost info).correlationId := by
    have := hasVersion_iff.1 h.core.hasVersion_correlationId
    rw [hasVersion_iff, hc, hr]
    exact this
  have hms : (s.endRPC cfg lost info).milestones = s.milestones ++ finale cfg info.id := by
    have hfin : ((if cfg.done then [Effect.runDone] else []) ++ [Effect.unlockAndDestroy]).filter
        Effect.milestone = (if cfg.done then [.runDone] else []) ++ [.unlockAndDestroy] := by
      cases cfg.done <;> rfl
    rw [endRPC_eq lost hv, milestones, filter_append, hfin, ← milestones, hended.milestones, append_assoc]
    rfl
  refine ⟨⟨?_, ?_, ?_, s.milestones, info.id, hms, ?_⟩, hms⟩ <;> rw [endRPC_eq lost hv]
  · exact hm ▸ hr ▸ h.core.range
  · exact hm ▸ hn ▸ h.core.nretry_le
  · exact hc ▸ hn ▸ h.core.attempted

end Returned

/-! ### Steps and runs -/

theorem Live.onResponse (h : s.Live) (hid : s.hasVersion id) (ec : ErrorCode) :
    (s.onResponse id ec).Live ∧ (s.onResponse id ec).milestones = s.milestones := by
  rw [onResponse_eq]
  have hms : (s.log ++ [Effect.response id]).filter Effect.milestone = s.milestones := by
    simp [milestones, Effect.milestone]
  exact ⟨⟨h.core.congr rfl rfl rfl rfl (fun _ he => he) hms, hid⟩, hms⟩

theorem Live.idError (h : s.Live) (hid : s.hasVersion id) (ec : ErrorCode) :
    (s.idError id ec).Live ∧ (s.idError id ec).milestones = s.milestones := by
  unfold State.idError
  split
  · have hms := handleSocketFailed_milestones s id ec
    unfold handleSocketFailed at hms ⊢
    rw [setFailed_eq] at hms ⊢
    exact ⟨⟨h.core.congr rfl rfl rfl rfl (fun _ he => he) hms, hid⟩, hms⟩
  · refine ⟨⟨⟨h.core.range, h.core.nretry_le, fun e he => ?_, h.core.attempted⟩, ?_⟩, rfl⟩
    · exact forall_mem_append.2 ⟨h.core.pending, forall_mem_singleton.2 hid⟩ e he
    · have hp := h.phaseOk
      cases hph : s.phase <;> simp only [hph] at hp ⊢ <;> exact hp

end State
end Brpc.Controller
