/-
# The backup timer and the end of an RPC

`HandleBackupRequest` of `channel.cpp` sends `EBACKUPREQUEST` to the unversioned id, and
`OnVersionedRPCReturned` looks at the retry budget before it looks at the code: a timer that
fires when no retry is left ends the RPC (`backup_never_ends_rpc`).
-/

import Brpc.Controller.ExactlyOnce

namespace Brpc.Controller

open List State

/-- Only the backup timer brings `EBACKUPREQUEST`, to the id `cid` as a whole. -/
def Input.Honest (cid : ℕ) : Input → Prop
  | .response _ ec => ec ≠ EBACKUPREQUEST
  | .error id ec => ec = EBACKUPREQUEST → id = cid
  | .onVersionedRPCReturned env => env.timerAdd ≠ EBACKUPREQUEST
  | .issueRPC env => env.selectServer ≠ .inl EBACKUPREQUEST ∧
      env.creatingStream ≠ .inl EBACKUPREQUEST ∧ env.getSocket ≠ .inl EBACKUPREQUEST ∧
      env.authError ≠ EBACKUPREQUEST ∧ env.packRequest ≠ EBACKUPREQUEST
  | .endRPC _ => True

instance (cid : ℕ) : (i : Input) → Decidable (i.Honest cid)
  | .response .. => inferInstanceAs (Decidable (_ ≠ _))
  | .error .. => inferInstanceAs (Decidable (_ → _))
  | .onVersionedRPCReturned _ => inferInstanceAs (Decidable (_ ≠ _))
  | .issueRPC _ => inferInstanceAs (Decidable (_ ∧ _))
  | .endRPC _ => inferInstanceAs (Decidable True)

namespace State

variable {cfg : Config} {s : State}

/-- The backup timer is handled while no retry is left. -/
def BackupWithoutRetry (s : State) : Input → Prop
  | .onVersionedRPCReturned _ => s.errorCode = EBACKUPREQUEST ∧ s.maxRetry ≤ s.currentCall.nretry ∧
      ∃ responded nb saved, s.phase = .returned ⟨s.correlationId, responded⟩ nb saved
  | _ => False

/-- Then the attempt in flight stays in flight and the timeout is armed. -/
def BackupKept (cfg : Config) (s : State) (i : Input) : Prop :=
  s.BackupWithoutRetry i → (s.step cfg i).currentCall = s.currentCall ∧
    (∀ info, (s.step cfg i).phase ≠ .ending info) ∧
    (0 ≤ cfg.timeoutMs → (s.step cfg i).timeoutId = some .handleTimeout)

/-- `EBACKUPREQUEST` is the code of an RPC only while it is being handled. -/
structure Clean (s : State) : Prop where
  code : s.errorCode = EBACKUPREQUEST → s.phase = .issuing ∨
    ∃ responded nb saved, s.phase = .returned ⟨s.correlationId, responded⟩ nb saved
  saved : ∀ info nb ec, s.phase = .returned info nb ec → ec ≠ EBACKUPREQUEST
  pending : ∀ e ∈ s.pendingQ, e.errorCode = EBACKUPREQUEST → e.id = s.correlationId

variable {ec : ErrorCode} {info : CompletionInfo}

theorem setFailed_ne (h : ec ≠ EBACKUPREQUEST) : (s.setFailed ec).errorCode ≠ EBACKUPREQUEST := by
  rw [setFailed_eq]
  dsimp only
  split
  · decide
  · exact h

section

variable (h : Clean s)
include h

theorem Clean.handleSocketFailed {id : ℕ}
    (hec : ec = EBACKUPREQUEST → id = s.correlationId) (hcode : s.errorCode ≠ EBACKUPREQUEST) :
    Clean (s.handleSocketFailed id ec) := by
  rw [State.handleSocketFailed, setFailed_eq]
  refine ⟨fun he => .inr ?_, ?_, h.pending⟩
  · dsimp only at he ⊢
    split at he
    · exact absurd he (by decide)
    · exact ⟨false, true, s.errorCode, by rw [hec he]⟩
  · rintro _ _ _ ⟨⟩
    exact hcode

theorem Clean.checkedUnlock (hcode : s.errorCode ≠ EBACKUPREQUEST) (id : ℕ) :
    Clean (s.checkedUnlock id) := by
  have hunlock : Clean (s.unlock id).1 := by
    unfold unlock
    split
    · exact h
    · split
      · exact h
      · split
        · exact ⟨fun he => absurd he hcode, nofun, h.pending⟩
        next e q hq =>
          have hpending := h.pending
          rw [hq] at hpending
          have hpop : Clean { s with pendingQ := q } := { h with pending := (forall_mem_cons.1 hpending).2 }
          exact hpop.handleSocketFailed (hpending e mem_cons_self) hcode
  rw [State.checkedUnlock, check_eq]
  exact { hunlock with }

theorem Clean.endOfRPC (hcode : s.errorCode ≠ EBACKUPREQUEST) (info : CompletionInfo)
    (nb : Bool) : Clean (s.endOfRPC cfg info nb) := by
  exact ⟨fun hc => absurd hc hcode, nofun, h.pending⟩

theorem Clean.code_ne (hi : s.phase ≠ .issuing)
    (hr : ∀ info nb saved, s.phase ≠ .returned info nb saved) : s.errorCode ≠ EBACKUPREQUEST := by
  intro hc
  rcases h.code hc with hp | ⟨_, _, _, hp⟩
  · exact hi hp
  · exact hr _ _ _ hp

theorem Clean.fail (hec : ec ≠ EBACKUPREQUEST) (info : CompletionInfo)
    (nb : Bool) : Clean ((s.setFailed ec).endOfRPC cfg info nb) := by
  refine Clean.endOfRPC ?_ (setFailed_ne hec) info nb
  have hne := setFailed_ne (s := s) hec
  rw [setFailed_eq] at hne ⊢
  exact { h with code := fun hc => absurd hc hne }

theorem Clean.sendBackup {env : ReturnEnv} (henv : env.timerAdd ≠ EBACKUPREQUEST)
    (info : CompletionInfo) (nb : Bool) : Clean (s.sendBackup cfg env info nb) := by
  have hmem : ENOMEM ≠ EBACKUPREQUEST := by decide
  have htimer : Clean (if 0 ≤ cfg.timeoutMs then
      { s.emit [.addTimer .handleTimeout] with timeoutId := some .handleTimeout } else s) := by
    split
    · exact { h with }
    · exact h
  unfold State.sendBackup
  split
  · exact h.fail henv info nb
  · revert htimer
    generalize (if 0 ≤ cfg.timeoutMs then ({ s.emit [.addTimer .handleTimeout] with
      timeoutId := some .handleTimeout } : State) else s) = s₁
    intro h₁
    dsimp only
    cases ha : s₁.access cfg env with
    | none => exact h₁.fail hmem info nb
    | some =>
      obtain ⟨acc, rfl⟩ := access_eq_some ha
      simp only [check_eq]
      split
      · exact ⟨fun _ => .inl rfl, nofun, h₁.pending⟩
      · refine Clean.fail ?_ hmem info nb
        exact { h₁ with }

theorem Clean.retry (hcode : s.errorCode ≠ EBACKUPREQUEST) (env : ReturnEnv)
    (info : CompletionInfo) (nb : Bool) : Clean (s.retry cfg env info nb) := by
  unfold State.retry
  simp only [check_eq]
  split
  · refine Clean.fail ?_ (by decide) info nb
    exact { h with }
  next s' ha =>
    obtain ⟨acc, rfl⟩ := access_eq_some ha
    exact ⟨fun hc => absurd hc hcode, nofun, h.pending⟩

theorem Clean.interceptPrevious {saved : ErrorCode}
    (hsaved : saved ≠ EBACKUPREQUEST) : Clean (s.interceptPrevious info saved) := by
  refine Clean.checkedUnlock ?_ hsaved _
  split
  · split <;> exact { h with code := fun hc => absurd hc hsaved }
  · exact { h with code := fun hc => absurd hc hsaved }

/-- **A backup request that finds a retry left does not end the RPC.** -/
theorem Clean.onVersionedRPCReturned {env : ReturnEnv} {nb : Bool}
    {saved : ErrorCode} (hp : s.phase = .returned info nb saved) (henv : env.timerAdd ≠ EBACKUPREQUEST)
    (hin : ¬s.BackupWithoutRetry (.onVersionedRPCReturned env)) :
    Clean (s.onVersionedRPCReturned cfg env info nb saved) := by
  unfold State.onVersionedRPCReturned
  split
  · exact h.interceptPrevious (h.saved _ _ _ hp)
  · split
    next hend =>
      refine h.endOfRPC (fun hc => ?_) info nb
      rcases hend with ⟨hf, -⟩ | hle
      · exact hf (by simp [failedInline, hc, EBACKUPREQUEST])
      · rcases h.code hc with hi | ⟨r, nb', saved', hr⟩
        · rw [hp] at hi
          cases hi
        · exact hin ⟨hc, hle, r, nb', saved', hr⟩
    · split
      · exact h.sendBackup henv info nb
      next hcode =>
        split
        · exact h.retry hcode env info nb
        · exact h.endOfRPC hcode info nb

theorem Clean.sendFailed (hec : ec ≠ EBACKUPREQUEST) :
    Clean ((s.setFailed ec).handleSendFailed cfg) := by
  have hne := setFailed_ne (s := s) hec
  have hz := setFailed_errorCode_ne_zero s ec
  unfold handleSendFailed
  rw [if_pos (by simpa [failedInline] using hz)]
  rw [setFailed_eq] at hne ⊢
  refine ⟨fun hc => absurd hc hne, ?_, h.pending⟩
  rintro _ _ _ ⟨⟩
  exact hne

theorem Clean.issueRPC {env : SendEnv} (henv : Input.Honest s.correlationId (.issueRPC env))
    (hp : s.phase = .issuing) : Clean (s.issueRPC cfg env) := by
  obtain ⟨hselect, hstream, hsock, hauth, hpack⟩ := henv
  have hcode : (0 : ErrorCode) ≠ EBACKUPREQUEST := by decide
  have hany : ∀ c es, Clean { s with errorCode := 0, currentCall := c, log := es } := fun c es =>
    ⟨fun hc => absurd hc hcode, fun info nb ec he => absurd (hp.symm.trans he) nofun, h.pending⟩
  unfold State.issueRPC
  cases hpick : pickServer cfg env with
  | inl =>
    refine (hany _ _).sendFailed ?_
    rintro rfl
    unfold pickServer at hpick
    split at hpick
    · split at hpick <;> simp [EHOSTDOWN, EBACKUPREQUEST] at hpick
    · exact hselect hpick
  | inr =>
    simp only [emit]
    split
    next ec hec =>
      refine (hany _ _).sendFailed ?_
      rintro rfl
      unfold pickSock at hec
      split at hec
      · exact hstream hec
      · split at hec
        · simp at hec
        · split at hec
          · simp [EINVAL, EBACKUPREQUEST] at hec
          · exact hsock hec
    · split
      · exact (hany _ _).sendFailed hauth
      · split
        · exact (hany _ _).sendFailed hpack
        · exact (hany _ _).checkedUnlock hcode _

end

theorem endRPC_errorCode (h : s.Inv cfg) (hp : s.phase = .ending info)
    (lost : Bool) : (s.endRPC cfg lost info).errorCode = s.finalError cfg lost := by
  have hlive : s.Live := h.resolve_right fun hc => absurd (hp.symm.trans hc.phase) nofun
  have hof : s.ofPrevious info → s.ofUnfinished info := by
    have := hlive.phaseOk
    rw [hp] at this
    exact this.2
  have hcalls : (s.endRPC cfg lost info).errorCode = (s.endCalls cfg lost info).errorCode := by
    unfold endRPC unlockAndDestroy
    simp only [check_eq, emit]
    split <;> rfl
  have hended := endCalls_ended cfg lost hof
  rw [hcalls]
  revert hended
  generalize s.endCalls cfg lost info = s'
  rintro (_ | _) <;> rfl

/-- **A step of an RPC that handles no backup timer without a retry left.** -/
theorem Clean.step (h : Clean s) (hinv : s.Inv cfg) (i : Input) (hi : i.Honest s.correlationId)
    (hin : ¬s.BackupWithoutRetry i) : Clean (s.step cfg i) := by
  cases i with
  | response =>
    simp only [State.step]
    split
    next hu =>
      have hcode := h.code_ne (by simp [hu.1]) (by simp [hu.1])
      rw [onResponse_eq]
      refine ⟨fun hc => ?_, ?_, h.pending⟩
      · split at hc
        · exact absurd hc hcode
        · exact absurd hc hi
      · rintro _ _ _ ⟨⟩
        exact hcode
    · exact h
  | error =>
    simp only [State.step]
    split
    · unfold idError
      split
      next hu =>
        exact h.handleSocketFailed hi (h.code_ne (by simp [hu]) (by simp [hu]))
      · exact ⟨h.code, h.saved, forall_mem_append.2 ⟨h.pending, forall_mem_singleton.2 hi⟩⟩
    · exact h
  | onVersionedRPCReturned =>
    simp only [State.step]
    split
    next hp =>
      exact h.onVersionedRPCReturned hp hi hin
    · exact h
  | issueRPC =>
    simp only [State.step]
    split
    next hp =>
      exact h.issueRPC hi hp
    · exact h
  | endRPC =>
    simp only [State.step]
    split
    next info hp =>
      have hcode := h.code_ne (by simp [hp]) (by simp [hp])
      refine ⟨fun hc => ?_, by rintro _ _ _ ⟨⟩, forall_mem_nil _⟩
      rw [endRPC_errorCode hinv hp, finalError] at hc
      split at hc
      · exact absurd hc (by decide)
      · exact absurd hc hcode
    · exact h

/-- **A backup timer without a retry left is never kept:** it ends the RPC. -/
theorem backupKept_iff (i : Input) : s.BackupKept cfg i ↔ ¬s.BackupWithoutRetry i := by
  refine ⟨fun hk hb => ?_, fun hn hb => absurd hb hn⟩
  cases i with
  | onVersionedRPCReturned =>
    obtain ⟨-, hle, r, nb, saved, hp⟩ := id hb
    refine (hk hb).2.1 ⟨s.correlationId, r⟩ ?_
    simp only [step, hp]
    unfold onVersionedRPCReturned
    rw [if_neg (by simp [ofPrevious]), if_pos (.inr hle)]
    rfl
  | _ => exact hb

end State

theorem callMethod_clean (cfg : Config) {env : CallEnv}
    (h : env.errorCode ≠ EBACKUPREQUEST ∧ env.timerAdd ≠ EBACKUPREQUEST) : Clean (callMethod cfg env) := by
  have hs : Clean (env.start cfg) := ⟨fun hc => absurd hc h.1, nofun, nofun⟩
  have hadd : ∀ {s : State}, Clean s → ∀ t, Clean (s.addTimer cfg env t) := by
    intro s hs t
    unfold addTimer
    split
    · exact hs.sendFailed h.2
    · exact ⟨fun _ => .inl rfl, nofun, hs.pending⟩
  have hretry : Clean (if cfg.requestStream then { env.start cfg with maxRetry := 0 } else
      env.start cfg) := by
    split
    · exact ⟨hs.code, nofun, nofun⟩
    · exact hs
  unfold callMethod
  dsimp only
  split
  next hf =>
    unfold handleSendFailed
    rw [if_pos hf]
    refine ⟨fun hc => absurd hc h.1, ?_, nofun⟩
    rintro _ _ _ ⟨⟩
    exact h.1
  · split
    · exact hs.sendFailed (by decide)
    · split
      · exact hadd hretry _
      · split
        · exact hadd hretry _
        · exact hretry

/-- **The backup timer never ends an RPC, exactly when it is not handled without a retry left.**
Other errors are not `EBACKUPREQUEST`. -/
theorem backup_never_ends_rpc (cfg : Config) (env : CallEnv) (is : List Input)
    (henv : env.errorCode ≠ EBACKUPREQUEST ∧ env.timerAdd ≠ EBACKUPREQUEST)
    (his : ∀ i ∈ is, i.Honest env.correlationId) :
    ((∀ js, js <+: is → (rpc cfg env js).phase = .destroyed → (rpc cfg env js).errorCode ≠ EBACKUPREQUEST) ∧
      Lib.Along (step cfg) (BackupKept cfg) (callMethod cfg env) is) ↔
    Lib.Along (step cfg) (fun s i => ¬s.BackupWithoutRetry i) (callMethod cfg env) is := by
  have hkept : BackupKept cfg = fun s i => ¬s.BackupWithoutRetry i :=
    funext fun s => funext fun i => propext (backupKept_iff i)
  rw [hkept]
  refine ⟨fun h => h.2, fun h => ⟨fun js hjs hp hc => ?_, h⟩⟩
  obtain ⟨ks, rfl⟩ := hjs
  have hclean := Lib.run_invariant
    (P := fun s i => ¬s.BackupWithoutRetry i ∧ i.Honest env.correlationId)
    (I := fun s => s.Inv cfg ∧ Clean s ∧ s.correlationId = env.correlationId)
    (fun s i h hi => ⟨(inv_step h.1 i).1, h.2.1.step h.1 i (h.2.2 ▸ hi.2) hi.1,
      (inv_step_advances h.1 i).correlationId.trans h.2.2⟩) js (callMethod cfg env)
    ⟨.inl (callMethod_live cfg env), callMethod_clean cfg henv, ?_⟩ ?_
  · exact Clean.code_ne (s := rpc cfg env js) hclean.2.1 (by simp [hp]) (by simp [hp]) hc
  · exact (rpc_frame cfg env []).1
  · exact Lib.along_and_mem (Lib.along_append.1 h).1 fun i hi => his i (mem_append_left _ hi)

/-- The timer fires while a retry is left, the backup request is sent and answered. -/
def backupTaken : List Input :=
  [.issueRPC sendOk, .error 100 EBACKUPREQUEST, .onVersionedRPCReturned returnOk, .issueRPC sendOk,
    .response 102 0, .onVersionedRPCReturned returnOk, .endRPC false]

theorem backupTaken_not_ended : (rpc plainConfig backupCall backupTaken).phase = .destroyed ∧
    (rpc plainConfig backupCall backupTaken).errorCode ≠ EBACKUPREQUEST := by
  have hp : (rpc plainConfig backupCall backupTaken).phase = .destroyed := by decide
  refine ⟨hp, ((backup_never_ends_rpc plainConfig backupCall backupTaken (by decide)
    (by decide)).2 ?_).1 backupTaken prefix_rfl hp⟩
  exact ⟨id, id, fun h => absurd h.2.1 (by decide), id, id, fun h => absurd h.2.1 (by decide), id, trivial⟩

/-- The same call without retries: the timer fires before any answer. -/
def lateBackup : List Input :=
  [.issueRPC sendOk, .error 100 EBACKUPREQUEST, .onVersionedRPCReturned returnOk, .endRPC false]

theorem lateBackup_ends_rpc :
    let s := rpc plainConfig { backupCall with cntlMaxRetry := 0 } lateBackup
    (∀ i ∈ lateBackup, i.Honest 100) ∧ ¬(s.phase = .destroyed → s.errorCode ≠ EBACKUPREQUEST) := by decide

end Brpc.Controller
