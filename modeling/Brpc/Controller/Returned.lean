/-
# What a step of the controller can do

One lemma per function, saying what it leaves behind; the invariants of the following modules are
read off it.
-/

import Brpc.Controller.Rpc

namespace Brpc.Controller

open List Effect

/-- The effects that say how far an RPC is. -/
def Effect.milestone : Effect → Bool
  | .issue .. | .endRPC _ | .runDone | .unlockAndDestroy => true
  | .checkFailed c => c ≠ .errorCodeNonzero
  | _ => false

/-- The attempt an effect belongs to, if any. -/
def Effect.attempt : Effect → Option ℕ
  | .issue n _ | .select n .. | .connect n _ | .write n _ | .complete n .. => some n
  | .destroyStreamUserData n | .addRecentError n | .feedbackCircuitBreaker n _ => some n
  | .returnToPool n _ | .onProgressiveReadCompleted n _ | .setFailedSock n _ => some n
  | .feedback n .. => some n
  | _ => none

/-- Effects that are no milestones and belong to no attempt. -/
def Quiet (es : List Effect) : Prop := ∀ e ∈ es, e.attempt = none ∧ e.milestone = false

theorem Quiet.milestones {es : List Effect} (h : Quiet es) : es.filter milestone = [] :=
  filter_eq_nil_iff.2 fun e he => by simp [(h e he).2]

/-- The milestones of an RPC so far. -/
def State.milestones (s : State) : List Effect := s.log.filter Effect.milestone

theorem Call.closeSock_milestones (sc : Bool) (c : Call) (ec : ErrorCode) : (c.closeSock sc ec).filter milestone = [] := by
  unfold closeSock
  repeat' split
  all_goals simp [milestone]

theorem Call.settleSock_milestones (ct : ConnectionType) (sc : Bool) (c : Call) (ec : ErrorCode)
    (responded : Bool) : (c.settleSock ct sc ec responded).filter milestone = [] := by
  unfold settleSock
  repeat' split
  all_goals simp [milestone, closeSock_milestones]

@[simp] theorem Call.onComplete_milestones (s : State) (c : Call) (ec : ErrorCode) (r e : Bool) :
    (c.onComplete s ec r e).filter milestone = [] := by
  unfold onComplete
  simp only [filter_append, settleSock_milestones, append_nil]
  repeat' split
  all_goals simp [milestone]

namespace State

/-- The id is held by some thread. -/
def locked (s : State) : Prop := s.phase ≠ .unlocked ∧ s.phase ≠ .destroyed

/-- Unlocking: the first pending error is handled at once, with the id still held. -/
def afterUnlock (s : State) : State :=
  match s.pendingQ with
  | [] => { s with phase := .unlocked }
  | e :: q => { s with pendingQ := q }.handleSocketFailed e.id e.errorCode

theorem checkedUnlock_of_locked {s : State} {id : ℕ} (h : s.hasVersion id) (hl : s.locked) :
    s.checkedUnlock id = s.afterUnlock := by
  unfold checkedUnlock unlock afterUnlock
  simp only [h, not_true_eq_false, if_false, if_neg (not_or.2 hl)]
  cases s.pendingQ <;> simp [check]

theorem setFailed_eq (s : State) (ec : ErrorCode) : s.setFailed ec = { s with
        errorCode := if ec = 0 then -1 else ec
        log := s.log ++ if ec = 0 then [.checkFailed .errorCodeNonzero] else [] } := by
  unfold setFailed emit
  split <;> simp

theorem onResponse_eq (s : State) (id : ℕ) (ec : ErrorCode) : s.onResponse id ec = { s with
        errorCode := if ec = 0 then s.errorCode else ec
        phase := .returned ⟨id, true⟩ false s.errorCode
        log := s.log ++ [.response id] } := by
  unfold onResponse
  by_cases h : ec = 0 <;> simp [h, setFailed_eq, emit]

theorem check_eq (s : State) (c : Check) (b : Bool) :
    s.check c b = { s with log := s.log ++ if b then [] else [.checkFailed c] } := by
  unfold check emit
  split <;> simp

theorem setFailed_errorCode_ne_zero (s : State) (ec : ErrorCode) : (s.setFailed ec).errorCode ≠ 0 := by
  rw [setFailed_eq]
  dsimp only
  split
  · decide
  · assumption

/-- An event that decides over the RPC: it comes from the id as a whole or from the current
attempt, or it is the success of the attempt a backup request overtook. -/
def decisive (s : State) (info : CompletionInfo) : Prop :=
  s.ofPrevious info → s.ofUnfinished info ∧ s.errorCode = 0

/-- The RPC may go on after this event. -/
def mayGoOn (cfg : Config) (s : State) (info : CompletionInfo) : Prop :=
  s.decisive info ∧ (s.errorCode ≠ 0 ∨ cfg.retryPolicy) ∧ s.currentCall.nretry < s.maxRetry

/-- `EBACKUPREQUEST` comes, the timeout is armed, and an attempt is unfinished
already. -/
def SecondBackup (cfg : Config) (env : ReturnEnv) (s : State) (info : CompletionInfo) : Prop :=
  s.mayGoOn cfg info ∧ s.errorCode = EBACKUPREQUEST ∧ s.unfinishedCall.isSome ∧
    (0 ≤ cfg.timeoutMs → env.timerAdd = 0) ∧ (s.access cfg env).isSome

/-- The current attempt is retried. -/
def retriesCurrent (cfg : Config) (env : ReturnEnv) (s : State) (info : CompletionInfo) : Prop :=
  s.mayGoOn cfg info ∧ s.errorCode ≠ EBACKUPREQUEST ∧ s.doRetry cfg env ∧ (s.access cfg env).isSome

/-- The retry policy asks to retry after an event of the id as a whole, or the success of the
unfinished attempt. -/
def RetriesOther (cfg : Config) (env : ReturnEnv) (s : State) (info : CompletionInfo) : Prop :=
  s.mayGoOn cfg info ∧ s.errorCode ≠ EBACKUPREQUEST ∧ s.doRetry cfg env ∧ s.currentId ≠ info.id

section

variable (cfg : Config) (env : ReturnEnv) (s : State) (info : CompletionInfo)

instance : Decidable (s.decisive info) := inferInstanceAs (Decidable (_ → _))

instance : Decidable (s.mayGoOn cfg info) := inferInstanceAs (Decidable (_ ∧ _))

instance : Decidable (s.SecondBackup cfg env info) := inferInstanceAs (Decidable (_ ∧ _))

instance : Decidable (s.retriesCurrent cfg env info) := inferInstanceAs (Decidable (_ ∧ _))

instance : Decidable (s.RetriesOther cfg env info) := inferInstanceAs (Decidable (_ ∧ _))

end

/-- The assertions `OnVersionedRPCReturned` fails. -/
def failedChecks (cfg : Config) (env : ReturnEnv) (s : State) (info : CompletionInfo) : List Effect :=
  (if s.SecondBackup cfg env info then [.checkFailed .oneBackup] else []) ++
    if s.RetriesOther cfg env info then [.checkFailed .retriesCurrent] else []

/-- The effects `es` belong to no attempt, and the milestones among them are the
failed assertions. -/
def Aside (cfg : Config) (env : ReturnEnv) (s : State) (info : CompletionInfo) (es : List Effect) : Prop :=
  (∀ e ∈ es, e.attempt = none) ∧ es.filter Effect.milestone = s.failedChecks cfg env info

/-- The ways out of `OnVersionedRPCReturned`. -/
inductive Returned (cfg : Config) (env : ReturnEnv) (s : State) (info : CompletionInfo)
    (saved : ErrorCode) : State → Prop
  /-- An event of an attempt that has been completed: only the error is put back. -/
  | stale (hp : s.ofPrevious info) (hu : ¬s.ofUnfinished info) :
    Returned cfg env s info saved ({ s with errorCode := saved }.checkedUnlock info.id)
  /-- The unfinished attempt failed. -/
  | unfinishedFailed (u : Call) (hp : s.ofPrevious info) (hu : s.unfinishedCall = some u)
      (hid : s.getId u.nretry = info.id) (hf : s.errorCode ≠ 0) :
    Returned cfg env s info saved
      ({ s with
        log := s.log ++ u.onComplete s s.errorCode info.responded false
        unfinishedCall := none
        errorCode := saved }.checkedUnlock info.id)
  | ends (ec : ErrorCode) (acc : Bool) (t : Option Timer) (unf : Option Call) (es : List Effect)
      (hd : s.decisive info) (hec : ec = s.errorCode ∨ ec ≠ 0)
      (hu : unf = s.unfinishedCall ∨ unf = none ∧ s.SecondBackup cfg env info)
      (hes : s.Aside cfg env info es) :
    Returned cfg env s info saved
      { s with
        errorCode := ec, accessed := acc, timeoutId := t, unfinishedCall := unf
        phase := .ending info, log := s.log ++ es }
  | backup (acc : Bool) (t : Option Timer) (es : List Effect)
      (hg : s.mayGoOn cfg info) (hec : s.errorCode = EBACKUPREQUEST)
      (hu : s.unfinishedCall = none ∨ s.SecondBackup cfg env info)
      (hes : s.Aside cfg env info es) :
    Returned cfg env s info saved
      { s with
        accessed := acc, timeoutId := t
        unfinishedCall := some s.currentCall
        currentCall := { s.currentCall.movedOut with nretry := s.currentCall.nretry + 1 }
        phase := .issuing, log := s.log ++ es }
  | retries (acc : Bool) (es : List Effect) (hg : s.retriesCurrent cfg env info) (hes : s.Aside cfg env info es) :
    Returned cfg env s info saved
      { s with
        accessed := acc
        currentCall := { s.currentCall.completed with nretry := s.currentCall.nretry + 1 }
        phase := .issuing
        log := s.log ++ es ++ s.currentCall.onComplete s s.errorCode info.responded false }

theorem endOfRPC_eq (cfg : Config) (s : State) (info : CompletionInfo) (nb : Bool) : ∃ es : List Effect, Quiet es ∧
      s.endOfRPC cfg info nb = { s with phase := .ending info, log := s.log ++ es } := by
  refine ⟨_, ?_, rfl⟩
  intro e he
  split at he <;> simp_all [attempt, milestone]

variable {env : ReturnEnv}

theorem access_eq_some {cfg : Config} {s s' : State}
    (h : s.access cfg env = some s') : ∃ acc, s' = { s with accessed := acc } := by
  unfold access at h
  split at h
  · exact ⟨s.accessed, (Option.some.inj h).symm⟩
  · split at h
    · exact ⟨true, (Option.some.inj h).symm⟩
    · exact absurd h (by simp)

theorem access_isSome_congr {cfg : Config} (s s' : State)
    (h : s'.accessed = s.accessed) : (s'.access cfg env).isSome = (s.access cfg env).isSome := by
  unfold access
  rw [h]
  split <;> [rfl; split <;> rfl]

theorem failedChecks_of_not_mayGoOn {cfg : Config} {s : State}
    {info : CompletionInfo} (h : ¬s.mayGoOn cfg info) : s.failedChecks cfg env info = [] := by
  unfold failedChecks
  rw [if_neg fun hb => h hb.1, if_neg fun hr => h hr.1, append_nil]

section Returned

variable {cfg : Config} {env : ReturnEnv} {s : State} {info : CompletionInfo} {nb : Bool} {saved : ErrorCode}

variable {es : List Effect}

theorem Aside.append {es' : List Effect} (h : s.Aside cfg env info es)
    (h' : Quiet es') : s.Aside cfg env info (es ++ es') := by
  refine ⟨fun e he => ?_, by rw [filter_append, h'.milestones, append_nil, h.2]⟩
  exact forall_mem_append.2 ⟨h.1, fun e he => (h' e he).1⟩ e he

theorem Aside.prepend {es' : List Effect} (h : s.Aside cfg env info es)
    (h' : Quiet es') : s.Aside cfg env info (es' ++ es) := by
  refine ⟨fun e he => ?_, by rw [filter_append, h'.milestones, nil_append, h.2]⟩
  exact forall_mem_append.2 ⟨fun e he => (h' e he).1, h.1⟩ e he

theorem endOfRPC_returned {ec : ErrorCode} {acc : Bool} {t : Option Timer} {unf : Option Call}
    (hd : s.decisive info) (hec : ec = s.errorCode ∨ ec ≠ 0)
    (hu : unf = s.unfinishedCall ∨ unf = none ∧ s.SecondBackup cfg env info)
    (hes : s.Aside cfg env info es) : Returned cfg env s info saved ({ s with
        errorCode := ec, accessed := acc, timeoutId := t, unfinishedCall := unf
        log := s.log ++ es }.endOfRPC cfg info nb) := by
  obtain ⟨es', hes', he⟩ := endOfRPC_eq cfg { s with
    errorCode := ec, accessed := acc, timeoutId := t, unfinishedCall := unf
    log := s.log ++ es } info nb
  rw [he]
  simpa only [append_assoc] using Returned.ends ec acc t unf (es ++ es') hd hec hu (hes.append hes')

theorem sendBackup_returned (hg : s.mayGoOn cfg info) (hec : s.errorCode = EBACKUPREQUEST) :
    Returned cfg env s info saved (s.sendBackup cfg env info nb) := by
  have hother : ¬s.RetriesOther cfg env info := fun h => h.2.1 hec
  unfold sendBackup
  split
  next ht =>
    have hsecond : ¬s.SecondBackup cfg env info := fun h => ht.2 (h.2.2.2.1 ht.1)
    rw [setFailed_eq, if_neg ht.2, if_neg ht.2]
    exact endOfRPC_returned hg.1 (.inr ht.2) (.inl rfl) ⟨by simp, by simp [failedChecks, hother, hsecond]⟩
  next ht =>
    have ht' : 0 ≤ cfg.timeoutMs → env.timerAdd = 0 := fun h => not_not.1 fun h' => ht ⟨h, h'⟩
    obtain ⟨t, es, hes, hs⟩ : ∃ (t : Option Timer) (es : List Effect), Quiet es ∧
        (if 0 ≤ cfg.timeoutMs then
          { s.emit [.addTimer .handleTimeout] with timeoutId := some .handleTimeout }
         else s) = { s with timeoutId := t, log := s.log ++ es } := by
      split
      · exact ⟨_, [.addTimer .handleTimeout], by simp [Quiet, attempt, milestone], rfl⟩
      · exact ⟨s.timeoutId, [], by simp [Quiet], by simp⟩
    simp only [hs]
    cases ha : ({ s with timeoutId := t, log := s.log ++ es } : State).access cfg env with
    | none =>
      have hsecond : ¬s.SecondBackup cfg env info := by
        intro h
        have := h.2.2.2.2
        rw [← access_isSome_congr s { s with timeoutId := t, log := s.log ++ es } rfl, ha] at this
        simp at this
      have hnil : s.Aside cfg env info [] := ⟨by simp, by simp [failedChecks, hother, hsecond]⟩
      have hm : ENOMEM ≠ 0 := by decide
      exact endOfRPC_returned hg.1 (.inr hm) (.inl rfl) (by simpa using hnil.append hes)
    | some =>
      obtain ⟨acc, rfl⟩ := access_eq_some ha
      have hsome : (s.access cfg env).isSome := by
        rw [← access_isSome_congr s { s with timeoutId := t, log := s.log ++ es } rfl, ha, Option.isSome_some]
      have hsecond : s.SecondBackup cfg env info ↔ s.unfinishedCall.isSome :=
        ⟨fun h => h.2.2.1, fun h => ⟨hg, hec, h, ht', hsome⟩⟩
      have hes' : s.Aside cfg env info (es ++ if s.unfinishedCall.isNone then [] else [.checkFailed .oneBackup]) := by
        refine Aside.prepend ⟨?_, ?_⟩ hes
        · intro e he
          split at he <;> simp_all [attempt]
        · unfold failedChecks
          rw [if_neg hother, append_nil]
          cases hu : s.unfinishedCall <;> simp [hsecond, hu, milestone]
      simp only [check_eq, append_assoc]
      split
      · refine Returned.backup acc t _ hg hec ?_ hes'
        cases hu : s.unfinishedCall with
        | none => exact .inl rfl
        | some => exact .inr (hsecond.2 (by simp [hu]))
      · have hm : ENOMEM ≠ 0 := by decide
        refine endOfRPC_returned hg.1 (.inr hm) ?_ hes'
        cases hu : s.unfinishedCall with
        | none => exact .inl rfl
        | some => exact .inr ⟨rfl, hsecond.2 (by simp [hu])⟩

theorem retry_returned (hg : s.mayGoOn cfg info) (hec : s.errorCode ≠ EBACKUPREQUEST)
    (hr : s.doRetry cfg env) : Returned cfg env s info saved (s.retry cfg env info nb) := by
  have hsecond : ¬s.SecondBackup cfg env info := fun h => hec h.2.1
  have hother : s.RetriesOther cfg env info ↔ s.currentId ≠ info.id := ⟨fun h => h.2.2.2, fun h => ⟨hg, hec, hr, h⟩⟩
  have hes : s.Aside cfg env info (if s.currentId = info.id then [] else [.checkFailed .retriesCurrent]) := by
    refine ⟨?_, ?_⟩
    · intro e he
      split at he <;> simp_all [attempt]
    · unfold failedChecks
      rw [if_neg hsecond, nil_append]
      by_cases h : s.currentId = info.id <;> simp [hother, h, milestone]
  unfold retry
  simp only [check_eq, decide_eq_true_eq]
  generalize (if s.currentId = info.id then ([] : List Effect) else [.checkFailed .retriesCurrent]) = es at hes ⊢
  cases ha : ({ s with log := s.log ++ es } : State).access cfg env with
  | none =>
    have hm : ENOMEM ≠ 0 := by decide
    exact endOfRPC_returned hg.1 (.inr hm) (.inl rfl) hes
  | some =>
    obtain ⟨acc, rfl⟩ := access_eq_some ha
    have hacc : (s.access cfg env).isSome := by
      rw [← access_isSome_congr s { s with log := s.log ++ es } rfl, ha, Option.isSome_some]
    exact Returned.retries acc es ⟨hg, hec, hr, hacc⟩ hes

theorem interceptPrevious_returned (hp : s.ofPrevious info) (hn : ¬(s.ofUnfinished info ∧ ¬s.failedInline)) :
    Returned cfg env s info saved (s.interceptPrevious info saved) := by
  unfold interceptPrevious
  cases hu : s.unfinishedCall with
  | none => exact Returned.stale hp (by simp [ofUnfinished, hu])
  | some u =>
    by_cases hid : s.getId u.nretry = info.id
    · simp only [if_pos hid]
      refine Returned.unfinishedFailed u hp hu hid fun h => hn ⟨?_, ?_⟩
      · simp [ofUnfinished, hu, hid]
      · simp [failedInline, h]
    · simp only [if_neg hid]
      exact Returned.stale hp (by simp [ofUnfinished, hu, hid])

/-- **Every way out of `OnVersionedRPCReturned` is one of `Returned`.** -/
theorem onVersionedRPCReturned_returned (cfg : Config) (env : ReturnEnv) (s : State)
    (info : CompletionInfo) (nb : Bool) (saved : ErrorCode) :
    Returned cfg env s info saved (s.onVersionedRPCReturned cfg env info nb saved) := by
  have hends : ∀ hd : s.decisive info, s.failedChecks cfg env info = [] →
      Returned cfg env s info saved (s.endOfRPC cfg info nb) := by
    intro hd hn
    have hnil : s.Aside cfg env info [] := ⟨by simp, by simp [hn]⟩
    have h : Returned cfg env s info saved (({ s with log := s.log ++ [] } : State).endOfRPC cfg
      info nb) := endOfRPC_returned hd (.inl rfl) (.inl rfl) hnil
    simpa only [append_nil] using h
  unfold onVersionedRPCReturned
  split
  next h =>
    exact interceptPrevious_returned h.1 h.2
  next h =>
    have hd : s.decisive info := by
      intro hp
      have := not_not.1 fun h' => h ⟨hp, h'⟩
      exact ⟨this.1, by simpa [failedInline] using this.2⟩
    split
    next hend =>
      refine hends hd (failedChecks_of_not_mayGoOn fun hg => ?_)
      rcases hend with ⟨hf, hr⟩ | hle
      · rcases hg.2.1 with he | he
        · exact hf (by simp [failedInline, he])
        · exact hr he
      · exact absurd hg.2.2 (by omega)
    next hgo =>
      have hg : s.mayGoOn cfg info := by
        obtain ⟨h₁, h₂⟩ := not_or.1 hgo
        refine ⟨hd, ?_, by omega⟩
        by_cases he : s.errorCode = 0
        · exact .inr (not_not.1 fun hr => h₁ ⟨by simp [failedInline, he], hr⟩)
        · exact .inl he
      split
      next hec =>
        exact sendBackup_returned hg hec
      next hec =>
        split
        next hr =>
          exact retry_returned hg hec hr
        next hr =>
          refine hends hd ?_
          unfold failedChecks
          rw [if_neg fun h => hec h.2.1, if_neg fun h => hr h.2.2.1, append_nil]

end Returned
end State
end Brpc.Controller
