/-
# What `IssueRPC`, `EndRPC` and `CallMethod` can do

`Issued` and `Ended` list the ways out of the two functions, as `Returned` does for
`OnVersionedRPCReturned`; `Reached` is how far an attempt gets.  `callMethod_eq` says how an RPC
starts.
-/

import Brpc.Controller.Returned

namespace Brpc.Controller
namespace State

open List

/-- How far an attempt got in `IssueRPC`: the call it leaves and what was done. -/
inductive Reached (cfg : Config) (s : State) : Call → List Effect → Prop
  | noServer :
    Reached cfg s
      { s.currentCall with
        needFeedback := false, enableCircuitBreaker := cfg.enabledCircuitBreaker } []
  | noSock (peer : SocketId) (needFeedback : Bool) :
    Reached cfg s
      { s.currentCall with
        needFeedback := needFeedback, enableCircuitBreaker := cfg.enabledCircuitBreaker
        peerId := some peer, streamUserData := s.streamCreator }
      [.select s.currentCall.nretry peer needFeedback]
  | sock (peer : SocketId) (needFeedback : Bool) (sending : SendingSock) :
    Reached cfg s
      { s.currentCall with
        needFeedback := needFeedback, enableCircuitBreaker := cfg.enabledCircuitBreaker
        peerId := some peer, streamUserData := s.streamCreator, sendingSock := some sending }
      [.select s.currentCall.nretry peer needFeedback, .connect s.currentCall.nretry sending]

/-- The ways out of `IssueRPC`. -/
inductive Issued (cfg : Config) (s : State) : State → Prop
  | failed (c : Call) (sent es : List Effect) (ec : ErrorCode) (newBthread : Bool)
      (hc : Reached cfg s c sent) (hec : ec ≠ 0)
      (hes : Quiet es) :
    Issued cfg s
      { s with
        errorCode := ec, currentCall := c
        phase := .returned ⟨s.currentId, false⟩ newBthread ec
        log := s.log ++ .issue s.currentCall.nretry s.currentId :: sent ++ es }
  | written (c : Call) (sent : List Effect) (hc : Reached cfg s c sent) :
    Issued cfg s
      (({ s with
        errorCode := 0, currentCall := c
        log := s.log ++ .issue s.currentCall.nretry s.currentId :: sent ++
          [.write s.currentCall.nretry s.currentId] } : State).checkedUnlock s.currentId)

variable {cfg : Config} {s : State}

theorem Reached.nretry {c : Call} {sent : List Effect}
    (h : Reached cfg s c sent) : c.nretry = s.currentCall.nretry := by
  cases h <;> rfl

theorem failed_issued {c : Call} {sent : List Effect} (ec : ErrorCode) (hc : Reached cfg s c sent) : Issued cfg s
      ((({ s with
        errorCode := 0, currentCall := c
        log := s.log ++ .issue s.currentCall.nretry s.currentId :: sent } : State).setFailed
          ec).handleSendFailed cfg) := by
  have hne := setFailed_errorCode_ne_zero { s with
    errorCode := 0, currentCall := c
    log := s.log ++ .issue s.currentCall.nretry s.currentId :: sent } ec
  unfold handleSendFailed
  rw [if_pos (by simpa [failedInline] using hne)]
  simp only [setFailed_eq, currentId, hc.nretry] at hne ⊢
  refine Issued.failed c sent _ _ _ hc hne ?_
  intro e he
  split at he <;> simp_all [Effect.attempt, Effect.milestone]

/-- **Every way out of `IssueRPC` is one of `Issued`.** -/
theorem issueRPC_issued (cfg : Config) (env : SendEnv) (s : State) : Issued cfg s (s.issueRPC cfg env) := by
  unfold issueRPC
  cases pickServer cfg env with
  | inl ec => exact failed_issued ec .noServer
  | inr p =>
    obtain ⟨peer, needFeedback⟩ := p
    simp only [emit, append_assoc]
    split
    next ec _ =>
      exact failed_issued ec (.noSock peer needFeedback)
    next sock _ =>
      have hreach := @Reached.sock cfg s peer needFeedback ⟨sock, cfg.readProgressively && s.connectionType ≠ .unknown⟩
      split
      · exact failed_issued env.authError hreach
      · split
        · exact failed_issued env.packRequest hreach
        · have hwritten := Issued.written _ _ hreach
          simp only [append_assoc] at hwritten
          exact hwritten

/-- The error `EndRPC` completes the call with: `HandleStreamConnection` may turn a
success into `EREQUEST`. -/
def finalError (cfg : Config) (streamLost : Bool) (s : State) : ErrorCode :=
  if cfg.requestStream ∧ ¬s.failedInline ∧ streamLost then EREQUEST else s.errorCode

/-- What `EndRPC` does to the attempts when the event is not the unfinished one's. -/
def settleCurrent (cfg : Config) (streamLost : Bool) (s : State) (info : CompletionInfo) : List Effect :=
  (match s.unfinishedCall with
    | some u => u.onComplete s (if s.errorCode = 0 then EBACKUPREQUEST else s.errorCode) false false
    | none => []) ++
  s.currentCall.onComplete s (s.finalError cfg streamLost) info.responded true

/-- What `EndRPC` does to the attempts when the unfinished one `u` responded first. -/
def settleUnfinished (cfg : Config) (streamLost : Bool) (s : State) (info : CompletionInfo)
    (u : Call) : List Effect :=
  s.currentCall.onComplete s ECANCELED false false ++ u.onComplete s (s.finalError cfg streamLost) info.responded true

/-- The state `EndRPC` leaves when it logged `es`. -/
def ended (cfg : Config) (streamLost : Bool) (s : State) (es : List Effect) : State :=
  { s with
    errorCode := s.finalError cfg streamLost
    currentCall := s.currentCall.completed
    unfinishedCall := none
    timeoutId := none
    streamCreator := false
    lb := false
    log := s.log ++ es }

/-- The ways out of `EndRPC` up to the release of the load balancer, for an event of the
unfinished attempt or one that decides. -/
inductive Ended (cfg : Config) (streamLost : Bool) (s : State) (info : CompletionInfo) : State → Prop
  | current (pre post : List Effect) (hp : ¬s.ofPrevious info)
      (hpre : Quiet pre)
      (hpost : Quiet post) :
    Ended cfg streamLost s info (s.ended cfg streamLost
      (.endRPC info.id :: pre ++ s.settleCurrent cfg streamLost info ++ post))
  | unfinished (u : Call) (pre post : List Effect) (hp : s.ofPrevious info)
      (hu : s.unfinishedCall = some u) (hid : s.getId u.nretry = info.id)
      (hpre : Quiet pre)
      (hpost : Quiet post) :
    Ended cfg streamLost s info (s.ended cfg streamLost
      (.endRPC info.id :: pre ++ s.settleUnfinished cfg streamLost info u ++ post))

variable {info : CompletionInfo}

theorem Ended.errorCode_of_failed {lost : Bool} {s' : State}
    (h : Ended cfg lost s info s') (hf : s.errorCode ≠ 0) : s'.errorCode = s.errorCode := by
  have hfinal : s.finalError cfg lost = s.errorCode := by simp [finalError, failedInline, hf]
  cases h <;> exact hfinal

theorem Ended.unfinishedCall_eq {lost : Bool} {s' : State}
    (h : Ended cfg lost s info s') : s'.unfinishedCall = none := by
  cases h <;> rfl

theorem handleStreamConnection_eq (cfg : Config) (lost : Bool) (s : State) :
    s.handleStreamConnection cfg lost = { s with errorCode := s.finalError cfg lost } := by
  unfold handleStreamConnection finalError
  split <;> rfl

theorem endCurrent_eq (cfg : Config) (lost : Bool) (s : State) (info : CompletionInfo) :
    s.endCurrent cfg lost info = { s with
        errorCode := s.finalError cfg lost
        unfinishedCall := none
        currentCall := s.currentCall.completed
        log := s.log ++ s.settleCurrent cfg lost info } := by
  unfold endCurrent settleCurrent
  cases hu : s.unfinishedCall with
  | none =>
    simp only [handleStreamConnection_eq, emit, nil_append, hu]
    rfl
  | some =>
    simp only [handleStreamConnection_eq, emit, append_assoc]
    rfl

theorem endUnfinished_eq (cfg : Config) (lost : Bool) (s : State) (info : CompletionInfo) {u : Call}
    (hu : s.unfinishedCall = some u) (hid : s.getId u.nretry = info.id) :
    s.endUnfinished cfg lost info = { s with
        errorCode := s.finalError cfg lost
        unfinishedCall := none
        currentCall := s.currentCall.completed
        log := s.log ++ s.settleUnfinished cfg lost info u } := by
  unfold endUnfinished settleUnfinished
  simp only [check, hu, Option.isSome_some, if_true, emit, handleStreamConnection_eq]
  rw [if_pos (by simpa [getId] using hid), append_assoc]
  rfl

theorem delTimer_eq (s : State) : s.delTimer = { s with
      timeoutId := none
      log := s.log ++ if s.timeoutId.isSome then [.delTimer] else [] } := by
  obtain ⟨_, _, _, _, _, _, _, _, timeoutId, _, _, _, _, _⟩ := s
  cases timeoutId <;> simp [delTimer, emit]

theorem releaseLb_eq (s : State) : s.releaseLb = { s with
      streamCreator := false, lb := false
      log := s.log ++ ((if s.streamCreator then [.destroyStreamCreator] else []) ++ [.resetLb]) } := by
  obtain ⟨_, _, _, _, _, _, _, _, _, streamCreator, _, _, _, _⟩ := s
  cases streamCreator <;> simp [releaseLb, emit]

/-- **Every way out of `EndRPC` is one of `Ended`**, if the event is the
unfinished attempt's or decides over the whole RPC. -/
theorem endCalls_ended (cfg : Config) (lost : Bool) (h : s.ofPrevious info → s.ofUnfinished info) :
    Ended cfg lost s info (s.endCalls cfg lost info) := by
  have hpre : Quiet (if s.timeoutId.isSome then [.delTimer] else []) := by
    cases s.timeoutId <;> simp [Quiet, Effect.attempt, Effect.milestone]
  have hpost : Quiet ((if s.streamCreator then [.destroyStreamCreator] else []) ++ [.resetLb]) := by
    cases s.streamCreator <;> simp [Quiet, Effect.attempt, Effect.milestone]
  unfold endCalls
  simp only [delTimer_eq, emit, append_assoc]
  generalize (if s.timeoutId.isSome then [Effect.delTimer] else []) = pre at hpre ⊢
  split
  next hid =>
    have hp : ¬s.ofPrevious info := by
      simp only [ofPrevious, decide_eq_true_eq]
      exact fun hn => hid.elim hn.2 hn.1
    have hended := @Ended.current cfg lost s info _ _ hp hpre hpost
    simp only [ended, cons_append, append_assoc] at hended
    simp only [endCurrent_eq, releaseLb_eq, append_assoc]
    exact hended
  next hid =>
    have hp : s.ofPrevious info := by
      simp only [ofPrevious, decide_eq_true_eq]
      exact ⟨fun hn => hid (.inr hn), fun hn => hid (.inl hn)⟩
    obtain ⟨u, hu, hu'⟩ : ∃ u, s.unfinishedCall = some u ∧ s.getId u.nretry = info.id := by
      have hof := h hp
      unfold ofUnfinished at hof
      cases hu : s.unfinishedCall with
      | none => simp [hu] at hof
      | some u => exact ⟨u, rfl, by simpa [hu] using hof⟩
    have hended := @Ended.unfinished cfg lost s info u _ _ hp hu hu' hpre hpost
    simp only [ended, cons_append, append_assoc] at hended
    rw [endUnfinished_eq (u := u), releaseLb_eq]
    rotate_left
    · exact hu
    · exact hu'
    simp only [append_assoc]
    exact hended

end State

theorem handleSendFailed_eq (cfg : Config) (s : State) (ec : ErrorCode) :
    ∃ (ec' : ErrorCode) (nb : Bool) (es : List Effect), ec' ≠ 0 ∧ Quiet es ∧
      (s.setFailed ec).handleSendFailed cfg = { s with
          errorCode := ec', phase := .returned ⟨s.currentId, false⟩ nb ec', log := s.log ++ es } := by
  have hne := State.setFailed_errorCode_ne_zero s ec
  unfold State.handleSendFailed
  rw [if_pos (by simpa [State.failedInline] using hne)]
  rw [State.setFailed_eq] at hne ⊢
  refine ⟨_, _, _, hne, ?_, rfl⟩
  split <;> simp [Quiet, Effect.attempt, Effect.milestone]

theorem callMethod_eq (cfg : Config) (env : CallEnv) :
    ∃ (n : ℕ) (ec : ErrorCode) (t : Option Timer) (ph : Phase) (es : List Effect),
      n ≤ effectiveMaxRetry env.cntlMaxRetry env.channelMaxRetry ∧ Quiet es ∧
      (ph = .issuing ∨ ec ≠ 0 ∧ ∃ nb, ph = .returned ⟨env.correlationId + 1, false⟩ nb ec) ∧
      callMethod cfg env = { env.start cfg with
          maxRetry := n, errorCode := ec, timeoutId := t, phase := ph, log := es } := by
  obtain ⟨n, hn, hs⟩ : ∃ n ≤ effectiveMaxRetry env.cntlMaxRetry env.channelMaxRetry,
      (if cfg.requestStream then { env.start cfg with maxRetry := 0 } else env.start cfg) =
        { env.start cfg with maxRetry := n } := by
    split
    · exact ⟨0, Nat.zero_le _, rfl⟩
    · exact ⟨_, Nat.le_refl _, rfl⟩
  have hadd : ∀ t : Timer, ∃ (ec : ErrorCode) (t' : Option Timer) (ph : Phase) (es : List Effect),
      Quiet es ∧
      (ph = .issuing ∨ ec ≠ 0 ∧ ∃ nb, ph = .returned ⟨env.correlationId + 1, false⟩ nb ec) ∧
      State.addTimer cfg env { env.start cfg with maxRetry := n } t =
        { env.start cfg with
          maxRetry := n, errorCode := ec, timeoutId := t', phase := ph, log := es } := by
    intro t
    unfold State.addTimer
    split
    · obtain ⟨ec, nb, es, hne, hes, h⟩ := handleSendFailed_eq cfg { env.start cfg with maxRetry := n } env.timerAdd
      exact ⟨ec, _, _, es, hes, .inr ⟨hne, nb, rfl⟩, h⟩
    · exact ⟨_, _, _, [.addTimer t], by simp [Quiet, Effect.attempt, Effect.milestone], .inl rfl, rfl⟩
  unfold callMethod
  simp only [hs]
  split
  next hf =>
    unfold State.handleSendFailed
    rw [if_pos hf]
    refine ⟨_, _, _, _, [], Nat.le_refl _, by simp [Quiet], .inr ⟨?_, _, rfl⟩, rfl⟩
    simpa [State.failedInline] using hf
  · split
    · obtain ⟨ec, nb, es, hne, hes, h⟩ := handleSendFailed_eq cfg (env.start cfg) ELIMIT
      exact ⟨_, ec, _, _, es, Nat.le_refl _, hes, .inr ⟨hne, nb, rfl⟩, h⟩
    · split
      · obtain ⟨ec, t, ph, es, h⟩ := hadd .handleBackupRequest
        exact ⟨n, ec, t, ph, es, hn, h⟩
      · split
        · obtain ⟨ec, t, ph, es, h⟩ := hadd .handleTimeout
          exact ⟨n, ec, t, ph, es, hn, h⟩
        · exact ⟨n, _, _, _, [], hn, by simp [Quiet], .inl rfl, rfl⟩

end Brpc.Controller
