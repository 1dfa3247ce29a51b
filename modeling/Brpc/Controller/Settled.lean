/-
# Every attempt is settled once, by its own outcome

One lemma per function of the controller: `Tracked` survives it in steps that meet `Settles`, which
makes `rpc_settles_every_attempt` a statement about whole runs.
-/

import Brpc.Controller.Tracked

namespace Brpc.Controller
namespace State

open List Effect

section Steps

variable {cfg : Config} {pooled : Bool} {s s' : State} {info : CompletionInfo} {nb : Bool}
  {saved : ErrorCode} {es : List Effect}

/-- **`OnVersionedRPCReturned` keeps every attempt accounted for.** -/
theorem Tracked.returned {env : ReturnEnv} (hl : s.Live) (h : s.Tracked pooled)
    (hp : s.phase = .returned info nb saved) (hr : Returned cfg env s info saved s')
    (hs : s.Settles cfg (.onVersionedRPCReturned env)) : s'.Tracked pooled := by
  have hid : s.hasVersion info.id := by simpa [hp, PhaseOk] using hl.phaseOk
  have hlock : s.locked := hl.locked (by simp [hp])
  obtain ⟨hbusy, hout⟩ : s.Busy pooled ∧ s.Outcome info := by simpa [Tracked, hp] using h
  obtain ⟨hno, hretry, hdrain⟩ := hs info (by simp [returnedInfo, hp])
  cases hr with
  | stale =>
    refine Busy.checkedUnlock ?_ hid hlock
    exact hbusy.congr rfl rfl rfl rfl rfl
  | unfinishedFailed u hprev hu huid hf =>
    refine Busy.checkedUnlock ⟨?_, hbusy.pooled_eq⟩ hid hlock
    have hledger := hbusy.ledger
    rw [hu] at hledger
    exact hledger.swap.complete hbusy.pooled_eq s.errorCode false (hdrain hprev hf u hu huid)
      (hout.response id fun _ => huid.symm)
  | ends ec acc t unf es hd hec hu hes =>
    obtain rfl : unf = s.unfinishedCall := hu.resolve_right fun h => hno h.2
    refine ⟨hbusy.extend rfl rfl rfl rfl rfl hes.1, ⟨fun hresp => ?_, fun hresp => ?_⟩, ?_⟩
    · exact ⟨mem_append_left _ (hout.1 hresp).1, (hout.1 hresp).2⟩
    · rcases hec with rfl | hec
      · exact hout.2 hresp
      · exact hec
    · intro hprev
      exact not_not.1 fun hn => hout.2 hn (hd hprev).2
  | backup acc t es hg hec hu hes =>
    have hnone : s.unfinishedCall = none := hu.resolve_right hno
    have hledger := hbusy.ledger
    rw [hnone] at hledger
    exact ⟨hledger.aside hes.1, hbusy.pooled_eq, rfl⟩
  | retries acc es hg hes =>
    obtain ⟨hnprev, hdr⟩ := hretry hg
    have hcur : info.id ≠ s.correlationId → info.id = s.getId s.currentCall.nretry := by
      intro hne
      simp only [ofPrevious, decide_eq_true_eq, not_and, not_not] at hnprev
      exact hnprev hne
    have hledger := (hbusy.ledger.aside hes.1).complete hbusy.pooled_eq s.errorCode false hdr
      fun hr => mem_append_left _ (hout.response id hcur hr)
    exact ⟨hledger, hbusy.pooled_eq, rfl⟩

variable {sent : List Effect}

variable {c : Call}

theorem Reached.open (h : Reached cfg s c sent)
    (hs : s.currentCall.sendingSock = none) (hes : ∀ e ∈ es, e.attempt = none ∨
      e = .write s.currentCall.nretry s.currentId) :
    Open c (history (.issue s.currentCall.nretry s.currentId :: sent ++ es) c.nretry) := by
  have htail : ∀ e ∈ history es s.currentCall.nretry, e = .write s.currentCall.nretry s.currentId := by
    intro e he
    obtain ⟨hmem, hatt⟩ := mem_filter.1 he
    refine (hes e hmem).resolve_left fun hn => ?_
    simp [hn] at hatt
  have hcount : ∀ {p : Effect → Bool}, p (.write s.currentCall.nretry s.currentId) = false →
      (history es s.currentCall.nretry).countP p = 0 := fun hp =>
    countP_eq_zero.2 fun e he => by rw [htail e he, hp]; simp
  have hconn : ∀ sock, connect s.currentCall.nretry sock ∉ history es s.currentCall.nretry :=
    fun sock he => by simpa using htail _ he
  have hh : history (.issue s.currentCall.nretry s.currentId :: sent ++ es) s.currentCall.nretry =
      .issue s.currentCall.nretry s.currentId :: sent ++ history es s.currentCall.nretry := by
    cases h <;> simp [history, attempt]
  have hC := hcount (p := isComplete) rfl
  have hF := hcount (p := isFeedback) rfl
  have hR := hcount (p := isRelease) rfl
  have hA := hcount (p := asksFeedback) rfl
  rw [h.nretry, hh]
  cases h with
  | noServer =>
    refine ⟨?_, ?_, ?_, ?_, fun sock => by simp [hconn, hs]⟩ <;> rw [countP_append]
    · rw [hC]; rfl
    · rw [hF]; rfl
    · rw [hR]; rfl
    · rw [hA]; rfl
  | noSock peer nf =>
    refine ⟨?_, ?_, ?_, ?_, fun sock => by simp [hconn, hs]⟩ <;> rw [countP_append]
    · rw [hC]; rfl
    · rw [hF]; rfl
    · rw [hR]; rfl
    · rw [hA]; cases nf <;> rfl
  | sock peer nf =>
    refine ⟨?_, ?_, ?_, ?_, fun sock => by simp [hconn, eq_comm]⟩ <;> rw [countP_append]
    · rw [hC]; rfl
    · rw [hF]; rfl
    · rw [hR]; rfl
    · rw [hA]; cases nf <;> rfl

theorem Reached.attempt (h : Reached cfg s c sent) (pooled : Bool) :
    ∀ e ∈ .issue s.currentCall.nretry s.currentId :: sent,
      e.attempt = some s.currentCall.nretry ∧ e.answers pooled = none := by
  cases h <;> simp [attempt, answers]

theorem Reached.ledger (h : Reached cfg s c sent)
    (hl : Ledger pooled s.correlationId s.unfinishedCall.toList s.currentCall.nretry s.log)
    (hs : s.currentCall.sendingSock = none) (hes : ∀ e ∈ es, e.attempt = none ∨
      e = .write s.currentCall.nretry s.currentId) :
    Ledger pooled s.correlationId (c :: s.unfinishedCall.toList) (c.nretry + 1)
      (s.log ++ .issue s.currentCall.nretry s.currentId :: sent ++ es) := by
  rw [← h.nretry] at hl
  rw [append_assoc]
  refine hl.issue (fun e he => ?_) (h.open hs hes)
  rw [h.nretry]
  rcases mem_append.1 he with he | he
  · exact ⟨.inr (h.attempt pooled e he).1, (h.attempt pooled e he).2⟩
  · rcases hes e he with hn | rfl
    · exact ⟨.inl hn, answers_of_attempt_none hn pooled⟩
    · exact ⟨.inr rfl, rfl⟩

/-- **`IssueRPC` keeps every attempt accounted for.** -/
theorem Tracked.issued (hl : s.Live) (h : s.Tracked pooled) (hp : s.phase = .issuing)
    (hi : Issued cfg s s') : s'.Tracked pooled := by
  obtain ⟨hledger, hpool, hsock⟩ : Ledger pooled s.correlationId s.unfinishedCall.toList
      s.currentCall.nretry s.log ∧ Call.pooled s = pooled ∧ s.currentCall.sendingSock = none := by
    simpa [Tracked, hp] using h
  cases hi with
  | failed c sent es ec nb hc hec hes =>
    refine ⟨⟨hc.ledger hledger hsock fun e he => .inl (hes e he).1, hpool⟩, ?_, fun _ => hec⟩
    exact fun hr => absurd hr (by simp)
  | written c sent hc =>
    refine Busy.checkedUnlock ⟨?_, hpool⟩ hl.core.hasVersion_currentId (hl.locked (by simp [hp]))
    exact hc.ledger hledger hsock fun e he => .inr (mem_singleton.1 he)

theorem finalError_eq_zero (lost : Bool) (h : s.finalError cfg lost = 0) : s.errorCode = 0 := by
  unfold finalError at h
  split at h
  · exact absurd h (by decide)
  · exact h

theorem Ended.ledger {lost : Bool} (hbusy : s.Busy pooled) (hout : s.Outcome info)
    (hresp : s.ofPrevious info → info.responded) (hp : s.phase = .ending info)
    (hs : s.Settles cfg (.endRPC lost)) (h : Ended cfg lost s info s') :
    Ledger pooled s.correlationId [] (s.currentCall.nretry + 1) s'.log := by
  have hdr := hs info (by simp [endingInfo, hp])
  have hpool := hbusy.pooled_eq
  have hquiet : ∀ {pre : List Effect}, Quiet pre → ∀ e ∈ Effect.endRPC info.id :: pre, e.attempt = none := by
    intro pre hpre e he
    rcases mem_cons.1 he with rfl | he
    · rfl
    · exact (hpre e he).1
  have hnz : (if s.errorCode = 0 then EBACKUPREQUEST else s.errorCode) ≠ 0 := by
    split
    · decide
    · assumption
  cases h with
  | current pre post hprev hpre hpost =>
    rw [if_neg hprev] at hdr
    have hcur : info.id ≠ s.correlationId → info.id = s.getId s.currentCall.nretry := by
      intro hne
      simp only [ofPrevious, decide_eq_true_eq, not_and, not_not] at hprev
      exact hprev hne
    have hr : s.finalError cfg lost = 0 ∨ info.responded → _ := hout.response (finalError_eq_zero lost) hcur
    have hled := hbusy.ledger.aside (hquiet hpre)
    simp only [ended, settleCurrent]
    cases hu : s.unfinishedCall with
    | none =>
      rw [hu] at hled
      have := (hled.complete hpool (s.finalError cfg lost) true hdr.1
        fun h => mem_append_left _ (hr h)).aside fun e he => (hpost e he).1
      simpa only [Option.toList_none, append_assoc, cons_append, nil_append] using this
    | some u =>
      rw [hu] at hled
      have := (hled.swap.complete hpool _ false (hdr.2 u hu)
        fun h => absurd h (by simpa using hnz)).complete hpool (s.finalError cfg lost) true hdr.1
          fun h => mem_append_left _ (mem_append_left _ (hr h))
      have := this.aside fun e he => (hpost e he).1
      simpa only [append_assoc, cons_append] using this
  | unfinished u pre post hprev hu hid hpre hpost =>
    rw [if_pos hprev] at hdr
    have hcancel : ECANCELED ≠ 0 := by decide
    have hled := hbusy.ledger.aside (hquiet hpre)
    rw [hu] at hled
    have := (hled.complete hpool ECANCELED false hdr
      fun h => absurd h (by simpa using hcancel)).complete hpool (s.finalError cfg lost) true (fun _ _ _ _ => hresp hprev)
        fun h => mem_append_left _ (mem_append_left _ (hout.response (finalError_eq_zero lost) (fun _ => hid.symm) h))
    have := this.aside fun e he => (hpost e he).1
    simpa only [ended, settleUnfinished, append_assoc, cons_append] using this

/-- **`EndRPC` settles every attempt**, and `done` runs after that. -/
theorem Tracked.endRPC {lost : Bool} (hl : s.Live) (h : s.Tracked pooled)
    (hp : s.phase = .ending info) (hs : s.Settles cfg (.endRPC lost)) :
    (s.endRPC cfg lost info).Tracked pooled := by
  obtain ⟨hbusy, hout, hresp⟩ : s.Busy pooled ∧ s.Outcome info ∧
      (s.ofPrevious info → info.responded) := by simpa [Tracked, hp] using h
  have hphase := hl.phaseOk
  rw [hp] at hphase
  have hended := endCalls_ended cfg lost hphase.2
  obtain ⟨hc, hr, -, hn, -⟩ := hended.frame
  have hv : (s.endCalls cfg lost info).hasVersion (s.endCalls cfg lost info).correlationId := by
    have := hasVersion_iff.1 hl.core.hasVersion_correlationId
    rw [hasVersion_iff, hc, hr]
    exact this
  have hled := hended.ledger hbusy hout hresp hp hs
  rw [endRPC_eq lost hv]
  refine ⟨?_, _, _, rfl, ?_, ?_⟩
  · have hfin : ∀ e ∈ (if cfg.done then [Effect.runDone] else []) ++ [Effect.unlockAndDestroy],
        e.attempt = none := by cases cfg.done <;> simp [Effect.attempt]
    have := hled.aside hfin
    rw [← hc, ← hn] at this
    exact this
  · intro hmem
    have hms : runDone ∈ (s.endCalls cfg lost info).milestones := mem_filter.2 ⟨hmem, rfl⟩
    rw [hended.milestones] at hms
    rcases mem_append.1 hms with hms | hms
    · cases hl.core.attempted.isOpen _ hms
    · simp at hms
  · cases cfg.done <;> simp [isComplete]

theorem Tracked.pending (h : s.Tracked pooled) (q : List PendingError) :
    ({ s with pendingQ := q } : State).Tracked pooled := by
  cases hp : s.phase <;> simp only [Tracked, hp] at h ⊢
  · exact h.congr rfl rfl rfl rfl rfl
  · exact ⟨h.1.congr rfl rfl rfl rfl rfl, h.2⟩
  · exact h
  · exact ⟨h.1.congr rfl rfl rfl rfl rfl, h.2⟩
  · exact h

end Steps

/-- **One step keeps every attempt accounted for**, if the input is genuine and the
step settles what it completes. -/
theorem Tracked.step {cfg : Config} {pooled : Bool} {s : State} (hinv : s.Inv cfg)
    (h : s.Tracked pooled) (i : Input) (hg : s.Genuine i) (hs : s.Settles cfg i) :
    (s.step cfg i).Tracked pooled := by
  rcases hinv with hl | hcl
  · cases i with
    | response id ec =>
      simp only [State.step]
      split
      next hid =>
        have hbusy : s.Busy pooled := by simpa [Tracked, hid.1] using h
        obtain ⟨p, hk, rfl⟩ := hg
        have hown := (hl.core.attempted.own p (by rwa [attempts_milestones])).1
        rw [onResponse_eq]
        refine ⟨hbusy.extend rfl rfl rfl rfl rfl (by simp [attempt]), fun _ => ⟨?_, ?_⟩,
          fun hn => absurd rfl hn⟩
        · exact mem_append_right _ (mem_singleton_self _)
        · show p.2 ≠ s.correlationId
          omega
      · exact h
    | error id ec =>
      simp only [State.step]
      split
      · unfold idError
        split
        next hp =>
          have hbusy : s.Busy pooled := by simpa [Tracked, hp] using h
          exact hbusy.handleSocketFailed id ec
        · exact h.pending _
      · exact h
    | onVersionedRPCReturned env =>
      cases hp : s.phase with
      | returned info nb saved =>
        simp only [State.step, hp]
        exact h.returned hl hp (onVersionedRPCReturned_returned cfg env s info nb saved) hs
      | _ =>
        simp only [State.step, hp]
        exact h
    | issueRPC env =>
      simp only [State.step]
      split
      next hp =>
        exact h.issued hl hp (issueRPC_issued cfg env s)
      · exact h
    | endRPC lost =>
      cases hp : s.phase with
      | ending =>
        simp only [State.step, hp]
        exact h.endRPC hl hp hs
      | _ =>
        simp only [State.step, hp]
        exact h
  · rw [step_of_destroyed hcl.phase]
    exact h

end State

theorem callMethod_tracked (cfg : Config) (env : CallEnv) :
    (callMethod cfg env).Tracked (Call.pooled (env.start cfg)) := by
  obtain ⟨n, ec, t, ph, es, -, hes, hph, h⟩ := callMethod_eq cfg env
  have hnil : ∀ k, history es k = [] := history_of_attempt_none fun e he => (hes e he).1
  have hans : Answered env.correlationId (Call.pooled (env.start cfg)) es := by
    have : Answered env.correlationId (Call.pooled (env.start cfg)) [] := trivial
    simpa using this.aside fun e he => (hes e he).1
  rw [h]
  rcases hph with rfl | ⟨hne, nb, rfl⟩
  · refine ⟨⟨by simp [CallEnv.start], by simp [CallEnv.start], fun k _ => hnil k,
      fun k hk => absurd hk (Nat.not_lt_zero k), hans⟩,
      rfl, rfl⟩
  · refine ⟨⟨⟨?_, by simp [CallEnv.start], fun k _ => hnil k, fun k hk hk' => ?_, hans⟩, rfl⟩,
      fun hr => absurd hr (by simp), fun _ => hne⟩
    · intro c hc
      obtain rfl : c = Call.reset := by simpa [CallEnv.start] using hc
      refine ⟨Nat.lt_succ_self _, ?_⟩
      rw [hnil]
      exact ⟨rfl, rfl, rfl, rfl, by simp [Call.reset]⟩
    · have : k = 0 := Nat.lt_one_iff.1 hk
      exact absurd this.symm (hk' Call.reset (by simp [CallEnv.start]))

/-! ## The contract -/

namespace State

open List Effect

/-- The contract of the attempts of an RPC started with `env`. -/
structure SettledOnce (cfg : Config) (env : CallEnv) (s : State) : Prop where
  complete_le : ∀ k, (history s.log k).countP isComplete ≤ 1
  complete_once : s.phase = .destroyed → ∀ k peer needFeedback, .select k peer needFeedback ∈ s.log →
    (history s.log k).countP isComplete = 1
  before_done : s.log.Pairwise fun a b => a = .runDone → b.isComplete = false
  feedback_le : ∀ k, (history s.log k).countP isFeedback ≤ (history s.log k).countP asksFeedback
  feedback_once : s.phase = .destroyed → ∀ k, (history s.log k).countP isFeedback =
    (history s.log k).countP asksFeedback
  /-- Completed with success or as responded, and put back into the pool, only after
  a response of that attempt. -/
  answered : Answered env.correlationId (Call.pooled (env.start cfg)) s.log
  /-- No pooled connection is leaked. -/
  released : Call.pooled (env.start cfg) → s.phase = .destroyed → ∀ k sock, .connect k sock ∈ s.log →
    (history s.log k).countP isRelease = 1 ∧
      (.returnToPool k sock ∈ s.log ∨ .setFailedSock k sock ∈ s.log ∨ .onProgressiveReadCompleted k sock ∈ s.log)

theorem Tracked.ledger {pooled : Bool} {s : State} (h : s.Tracked pooled) :
    ∃ calls bound, Ledger pooled s.correlationId calls bound s.log ∧ (s.phase = .destroyed → calls = []) := by
  cases hp : s.phase <;> simp only [Tracked, hp] at h
  · exact ⟨_, _, h.ledger, by simp⟩
  · exact ⟨_, _, h.1.ledger, by simp⟩
  · exact ⟨_, _, h.1, by simp⟩
  · exact ⟨_, _, h.1.ledger, by simp⟩
  · exact ⟨_, _, h.1, fun _ => rfl⟩

theorem Tracked.before_done {cfg : Config} {pooled : Bool} {s : State} (hinv : s.Inv cfg)
    (h : s.Tracked pooled) : s.log.Pairwise fun a b => a = .runDone → b.isComplete = false := by
  have hsplit : ∃ pre post, s.log = pre ++ post ∧ .runDone ∉ pre ∧ ∀ e ∈ post, e.isComplete = false := by
    rcases hinv with hl | hcl
    · refine ⟨s.log, [], (append_nil _).symm, fun hmem => ?_, by simp⟩
      cases hl.core.attempted.isOpen _ (mem_filter.2 ⟨hmem, rfl⟩)
    · simp only [Tracked, hcl.phase] at h
      exact h.2
  obtain ⟨pre, post, hlog, hpre, hpost⟩ := hsplit
  rw [hlog]
  refine pairwise_append.2 ⟨?_, ?_, ?_⟩
  · exact pairwise_of_forall_mem_list fun a ha b _ h => absurd (h ▸ ha) hpre
  · exact pairwise_of_forall_mem_list fun a _ b hb _ => hpost b hb
  · exact fun a ha b _ h => absurd (h ▸ ha) hpre

/-- **The books say that the contract is kept.** -/
theorem Tracked.settledOnce {cfg : Config} {env : CallEnv} {s : State} (hinv : s.Inv cfg)
    (h : s.Tracked (Call.pooled (env.start cfg))) (hc : s.correlationId = env.correlationId) :
    s.SettledOnce cfg env := by
  obtain ⟨calls, bound, hled, hnone⟩ := h.ledger
  have hend : s.phase = .destroyed → ∀ k, history s.log k = [] ∨
      SettledHistory (Call.pooled (env.start cfg)) k (history s.log k) := by
    intro hd k
    rcases hled.cases k with h | ⟨c, hmem, -⟩ | h
    · exact .inl h
    · exact absurd (hnone hd ▸ hmem) not_mem_nil
    · exact .inr h
  have hmem : ∀ {e : Effect} {k : ℕ}, e.attempt = some k → e ∈ s.log → e ∈ history s.log k :=
    fun hatt he => mem_filter.2 ⟨he, by simpa using hatt⟩
  refine ⟨fun k => ?_, ?_, h.before_done hinv, fun k => ?_, ?_, hc ▸ hled.answered, ?_⟩
  · rcases hled.cases k with h | ⟨c, -, h⟩ | h
    · simp [h]
    · simp [h.complete]
    · exact Nat.le_of_eq h.complete
  · intro hd k peer nf hsel
    refine ((hend hd k).resolve_left fun hnil => ?_).complete
    have := hmem rfl hsel
    rw [hnil] at this
    exact absurd this not_mem_nil
  · rcases hled.cases k with h | ⟨c, -, h⟩ | h
    · simp [h]
    · simp [h.feedback]
    · exact Nat.le_of_eq h.feedback
  · intro hd k
    rcases hend hd k with h | h
    · simp [h]
    · exact h.feedback
  · intro hp hd k sock hconn
    have hconn := hmem rfl hconn
    have hset := (hend hd k).resolve_left fun hnil => by
      rw [hnil] at hconn
      exact absurd hconn not_mem_nil
    obtain ⟨hcount, hrel⟩ := hset.release hp sock hconn
    exact ⟨hcount, hrel.imp mem_of_mem_filter (Or.imp mem_of_mem_filter mem_of_mem_filter)⟩

end State

/-- **Every attempt is settled exactly once and by its own outcome**, in every run of
genuine responses whose steps settle what they complete. -/
theorem rpc_settles_every_attempt (cfg : Config) (env : CallEnv) (is : List Input)
    (h : Lib.Along (State.step cfg) (fun s i => s.Genuine i ∧ s.Settles cfg i)
      (callMethod cfg env) is) : (rpc cfg env is).SettledOnce cfg env := by
  have htracked := Lib.run_invariant
    (I := fun s : State => s.Inv cfg ∧ s.Tracked (Call.pooled (env.start cfg)))
    (fun s i hI hP => ⟨(State.inv_step hI.1 i).1, hI.2.step hI.1 i hP.1 hP.2⟩) is _
    ⟨.inl (callMethod_live cfg env), callMethod_tracked cfg env⟩ h
  exact htracked.2.settledOnce htracked.1 (rpc_frame cfg env is).1

/-- The backup timer fires and the backup request is answered first. -/
def backupAnswered : List Input :=
  [.issueRPC sendOk, .error 100 EBACKUPREQUEST, .onVersionedRPCReturned returnOk, .issueRPC sendOk,
    .response 102 0, .onVersionedRPCReturned returnOk, .endRPC false]

theorem backupAnswered_settles_every_attempt : (rpc plainConfig backupCall backupAnswered).phase = .destroyed ∧
      (rpc plainConfig backupCall backupAnswered).SettledOnce plainConfig backupCall :=
  ⟨by decide, rpc_settles_every_attempt plainConfig backupCall backupAnswered (by decide)⟩

/-- The server answers the backup request with `EBACKUPREQUEST` and the third attempt
with success: the first one is gone. -/
theorem dropped_attempt_not_completed : ¬(rpc plainConfig backupCall (secondBackup ++
      [.issueRPC sendOk, .response 103 0, .onVersionedRPCReturned returnOk,
        .endRPC false])).SettledOnce plainConfig backupCall := by
  intro h
  have := h.complete_once (by decide) 0 7 false (by decide)
  exact absurd this (by decide)

end Brpc.Controller
