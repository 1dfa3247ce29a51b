/-
# An RPC ends exactly once

`EndsOnce` is the contract of one RPC over a plain channel, whatever comes for any version of its id
(`rpc_ends_exactly_once`).  Two assertions of `OnVersionedRPCReturned` can fail, exactly when a step
is not `Orderly`.  `inv_step` says which milestones a step adds (`State.added`), and
`inv_step_advances` that an RPC moves on (`State.rank`).
-/

import Brpc.Controller.Live
import Mathlib.Data.List.Nodup
import Mathlib.Data.List.Perm.Subperm

namespace Brpc.Controller

open List
namespace State

/-- The milestones a step adds. -/
def added (cfg : Config) (s : State) : Input → List Effect
  | .onVersionedRPCReturned env =>
    match s.phase with
    | .returned info _ _ => s.failedChecks cfg env info
    | _ => []
  | .issueRPC _ => if s.phase = .issuing then [.issue s.currentCall.nretry s.currentId] else []
  | .endRPC _ =>
    match s.phase with
    | .ending info => finale cfg info.id
    | _ => []
  | _ => []

variable {cfg : Config} {s : State}

theorem step_of_destroyed (h : s.phase = .destroyed) (i : Input) : s.step cfg i = s := by
  cases i <;> simp [step, h]

theorem added_of_destroyed (h : s.phase = .destroyed) (i : Input) : s.added cfg i = [] := by
  cases i <;> simp [added, h]

theorem Live.step (h : s.Live) (i : Input) :
    (s.step cfg i).Inv cfg ∧ (s.step cfg i).milestones = s.milestones ++ s.added cfg i := by
  have hstay : s.Inv cfg ∧ s.milestones = s.milestones ++ [] := ⟨.inl h, by simp⟩
  cases i with
  | response id ec =>
    simp only [State.step, added]
    split
    next hid =>
      have := h.onResponse hid.2 ec
      exact ⟨.inl this.1, by rw [this.2, append_nil]⟩
    · exact hstay
  | error id ec =>
    simp only [State.step, added]
    split
    next hid =>
      have := h.idError hid.2 ec
      exact ⟨.inl this.1, by rw [this.2, append_nil]⟩
    · exact hstay
  | onVersionedRPCReturned env =>
    cases hp : s.phase with
    | returned info nb saved =>
      have := h.returned hp (onVersionedRPCReturned_returned cfg env s info nb saved)
      simp only [State.step, added, hp]
      exact ⟨.inl this.1, this.2⟩
    | _ =>
      simp only [State.step, added, hp]
      exact hstay
  | issueRPC env =>
    simp only [State.step, added]
    split
    next hp =>
      have := h.issued hp (issueRPC_issued cfg env s)
      exact ⟨.inl this.1, this.2⟩
    · exact hstay
  | endRPC lost =>
    cases hp : s.phase with
    | ending =>
      have := h.endRPC cfg hp lost
      simp only [State.step, added, hp]
      exact ⟨.inr this.1, this.2⟩
    | _ =>
      simp only [State.step, added, hp]
      exact hstay

/-- **One step keeps the invariant** and adds the milestones `added` says. -/
theorem inv_step (h : s.Inv cfg) (i : Input) :
    (s.step cfg i).Inv cfg ∧ (s.step cfg i).milestones = s.milestones ++ s.added cfg i := by
  rcases h with h | h
  · exact h.step i
  · rw [step_of_destroyed h.phase, added_of_destroyed h.phase, append_nil]
    exact ⟨.inr h, rfl⟩

end State

theorem callMethod_live (cfg : Config) (env : CallEnv) : (callMethod cfg env).Live := by
  obtain ⟨n, ec, t, ph, es, hn, hes, hph, h⟩ := callMethod_eq cfg env
  have hnil : (callMethod cfg env).milestones = [] := by
    rw [h]
    exact hes.milestones
  have hcore : (callMethod cfg env).Core := by
    refine ⟨?_, ?_, ?_, ?_⟩
    · rw [h]
      show n + 2 ≤ 2 + effectiveMaxRetry env.cntlMaxRetry env.channelMaxRetry
      omega
    · rw [h]
      exact Nat.zero_le _
    · rw [h]
      exact fun _ he => absurd he not_mem_nil
    · rw [hnil]
      exact ⟨fun _ he => absurd he not_mem_nil, Pairwise.nil, fun _ he => absurd he not_mem_nil⟩
  refine ⟨hcore, ?_⟩
  have hphase : (callMethod cfg env).phase = ph := by rw [h]
  rw [hphase]
  rcases hph with rfl | ⟨-, nb, rfl⟩
  · show ∀ p ∈ attempts (callMethod cfg env).milestones, _
    rw [hnil]
    exact fun _ he => absurd he not_mem_nil
  · have := hcore.hasVersion_currentId
    rwa [show (callMethod cfg env).currentId = env.correlationId + 1 by rw [h]; rfl] at this

namespace State

/-! ### How far an RPC is -/

/-- The attempts used up: more than `max_retry` when the end has been decided. -/
def rank (s : State) : ℕ :=
  match s.phase with
  | .ending _ | .destroyed => s.maxRetry + 1
  | _ => s.currentCall.nretry

/-- From `s` to `s'` an RPC keeps its id and its `max_retry`, and uses up at least
`k` attempts. -/
structure Advances (s s' : State) (k : ℕ) : Prop where
  correlationId : s'.correlationId = s.correlationId
  maxRetry : s'.maxRetry = s.maxRetry
  rank : s.rank + k ≤ s'.rank

theorem Advances.refl (s : State) : s.Advances s 0 := ⟨rfl, rfl, Nat.le_refl _⟩

variable {s : State}

theorem checkedUnlock_advances (id : ℕ) (hr : s.rank = s.currentCall.nretry)
    (hid : s.hasVersion id) (hl : s.locked) : s.Advances (s.checkedUnlock id) 0 := by
  rw [checkedUnlock_of_locked hid hl]
  refine ⟨?_, ?_, ?_⟩ <;> unfold afterUnlock <;> split
  all_goals first | rfl | skip
  · rw [handleSocketFailed, setFailed_eq]
  · rw [handleSocketFailed, setFailed_eq]
  · exact Nat.le_of_eq hr
  · rw [handleSocketFailed, setFailed_eq]
    exact Nat.le_of_eq hr

variable {cfg : Config}

theorem Live.returned_advances {env : ReturnEnv} {s' : State}
    {info : CompletionInfo} {nb : Bool} {saved : ErrorCode} (h : s.Live)
    (hp : s.phase = .returned info nb saved) (hr : Returned cfg env s info saved s') :
    s.Advances s' (if s.decisive info then 1 else 0) := by
  have hid : s.hasVersion info.id := by simpa [hp, PhaseOk] using h.phaseOk
  have hl : s.locked := h.locked (by simp [hp])
  have hrank : s.rank = s.currentCall.nretry := by simp [rank, hp]
  have hle := h.core.nretry_le
  cases hr with
  | stale hprev hu =>
    rw [if_neg fun hd => hu (hd hprev).1]
    have := checkedUnlock_advances (s := { s with errorCode := saved }) info.id hrank hid hl
    exact { this with }
  | unfinishedFailed u hprev hu huid hf =>
    rw [if_neg fun hd => hf (hd hprev).2]
    have := checkedUnlock_advances (s := { s with
      log := s.log ++ u.onComplete s s.errorCode info.responded false
      unfinishedCall := none
      errorCode := saved }) info.id hrank hid hl
    exact { this with }
  | ends ec acc t unf es hd =>
    refine ⟨rfl, rfl, ?_⟩
    rw [if_pos hd, hrank]
    exact Nat.succ_le_succ hle
  | backup acc t es hg =>
    refine ⟨rfl, rfl, ?_⟩
    rw [if_pos hg.1, hrank]
    exact Nat.le_refl _
  | retries acc es hg =>
    refine ⟨rfl, rfl, ?_⟩
    rw [if_pos hg.1.1, hrank]
    exact Nat.le_refl _

theorem Live.issued_advances {s' : State} (h : s.Live) (hp : s.phase = .issuing)
    (hi : Issued cfg s s') : s.Advances s' 0 := by
  have hrank : s.rank = s.currentCall.nretry := by simp [rank, hp]
  cases hi with
  | failed c sent es ec nb hc =>
    exact ⟨rfl, rfl, by rw [hrank, ← hc.nretry]; exact Nat.le_refl _⟩
  | written c sent hc =>
    have := checkedUnlock_advances (s := { s with
      errorCode := 0, currentCall := c
      log := s.log ++ .issue s.currentCall.nretry s.currentId :: sent ++
        [.write s.currentCall.nretry s.currentId] }) s.currentId
      (by simp [rank, hp]) h.core.hasVersion_currentId (h.locked (by simp [hp]))
    refine ⟨this.1, this.2, Nat.le_trans (Nat.le_of_eq ?_) this.3⟩
    rw [hrank, ← hc.nretry]
    simp [rank, hp]

theorem Live.endRPC_advances {info : CompletionInfo} (h : s.Live)
    (hp : s.phase = .ending info) (lost : Bool) : s.Advances (s.endRPC cfg lost info) 0 := by
  have hclosed := (h.endRPC cfg hp lost).1
  have hphase := h.phaseOk
  rw [hp] at hphase
  obtain ⟨hc, hr, hm, -⟩ := (endCalls_ended cfg lost hphase.2).frame
  have hframe : (s.endRPC cfg lost info).correlationId = s.correlationId ∧
      (s.endRPC cfg lost info).maxRetry = s.maxRetry := by
    have hv := hasVersion_iff.1 h.core.hasVersion_correlationId
    rw [endRPC_eq lost (by rw [hasVersion_iff, hc, hr]; exact hv)]
    exact ⟨hc, hm⟩
  refine ⟨hframe.1, hframe.2, ?_⟩
  simp [rank, hp, hclosed.phase, hframe.2]

/-- The step handles an event that decides over the RPC. -/
def decides (s : State) : Input → Bool
  | .onVersionedRPCReturned _ =>
    match s.phase with
    | .returned info _ _ => s.decisive info
    | _ => false
  | _ => false

/-- **One step keeps the id and `max_retry`**, and a decisive one uses up an attempt. -/
theorem inv_step_advances (h : s.Inv cfg) (i : Input) : s.Advances (s.step cfg i) (if s.decides i then 1 else 0) := by
  rcases h with h | h
  · cases i with
    | response id ec =>
      simp only [step, decides]
      split
      next hid =>
        rw [onResponse_eq]
        exact ⟨rfl, rfl, by simp [rank, hid.1]⟩
      · exact Advances.refl s
    | error id ec =>
      simp only [step, decides]
      split
      · unfold idError
        split
        next hp =>
          rw [handleSocketFailed, setFailed_eq]
          exact ⟨rfl, rfl, by simp [rank, hp]⟩
        · exact ⟨rfl, rfl, Nat.le_refl _⟩
      · exact Advances.refl s
    | onVersionedRPCReturned env =>
      cases hp : s.phase with
      | returned info nb saved =>
        simp only [step, decides, hp, decide_eq_true_eq]
        exact h.returned_advances hp (onVersionedRPCReturned_returned cfg env s info nb saved)
      | _ =>
        simp only [step, decides, hp]
        exact Advances.refl s
    | issueRPC env =>
      simp only [step, decides]
      split
      next hp =>
        exact h.issued_advances hp (issueRPC_issued cfg env s)
      · exact Advances.refl s
    | endRPC lost =>
      cases hp : s.phase with
      | ending =>
        simp only [step, decides, hp]
        exact h.endRPC_advances hp lost
      | _ =>
        simp only [step, decides, hp]
        exact Advances.refl s
  · have hno : s.decides i = false := by cases i <;> simp [decides, h.phase]
    rw [step_of_destroyed h.phase, hno]
    exact Advances.refl s

end State

/-! ## An RPC ends exactly once -/

open State Effect

def Effect.isEndRPC : Effect → Bool
  | .endRPC _ => true
  | _ => false

def Effect.isIssue : Effect → Bool
  | .issue .. => true
  | _ => false

namespace State

/-- The contract of an RPC that was started by `CallMethod` with `env`, without the
assertions. -/
structure EndsOnce (cfg : Config) (env : CallEnv) (s : State) : Prop where
  /-- `EndRPC` is executed once, and that destroys the id. -/
  endRPC_once : s.log.countP isEndRPC = if s.phase = .destroyed then 1 else 0
  done_once : s.log.count .runDone = if s.phase = .destroyed ∧ cfg.done then 1 else 0
  joiner_once : s.log.count .unlockAndDestroy = if s.phase = .destroyed then 1 else 0
  attempts_le : (attempts s.log).length ≤ effectiveMaxRetry env.cntlMaxRetry env.channelMaxRetry + 1
  own_version : ∀ p ∈ attempts s.log, p.2 = env.correlationId + p.1 + 1 ∧
    p.1 ≤ effectiveMaxRetry env.cntlMaxRetry env.channelMaxRetry
  versions_nodup : ((attempts s.log).map Prod.snd).Nodup
  none_after_end : s.log.Pairwise fun a b => a.isEndRPC → ¬b.isIssue

/-- No assertion of the controller but the one in `SetFailed` has failed. -/
def NoCheckFailed (s : State) : Prop := ∀ c, .checkFailed c ∈ s.log → c = .errorCodeNonzero

/-- The step does not take an event for a backup request or a retry it is not. -/
def Orderly (cfg : Config) (s : State) : Input → Prop
  | .onVersionedRPCReturned env => ∀ info nb saved, s.phase = .returned info nb saved →
      ¬s.SecondBackup cfg env info ∧ ¬s.RetriesOther cfg env info
  | _ => True

theorem milestone_of_isEndRPC : ∀ e : Effect, e.isEndRPC → e.milestone := by
  intro e h
  unfold isEndRPC at h
  split at h
  · rfl
  · cases h

theorem milestone_of_isIssue : ∀ e : Effect, e.isIssue → e.milestone := by
  intro e h
  unfold isIssue at h
  split at h
  · rfl
  · cases h

theorem milestone_of_eq {e₀ : Effect} (h₀ : e₀.milestone) : ∀ e : Effect, e == e₀ → e.milestone := by
  intro e h
  rw [eq_of_beq h]
  exact h₀

theorem countP_milestones (s : State) {p : Effect → Bool} (h : ∀ e, p e → e.milestone) :
    s.milestones.countP p = s.log.countP p := by
  unfold milestones
  rw [countP_filter]
  congr 1
  funext e
  cases hp : p e
  · rfl
  · simp [h e hp]

variable {cfg : Config} {s : State}

theorem Inv.milestones (h : s.Inv cfg) : ∃ es tail,
    s.milestones = es ++ tail ∧ Attempted s.correlationId s.currentCall.nretry es ∧
    (s.phase ≠ .destroyed ∧ tail = [] ∨ s.phase = .destroyed ∧ ∃ id, tail = finale cfg id) := by
  rcases h with h | h
  · refine ⟨s.milestones, [], (append_nil _).symm, h.core.attempted, .inl ⟨fun hd => ?_, rfl⟩⟩
    simpa [hd, PhaseOk] using h.phaseOk
  · obtain ⟨es, id, hms, hatt⟩ := h.milestones
    exact ⟨es, _, hms, hatt, .inr ⟨h.phase, id, rfl⟩⟩

theorem Inv.nretry_le (h : s.Inv cfg) : s.currentCall.nretry ≤ s.maxRetry := h.elim (·.core.nretry_le) (·.nretry_le)

theorem Inv.countP (h : s.Inv cfg) {p : Effect → Bool}
    (hp : ∀ e, p e → e.milestone) (hopen : ∀ e, e.open → p e = false) {k : ℕ}
    (hk : ∀ id, (finale cfg id).countP p = k) : s.log.countP p = if s.phase = .destroyed then k else 0 := by
  obtain ⟨es, tail, hms, hatt, htail⟩ := h.milestones
  have hes : es.countP p = 0 := countP_eq_zero.2 fun e he => by simp [hopen e (hatt.isOpen e he)]
  rw [← countP_milestones s hp, hms, countP_append, hes, Nat.zero_add]
  rcases htail with ⟨hne, rfl⟩ | ⟨heq, id, rfl⟩
  · rw [if_neg hne]
    rfl
  · rw [if_pos heq, hk id]

variable {es : List Effect}

theorem Attempted.length_le {c n : ℕ} (h : Attempted c n es) : (attempts es).length ≤ n + 1 := by
  have hnodup : ((attempts es).map Prod.fst).Nodup := pairwise_map.2 (h.sorted.imp Nat.ne_of_lt)
  have hsub : (attempts es).map Prod.fst ⊆ List.range (n + 1) := by
    intro k hk
    obtain ⟨p, hp, rfl⟩ := mem_map.1 hk
    exact mem_range.2 (Nat.lt_succ_of_le (h.own p hp).2)
  simpa using (subperm_of_subset hnodup hsub).length_le

theorem Attempted.versions_nodup {c n : ℕ} (h : Attempted c n es) : ((attempts es).map Prod.snd).Nodup := by
  refine pairwise_map.2 (h.sorted.imp_of_mem fun {p q} hp hq hlt => ?_)
  rw [(h.own p hp).1, (h.own q hq).1]
  omega

theorem pairwise_open_append {tail : List Effect} (hes : ∀ e ∈ es, e.open) (htail : ∀ e ∈ tail, e.isIssue = false) :
    (es ++ tail).Pairwise fun a b => a.isEndRPC → ¬b.isIssue := by
  have hnot : ∀ e ∈ es, e.isEndRPC = false := fun e he => by cases hes e he <;> rfl
  refine pairwise_append.2 ⟨?_, ?_, ?_⟩
  · exact pairwise_of_forall_mem_list fun a ha b _ h => by simp [hnot a ha] at h
  · exact pairwise_of_forall_mem_list fun a _ b hb _ => by simp [htail b hb]
  · exact fun a ha b _ h => by simp [hnot a ha] at h

/-- **All of the contract but the assertions follows from the invariant.** -/
theorem Inv.endsOnce {env : CallEnv} (h : s.Inv cfg) (hc : s.correlationId = env.correlationId)
    (hm : s.maxRetry ≤ effectiveMaxRetry env.cntlMaxRetry env.channelMaxRetry) : s.EndsOnce cfg env := by
  have hn := h.nretry_le
  have hdone : s.log.count .runDone = if s.phase = .destroyed then (if cfg.done then 1 else 0) else 0 :=
    h.countP (milestone_of_eq rfl) (by rintro e (_ | _) <;> rfl)
      (by intro id; cases hd : cfg.done <;> simp [finale, hd])
  obtain ⟨es, tail, hms, hatt, htail⟩ := h.milestones
  have hatts : attempts s.log = attempts es := by
    rw [← attempts_milestones, hms, attempts_append]
    rcases htail with ⟨-, rfl⟩ | ⟨-, id, rfl⟩
    · exact append_nil _
    · cases hd : cfg.done <;> simp [finale, hd, attempts]
  refine ⟨?_, ?_, ?_, ?_, ?_, ?_, ?_⟩
  · exact h.countP milestone_of_isEndRPC (by rintro e (_ | _) <;> rfl)
      (by intro id; unfold finale; cases cfg.done <;> rfl)
  · split <;> simp_all
  · exact h.countP (milestone_of_eq rfl) (by rintro e (_ | _) <;> rfl)
      (by intro id; cases hd : cfg.done <;> simp [finale, hd])
  · rw [hatts]
    have := hatt.length_le
    omega
  · intro p hp
    rw [hatts] at hp
    have := hatt.own p hp
    rw [← hc]
    exact ⟨this.1, by omega⟩
  · rw [hatts]
    exact hatt.versions_nodup
  · have htail' : ∀ e ∈ tail, e.isIssue = false := by
      rcases htail with ⟨-, rfl⟩ | ⟨-, id, rfl⟩
      · exact fun e he => absurd he not_mem_nil
      · cases hd : cfg.done <;> simp [finale, hd, isIssue]
    have hpair := pairwise_open_append hatt.isOpen htail'
    rw [← hms, State.milestones, pairwise_filter] at hpair
    exact hpair.imp fun {a b} hab ha hb =>
      hab (milestone_of_isEndRPC a ha) (milestone_of_isIssue b hb) ha hb

/-! ### The assertions -/

theorem noCheckFailed_iff : s.NoCheckFailed ↔ ∀ c, .checkFailed c ∉ s.milestones := by
  refine forall_congr' fun c => ?_
  simp only [milestones, mem_filter, milestone, not_and, decide_eq_true_eq, not_not]

theorem checkFailed_mem_failedChecks {env : ReturnEnv} {info : CompletionInfo} :
    (∀ c, .checkFailed c ∉ s.failedChecks cfg env info) ↔
      ¬s.SecondBackup cfg env info ∧ ¬s.RetriesOther cfg env info := by
  unfold failedChecks
  constructor
  · intro h
    exact ⟨fun hb => h .oneBackup (by simp [hb]), fun hr => h .retriesCurrent (by simp [hr])⟩
  · rintro ⟨hb, hr⟩ c
    simp [hb, hr]

theorem checkFailed_mem_added (i : Input) : (∀ c, .checkFailed c ∉ s.added cfg i) ↔ s.Orderly cfg i := by
  cases i with
  | onVersionedRPCReturned =>
    cases hp : s.phase with
    | returned info nb saved =>
      simp only [added, Orderly, hp, checkFailed_mem_failedChecks]
      refine ⟨?_, fun h => h info nb saved rfl⟩
      rintro h info' nb' saved' ⟨⟩
      exact h
    | _ => simp [added, Orderly, hp]
  | issueRPC =>
    simp only [added, Orderly, iff_true]
    split <;> simp
  | endRPC =>
    cases hp : s.phase with
    | ending =>
      simp only [added, Orderly, hp, iff_true, finale]
      cases cfg.done <;> simp
    | _ => simp [added, Orderly, hp]
  | _ => simp [added, Orderly]

theorem noCheckFailed_step (h : s.Inv cfg) (i : Input) :
    (s.step cfg i).NoCheckFailed ↔ s.NoCheckFailed ∧ s.Orderly cfg i := by
  rw [noCheckFailed_iff, noCheckFailed_iff, ← checkFailed_mem_added, (inv_step h i).2]
  simp only [mem_append, not_or, forall_and]

end State

/-! ### Whole runs -/

section Run

variable (cfg : Config) (env : CallEnv) (is : List Input)

/-- The state of an RPC after the inputs `is`. -/
def rpc : State := Lib.run (step cfg) (callMethod cfg env) is

theorem rpc_inv : (rpc cfg env is).Inv cfg :=
  Lib.run_invariant' (I := Inv cfg) (fun _ i h => (inv_step h i).1) is (.inl (callMethod_live cfg env))

theorem rpc_frame : (rpc cfg env is).correlationId = env.correlationId ∧
    (rpc cfg env is).maxRetry ≤ effectiveMaxRetry env.cntlMaxRetry env.channelMaxRetry := by
  have h := Lib.run_invariant'
    (I := fun s : State => s.Inv cfg ∧ s.correlationId = env.correlationId ∧
      s.maxRetry ≤ effectiveMaxRetry env.cntlMaxRetry env.channelMaxRetry)
    (fun s i h => ⟨(inv_step h.1 i).1, by
      have ha := inv_step_advances h.1 i
      rw [ha.correlationId, ha.maxRetry]
      exact h.2⟩) is
    (s := callMethod cfg env) ⟨.inl (callMethod_live cfg env), by
      obtain ⟨n, ec, t, ph, es, hn, -, -, h⟩ := callMethod_eq cfg env
      rw [h]
      exact ⟨rfl, hn⟩⟩
  exact h.2

theorem rpc_ends (h : effectiveMaxRetry env.cntlMaxRetry env.channelMaxRetry <
      Lib.countAlong (step cfg) decides (callMethod cfg env) is) (lost : Bool) :
    ((rpc cfg env is).step cfg (.endRPC lost)).phase = .destroyed := by
  have hinv := rpc_inv cfg env is
  have hframe := rpc_frame cfg env is
  have hrank : (callMethod cfg env).rank + _ ≤ (rpc cfg env is).rank :=
    Lib.countAlong_le (I := Inv cfg) (fun _ i h => (inv_step h i).1)
      (fun _ i h => (inv_step_advances h i).rank) is _ (.inl (callMethod_live cfg env))
  have hlt : (rpc cfg env is).maxRetry < (rpc cfg env is).rank := by omega
  have hle := hinv.nretry_le
  unfold rank at hlt
  split at hlt
  next info hp =>
    rcases hinv with hl | hcl
    · simp only [step, hp]
      exact (hl.endRPC cfg hp lost).1.phase
    · exact absurd (hp.symm.trans hcl.phase) (by simp)
  next hp =>
    rw [step_of_destroyed hp, hp]
  · omega

theorem endsOnce_apart_from_checks : (rpc cfg env is).EndsOnce cfg env :=
  (rpc_inv cfg env is).endsOnce (rpc_frame cfg env is).1 (rpc_frame cfg env is).2

/-- **An RPC ends exactly once and no assertion fails, exactly in the runs whose
steps are all orderly.** -/
theorem rpc_ends_exactly_once : ((rpc cfg env is).EndsOnce cfg env ∧
      (effectiveMaxRetry env.cntlMaxRetry env.channelMaxRetry <
          Lib.countAlong (step cfg) decides (callMethod cfg env) is →
        ∀ lost, ((rpc cfg env is).step cfg (.endRPC lost)).phase = .destroyed) ∧
      (rpc cfg env is).NoCheckFailed) ↔ Lib.Along (step cfg) (Orderly cfg) (callMethod cfg env) is := by
  have hstart : (callMethod cfg env).NoCheckFailed := by
    obtain ⟨n, ec, t, ph, es, -, hes, -, h⟩ := callMethod_eq cfg env
    rw [noCheckFailed_iff, h]
    show ∀ c, checkFailed c ∉ es.filter milestone
    rw [hes.milestones]
    exact fun _ => not_mem_nil
  have hiff : (rpc cfg env is).NoCheckFailed ↔ (callMethod cfg env).NoCheckFailed ∧
      Lib.Along (step cfg) (Orderly cfg) (callMethod cfg env) is :=
    Lib.run_iff_along (I := Inv cfg) (fun _ i h => (inv_step h i).1)
      (fun _ i h => noCheckFailed_step h i) is _ (.inl (callMethod_live cfg env))
  refine ⟨fun h => (hiff.1 h.2.2).2, fun h => ⟨?_, ?_, hiff.2 ⟨hstart, h⟩⟩⟩
  · exact endsOnce_apart_from_checks cfg env is
  · exact rpc_ends cfg env is

end Run

/-! ### A run that fails -/

/-- A call with three retries and a backup request after 10 ms. -/
def backupCall : CallEnv where
  correlationId := 100
  cntlMaxRetry := 3
  channelMaxRetry := 3
  backupRequestMs := 10
  connectionType := .pooled
  streamCreator := false
  errorCode := 0
  tooManyUserCode := false
  timerAdd := 0

/-- Nothing goes wrong in `IssueRPC`. -/
def sendOk : SendEnv where
  available := true
  selectServer := .inl EHOSTDOWN
  creatingStream := .inl EINVAL
  getSocket := .inr 8
  authError := 0
  packRequest := 0

/-- Nothing goes wrong in `OnVersionedRPCReturned`. -/
def returnOk : ReturnEnv := ⟨0, true, true, false⟩

/-- The backup timer fires, and the server answers the backup request with
`EBACKUPREQUEST`. -/
def secondBackup : List Input :=
  [.issueRPC sendOk, .error 100 EBACKUPREQUEST, .onVersionedRPCReturned returnOk, .issueRPC sendOk,
    .response 102 EBACKUPREQUEST, .onVersionedRPCReturned returnOk]

theorem secondBackup_fails_check : ¬(rpc plainConfig backupCall secondBackup).NoCheckFailed := by
  intro h
  have := h .oneBackup (by decide)
  exact absurd this (by decide)

end Brpc.Controller
