/-
# A selective call ends exactly once after all its sub calls

`EndRPC` of the main call, `SubDone::Run` and `Clear`, `OnVersionedRPCReturned` while the call
waits, and then whole runs: if all steps are orderly the main call ends once and the user's done
runs once, after all sub calls (`selective_ends_once`).  A second cancellation while the call waits
ends it again (`cancelledTwice_ends_twice`).
-/

import Brpc.Combo.SelectiveSteps

namespace Brpc.Selective

open Lib List Controller.State State Controller.Effect
open Controller (Config CallEnv ReturnEnv CompletionInfo attempts)

namespace State

variable {cfg : Config} {userDone : Bool} {s : State} {env : ReturnEnv} {info : CompletionInfo}
  {nb : Bool} {saved : ErrorCode}

theorem Waiting.returned (hb : s.Base userDone) (hw : s.Waiting)
    (hp : s.cntl.phase = .returned info nb saved) (hprev : s.cntl.ofPrevious info) :
    Moves userDone s { s with cntl := s.cntl.onVersionedRPCReturned cfg env info nb saved } := by
  have hid : s.cntl.hasVersion info.id := by
    rcases hw.phase with hu | ⟨info', nb', saved', hret, hid⟩
    · simp [hp] at hu
    · rw [hp] at hret
      cases hret
      exact hid
  have hlocked : s.cntl.locked := by simp [locked, hp]
  have hnot : ¬(s.cntl.ofUnfinished info ∧ ¬s.cntl.failedInline) := by
    simp [ofUnfinished, hw.unfinished]
  have heq : s.cntl.onVersionedRPCReturned cfg env info nb saved =
      { s.cntl with errorCode := saved }.checkedUnlock info.id := by
    unfold onVersionedRPCReturned interceptPrevious
    rw [if_pos ⟨hprev, hnot⟩, hw.unfinished]
  rw [heq]
  have hbase : ({ s with cntl := { s.cntl with errorCode := saved } } : State).Base userDone :=
    hb.replace _ rfl rfl rfl hb.pending Iff.rfl
  refine hbase.waiting_checkedUnlock hid hlocked hw.finished hw.running hw.unfinished hw.closed ?_
  simp [rank, unlockedRank, hp, phaseRank]

section

variable (h : s.Base userDone)
include h

theorem Base.clear (hrun : s.running = []) (hp : s.cntl.phase ≠ .destroyed) : (s.clear userDone).Base userDone := by
  have hall : AllBack s.log := by
    intro cid hstart
    by_contra hnot
    have := (h.running cid).2 ⟨hstart, hnot⟩
    simp [hrun] at this
  have hdone : .runUserDone ∉ s.log := fun hm => hp (h.done.1 hm).1
  have hdestroy : .unlockAndDestroy ∉ s.log := fun hm => hp (h.destroyed.1 hm)
  have hmem : ∀ cid, (.startSub cid ∈ (s.clear userDone).log ↔ .startSub cid ∈ s.log) ∧
      (.runSubDone cid ∈ (s.clear userDone).log ↔ .runSubDone cid ∈ s.log) := by
    intro cid
    cases userDone <;> simp [clear, emit]
  refine ⟨h.halted, h.alloc, h.alloc_le, h.nodup, fun cid => ?_, fun cid => ?_, fun cid => ?_, h.own,
    by simp [State.clear], h.range, ?_, ?_, ?_⟩
  · rw [(hmem cid).1, (hmem cid).2]
    exact h.running cid
  · rw [(hmem cid).1, (hmem cid).2]
    exact h.back cid
  · rw [(hmem cid).1]
    exact h.started cid
  · simp [State.clear, State.emit]
  · cases userDone <;> simp [clear, emit, hdone]
  · refine (guarded_append _ _).2 ⟨h.guarded, ?_⟩
    cases userDone
    · exact ⟨⟨hdestroy, hall⟩, trivial⟩
    · exact ⟨⟨hdone, hall⟩, ⟨by simpa using hdestroy, fun cid hc => by simpa using hall cid (by simpa using hc)⟩,
        trivial⟩

theorem Base.back_one {cid : ℕ} (hcid : cid ∈ s.running)
    (c : Controller.State) (hatt : attempts c.milestones = attempts s.cntl.milestones)
    (hcorr : c.correlationId = s.cntl.correlationId) (hrange : c.range = s.cntl.range)
    (hpending : c.pendingQ = s.cntl.pendingQ)
    (hp : s.cntl.phase ≠ .destroyed) (hp' : c.phase ≠ .destroyed) : ({ s with
      cntl := c, nfree := s.nfree + 1, running := s.running.erase cid
      log := s.log ++ [.runSubDone cid] } : State).Base userDone := by
  have hlen := length_erase_of_mem hcid
  have hpos := length_pos_of_mem hcid
  have hstart := ((h.running cid).1 hcid).1
  have halloc := h.alloc
  refine ⟨h.halted, by simp only [hlen]; omega, h.alloc_le, h.nodup.erase cid, fun cid' => ?_,
    fun cid' hback => ?_, fun cid' hs => ?_, ?_, ?_, ?_, ?_, ?_, ?_⟩
  · rw [h.nodup.mem_erase_iff, h.running cid']
    by_cases hc : cid' = cid <;> simp [hc]
  · rcases mem_append.1 hback with hback | hback
    · exact mem_append_left _ (h.back cid' hback)
    · have : cid' = cid := by simpa using hback
      exact mem_append_left _ (this ▸ hstart)
  · rw [hatt]
    exact h.started cid' (by simpa using hs)
  · rw [hatt, hcorr, hrange]
    exact h.own
  · rw [hcorr, hpending]
    exact h.pending
  · rw [hrange]
    exact h.range
  · simpa [hp, hp'] using h.destroyed
  · simpa [hp, hp'] using h.done
  · exact (guarded_append _ _).2 ⟨h.guarded, ⟨hstart, ((h.running cid).1 hcid).2⟩, trivial⟩

theorem Base.cancel (ec : ErrorCode) : ({ s with log := s.log ++ [.cancelSubs ec] } : State).Base userDone :=
  { h with
    running cid := by simpa using h.running cid
    back cid hback := by simpa using h.back cid (by simpa using hback)
    started cid hs := h.started cid (by simpa using hs)
    destroyed := by simpa using h.destroyed
    done := by simpa using h.done
    guarded := (guarded_append _ _).2 ⟨h.guarded, trivial, trivial⟩ }

theorem Base.finish : ({ s with finished := true } : State).Base userDone := { h with }

theorem erase_eq_nil_iff {cid : ℕ} (hcid : cid ∈ s.running) : s.running.erase cid = [] ↔ s.nfree + 1 = s.nalloc := by
  have hlen := length_erase_of_mem hcid
  have hpos := length_pos_of_mem hcid
  have halloc := h.alloc
  rw [← length_eq_zero_iff]
  omega

end

/-- **`SubDone::Run`.** -/
theorem Inv.subDone (h : s.Inv userDone) (hp : s.cntl.phase = .unlocked) {cid : ℕ}
    (hcid : cid ∈ s.running) (ec : ErrorCode) (ct : ConnectionType) :
    Moves userDone s (s.subDone userDone cid ec ct) := by
  have hb := h.base
  have hpos := length_pos_of_mem hcid
  have hlen := length_erase_of_mem hcid
  have hnfree : s.nfree < 2 := by
    have halloc := hb.alloc
    have hle := hb.alloc_le
    omega
  have hrank := rank.eq_1 s
  have hiff := erase_eq_nil_iff hb hcid
  have hnd : s.cntl.phase ≠ .destroyed := by simp [hp]
  have hmem : ∀ {c : ℕ}, c ∈ s.running.erase cid ↔ c ≠ cid ∧ c ∈ s.running :=
    hb.nodup.mem_erase_iff
  -- the main call hears of it
  have hms : (s.cntl.log ++ [response cid]).filter milestone =
      s.cntl.milestones := by
    simp [milestones, milestone]
  have hbase := hb.back_one hcid { s.cntl with
    connectionType := ct
    errorCode := if ec ≠ 0 then ec else s.cntl.errorCode
    phase := .returned ⟨cid, true⟩ false s.cntl.errorCode
    log := s.cntl.log ++ [.response cid] } (congrArg attempts hms) rfl rfl rfl hnd (by simp)
  unfold State.subDone
  simp only [emit, if_pos hnfree]
  rcases h.stage with hg | hw | ho
  · rw [if_neg (by simp [hg.finished])]
    have hcur := hg.current
    rw [hp] at hcur
    refine ⟨⟨hbase, .inl ⟨hg.finished, hg.lb, ⟨?_, hb.hasVersion_of_running hcid⟩, ?_, ?_⟩⟩, ?_⟩
    · exact hg.live.core.congr rfl rfl rfl rfl (fun _ he => he) hms
    · exact fun c hc => hcur.1 c (hmem.1 hc).2
    · by_cases heq : cid = s.cntl.currentId
      · exact .inl ⟨heq, fun hc => (hmem.1 hc).1 rfl⟩
      · exact .inr ⟨heq, fun hc => (hmem.1 hc).1 rfl, hmem.2 ⟨Ne.symm heq, hcur.2⟩⟩
    · simp only [rank, phaseRank, hlen, Controller.State.emit]
      omega
  · by_cases hall : s.nfree + 1 = s.nalloc
    · rw [if_pos ⟨hw.finished, hall⟩]
      have hback := hb.back_one hcid { s.cntl with connectionType := ct } rfl rfl rfl rfl hnd hnd
      refine ⟨⟨hback.clear (hiff.2 hall) hnd, .inr (.inr ⟨hw.finished, hiff.2 hall, hw.closed, rfl⟩)⟩, ?_⟩
      simp only [rank, clear, emit, phaseRank, hlen, length_nil]
      omega
    · rw [if_neg (fun hc => hall hc.2)]
      refine ⟨⟨hbase, .inr (.inl ⟨hw.finished, fun hnil => hall (hiff.1 hnil), hw.unfinished, ?_,
        .inr ⟨_, _, _, rfl, hb.hasVersion_of_running hcid⟩⟩)⟩, ?_⟩
      · obtain ⟨es, id, hclosed, hes⟩ := hw.closed
        exact ⟨es, id, hms.trans hclosed, hes⟩
      · simp only [rank, phaseRank, hlen, Controller.State.emit]
        omega
  · simp [ho.phase] at hp

/-- **`EndRPC` of the main call**, which ends the call at once when all sub calls are
back. -/
theorem Going.endRPC (hb : s.Base userDone) (hg : s.Going) (hp : s.cntl.phase = .ending info)
    (lost : Bool) : Moves userDone s (s.endRPC cfg userDone lost info) := by
  have hphase := hg.live.phaseOk
  rw [hp] at hphase
  have hended := endCalls_ended cfg lost hphase.2
  obtain ⟨hcorr, hrange, hmax, hnretry, hpending, hph⟩ := hended.frame
  have hunf := hended.unfinishedCall_eq
  have hmilestones := hended.milestones
  have hopen := hg.live.core.attempted.isOpen
  have hrank := rank.eq_1 s
  rw [hp, phaseRank] at hrank
  unfold State.endRPC
  generalize s.cntl.endCalls cfg lost info = c at *
  have hms : (c.emit [.runDone]).milestones = s.cntl.milestones ++ [.endRPC info.id, .runDone] := by
    rw [milestones_emit, hmilestones, append_assoc]
    rfl
  have hatt : attempts (c.emit [.runDone]).milestones = attempts s.cntl.milestones := by
    rw [hms, Controller.attempts_append]
    exact append_nil _
  have hnd : (c.emit [.runDone]).phase ≠ .destroyed := by
    show c.phase ≠ .destroyed
    simp [hph, hp]
  have hbase : ({ s with cntl := c.emit [.runDone] } : State).Base userDone :=
    hb.replace (c.emit [.runDone]) hatt hcorr hrange (hpending ▸ hb.pending)
      ⟨fun hd => absurd hd hnd, fun hd => by simp [hp] at hd⟩
  have halloc := hb.alloc
  by_cases hall : s.nfree = s.nalloc
  · have hrun : s.running = [] := length_eq_zero_iff.1 (by omega)
    rw [if_neg (not_not.2 hall)]
    refine ⟨⟨hbase.finish.clear hrun hnd, .inr (.inr ⟨rfl, hrun, ?_, rfl⟩)⟩, ?_⟩
    · exact ⟨_, info.id, hms, hopen⟩
    · rw [hrank]
      simp only [rank, clear, emit, Controller.State.emit, phaseRank, hmax, hnretry, length_nil]
      omega
  · have hrun : s.running ≠ [] := by
      intro hnil
      simp [hnil] at halloc
      exact hall halloc
    rw [if_pos hall]
    have hid := hbase.hasVersion_correlationId
    have hlocked : (c.emit [.runDone]).locked := by
      simp [Controller.State.locked, Controller.State.emit, hph, hp]
    refine Base.waiting_checkedUnlock (c := c.emit [.runDone]) (s := { s with
        finished := true
        log := s.log ++ [.cancelSubs (if c.errorCode = ERPCTIMEDOUT then ERPCTIMEDOUT else ECANCELED)] })
      (hbase.finish.cancel _) hid hlocked rfl hrun hunf ⟨_, info.id, hms, hopen⟩ ?_
    simp only [unlockedRank, Controller.State.emit, hmax, hnretry, hpending]
    omega

theorem Inv.error (h : s.Inv userDone) (hp : s.cntl.phase ≠ .destroyed) (ec : ErrorCode) :
    ({ s with cntl := s.cntl.idError s.cntl.correlationId ec } : State).Inv userDone ∧
      ({ s with cntl := s.cntl.idError s.cntl.correlationId ec } : State).rank ≤ s.rank + 3 := by
  have hb := h.base
  have hid := hb.hasVersion_correlationId
  by_cases hu : s.cntl.phase = .unlocked
  · have hms := handleSocketFailed_milestones s.cntl s.cntl.correlationId ec
    have heq : s.cntl.idError s.cntl.correlationId ec = s.cntl.handleSocketFailed s.cntl.correlationId ec := by
      simp [idError, hu]
    have hlive : s.cntl.Live → (s.cntl.idError s.cntl.correlationId ec).Live := fun hl => (hl.idError hid ec).1
    rw [heq] at hlive ⊢
    unfold handleSocketFailed at hms hlive ⊢
    rw [setFailed_eq] at hms hlive ⊢
    refine ⟨⟨hb.replace _ (congrArg attempts hms) rfl rfl hb.pending (by simp [hu]), ?_⟩, ?_⟩
    · rcases h.stage with hg | hw | ho
      · have hcur := hg.current
        rw [hu] at hcur
        refine .inl ⟨hg.finished, hg.lb, hlive hg.live, hcur.1, .inr ⟨?_, hb.correlationId_not_mem, hcur.2⟩⟩
        simp only [currentId]
        omega
      · refine .inr (.inl { hw with closed := ?_, phase := .inr ⟨_, _, _, rfl, hid⟩ })
        obtain ⟨es, id, hclosed, hes⟩ := hw.closed
        exact ⟨es, id, hms.trans hclosed, hes⟩
      · exact absurd ho.phase hp
    · simp [rank, hu, phaseRank]
  · have hlive : s.cntl.Live → (s.cntl.idError s.cntl.correlationId ec).Live := fun hl => (hl.idError hid ec).1
    unfold idError at hlive ⊢
    rw [if_neg hu] at hlive ⊢
    have hpending : ∀ e ∈ s.cntl.pendingQ ++ [⟨s.cntl.correlationId, ec⟩], e.id = s.cntl.correlationId := by
      exact forall_mem_append.2 ⟨hb.pending, forall_mem_singleton.2 rfl⟩
    refine ⟨⟨hb.replace _ rfl rfl rfl hpending Iff.rfl, ?_⟩, ?_⟩
    · rcases h.stage with hg | hw | ho
      · refine .inl ⟨hg.finished, hg.lb, hlive hg.live, ?_⟩
        have hcur := hg.current
        cases hph : s.cntl.phase <;> simp only [hph] at hcur ⊢ <;> exact hcur
      · exact .inr (.inl { hw with })
      · exact absurd ho.phase hp
    · simp only [rank, length_append, length_singleton]
      omega

end State

/-! ## Whole runs -/

open Controller
open Controller (Config CallEnv ReturnEnv CompletionInfo attempts effectiveMaxRetry)

/-- A step of the call itself; the others are the user's and the timers'. -/
def Input.own : Input → Bool
  | .error _ => false
  | _ => true

namespace State

variable {cfg : Config} {userDone : Bool} {s : State}

/-- The call cannot go on by itself. -/
def Idle (cfg : Config) (userDone : Bool) (s : State) : Prop :=
  ∀ i : Input, i.own → s.step cfg userDone i = s

/-- What a call over a selective channel promises. -/
structure EndsOnce (cfg : Config) (userDone : Bool) (s : State) : Prop where
  /-- No sub call starts or comes back twice, the user's done runs at most once, after all sub
  calls, and no assertion fails. -/
  trace : Guarded Allowed s.log
  /-- `EndRPC` is executed once. -/
  endRPC_once : s.cntl.log.countP Effect.isEndRPC = if s.finished then 1 else 0
  /-- No attempt is issued after it. -/
  none_after_end : s.cntl.log.Pairwise fun a b => a.isEndRPC → ¬b.isIssue
  /-- `running` are the sub calls that are out: at most two. -/
  outstanding : s.running.length ≤ 2 ∧ s.running.Nodup ∧
    ∀ cid, cid ∈ s.running ↔ .startSub cid ∈ s.log ∧ .runSubDone cid ∉ s.log
  /-- The user's done runs after `EndRPC`. -/
  done_after_end : .unlockAndDestroy ∈ s.log → s.finished ∧ (userDone → .runUserDone ∈ s.log)
  /-- The call does not get stuck before that. -/
  completes : s.Idle cfg userDone → .unlockAndDestroy ∈ s.log

section

variable (h : s.Inv userDone)
include h

theorem inv_step (i : Input) (ho : s.Orderly cfg i) : (s.step cfg userDone i).Inv userDone ∧
      (s.step cfg userDone i).rank + (if i.own && s.step cfg userDone i ≠ s then 1 else 0) ≤
        s.rank + if !i.own then 3 else 0 := by
  have hb := h.base
  have hmoves : ∀ {s' : State}, i.own → Moves userDone s s' → s'.Inv userDone ∧
      s'.rank + (if i.own && s' ≠ s then 1 else 0) ≤ s.rank + if !i.own then 3 else 0 := by
    intro s' hi hm
    refine ⟨hm.1, ?_⟩
    have := hm.2
    split <;> omega
  have hstay : s.Inv userDone ∧ s.rank + (if i.own && s ≠ s then 1 else 0) ≤ s.rank + if !i.own then 3 else 0 := by
    exact ⟨h, by simp⟩
  unfold step
  rw [if_neg (by simp [hb.halted])]
  cases i with
  | subEnd cid ec ct =>
    simp only
    split
    case isTrue hen => exact hmoves rfl (h.subDone hen.1 hen.2 ec ct)
    case isFalse => exact hstay
  | error ec =>
    simp only
    split
    case isTrue => exact hstay
    case isFalse hnd =>
      have := h.error hnd ec
      exact ⟨this.1, by simpa [Input.own] using this.2⟩
  | onVersionedRPCReturned env =>
    cases hp : s.cntl.phase with
    | returned info nb saved =>
      have hord : s.ReturnsOrderly cfg env (.returned info nb saved) := hp ▸ ho
      rcases h.stage with hg | hw | hover
      · exact hmoves rfl (hg.returned hb hp hord.1)
      · exact hmoves rfl (hw.returned hb hp (hord.2 hw.finished))
      · simp [hover.phase] at hp
    | _ => exact hstay
  | issueRPC select =>
    simp only
    split
    case isTrue hp =>
      rcases h.stage with hg | hw | hover
      · exact hmoves rfl (hg.issueRPC hb hp select)
      · rcases hw.phase with hph | ⟨_, _, _, hph, -⟩ <;> simp [hp] at hph
      · simp [hover.phase] at hp
    case isFalse => exact hstay
  | endRPC lost =>
    cases hp : s.cntl.phase with
    | ending =>
      rcases h.stage with hg | hw | hover
      · exact hmoves rfl (hg.endRPC hb hp lost)
      · rcases hw.phase with hph | ⟨_, _, _, hph, -⟩ <;> simp [hp] at hph
      · simp [hover.phase] at hp
    | _ => exact hstay

omit h in
theorem onVersionedRPCReturned_ne {c : Controller.State} {info : CompletionInfo} {nb : Bool}
    {saved : ErrorCode} (env : ReturnEnv) (hp : c.phase = .returned info nb saved)
    (hid : c.hasVersion info.id) : c.onVersionedRPCReturned cfg env info nb saved ≠ c := by
  have hlocked : c.locked := by simp [Controller.State.locked, hp]
  have hunlock : ∀ c₀ : Controller.State, c₀.hasVersion info.id → c₀.phase = c.phase →
      c₀.pendingQ = c.pendingQ → c₀.checkedUnlock info.id ≠ c := by
    intro c₀ hid hph hq heq
    rw [Controller.State.checkedUnlock_of_locked hid (by simpa [Controller.State.locked, hph] using hlocked)] at heq
    unfold Controller.State.afterUnlock at heq
    split at heq
    · have := congrArg State.phase heq
      simp [hp] at this
    next e q hq₀ =>
      have := congrArg (fun c : Controller.State => c.pendingQ.length) heq
      simp [State.handleSocketFailed, State.setFailed_eq, ← hq, hq₀] at this
  have hr := State.onVersionedRPCReturned_returned cfg env c info nb saved
  generalize c.onVersionedRPCReturned cfg env info nb saved = c' at hr
  cases hr with
  | stale | unfinishedFailed => exact hunlock _ hid rfl rfl
  | ends | backup | retries =>
    intro heq
    have := congrArg State.phase heq
    simp [hp] at this

/-- **A call that cannot go on by itself is over.** -/
theorem Inv.over_of_idle (hidle : s.Idle cfg userDone) : s.cntl.phase = .destroyed := by
  have hb := h.base
  have hmoves : ∀ (s' : State) (i : Input), i.own → s.step cfg userDone i = s' → Moves userDone s s' → False := by
    rintro s' i hi rfl hm
    have := hm.2
    rw [hidle i hi] at this
    omega
  have hhalted : ¬s.halted = true := by simp [hb.halted]
  have hreturned : ∀ {info nb saved}, s.cntl.phase = .returned info nb saved → s.cntl.hasVersion info.id → False := by
    intro info nb saved hp hid
    let env : ReturnEnv := ⟨0, true, true, false⟩
    have hstep := hidle (.onVersionedRPCReturned env) rfl
    simp only [step, if_neg hhalted, hp] at hstep
    exact onVersionedRPCReturned_ne env hp hid (congrArg cntl hstep)
  have hunlocked : ∀ {cid}, s.cntl.phase = .unlocked → cid ∈ s.running → False := by
    intro cid hp hcid
    refine hmoves _ (.subEnd cid 0 .unknown) rfl ?_ (h.subDone hp hcid 0 .unknown)
    simp only [step, if_neg hhalted, hp, hcid, and_self, if_true]
  rcases h.stage with hg | hw | hover
  · cases hp : s.cntl.phase with
    | unlocked =>
      have hcur := hg.current
      rw [hp] at hcur
      exact (hunlocked hp hcur.2).elim
    | returned info nb saved =>
      have hid := hg.live.phaseOk
      rw [hp] at hid
      exact (hreturned hp hid).elim
    | issuing =>
      refine (hmoves (s.issueRPC cfg (.inl EHOSTDOWN)) (.issueRPC (.inl EHOSTDOWN)) rfl ?_
        (hg.issueRPC hb hp (.inl EHOSTDOWN))).elim
      simp only [step, if_neg hhalted, hp, if_true]
    | ending info =>
      refine (hmoves (s.endRPC cfg userDone false info) (.endRPC false) rfl ?_ (hg.endRPC hb hp false)).elim
      simp only [step, if_neg hhalted, hp]
    | destroyed => rfl
  · rcases hw.phase with hp | ⟨info, nb, saved, hp, hid⟩
    · obtain ⟨cid, hcid⟩ := exists_mem_of_ne_nil _ hw.running
      exact (hunlocked hp hcid).elim
    · exact (hreturned hp hid).elim
  · exact hover.phase

theorem Inv.milestones : ∃ es tail, s.cntl.milestones = es ++ tail ∧
    (∀ e ∈ es, e.open) ∧ (s.finished = false ∧ tail = [] ∨
      s.finished = true ∧ ∃ id, tail = [.endRPC id, .runDone]) := by
  have hclosed : s.finished = true → s.Closed → ∃ es tail, s.cntl.milestones = es ++ tail ∧
      (∀ e ∈ es, e.open) ∧ (s.finished = false ∧ tail = [] ∨
        s.finished = true ∧ ∃ id, tail = [.endRPC id, .runDone]) := by
    rintro hfin ⟨es, id, hms, hes⟩
    exact ⟨es, _, hms, hes, .inr ⟨hfin, id, rfl⟩⟩
  rcases h.stage with hg | hw | hover
  · exact ⟨_, [], (append_nil _).symm, hg.live.core.attempted.isOpen, .inl ⟨hg.finished, rfl⟩⟩
  · exact hclosed hw.finished hw.closed
  · exact hclosed hover.finished hover.closed

theorem Inv.finished_of_destroyed (hp : s.cntl.phase = .destroyed) : s.finished = true := by
  rcases h.stage with hg | hw | hover
  · have := hg.live.phaseOk
    simp [hp, State.PhaseOk] at this
  · exact hw.finished
  · exact hover.finished

/-- **The contract follows from the invariant.** -/
theorem Inv.endsOnce : s.EndsOnce cfg userDone := by
  have hb := h.base
  obtain ⟨es, tail, hms, hopen, htail⟩ := h.milestones
  have hnotEnd : ∀ e ∈ es, e.isEndRPC = false := fun e he => by cases hopen e he <;> rfl
  refine ⟨hb.guarded, ?_, ?_, ⟨?_, hb.nodup, hb.running⟩, fun hd => ?_, fun hidle => ?_⟩
  · rw [← s.cntl.countP_milestones State.milestone_of_isEndRPC, hms, countP_append,
      countP_eq_zero.2 fun e he => by simp [hnotEnd e he], Nat.zero_add]
    rcases htail with ⟨hfin, rfl⟩ | ⟨hfin, id, rfl⟩
    · rw [hfin]
      rfl
    · rw [hfin]
      rfl
  · have hnotIssue : ∀ e ∈ tail, e.isIssue = false := by
      rcases htail with ⟨-, rfl⟩ | ⟨-, id, rfl⟩
      · exact fun e he => absurd he not_mem_nil
      · simp [Effect.isIssue]
    have hpair := State.pairwise_open_append hopen hnotIssue
    rw [← hms, State.milestones, pairwise_filter] at hpair
    exact hpair.imp fun {a b} hab ha hb =>
      hab (State.milestone_of_isEndRPC a ha) (State.milestone_of_isIssue b hb) ha hb
  · have halloc := hb.alloc
    have hle := hb.alloc_le
    omega
  · have hp := hb.destroyed.1 hd
    exact ⟨h.finished_of_destroyed hp, fun hu => hb.done.2 ⟨hp, hu⟩⟩
  · exact hb.destroyed.2 (h.over_of_idle hidle)

end

end State

theorem callMethod_inv (cfg : Config) (userDone : Bool) (env : CallEnv) : (callMethod cfg env).Inv userDone ∧
      (callMethod cfg env).rank ≤ 4 * effectiveMaxRetry env.cntlMaxRetry env.channelMaxRetry + 6 := by
  have hlive := callMethod_live (main cfg) env
  obtain ⟨n, ec, t, ph, es, hn, hes, hph, heq⟩ := callMethod_eq (main cfg) env
  have hms : (callMethod cfg env).cntl.milestones = [] := by
    simp only [callMethod, heq]
    exact hes.milestones
  have hrange : 0 < (callMethod cfg env).cntl.range := by
    simp only [callMethod, heq, CallEnv.start]
    omega
  have hpending : (callMethod cfg env).cntl.pendingQ = [] := by
    simp only [callMethod, heq]
    rfl
  have hlb : (callMethod cfg env).cntl.lb = true := by
    simp only [callMethod, heq]
    rfl
  have hphase : (callMethod cfg env).cntl.phase = ph := by
    simp only [callMethod, heq]
  have hcurrent : (callMethod cfg env).cntl.currentId = env.correlationId + 1 := by
    simp only [callMethod, heq]
    rfl
  have hnd : ph ≠ .destroyed := by
    rcases hph with rfl | ⟨-, nb, rfl⟩ <;> simp
  refine ⟨⟨⟨rfl, rfl, by simp [callMethod], nodup_nil, by simp [callMethod], by simp [callMethod],
    by simp [callMethod], by simp [hms, attempts], by simp [hpending], hrange, ?_, ?_, trivial⟩,
    .inl ⟨rfl, hlb, hlive, ?_⟩⟩, ?_⟩
  · rw [hphase]
    simp [callMethod, hnd]
  · rw [hphase]
    simp [callMethod, hnd]
  · rw [hphase]
    have hout : (callMethod cfg env).Out := fun cid hmem => absurd hmem not_mem_nil
    rcases hph with rfl | ⟨-, nb, rfl⟩
    · exact hout
    · exact ⟨hout, .inl ⟨hcurrent.symm, not_mem_nil⟩⟩
  · have hrank : (callMethod cfg env).rank = 4 * n + phaseRank ph := by
      simp only [Selective.State.rank, hphase, hpending]
      simp [callMethod, heq, CallEnv.start, Call.reset]
    have hle : phaseRank ph ≤ 6 := by
      rcases hph with rfl | ⟨-, nb, rfl⟩ <;> simp [phaseRank]
    omega

/-- **A selective call ends exactly once after all its sub calls**, in every run whose
steps are orderly; and it takes a bounded number of steps by itself. -/
theorem selective_ends_once (cfg : Config) (userDone : Bool) (env : CallEnv) (is : List Input)
    (h : Along (step (main cfg) userDone) (Orderly (main cfg)) (callMethod cfg env) is) :
    (selective cfg userDone env is).EndsOnce (main cfg) userDone ∧ countAlong (step (main cfg) userDone)
          (fun s i => i.own && s.step (main cfg) userDone i ≠ s) (callMethod cfg env) is ≤
        4 * effectiveMaxRetry env.cntlMaxRetry env.channelMaxRetry + 6 + is.countP (!·.own) * 3 := by
  obtain ⟨hinv, hrank⟩ := callMethod_inv cfg userDone env
  have hrun : (selective cfg userDone env is).Inv userDone :=
    run_invariant (I := Inv userDone) (fun _ i hs ho => (inv_step hs i ho).1) is (callMethod cfg env) hinv h
  have hcount := @countAlong_add_le _ _ (step (main cfg) userDone) _ _ (Inv userDone)
    rank (!·.own) 3 (fun _ i hs ho => (inv_step hs i ho).1)
    (fun _ i hs ho => (inv_step hs i ho).2) is _ hinv h
  exact ⟨hrun.endsOnce, by omega⟩

/-- A call without timers. -/
def cancelledCall : CallEnv where
  correlationId := 100
  cntlMaxRetry := 3
  channelMaxRetry := 3
  backupRequestMs := -1
  connectionType := .unknown
  streamCreator := false
  errorCode := 0
  tooManyUserCode := false
  timerAdd := 0

/-- The first sub call fails, and the second succeeds. -/
def answered : List Input :=
  [.issueRPC (.inr (7, true)), .subEnd 101 EFAILEDSOCKET .pooled, .onVersionedRPCReturned returnOk,
    .issueRPC (.inr (8, true)), .subEnd 102 0 .pooled, .onVersionedRPCReturned returnOk, .endRPC false]

theorem answered_ends_once : (selective plainConfig true cancelledCall answered).EndsOnce (main plainConfig) true :=
  (selective_ends_once _ _ _ _ (by decide)).1

/-- The call is cancelled, ends, and is cancelled again before its sub call is back. -/
def cancelledTwice : List Input :=
  [.issueRPC (.inr (7, true)), .error ECANCELED, .onVersionedRPCReturned returnOk,
    .endRPC false, .error ECANCELED, .onVersionedRPCReturned returnOk, .endRPC false]

/-- **`EndRPC` is executed twice** and gives feedback to a released load balancer. -/
theorem cancelledTwice_ends_twice :
    let log := (selective plainConfig true cancelledCall cancelledTwice).cntl.log
    log.countP Effect.isEndRPC = 2 ∧ .feedback 0 (some 7) ECANCELED false ∈ log := by
  decide

end Brpc.Selective
