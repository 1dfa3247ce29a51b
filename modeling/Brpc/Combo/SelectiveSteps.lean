/-
# Every orderly step of a selective call keeps the invariant

A step is orderly (`Orderly`) when `OnVersionedRPCReturned` fails no assertion and, once the main
call has ended, is run for previous attempts only.  Each lemma is about one function, and says
that the step uses something up (`Moves`).
-/

import Brpc.Combo.SelectiveInv

namespace Brpc.Selective

open Lib List Controller
open Controller (Config CallEnv ReturnEnv CompletionInfo attempts)

namespace State

/-- `OnVersionedRPCReturned` is not run for a second backup request, a retry of another attempt
than the current one, and, after the end, an event of the whole call or of its current attempt. -/
def ReturnsOrderly (cfg : Config) (env : ReturnEnv) (s : State) : Phase → Prop
  | .returned info _ _ =>
    (¬s.cntl.SecondBackup cfg env info ∧ ¬s.cntl.RetriesOther cfg env info) ∧
      (s.finished → s.cntl.ofPrevious info)
  | _ => True

/-- A step in which `OnVersionedRPCReturned` is run for what it expects, if at all. -/
def Orderly (cfg : Config) (s : State) : Input → Prop
  | .onVersionedRPCReturned env => s.ReturnsOrderly cfg env s.cntl.phase
  | _ => True

instance (cfg : Config) (env : ReturnEnv) (s : State) : (p : Phase) → Decidable (s.ReturnsOrderly cfg env p)
  | .returned _ _ _ => inferInstanceAs (Decidable (_ ∧ _))
  | .unlocked | .issuing | .ending _ | .destroyed => .isTrue trivial

instance (cfg : Config) (s : State) : (i : Input) → Decidable (s.Orderly cfg i)
  | .onVersionedRPCReturned env =>
    inferInstanceAs (Decidable (s.ReturnsOrderly cfg env s.cntl.phase))
  | .subEnd .. | .error _ | .issueRPC _ | .endRPC _ => .isTrue trivial

variable {cfg : Config} {userDone : Bool} {s : State} {env : ReturnEnv} {info : CompletionInfo}
  {nb : Bool} {saved : ErrorCode}

/-- **`OnVersionedRPCReturned` before the main call has ended.** -/
theorem Going.returned (hb : s.Base userDone) (hg : s.Going) (hp : s.cntl.phase = .returned info nb saved)
    (hord : ¬s.cntl.SecondBackup cfg env info ∧ ¬s.cntl.RetriesOther cfg env info) :
    Moves userDone s { s with cntl := s.cntl.onVersionedRPCReturned cfg env info nb saved } := by
  have hr := State.onVersionedRPCReturned_returned cfg env s.cntl info nb saved
  obtain ⟨hlive, hms⟩ := hg.live.returned hp hr
  have hcur := hg.current
  rw [hp] at hcur
  obtain ⟨hout, hwhere⟩ := hcur
  have hid : s.cntl.hasVersion info.id := by
    have := hg.live.phaseOk
    rwa [hp] at this
  have hlocked : s.cntl.locked := hg.live.locked (by simp [hp])
  rw [State.failedChecks, if_neg hord.1, if_neg hord.2, append_nil, append_nil] at hms
  have hrank := rank.eq_1 s
  rw [hp, phaseRank] at hrank
  have hnot : info.id ∉ s.running := by
    rcases hwhere with ⟨-, hnot⟩ | ⟨-, hnot, -⟩ <;> exact hnot
  have hcurrent : s.cntl.ofPrevious info → s.cntl.currentId ∈ s.running := by
    intro hprev
    simp only [State.ofPrevious, decide_eq_true_eq] at hprev
    rcases hwhere with ⟨heq, -⟩ | ⟨-, -, hmem⟩
    · exact absurd heq hprev.2
    · exact hmem
  generalize s.cntl.onVersionedRPCReturned cfg env info nb saved = c' at hr hlive hms
  cases hr with
  | stale hprev =>
    have hbase : ({ s with cntl := { s.cntl with errorCode := saved } } : State).Base userDone :=
      hb.replace _ rfl rfl rfl hb.pending Iff.rfl
    refine hbase.going_checkedUnlock hid hlocked hg.finished hg.lb ?_ hout (hcurrent hprev) ?_
    · exact hg.live.core.congr rfl rfl rfl rfl (fun _ he => he) rfl
    · simp [hrank, unlockedRank]
  | unfinishedFailed u hprev hu huid =>
    have hms' : (s.cntl.log ++ u.onComplete s.cntl s.cntl.errorCode info.responded false).filter
        Effect.milestone = s.cntl.milestones := by simp [State.milestones]
    have hbase := hb.replace { s.cntl with
      log := s.cntl.log ++ u.onComplete s.cntl s.cntl.errorCode info.responded false
      unfinishedCall := none
      errorCode := saved } (congrArg attempts hms') rfl rfl hb.pending Iff.rfl
    refine hbase.going_checkedUnlock hid hlocked hg.finished hg.lb ?_ ?_ (hcurrent hprev) ?_
    · exact hg.live.core.congr rfl rfl rfl rfl (fun _ he => he) hms'
    · intro cid hmem
      rcases hout cid hmem with heq | ⟨u', hu', heq⟩
      · exact .inl heq
      · -- the unfinished attempt's sub call is back
        rw [hu] at hu'
        cases hu'
        exact absurd (huid ▸ heq ▸ hmem) hnot
    · simp [hrank, unlockedRank]
  | ends =>
    have hbase := hb.replace _ (congrArg attempts hms) rfl rfl hb.pending (by simp [hp])
    refine ⟨⟨hbase, .inl ⟨hg.finished, hg.lb, hlive, trivial⟩⟩, ?_⟩
    rw [hrank]
    simp [rank, phaseRank]
  | backup acc t es hmay hec hu =>
    have hbase := hb.replace _ (congrArg attempts hms) rfl rfl hb.pending (by simp [hp])
    have hnone : s.cntl.unfinishedCall = none := hu.resolve_right hord.1
    have hlt := hmay.2.2
    refine ⟨⟨hbase, .inl ⟨hg.finished, hg.lb, hlive, ?_⟩⟩, ?_⟩
    · intro cid hmem
      rcases hout cid hmem with heq | ⟨u, hu', -⟩
      · exact .inr ⟨s.cntl.currentCall, rfl, heq⟩
      · simp [hnone] at hu'
    · rw [hrank]
      simp only [rank, phaseRank]
      omega
  | retries acc es hretry =>
    have hbase := hb.replace _ (congrArg attempts hms) rfl rfl hb.pending (by simp [hp])
    have hlt := hretry.1.2.2
    have hinfo : s.cntl.currentId = info.id := not_not.1 fun hne => hord.2 ⟨hretry.1, hretry.2.1, hretry.2.2.1, hne⟩
    refine ⟨⟨hbase, .inl ⟨hg.finished, hg.lb, hlive, ?_⟩⟩, ?_⟩
    · intro cid hmem
      rcases hout cid hmem with heq | hunf
      · -- the current attempt's sub call is back
        exact absurd (hinfo ▸ heq ▸ hmem) hnot
      · exact .inr hunf
    · rw [hrank]
      simp only [rank, phaseRank]
      omega

theorem Base.issue (h : s.Base userDone) (c : Controller.State)
    (hms : c.milestones = s.cntl.milestones ++ [.issue s.cntl.currentCall.nretry s.cntl.currentId])
    (hid : s.cntl.hasVersion s.cntl.currentId)
    (hcorr : c.correlationId = s.cntl.correlationId) (hrange : c.range = s.cntl.range)
    (hpending : c.pendingQ = s.cntl.pendingQ) (hp : s.cntl.phase ≠ .destroyed)
    (hp' : c.phase ≠ .destroyed) : ({ s with cntl := c } : State).Base userDone := by
  have hatt : attempts c.milestones =
      attempts s.cntl.milestones ++ [(s.cntl.currentCall.nretry, s.cntl.currentId)] := by
    rw [hms, Controller.attempts_append]
    rfl
  refine ⟨h.halted, h.alloc, h.alloc_le, h.nodup, h.running, h.back, fun cid hcid => ?_, ?_, ?_, ?_, ?_, ?_, h.guarded⟩
  · obtain ⟨n, hn⟩ := h.started cid hcid
    exact ⟨n, by rw [hatt]; exact mem_append_left _ hn⟩
  · intro p hmem
    rw [hatt] at hmem
    rw [hcorr, hrange]
    rcases mem_append.1 hmem with hmem | hmem
    · exact h.own p hmem
    · rw [State.hasVersion_iff, State.currentId] at hid
      rw [mem_singleton.1 hmem]
      exact ⟨rfl, by omega⟩
  · rw [hcorr, hpending]
    exact h.pending
  · rw [hrange]
    exact h.range
  · simpa [hp, hp'] using h.destroyed
  · simpa [hp, hp'] using h.done

/-- A `SubDone` is free for an attempt that has not been issued, if at most one is out,
and its sub call is started. -/
theorem Base.start (h : s.Base userDone) (hone : s.running.length ≤ 1) {cid : ℕ}
    (hnew : .startSub cid ∉ s.log) (hatt : ∃ n, (n, cid) ∈ attempts s.cntl.milestones)
    (hp : s.cntl.phase ≠ .destroyed) : ∃ nfree nalloc, s.popFree = some (nfree, nalloc) ∧ ({ s with
        nfree := nfree, nalloc := nalloc
        running := s.running ++ [cid], log := s.log ++ [.startSub cid] } : State).Base userDone := by
  have halloc := h.alloc
  have halloc_le := h.alloc_le
  obtain ⟨nfree, nalloc, hpop, halloc', hle'⟩ : ∃ nfree nalloc,
      s.popFree = some (nfree, nalloc) ∧ nfree + (s.running.length + 1) = nalloc ∧ nalloc ≤ 2 := by
    unfold popFree
    split
    case isTrue hzero =>
      rw [if_pos (by omega)]
      exact ⟨0, s.nalloc + 1, rfl, by omega, by omega⟩
    case isFalse hpos => exact ⟨s.nfree - 1, s.nalloc, rfl, by omega, halloc_le⟩
  have hnotDone : .runSubDone cid ∉ s.log := fun hmem => hnew (h.back cid hmem)
  have hnotRunning : cid ∉ s.running := fun hmem => hnew ((h.running cid).1 hmem).1
  refine ⟨nfree, nalloc, hpop, h.halted, by simpa using halloc', hle', ?_, fun cid' => ?_,
    fun cid' hback => ?_, fun cid' hstart => ?_, h.own, h.pending, h.range, ?_, ?_, ?_⟩
  · exact concat_eq_append ▸ Nodup.concat hnotRunning h.nodup
  · by_cases hcid : cid' = cid
    · subst hcid
      simp [hnotDone]
    · simpa [hcid] using h.running cid'
  · simpa using .inl (h.back cid' (by simpa using hback))
  · rcases mem_append.1 hstart with hstart | hstart
    · exact h.started cid' hstart
    · have : cid' = cid := by simpa using hstart
      exact this ▸ hatt
  · simpa using h.destroyed
  · simpa using h.done
  · refine (guarded_append _ _).2 ⟨h.guarded, ⟨hnew, fun hm => ?_, fun hm => ?_⟩, trivial⟩
    · exact hp (h.done.1 hm).1
    · exact hp (h.destroyed.1 hm)

theorem Going.not_started (hb : s.Base userDone) (hg : s.Going) (hp : s.cntl.phase = .issuing) :
    .startSub s.cntl.currentId ∉ s.log := by
  intro hmem
  obtain ⟨n, hn⟩ := hb.started _ hmem
  have hlt := hg.live.phaseOk
  rw [hp] at hlt
  have := hlt _ hn
  have hown := (hb.own _ hn).1
  simp only [State.currentId] at hown
  omega

theorem Going.running_le_one (hb : s.Base userDone) (hg : s.Going) (hp : s.cntl.phase = .issuing) :
    s.running.length ≤ 1 := by
  have hout := hg.current
  rw [hp] at hout
  have hsame : ∀ a ∈ s.running, ∀ b ∈ s.running, a = b := by
    have hunf : ∀ a ∈ s.running, ∃ u, s.cntl.unfinishedCall = some u ∧ a = s.cntl.getId u.nretry := by
      intro a ha
      rcases hout a ha with heq | hunf
      · exact absurd ((hb.running a).1 ha).1 (heq ▸ hg.not_started hb hp)
      · exact hunf
    intro a ha b hb'
    obtain ⟨u, hu, rfl⟩ := hunf a ha
    obtain ⟨u', hu', rfl⟩ := hunf b hb'
    rw [hu] at hu'
    cases hu'
    rfl
  have hnodup := hb.nodup
  match hrun : s.running with
  | [] => simp
  | [_] => simp
  | a :: b :: l =>
    rw [hrun] at hnodup hsame
    have := hsame a (by simp) b (by simp)
    simp [this] at hnodup

theorem issue_milestones (c : Controller.State) {es : List Controller.Effect}
    (hes : Controller.Quiet es) : ((enterIssueRPC c).log ++ es).filter Controller.Effect.milestone =
      c.milestones ++ [.issue c.currentCall.nretry c.currentId] := by
  rw [filter_append, hes.milestones, append_nil]
  exact filter_append ..

theorem selected_milestones (c : Controller.State) (peer : SocketId) (needFeedback : Bool) :
    (selected (enterIssueRPC c) peer needFeedback).milestones =
      c.milestones ++ [.issue c.currentCall.nretry c.currentId] := by
  have hfilter := filter_append (p := Controller.Effect.milestone)
    (enterIssueRPC c).log [.select c.currentCall.nretry peer needFeedback]
  exact hfilter.trans (append_nil _) |>.trans (filter_append ..)

/-- **`IssueRPC` of the main call** finds a free `SubDone`. -/
theorem Going.issueRPC (hb : s.Base userDone) (hg : s.Going) (hp : s.cntl.phase = .issuing)
    (select : ErrorCode ⊕ (SocketId × Bool)) : Moves userDone s (s.issueRPC cfg select) := by
  have hlt : ∀ p ∈ attempts s.cntl.milestones, p.1 < s.cntl.currentCall.nretry := by
    have := hg.live.phaseOk
    rwa [hp] at this
  have hid := hg.live.core.hasVersion_currentId
  have hnew := hg.not_started hb hp
  have hlocked : s.cntl.locked := hg.live.locked (by simp [hp])
  have hout := hg.current
  rw [hp] at hout
  have hrank := rank.eq_1 s
  rw [hp, phaseRank] at hrank
  have hlb : (enterIssueRPC s.cntl).lb = true := hg.lb
  unfold State.issueRPC
  simp only [hlb, not_true_eq_false, if_false]
  cases select with
  | inl ec =>
    obtain ⟨ec', nb, es, -, hes, heq⟩ := Controller.handleSendFailed_eq cfg (enterIssueRPC s.cntl) ec
    have hms := issue_milestones s.cntl hes
    simp only [heq]
    refine ⟨⟨?_, .inl ⟨hg.finished, hg.lb, ⟨?_, hid⟩, hout, .inl ⟨rfl, ?_⟩⟩⟩, ?_⟩
    · exact hb.issue _ (by exact hms) hid rfl rfl rfl hlocked.2 (by simp)
    · exact hg.live.core.issue hlt rfl rfl rfl rfl rfl hms
    · exact fun hmem => hnew ((hb.running _).1 hmem).1
    · rw [hrank]
      simp [rank, phaseRank, enterIssueRPC, Controller.State.emit]
  | inr sel =>
    obtain ⟨peer, needFeedback⟩ := sel
    have hms := selected_milestones s.cntl peer needFeedback
    have hbase := hb.issue (selected (enterIssueRPC s.cntl) peer needFeedback) hms hid rfl rfl rfl hlocked.2 hlocked.2
    have hatt : ∃ n, (n, s.cntl.currentId) ∈
        attempts (selected (enterIssueRPC s.cntl) peer needFeedback).milestones := by
      refine ⟨s.cntl.currentCall.nretry, ?_⟩
      rw [hms, attempts_append]
      exact mem_append_right _ (mem_singleton.2 rfl)
    have hone : s.running.length ≤ 1 := hg.running_le_one hb hp
    obtain ⟨nfree, nalloc, hpop, hstart⟩ := hbase.start hone hnew hatt hlocked.2
    have hpop' : s.popFree = some (nfree, nalloc) := hpop
    simp only [hpop']
    refine Base.going_checkedUnlock (c := selected (enterIssueRPC s.cntl) peer needFeedback)
      (s := { s with
        nfree := nfree, nalloc := nalloc
        running := s.running ++ [s.cntl.currentId], log := s.log ++ [.startSub s.cntl.currentId] })
      hstart hid hlocked hg.finished hg.lb ?_ ?_ ?_ ?_
    · exact hg.live.core.issue hlt rfl rfl rfl rfl rfl hms
    · exact forall_mem_append.2 ⟨hout, fun cid hmem => .inl (mem_singleton.1 hmem)⟩
    · exact mem_append_right _ (mem_singleton.2 rfl)
    · simp only [unlockedRank, selected, enterIssueRPC, Controller.State.emit, length_append, length_singleton]
      omega

end State
end Brpc.Selective
