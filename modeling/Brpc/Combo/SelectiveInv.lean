/-
# SelectiveChannel

`src/brpc/selective_channel.cpp`.  The main call is an RPC (`Brpc.Controller`) whose attempts are
sub calls: the `Sender` issues them, and their dones, at most two `SubDone`s, come back as
responses.  When the main call ends while some are out, `Sender::Run` unlocks the main id again and
the last one to come back runs the user's done (`Clear`).  `running` are the sub calls under way, by
the version of the main id they were issued under.

`Base` ties the counters of the `Sender`, the sub calls that are out and the trace together.  The
main call is `Going` until it has ended, then `Waiting` for the sub calls that are out, then `Over`.
-/

import Brpc.Controller.ExactlyOnce

namespace Brpc.Selective

open Controller (Config CallEnv ReturnEnv CompletionInfo)

/-- What the `Sender` does. -/
inductive Effect
  /-- The sub call of this version is started. -/
  | startSub (cid : ℕ)
  /-- `SubDone::Run()` of this version has the main id. -/
  | runSubDone (cid : ℕ)
  /-- `bthread_id_error` on the ids of the sub calls. -/
  | cancelSubs (errorCode : ErrorCode)
  | runUserDone
  | unlockAndDestroy
  /-- `CHECK(false)` in `PopFree` or `PushFree`. -/
  | checkFailed
  /-- `SelectChannel` was called on a released `_lb`. -/
  | nullLb
  deriving DecidableEq

/-- A call over a selective channel. -/
structure State where
  /-- `_main_cntl`. -/
  cntl : Controller.State
  nfree : ℕ
  nalloc : ℕ
  finished : Bool
  running : List ℕ
  /-- The id stays locked for ever, or the process has crashed. -/
  halted : Bool
  log : List Effect
  deriving DecidableEq

/-- The main controller of a selective channel: several servers, the `Sender` for its
done, and the id is destroyed by that. -/
def main (cfg : Config) : Config :=
  { cfg with singleServerId := none, done := true, destroyCidInDone := true, auth := false }

namespace State

def emit (s : State) (es : List Effect) : State := { s with log := s.log ++ es }

def clear (userDone : Bool) (s : State) : State :=
  { s.emit ((if userDone then [.runUserDone] else []) ++ [.unlockAndDestroy]) with
    cntl := { s.cntl with phase := .destroyed, pendingQ := [] } }

/-- `Sender::PopFree`: the new `_nfree` and `_nalloc`, `none` when both `SubDone`s are
out. -/
def popFree (s : State) : Option (ℕ × ℕ) :=
  if s.nfree = 0 then
    if s.nalloc < 2 then some (0, s.nalloc + 1) else none
  else some (s.nfree - 1, s.nalloc)

/-- `Controller::IssueRPC` up to `_sender->IssueRPC`, which gives up the feedback first. -/
def enterIssueRPC (c : Controller.State) : Controller.State :=
  { c.emit [.issue c.currentCall.nretry c.currentId] with
    errorCode := 0, currentCall := { c.currentCall with needFeedback := false } }

/-- A sub channel was selected. -/
def selected (c : Controller.State) (peer : SocketId) (needFeedback : Bool) : Controller.State :=
  { c.emit [.select c.currentCall.nretry peer needFeedback] with
    currentCall := { c.currentCall with needFeedback := needFeedback, peerId := some peer } }

/-- `Controller::IssueRPC` with a `_sender`, and `Sender::IssueRPC`. -/
def issueRPC (cfg : Config) (selectChannel : ErrorCode ⊕ (SocketId × Bool)) (s : State) : State :=
  let cid := s.cntl.currentId
  let c := enterIssueRPC s.cntl
  if ¬c.lb then { s.emit [.nullLb] with cntl := c, halted := true }
  else match selectChannel with
    | .inl ec => { s with cntl := (c.setFailed ec).handleSendFailed cfg }
    | .inr (peer, needFeedback) =>
      let c := selected c peer needFeedback
      match s.popFree with
      | none =>
        { s.emit [.checkFailed] with cntl := { c with errorCode := -1 }.handleSendFailed cfg }
      | some (nfree, nalloc) =>
        { s.emit [.startSub cid] with
          cntl := c.checkedUnlock cid, nfree := nfree, nalloc := nalloc
          running := s.running ++ [cid] }

/-- `SubDone::Run()` with the main id locked: the sub call of version `cid` ended with
`errorCode`. -/
def subDone (userDone : Bool) (cid : ℕ) (errorCode : ErrorCode) (connectionType : ConnectionType)
    (s : State) : State :=
  let s : State := { s.emit [.runSubDone cid] with
    cntl := { s.cntl with connectionType := connectionType }, running := s.running.erase cid }
  -- PushFree
  if s.nfree < 2 then
    let s := { s with nfree := s.nfree + 1 }
    if s.finished ∧ s.nfree = s.nalloc then s.clear userDone
    else
      { s with
        cntl := { s.cntl.emit [.response cid] with
          errorCode := if errorCode ≠ 0 then errorCode else s.cntl.errorCode
          phase := .returned ⟨cid, true⟩ false s.cntl.errorCode } }
  else { s.emit [.checkFailed] with halted := true }

/-- `EndRPC` of the main controller, whose done is `Sender::Run`. -/
def endRPC (cfg : Config) (userDone streamLost : Bool) (info : CompletionInfo) (s : State) : State :=
  let c := s.cntl.endCalls cfg streamLost info
  let s := { s with cntl := c.emit [.runDone], finished := true }
  if s.nfree ≠ s.nalloc then
    { s.emit [.cancelSubs (if c.errorCode = ERPCTIMEDOUT then ERPCTIMEDOUT else ECANCELED)] with
      cntl := s.cntl.checkedUnlock s.cntl.correlationId }
  else s.clear userDone

end State

/-- What may happen next. -/
inductive Input
  /-- The sub call of version `cid` ends, and its done gets the main id. -/
  | subEnd (cid : ℕ) (errorCode : ErrorCode) (connectionType : ConnectionType)
  /-- `bthread_id_error(_correlation_id, errorCode)`: a timer or a cancellation. -/
  | error (errorCode : ErrorCode)
  | onVersionedRPCReturned (env : ReturnEnv)
  | issueRPC (selectChannel : ErrorCode ⊕ (SocketId × Bool))
  | endRPC (streamLost : Bool)

/-- One step of a call over a selective channel. -/
def State.step (cfg : Config) (userDone : Bool) (s : State) (i : Input) : State :=
  if s.halted then s
  else match i with
    | .subEnd cid ec ct =>
      if s.cntl.phase = .unlocked ∧ cid ∈ s.running then s.subDone userDone cid ec ct else s
    | .error ec =>
      if s.cntl.phase = .destroyed then s
      else { s with cntl := s.cntl.idError s.cntl.correlationId ec }
    | .onVersionedRPCReturned env =>
      match s.cntl.phase with
      | .returned info newBthread saved =>
        { s with cntl := s.cntl.onVersionedRPCReturned cfg env info newBthread saved }
      | _ => s
    | .issueRPC select => if s.cntl.phase = .issuing then s.issueRPC cfg select else s
    | .endRPC lost =>
      match s.cntl.phase with
      | .ending info => s.endRPC cfg userDone lost info
      | _ => s

/-- `SelectiveChannel::CallMethod`, up to the first attempt. -/
def callMethod (cfg : Config) (env : CallEnv) : State where
  cntl := Controller.callMethod (main cfg) env
  nfree := 0
  nalloc := 0
  finished := false
  running := []
  halted := false
  log := []

/-- A call over a selective channel after the inputs `is`. -/
def selective (cfg : Config) (userDone : Bool) (env : CallEnv) (is : List Input) : State :=
  Lib.run (State.step (main cfg) userDone) (callMethod cfg env) is

/-! ## The invariant -/

open Lib Controller State
open Controller (Config CallEnv ReturnEnv CompletionInfo attempts)

/-- All sub calls that were started have run their done. -/
def AllBack (es : List Effect) : Prop := ∀ cid, .startSub cid ∈ es → .runSubDone cid ∈ es

/-- What an event of the trace needs of those before it. -/
def Allowed : Effect → List Effect → Prop
  | .startSub cid, pre => .startSub cid ∉ pre ∧ .runUserDone ∉ pre ∧ .unlockAndDestroy ∉ pre
  | .runSubDone cid, pre => .startSub cid ∈ pre ∧ .runSubDone cid ∉ pre
  | .runUserDone, pre => .runUserDone ∉ pre ∧ AllBack pre
  | .unlockAndDestroy, pre => .unlockAndDestroy ∉ pre ∧ AllBack pre
  | .cancelSubs _, _ => True
  | .checkFailed, _ | .nullLb, _ => False

namespace State

/-- The `Sender` and the trace. -/
structure Base (userDone : Bool) (s : State) : Prop where
  halted : s.halted = false
  alloc : s.nfree + s.running.length = s.nalloc
  alloc_le : s.nalloc ≤ 2
  nodup : s.running.Nodup
  running : ∀ cid, cid ∈ s.running ↔ .startSub cid ∈ s.log ∧ .runSubDone cid ∉ s.log
  back : ∀ cid, .runSubDone cid ∈ s.log → .startSub cid ∈ s.log
  started : ∀ cid, .startSub cid ∈ s.log → ∃ n, (n, cid) ∈ attempts s.cntl.milestones
  own : ∀ p ∈ attempts s.cntl.milestones, p.2 = s.cntl.correlationId + p.1 + 1 ∧ p.1 + 1 < s.cntl.range
  pending : ∀ e ∈ s.cntl.pendingQ, e.id = s.cntl.correlationId
  range : 0 < s.cntl.range
  destroyed : .unlockAndDestroy ∈ s.log ↔ s.cntl.phase = .destroyed
  done : .runUserDone ∈ s.log ↔ s.cntl.phase = .destroyed ∧ userDone
  guarded : Guarded Allowed s.log

/-- The sub calls that are out are those of the open attempts. -/
def Out (s : State) : Prop :=
  ∀ cid ∈ s.running, cid = s.cntl.currentId ∨ ∃ u, s.cntl.unfinishedCall = some u ∧ cid = s.cntl.getId u.nretry

/-- Where the current attempt's sub call is while the main call is going on. -/
def CurrentOk (s : State) : Phase → Prop
  | .unlocked => s.Out ∧ s.cntl.currentId ∈ s.running
  | .returned info _ _ => s.Out ∧
    (info.id = s.cntl.currentId ∧ info.id ∉ s.running ∨
      info.id ≠ s.cntl.currentId ∧ info.id ∉ s.running ∧ s.cntl.currentId ∈ s.running)
  | .issuing => s.Out
  | _ => True

/-- The main call has not ended. -/
structure Going (s : State) : Prop where
  finished : s.finished = false
  lb : s.cntl.lb = true
  live : s.cntl.Live
  current : s.CurrentOk s.cntl.phase

/-- The milestones of a main call that has ended. -/
def Closed (s : State) : Prop :=
  ∃ es id, s.cntl.milestones = es ++ [.endRPC id, .runDone] ∧ ∀ e ∈ es, e.open

/-- The main call has ended and some sub calls are out. -/
structure Waiting (s : State) : Prop where
  finished : s.finished = true
  running : s.running ≠ []
  unfinished : s.cntl.unfinishedCall = none
  closed : s.Closed
  phase : s.cntl.phase = .unlocked ∨
    ∃ info nb saved, s.cntl.phase = .returned info nb saved ∧ s.cntl.hasVersion info.id

structure Over (s : State) : Prop where
  finished : s.finished = true
  running : s.running = []
  closed : s.Closed
  phase : s.cntl.phase = .destroyed

/-- The invariant of a call over a selective channel. -/
structure Inv (userDone : Bool) (s : State) : Prop where
  base : s.Base userDone
  stage : s.Going ∨ s.Waiting ∨ s.Over

/-- The steps a phase needs. -/
def phaseRank : Phase → ℕ
  | .issuing => 6
  | .returned .. => 3
  | .ending _ => 2
  | .unlocked | .destroyed => 0

/-- How many steps are left to the call by itself. -/
def rank (s : State) : ℕ :=
  4 * (s.cntl.maxRetry - s.cntl.currentCall.nretry) + 4 * s.running.length +
    2 * s.cntl.pendingQ.length + phaseRank s.cntl.phase

/-- A step of the call keeps the invariant and uses something up. -/
def Moves (userDone : Bool) (s s' : State) : Prop := s'.Inv userDone ∧ s'.rank + 1 ≤ s.rank

/-! ### Unlocking the main id -/

section

variable {userDone : Bool} {s : State} {c : Controller.State}

section

variable (hpending : ∀ e ∈ c.pendingQ, e.id = c.correlationId)
include hpending

theorem afterUnlock_cases : c.afterUnlock = { c with phase := .unlocked } ∧ c.pendingQ = [] ∨
      ∃ ec q es, Controller.Quiet es ∧ c.pendingQ.length = q.length + 1 ∧
        (∀ e ∈ q, e.id = c.correlationId) ∧ c.afterUnlock = { c with
          pendingQ := q, errorCode := ec, log := c.log ++ es
          phase := .returned ⟨c.correlationId, false⟩ true c.errorCode } := by
  unfold afterUnlock
  cases hq : c.pendingQ with
  | nil => exact .inl ⟨rfl, rfl⟩
  | cons e q =>
    right
    have hid : e.id = c.correlationId := hpending e (by simp [hq])
    refine ⟨if e.errorCode = 0 then -1 else e.errorCode, q,
      if e.errorCode = 0 then [.checkFailed .errorCodeNonzero] else [], ?_, rfl,
      fun e' he' => hpending e' (by simp [hq, he']), ?_⟩
    · split <;> simp [Controller.Quiet, Controller.Effect.attempt, Controller.Effect.milestone]
    · simp only [handleSocketFailed, setFailed_eq, hid]

theorem afterUnlock_frame : c.afterUnlock.correlationId = c.correlationId ∧ c.afterUnlock.range = c.range ∧
      c.afterUnlock.lb = c.lb ∧ c.afterUnlock.currentCall = c.currentCall ∧
      c.afterUnlock.unfinishedCall = c.unfinishedCall ∧ (∀ e ∈ c.afterUnlock.pendingQ, e.id = c.correlationId) ∧
      c.afterUnlock.phase ≠ .destroyed := by
  rcases afterUnlock_cases hpending with ⟨heq, hq⟩ | ⟨ec, q, es, -, -, hq, heq⟩
  · rw [heq]
    exact ⟨rfl, rfl, rfl, rfl, rfl, by simp [hq], by simp⟩
  · rw [heq]
    exact ⟨rfl, rfl, rfl, rfl, rfl, hq, by simp⟩

theorem afterUnlock_rank : ({ s with cntl := c.afterUnlock } : State).rank ≤
      4 * (c.maxRetry - c.currentCall.nretry) + 4 * s.running.length + 2 * c.pendingQ.length + 1 := by
  rcases afterUnlock_cases hpending with ⟨heq, hq⟩ | ⟨ec, q, es, -, hlen, -, heq⟩
  · simp [heq, rank, phaseRank, hq]
  · simp only [heq, rank, phaseRank]
    omega

end

section

variable (h : s.Base userDone)
include h

theorem Base.replace (c : Controller.State) (hatt : attempts c.milestones = attempts s.cntl.milestones)
    (hcorr : c.correlationId = s.cntl.correlationId) (hrange : c.range = s.cntl.range)
    (hpending : ∀ e ∈ c.pendingQ, e.id = s.cntl.correlationId)
    (hp : c.phase = .destroyed ↔ s.cntl.phase = .destroyed) : ({ s with cntl := c } : State).Base userDone := by
  refine { h with started := ?_, own := ?_, pending := ?_, range := ?_, destroyed := ?_, done := ?_ }
  · rw [hatt]
    exact h.started
  · rw [hatt, hcorr, hrange]
    exact h.own
  · rw [hcorr]
    exact hpending
  · rw [hrange]
    exact h.range
  · rw [hp]
    exact h.destroyed
  · rw [hp]
    exact h.done

theorem Base.running_attempt {cid : ℕ} (hcid : cid ∈ s.running) :
    ∃ n, cid = s.cntl.correlationId + n + 1 ∧ n + 1 < s.cntl.range := by
  obtain ⟨n, hn⟩ := h.started cid ((h.running cid).1 hcid).1
  exact ⟨n, h.own _ hn⟩

theorem Base.correlationId_not_mem : s.cntl.correlationId ∉ s.running := by
  intro hmem
  obtain ⟨n, heq, -⟩ := h.running_attempt hmem
  omega

theorem Base.hasVersion_of_running {cid : ℕ} (hcid : cid ∈ s.running) : s.cntl.hasVersion cid := by
  obtain ⟨n, heq, hlt⟩ := h.running_attempt hcid
  rw [State.hasVersion_iff]
  omega

theorem Base.hasVersion_correlationId : s.cntl.hasVersion s.cntl.correlationId := by
  have := h.range
  rw [State.hasVersion_iff]
  omega

end

/-- The steps that are left when the main id is unlocked at `c`. -/
def unlockedRank (s : State) (c : Controller.State) : ℕ :=
  4 * (c.maxRetry - c.currentCall.nretry) + 4 * s.running.length + 2 * c.pendingQ.length + 1

theorem Base.going_checkedUnlock {s₀ : State} {id : ℕ}
    (h : ({ s with cntl := c } : State).Base userDone) (hid : c.hasVersion id) (hl : c.locked)
    (hfin : s.finished = false) (hlb : c.lb = true) (hcore : c.Core)
    (hout : ({ s with cntl := c } : State).Out) (hcur : c.currentId ∈ s.running)
    (hrank : s.unlockedRank c < s₀.rank) :
    Moves userDone s₀ { s with cntl := c.checkedUnlock id } := by
  rw [checkedUnlock_of_locked hid hl]
  refine ⟨?_, Nat.le_trans (Nat.succ_le_succ (afterUnlock_rank h.pending)) hrank⟩
  obtain ⟨hc, hr, hlb', hcall, hunf, hpend, hnd⟩ := afterUnlock_frame h.pending
  have hbase : ({ s with cntl := c.afterUnlock } : State).Base userDone :=
    h.replace c.afterUnlock (by simp) hc hr hpend ⟨fun hd => absurd hd hnd, fun hd => absurd hd hl.2⟩
  have hcurrentId : c.afterUnlock.currentId = c.currentId := by
    simp only [currentId, hc, hcall]
  have hout' : ({ s with cntl := c.afterUnlock } : State).Out := by
    intro cid hmem
    simp only [hcurrentId, hunf, getId, hc]
    exact hout cid hmem
  refine ⟨hbase, .inl ⟨hfin, hlb'.trans hlb, hcore.afterUnlock, ?_⟩⟩
  rcases afterUnlock_cases h.pending with ⟨heq, -⟩ | ⟨ec, q, es, -, -, -, heq⟩
  · have hph : c.afterUnlock.phase = .unlocked := by rw [heq]
    simp only [hph]
    exact ⟨hout', hcurrentId ▸ hcur⟩
  · have hph : c.afterUnlock.phase = .returned ⟨c.correlationId, false⟩ true c.errorCode := by
      rw [heq]
    simp only [hph]
    refine ⟨hout', .inr ⟨?_, h.correlationId_not_mem, hcurrentId ▸ hcur⟩⟩
    rw [hcurrentId]
    simp only [currentId]
    omega

theorem Base.waiting_checkedUnlock {s₀ : State} {id : ℕ}
    (h : ({ s with cntl := c } : State).Base userDone) (hid : c.hasVersion id) (hl : c.locked)
    (hfin : s.finished = true) (hrun : s.running ≠ []) (hunf : c.unfinishedCall = none)
    (hclosed : ({ s with cntl := c } : State).Closed) (hrank : s.unlockedRank c < s₀.rank) :
    Moves userDone s₀ { s with cntl := c.checkedUnlock id } := by
  rw [checkedUnlock_of_locked hid hl]
  refine ⟨?_, Nat.le_trans (Nat.succ_le_succ (afterUnlock_rank h.pending)) hrank⟩
  obtain ⟨hc, hr, -, -, hunf', hpend, hnd⟩ := afterUnlock_frame h.pending
  have hbase : ({ s with cntl := c.afterUnlock } : State).Base userDone :=
    h.replace c.afterUnlock (by simp) hc hr hpend ⟨fun hd => absurd hd hnd, fun hd => absurd hd hl.2⟩
  refine ⟨hbase, .inr (.inl ⟨hfin, hrun, hunf'.trans hunf, ?_, ?_⟩)⟩
  · obtain ⟨es, id, hms, hes⟩ := hclosed
    exact ⟨es, id, by simpa using hms, hes⟩
  · rcases afterUnlock_cases h.pending with ⟨heq, -⟩ | ⟨ec, q, es, -, -, -, heq⟩
    · exact .inl (by rw [heq])
    · refine .inr ⟨_, _, _, by rw [heq], ?_⟩
      have := hbase.hasVersion_correlationId
      rwa [hc] at this

end

end State
end Brpc.Selective
