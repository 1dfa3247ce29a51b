/-
# ParallelChannel

`src/brpc/parallel_channel.cpp`.  `CallMethod` starts one sub call per channel that is not skipped.
The done of each adds one to the lower 31 bits of `_current_done`, and `this->Run()` sets its top
bit; the last one to come runs `OnComplete`, which merges the responses in channel order, counts
what fails, and decides (`conclude_eq_success_iff`).

A run is any interleaving of the agents' steps.  What a step reads or writes of the
`ParallelChannelDone` is logged as `touch`.  The memory of the done, the thread it is run in, error
texts and attachments are not modelled.
-/

import Brpc.Controller.Issued
import Brpc.Lib.FlagCounter

namespace Brpc.Parallel

open List

/-- What became of one channel when the calls were mapped. -/
inductive Mapped
  /-- No mapper; whether `response->New()` returned an object. -/
  | noMapper (newResponse : Bool)
  | skip
  | bad
  | call
  deriving DecidableEq

/-- A channel that is called: its index and whether it has a `ResponseMerger`. -/
structure Chan where
  index : ℕ
  merger : Bool

/-- The mapping loop of `CallMethod`: the first error, or the channels to call. -/
def mapCalls : ℕ → List (Mapped × Bool) → Except ErrorCode (List Chan)
  | _, [] => .ok []
  | i, (.skip, _) :: ms => mapCalls (i + 1) ms
  | _, (.bad, _) :: _ => .error EREQUEST
  | _, (.noMapper false, _) :: _ => .error ENOMEM
  | i, (.noMapper true, merger) :: ms | i, (.call, merger) :: ms =>
    (⟨i, merger⟩ :: ·) <$> mapCalls (i + 1) ms

/-- The `fail_limit` that `CallMethod` works with. -/
def effectiveFailLimit (failLimit : ℤ) (ndone : ℕ) : ℕ :=
  if failLimit < 0 then ndone
  else if failLimit < 1 then 1
  else if (ndone : ℤ) < failLimit then ndone
  else failLimit.toNat

/-- What `CallMethod` finds. -/
structure CallEnv where
  /-- `bthread_id_lock(cid)`. -/
  lock : ErrorCode
  /-- The error of a cancellation before the call. -/
  errorCode : ErrorCode
  responseNull : Bool
  /-- The channels, with their mapping and whether they have a merger. -/
  chans : List (Mapped × Bool)
  failLimit : ℤ
  /-- `ParallelChannelDone::Create` returned an object. -/
  create : Bool
  timeoutMs : ℤ
  timerAdd : ErrorCode
  /-- The number of channels is an `int`. -/
  small : chans.length < 2 ^ 31

/-- The sub calls that are made, and the `_fail_limit` for them. -/
structure Plan where
  chans : List Chan
  failLimit : ℕ
  nonempty : 0 < chans.length
  sorted : (chans.map Chan.index).Pairwise (· < ·)
  small : chans.length < 2 ^ 31
  failLimit_pos : 1 ≤ failLimit
  failLimit_le : failLimit ≤ chans.length

def Plan.ndone (p : Plan) : ℕ := p.chans.length

theorem effectiveFailLimit_pos {limit : ℤ} {n : ℕ} (h : 0 < n) : 1 ≤ effectiveFailLimit limit n := by
  unfold effectiveFailLimit
  split_ifs <;> omega

theorem effectiveFailLimit_le {limit : ℤ} {n : ℕ} (h : 0 < n) : effectiveFailLimit limit n ≤ n := by
  unfold effectiveFailLimit
  split_ifs <;> omega

/-- The channels that are not skipped. -/
def called (ms : List (Mapped × Bool)) : List Chan :=
  (ms.zipIdx.filter fun m => m.1.1 ≠ .skip).map fun m => ⟨m.2, m.1.2⟩

/-- **The mapping loop finds the channels that are not skipped**, unless it fails. -/
theorem eq_of_mapCalls {ms : List (Mapped × Bool)} : ∀ {i : ℕ} {chans : List Chan}, mapCalls i ms = .ok chans →
      chans = ((ms.zipIdx i).filter fun m => m.1.1 ≠ .skip).map fun m => ⟨m.2, m.1.2⟩ := by
  induction ms with
  | nil =>
    intro i chans h
    cases h
    rfl
  | cons m ms ih =>
    intro i chans h
    obtain ⟨m, merger⟩ := m
    have hcons : (⟨i, merger⟩ :: ·) <$> mapCalls (i + 1) ms = .ok chans →
        chans = ⟨i, merger⟩ :: (((ms.zipIdx (i + 1)).filter fun m => m.1.1 ≠ .skip).map fun m => ⟨m.2, m.1.2⟩) := by
      intro h
      cases hr : mapCalls (i + 1) ms with
      | error => simp [hr] at h
      | ok =>
        rw [hr] at h
        cases h
        rw [← ih hr]
    match m, h with
    | .skip, h => simpa using ih h
    | .noMapper true, h => simpa using hcons h
    | .call, h => simpa using hcons h

theorem sorted_called (ms : List (Mapped × Bool)) : ((called ms).map Chan.index).Pairwise (· < ·) := by
  have hsub : ((called ms).map Chan.index).Sublist (List.range' 0 ms.length) := by
    have := (filter_sublist (p := fun m : (Mapped × Bool) × ℕ => decide (m.1.1 ≠ .skip)) (l := ms.zipIdx)).map Prod.snd
    simpa [called, Function.comp_def] using this
  exact List.Pairwise.sublist hsub pairwise_lt_range'

theorem length_called_le (ms : List (Mapped × Bool)) : (called ms).length ≤ ms.length := by
  rw [called, length_map]
  exact (length_filter_le _ _).trans (by simp)

/-- `CallMethod` up to the starting loop: the error it fails with, or the sub calls. -/
def plan (env : CallEnv) : Except ErrorCode Plan :=
  if env.lock ≠ 0 then .error (if env.errorCode ≠ 0 then env.errorCode else EINVAL)
  else if env.errorCode ≠ 0 then .error env.errorCode
  else if env.responseNull then .error EINVAL
  else if env.chans.isEmpty then .error EPERM
  else match h : mapCalls 0 env.chans with
    | .error ec => .error ec
    | .ok chans =>
      if hn : 0 < chans.length then
        if ¬env.create then .error ENOMEM
        else if 0 ≤ env.timeoutMs ∧ env.timerAdd ≠ 0 then .error env.timerAdd
        else .ok
          { chans := chans
            failLimit := effectiveFailLimit env.failLimit chans.length
            nonempty := hn
            sorted := eq_of_mapCalls h ▸ sorted_called env.chans
            small := Nat.lt_of_le_of_lt (eq_of_mapCalls h ▸ length_called_le env.chans) env.small
            failLimit_pos := effectiveFailLimit_pos hn
            failLimit_le := effectiveFailLimit_le hn }
      else .error ECANCELED

/-- Where a sub call and its done are. -/
inductive SubPhase
  /-- Not started. -/
  | idle
  /-- Started and not ended. -/
  | running
  /-- `SubDone::Run()` was entered. -/
  | entered
  /-- `fail_limit` was reached, the other calls are being cancelled, `i` is next. -/
  | cancelling (i : ℕ)
  /-- `fetch_add` on `_current_done` is next. -/
  | counting
  /-- The last sub done, `EPCHANFINISH` to the parent is next. -/
  | finishing
  | completing
  | finished
  deriving DecidableEq

/-- A `SubDone`: where it is, and the error its controller ended with. -/
structure Sub where
  phase : SubPhase
  errorCode : ErrorCode
  deriving DecidableEq

/-- Where the parent call is. -/
inductive ParentPhase
  /-- Its id is not locked. -/
  | unlocked
  /-- `this->Run()` was entered. -/
  | entered
  /-- The sub calls are being cancelled, `i` is next. -/
  | cancelling (i : ℕ)
  /-- `fetch_or` on `_current_done` is next. -/
  | marking
  | completing
  /-- `this->Run()` has returned, the id stays locked. -/
  | waiting
  /-- The id is destroyed. -/
  | destroyed
  deriving DecidableEq

/-- What the threads do. -/
inductive Effect
  | startSub (j : ℕ)
  | runSubDone (j : ℕ)
  /-- A member of the `ParallelChannelDone` is accessed. -/
  | touch
  /-- `bthread_id_error(sub_done(j)->cntl.call_id(), ECANCELED)`. -/
  | cancelSub (j : ℕ)
  | runThis
  | onComplete
  /-- The user's done. -/
  | runDone
  | unlockAndDestroy
  /-- `CHECK(ECANCELED == ec || ERPCTIMEDOUT == ec)` failed. -/
  | checkFailed
  deriving DecidableEq

/-- What merging one response came to. -/
inductive MergeResult
  | merged
  | fail
  | failAll
  | threw
  deriving DecidableEq

/-- A parallel call. -/
structure State where
  cntl : Controller.State
  /-- The sub call that `CallMethod` starts next. -/
  next : ℕ
  subs : List Sub
  currentFail : ℕ
  currentDone : UInt32
  parent : ParentPhase
  /-- The channels whose responses were given to the mergers, in order. -/
  response : List ℕ
  /-- A merger's exception left `OnComplete`. -/
  crashed : Bool
  log : List Effect
  deriving DecidableEq

/-! ## The verdict of a parallel call -/

/-- The variables of the merging loop. -/
structure Merging where
  nfailed : ℕ
  /-- The error of the parent's controller. -/
  errorCode : ErrorCode
  response : List ℕ

/-- A sub call as `OnComplete` finds it: its channel, its error, and what its merger
will say. -/
structure Ended where
  chan : Chan
  errorCode : ErrorCode
  result : MergeResult

/-- The merging loop.  `none` is the exception of a user's merger, which is not
caught. -/
def mergeAll (ndone : ℕ) : List Ended → Merging → Option Merging
  | [], m => some m
  | e :: es, m =>
    if e.errorCode ≠ 0 then mergeAll ndone es m
    else
      let m := { m with response := m.response ++ [e.chan.index] }
      match e.chan.merger, e.result with
      | false, .threw => some { m with nfailed := ndone, errorCode := ERESPONSE }
      | false, _ => mergeAll ndone es m
      | true, .merged => mergeAll ndone es m
      | true, .fail => mergeAll ndone es { m with nfailed := m.nfailed + 1 }
      | true, .failAll => mergeAll ndone es { m with nfailed := ndone, errorCode := ERESPONSE }
      | true, .threw => none

/-- The loop for `unified_ec`. -/
def unify : List ErrorCode → ErrorCode → ErrorCode
  | [], unified => unified
  | ec :: ecs, unified =>
    if ec ≠ 0 ∧ ec ≠ ECANCELED then
      if unified = ECANCELED then unify ecs ec
      else if unified ≠ ec then ETOOMANYFAILS
      else unify ecs unified
    else unify ecs unified

/-- `OnComplete` up to the user's done: the final error and the merged channels. -/
def conclude (p : Plan) (currentFail : ℕ) (errorCode : ErrorCode) (es : List Ended) :
    Option (ErrorCode × List ℕ) :=
  let start : Merging := ⟨currentFail, errorCode, []⟩
  (if currentFail < p.failLimit then mergeAll p.ndone es start else some start).map fun m =>
    if p.failLimit ≤ m.nfailed then
      (if m.errorCode ≠ 0 then m.errorCode else unify (es.map Ended.errorCode) ECANCELED, m.response)
    else (0, m.response)

/-- The merges that returned `FAIL`. -/
def failedMerges (es : List Ended) : ℕ :=
  es.countP fun e => e.errorCode = 0 ∧ e.chan.merger ∧ e.result = .fail

/-- A merge threw or returned `FAIL_ALL`. -/
def Refused (es : List Ended) : Prop :=
  ∃ e ∈ es, e.errorCode = 0 ∧ (e.result = .threw ∨ e.chan.merger ∧ e.result = .failAll)

/-- The channels of the successful sub calls, in order. -/
def successful (es : List Ended) : List ℕ :=
  (es.filter fun e => e.errorCode = 0).map fun e => e.chan.index

theorem refused_cons {e : Ended} {es : List Ended} : Refused (e :: es) ↔
      (e.errorCode = 0 ∧ (e.result = .threw ∨ e.chan.merger ∧ e.result = .failAll)) ∨ Refused es := by
  simp [Refused]

theorem mergeAll_of_not_refused (ndone : ℕ) : ∀ (es : List Ended) (m : Merging), ¬Refused es →
    mergeAll ndone es m = some ⟨m.nfailed + failedMerges es, m.errorCode, m.response ++ successful es⟩ := by
  intro es
  induction es with
  | nil =>
    intro m _
    simp [mergeAll, failedMerges, successful]
  | cons e es ih =>
    intro m h
    obtain ⟨⟨index, merger⟩, ec, result⟩ := e
    obtain ⟨hhead, htail⟩ := not_or.1 (mt refused_cons.2 h)
    by_cases hec : ec = 0
    · cases merger <;> cases result <;>
        simp_all [mergeAll, failedMerges, successful, Nat.add_assoc, Nat.add_comm]
    · simp [mergeAll, failedMerges, successful, hec, ih m htail]

/-- Once all sub calls count as failed, they do until the end, and after a refusal they all do. -/
theorem le_mergeAll {ndone : ℕ} : ∀ {es : List Ended} {m m' : Merging},
    ndone ≤ m.nfailed ∨ Refused es → mergeAll ndone es m = some m' → ndone ≤ m'.nfailed := by
  intro es
  induction es with
  | nil =>
    intro m m' hle h
    cases h
    exact hle.resolve_right (by simp [Refused])
  | cons e es ih =>
    intro m m' hle h
    rw [refused_cons] at hle
    obtain ⟨⟨index, merger⟩, ec, result⟩ := e
    by_cases hec : ec = 0
    · subst hec
      cases merger <;> cases result <;> simp only [mergeAll, ne_eq, not_true_eq_false, if_false] at h
      case true.threw => cases h
      case false.threw =>
        cases h
        exact Nat.le_refl _
      case true.failAll => exact ih (.inl (Nat.le_refl ndone)) h
      case true.fail => exact ih (hle.imp Nat.le_succ_of_le (by simp)) h
      all_goals
        refine ih ?_ h
        exact hle.imp_right (by simp)
    · simp only [mergeAll, ne_eq, hec, not_false_eq_true, if_true] at h
      exact ih (hle.imp_right (by simp [hec])) h

theorem unify_ne_zero : ∀ (ecs : List ErrorCode) {unified : ErrorCode}, unified ≠ 0 → unify ecs unified ≠ 0 := by
  intro ecs
  induction ecs with
  | nil => exact fun h => h
  | cons ec ecs ih =>
    intro unified h
    unfold unify
    split_ifs with h₁ h₂ h₃
    · exact ih h₁.1
    · decide
    · exact ih h
    · exact ih h

theorem conclude_eq_some {p : Plan} {currentFail : ℕ} {ec ec' : ErrorCode} {es : List Ended}
    {resp : List ℕ} : conclude p currentFail ec es = some (ec', resp) ↔
      ∃ m, (if currentFail < p.failLimit then mergeAll p.ndone es ⟨currentFail, ec, []⟩
          else some ⟨currentFail, ec, []⟩) = some m ∧ resp = m.response ∧ ec' = if p.failLimit ≤ m.nfailed then
            if m.errorCode ≠ 0 then m.errorCode else unify (es.map Ended.errorCode) ECANCELED else 0 := by
  simp only [conclude, Option.map_eq_some_iff]
  refine exists_congr fun m => and_congr_right fun _ => ?_
  split <;> simp [eq_comm, and_comm]

/-- **When a parallel call succeeds**, and what it has merged then. -/
theorem conclude_eq_success_iff {p : Plan} {ec : ErrorCode} {es : List Ended} {currentFail : ℕ}
    {resp : List ℕ} : conclude p currentFail ec es = some (0, resp) ↔
      (currentFail + failedMerges es < p.failLimit ∧ ¬Refused es) ∧ resp = successful es := by
  have hne : ∀ m : Merging,
      (if m.errorCode ≠ 0 then m.errorCode else unify (es.map Ended.errorCode) ECANCELED) ≠ 0 := by
    intro m
    split
    · assumption
    · exact unify_ne_zero _ (by decide)
  have hzero : ∀ m : Merging, (0 = if p.failLimit ≤ m.nfailed then
      if m.errorCode ≠ 0 then m.errorCode else unify (es.map Ended.errorCode) ECANCELED else 0) ↔
        m.nfailed < p.failLimit := by
    intro m
    constructor
    · intro h
      by_contra hle
      rw [if_pos (by omega)] at h
      exact hne m h.symm
    · intro h
      rw [if_neg (by omega)]
  rw [conclude_eq_some]
  by_cases hlt : currentFail < p.failLimit
  · simp only [if_pos hlt, hzero]
    by_cases href : Refused es
    · constructor
      · rintro ⟨m, hm, -, hlim⟩
        have := le_mergeAll (.inr href) hm
        have := p.failLimit_le
        simp only [Plan.ndone] at *
        omega
      · exact fun h => absurd href h.1.2
    · rw [mergeAll_of_not_refused _ _ _ href]
      constructor
      · rintro ⟨m, hm, hresp, hlim⟩
        cases hm
        exact ⟨⟨hlim, href⟩, by simpa using hresp⟩
      · rintro ⟨⟨hlim, -⟩, hresp⟩
        exact ⟨_, rfl, by simpa using hresp, hlim⟩
  · simp only [if_neg hlt, hzero]
    constructor
    · rintro ⟨m, hm, -, hlim⟩
      cases hm
      exact absurd hlim hlt
    · rintro ⟨⟨hlim, -⟩, -⟩
      omega

/-! ## Runs of a parallel call

The steps of the starting loop, of `OnSubDoneRun` and `OnComplete`, and the errors of the
parent's id.  `parallel` is the state of a call after any interleaving of them.
-/

/-- What does not change during a parallel call. -/
structure Config where
  plan : Plan
  /-- The settings of the parent's controller. -/
  cntl : Controller.Config
  /-- The user gave a done. -/
  done : Bool
  /-- What merging the response of each sub call will come to. -/
  results : List MergeResult

/-- The parent's controller runs without a retry policy, its done is the
`ParallelChannelDone`, and that destroys the id. -/
def Config.parent (cfg : Config) : Controller.Config :=
  { cfg.cntl with retryPolicy := false, done := true, destroyCidInDone := true }

/-- A step of some thread. -/
inductive Input
  /-- `CallMethod` starts the next sub call. -/
  | start
  /-- Sub call `j` ends with `errorCode` and runs its done. -/
  | subEnd (j : ℕ) (errorCode : ErrorCode)
  /-- The done of sub call `j` goes on. -/
  | sub (j : ℕ) (env : Controller.ReturnEnv)
  /-- The user cancels the call. -/
  | cancel (env : Controller.ReturnEnv)
  /-- The timer of the call fires. -/
  | timeout (env : Controller.ReturnEnv)
  /-- `this->Run()` goes on. -/
  | this

namespace State

variable (cfg : Config) (s : State)

/-- `bthread_id_error` on the parent's id: the first error ends the call, and `EndRPC` runs
`this->Run()`; a later one finds the id locked. -/
def parentError (env : Controller.ReturnEnv) (s : State) (ec : ErrorCode) : State :=
  if s.parent = .unlocked then
    let c := s.cntl.handleSocketFailed s.cntl.correlationId ec
    let c := c.onVersionedRPCReturned cfg.parent env ⟨s.cntl.correlationId, false⟩ true s.cntl.errorCode
    match c.phase with
    | .ending info =>
      { s with
        cntl := c.endCalls cfg.parent false info
        parent := .entered
        log := s.log ++ [.runThis] }
    | _ => { s with cntl := c }
  else if s.parent = .destroyed then s
  else { s with cntl := { s.cntl with pendingQ := s.cntl.pendingQ ++ [⟨s.cntl.correlationId, ec⟩] } }

/-- The sub calls as `OnComplete` finds them. -/
def ended : List Ended :=
  (cfg.plan.chans.zip (s.subs.map Sub.errorCode)).mapIdx fun j p =>
    ⟨p.1, p.2, cfg.results.getD j .merged⟩

def onComplete (cfg : Config) (s : State) : State :=
  match conclude cfg.plan s.currentFail s.cntl.errorCode (s.ended cfg) with
  | none => { s with crashed := true, log := s.log ++ [.onComplete, .touch] }
  | some (ec, response) =>
    { s with
      cntl := { s.cntl with errorCode := ec, phase := .destroyed, pendingQ := [] }
      response := response
      parent := .destroyed
      log := s.log ++ ([.onComplete, .touch] ++ ((if cfg.done then [.runDone] else []) ++ [.unlockAndDestroy])) }

/-- The starting loop of `CallMethod`. -/
def startNext : State :=
  if s.next < cfg.plan.ndone then
    { s with
      subs := s.subs.set s.next ⟨.running, 0⟩
      next := s.next + 1
      log := s.log ++ [.touch, .startSub s.next] }
  else s

/-- A sub call ends: `SubDone::Run()`. -/
def subEnd (j : ℕ) (ec : ErrorCode) : State :=
  match s.subs[j]? with
  | some ⟨.running, _⟩ =>
    { s with subs := s.subs.set j ⟨.entered, ec⟩, log := s.log ++ [.runSubDone j] }
  | _ => s

/-- `OnSubDoneRun(fin)`, the part called from `SubDone::Run()`. -/
def subStep (env : Controller.ReturnEnv) (s : State) (j : ℕ) : State :=
  match s.subs[j]? with
  | some ⟨.entered, ec⟩ =>
    if ec ≠ 0 then
      { s with
        subs := s.subs.set j ⟨if s.currentFail + 1 = cfg.plan.failLimit then .cancelling 0 else .counting, ec⟩
        currentFail := s.currentFail + 1
        log := s.log ++ [.touch] }
    else { s with subs := s.subs.set j ⟨.counting, ec⟩, log := s.log ++ [.touch] }
  | some ⟨.cancelling i, ec⟩ =>
    if i < cfg.plan.ndone then
      { s with
        subs := s.subs.set j ⟨.cancelling (i + 1), ec⟩
        log := s.log ++ .touch :: if i ≠ j then [.cancelSub i] else [] }
    else { s with subs := s.subs.set j ⟨.counting, ec⟩, log := s.log ++ [.touch] }
  | some ⟨.counting, ec⟩ =>
    -- the last accesses to members, then only the old value decides
    let val := s.currentDone
    let phase : SubPhase :=
      if (val &&& 0x7fffffff) + 1 ≠ UInt32.ofNat cfg.plan.ndone then .finished
      else if val &&& 0x80000000 = 0 then .finishing
      else .completing
    { s with
      subs := s.subs.set j ⟨phase, ec⟩
      currentDone := val + 1
      log := s.log ++ [.touch] }
  | some ⟨.finishing, ec⟩ =>
    { s.parentError cfg env EPCHANFINISH with
      subs := s.subs.set j ⟨.finished, ec⟩ }
  | some ⟨.completing, ec⟩ => { s.onComplete cfg with subs := s.subs.set j ⟨.finished, ec⟩ }
  | _ => s

/-- `this->Run()`. -/
def thisStep : State :=
  match s.parent with
  | .entered =>
    let ec := s.cntl.errorCode
    { s with
      cntl := if ec = EPCHANFINISH then { s.cntl with errorCode := 0 } else s.cntl
      parent := if s.currentDone &&& 0x7fffffff ≠ UInt32.ofNat cfg.plan.ndone then .cancelling 0 else .marking
      log := s.log ++ .touch :: if ec ≠ EPCHANFINISH ∧ ec ≠ ECANCELED ∧ ec ≠ ERPCTIMEDOUT then [.checkFailed] else [] }
  | .cancelling i =>
    if i < cfg.plan.ndone then
      { s with parent := .cancelling (i + 1), log := s.log ++ [.touch, .cancelSub i] }
    else { s with parent := .marking, log := s.log ++ [.touch] }
  | .marking =>
    let val := s.currentDone
    { s with
      parent := if val &&& 0x7fffffff ≠ UInt32.ofNat cfg.plan.ndone then .waiting else .completing
      currentDone := val ||| 0x80000000
      log := s.log ++ [.touch] }
  | .completing => s.onComplete cfg
  | _ => s

/-- One step of some thread, unless an exception has ended the process. -/
def step (i : Input) : State :=
  if s.crashed then s
  else match i with
    | .start => s.startNext cfg
    | .subEnd j ec => s.subEnd j ec
    | .sub j env => s.subStep cfg env j
    | .cancel env => s.parentError cfg env ECANCELED
    | .timeout env => s.parentError cfg env ERPCTIMEDOUT
    | .this => s.thisStep cfg

end State

/-- The parent's controller when its id is unlocked and the first sub call is about
to be started. -/
def parentStart (correlationId maxRetry : ℕ) (timer : Bool) : Controller.State where
  correlationId := correlationId
  range := 1
  maxRetry := maxRetry
  connectionType := .unknown
  errorCode := 0
  currentCall := .reset
  unfinishedCall := none
  accessed := false
  timeoutId := if timer then some .handleTimeout else none
  streamCreator := false
  lb := false
  phase := .unlocked
  pendingQ := []
  log := []

/-- The call when the starting loop begins. -/
def start (cfg : Config) (cntl : Controller.State) : State where
  cntl := cntl
  next := 0
  subs := List.replicate cfg.plan.ndone ⟨.idle, 0⟩
  currentFail := 0
  currentDone := 0
  parent := .unlocked
  response := []
  crashed := false
  log := []

/-- The label `FAIL` of `CallMethod`, and the return when the id cannot be locked: the call ends
with `ec` before any sub call. -/
def failed (env : CallEnv) (done : Bool) (cntl : Controller.State) (ec : ErrorCode) : State where
  cntl := { cntl with errorCode := ec, phase := .destroyed }
  next := 0
  subs := []
  currentFail := 0
  currentDone := 0
  parent := .destroyed
  response := []
  crashed := false
  log := (if done then [.runDone] else []) ++ if env.lock ≠ 0 then [] else [.unlockAndDestroy]

/-- The settings of a parallel call. -/
structure Call where
  env : CallEnv
  cntl : Controller.Config
  correlationId : ℕ
  maxRetry : ℕ
  done : Bool
  results : List MergeResult

/-- The parent's controller when the call begins. -/
def Call.parent (c : Call) : Controller.State :=
  parentStart c.correlationId c.maxRetry (0 ≤ c.env.timeoutMs)

def Call.config (c : Call) (p : Plan) : Config := ⟨p, c.cntl, c.done, c.results⟩

/-- A parallel call after the steps `is`. -/
def parallel (c : Call) (is : List Input) : State :=
  match plan c.env with
  | .error ec => failed c.env c.done c.parent ec
  | .ok p => Lib.run (State.step (c.config p)) (start (c.config p) c.parent) is

end Brpc.Parallel
