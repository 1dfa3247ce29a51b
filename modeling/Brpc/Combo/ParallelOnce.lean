/-
# A parallel call completes exactly once with the right verdict

`rank` bounds how many more steps the threads of a call can take (`rank_step`), and when none of
them can go on the call is completed (`destroyed_of_idle`): `parallel_completes_once`.
-/

import Brpc.Combo.ParallelComplete
import Mathlib.Tactic.Ring

namespace Brpc.Parallel

open Lib List State

/-- A step of a thread of the call; the others are the user's and the timer's. -/
def Input.thread : Input → Bool
  | .cancel _ | .timeout _ => false
  | _ => true

/-- How many steps a sub call and its done have left. -/
def Sub.rank (ndone : ℕ) (sub : Sub) : ℕ :=
  match sub.phase with
  | .idle => ndone + 7
  | .running => ndone + 6
  | .entered => ndone + 5
  | .cancelling i => (ndone - i) + 4
  | .counting => 3
  | .finishing | .completing => 2
  | .finished => 1

/-- How many steps `this->Run()` has left. -/
def ParentPhase.rank (ndone : ℕ) : ParentPhase → ℕ
  | .unlocked => ndone + 6
  | .entered => ndone + 5
  | .cancelling i => (ndone - i) + 4
  | .marking => 3
  | .completing | .waiting => 2
  | .destroyed => 1

theorem sum_map_set {α : Type*} (f : α → ℕ) {l : List α} {j : ℕ} {a b : α} (h : l[j]? = some a) :
    ((l.set j b).map f).sum + f a = (l.map f).sum + f b := by
  induction l generalizing j with
  | nil => cases h
  | cons c l ih =>
    cases j with
    | zero =>
      cases h
      simp only [set_cons_zero, map_cons, sum_cons]
      omega
    | succ j =>
      have := ih (j := j) (by simpa using h)
      simp only [set_cons_succ, map_cons, sum_cons]
      omega

namespace State

variable {cfg : Config} {s : State} {j : ℕ}

/-- How many steps the threads of a call have left. -/
def rank (cfg : Config) (s : State) : ℕ :=
  if s.crashed then 0
  else 1 + s.parent.rank cfg.plan.ndone + (s.subs.map (Sub.rank cfg.plan.ndone)).sum

/-- No thread of the call can go on. -/
def Idle (cfg : Config) (s : State) : Prop :=
  ∀ i : Input, i.thread → s.step cfg i = s

section

variable (hcr : s.crashed = false)
include hcr

theorem rank_of_running : s.rank cfg =
    1 + s.parent.rank cfg.plan.ndone + (s.subs.map (Sub.rank cfg.plan.ndone)).sum := by
  simp [rank, hcr]

omit hcr in
theorem rank_le (cfg : Config) (s : State) : s.rank cfg ≤
    1 + s.parent.rank cfg.plan.ndone + (s.subs.map (Sub.rank cfg.plan.ndone)).sum := by
  unfold rank
  split <;> omega

variable {s' : State}

theorem rank_set {old new : Sub} (hj : s.subs[j]? = some old) (hsubs : s'.subs = s.subs.set j new)
    (hlt : new.rank cfg.plan.ndone < old.rank cfg.plan.ndone)
    (hp : s'.parent.rank cfg.plan.ndone ≤ s.parent.rank cfg.plan.ndone) : s'.rank cfg + 1 ≤ s.rank cfg := by
  have hsum := sum_map_set (Sub.rank cfg.plan.ndone) (b := new) hj
  have hle := rank_le cfg s'
  rw [hsubs] at hle
  rw [rank_of_running hcr]
  omega

theorem rank_parent (hsubs : s'.subs = s.subs)
    (hp : s'.parent.rank cfg.plan.ndone < s.parent.rank cfg.plan.ndone) : s'.rank cfg + 1 ≤ s.rank cfg := by
  have hle := rank_le cfg s'
  rw [hsubs] at hle
  rw [rank_of_running hcr]
  omega

theorem rank_crashed (hcr' : s'.crashed = true) : s'.rank cfg + 1 ≤ s.rank cfg := by
  rw [rank_of_running hcr, rank, if_pos hcr']
  omega

omit hcr in
theorem parentError_rank (env : Controller.ReturnEnv) {ec : ErrorCode}
    (hec : ec ∈ [EPCHANFINISH, ECANCELED, ERPCTIMEDOUT]) :
    (s.parentError cfg env ec).parent.rank cfg.plan.ndone ≤ s.parent.rank cfg.plan.ndone := by
  by_cases hp : s.parent = .unlocked
  · obtain ⟨c, -, heq⟩ := @parentError_of_unlocked cfg s ec env hp hec
    rw [heq, hp]
    exact Nat.le_succ _
  · unfold parentError
    rw [if_neg hp]
    split <;> exact Nat.le_refl _

omit hcr in
/-- `OnComplete` leaves the parent no step, unless an exception leaves none to anyone. -/
theorem onComplete_rank (cfg : Config) (s : State) :
    (s.onComplete cfg).crashed = true ∨ (s.onComplete cfg).parent = .destroyed := by
  unfold onComplete
  split
  · exact .inl rfl
  · exact .inr rfl

omit hcr in
theorem rank_pos (n : ℕ) (p : ParentPhase) : 1 ≤ p.rank n := by
  cases p <;> simp [ParentPhase.rank]

theorem subStep_rank (env : Controller.ReturnEnv) (j : ℕ) : s.subStep cfg env j = s ∧
        (∀ sub, s.subs[j]? = some sub → sub.phase ∈ [.idle, .running, .finished]) ∨
      (s.subStep cfg env j).rank cfg + 1 ≤ s.rank cfg := by
  cases hj : s.subs[j]? with
  | none => simp [subStep, hj]
  | some sub =>
    obtain ⟨phase, ec⟩ := sub
    have hstep : ∀ {s' : State} (new : Sub), s'.subs = s.subs.set j new →
        new.rank cfg.plan.ndone < Sub.rank cfg.plan.ndone ⟨phase, ec⟩ →
        s'.parent.rank cfg.plan.ndone ≤ s.parent.rank cfg.plan.ndone →
        s'.rank cfg + 1 ≤ s.rank cfg := fun new => rank_set hcr hj
    cases phase with
    | idle | running | finished => exact .inl ⟨by simp only [subStep, hj], by simp⟩
    | entered =>
      right
      simp only [subStep, hj]
      split
      · refine hstep _ rfl ?_ (Nat.le_refl _)
        split <;> simp [Sub.rank]
      · exact hstep _ rfl (by simp [Sub.rank]) (Nat.le_refl _)
    | cancelling =>
      right
      simp only [subStep, hj]
      split
      · exact hstep _ rfl (by simp [Sub.rank]; omega) (Nat.le_refl _)
      · exact hstep _ rfl (by simp [Sub.rank]) (Nat.le_refl _)
    | counting =>
      right
      simp only [subStep, hj]
      refine hstep _ rfl ?_ (Nat.le_refl _)
      split_ifs <;> simp [Sub.rank]
    | finishing =>
      right
      simp only [subStep, hj]
      exact hstep ⟨.finished, ec⟩ rfl (by simp [Sub.rank]) (parentError_rank env (by simp))
    | completing =>
      right
      simp only [subStep, hj]
      rcases onComplete_rank cfg s with hthrown | hend
      · exact rank_crashed hcr hthrown
      · refine hstep ⟨.finished, ec⟩ rfl (by simp [Sub.rank]) ?_
        simp only [hend]
        exact rank_pos cfg.plan.ndone s.parent

theorem thisStep_rank : s.thisStep cfg = s ∧ s.parent ∈ [.unlocked, .waiting, .destroyed] ∨
      (s.thisStep cfg).rank cfg + 1 ≤ s.rank cfg := by
  cases hp : s.parent with
  | unlocked | waiting | destroyed => exact .inl ⟨by simp only [thisStep, hp], by simp⟩
  | entered | marking =>
    right
    simp only [thisStep, hp]
    refine rank_parent hcr rfl ?_
    rw [hp]
    split_ifs <;> simp [ParentPhase.rank]
  | cancelling =>
    right
    simp only [thisStep, hp]
    split
    · exact rank_parent hcr rfl (by simp [ParentPhase.rank, hp]; omega)
    · exact rank_parent hcr rfl (by simp [ParentPhase.rank, hp])
  | completing =>
    right
    simp only [thisStep, hp]
    rcases onComplete_rank cfg s with hthrown | hend
    · exact rank_crashed hcr hthrown
    · have hsubs : (s.onComplete cfg).subs = s.subs := by
        unfold onComplete
        split <;> rfl
      exact rank_parent hcr hsubs (by simp [ParentPhase.rank, hp, hend])

omit hcr in
theorem Core.startNext_rank (h : s.Core cfg) (hcr : s.crashed = false) :
    s.startNext cfg = s ∧ s.next = cfg.plan.ndone ∨ (s.startNext cfg).rank cfg + 1 ≤ s.rank cfg := by
  unfold State.startNext
  split
  case isFalse hge => exact .inl ⟨rfl, Nat.le_antisymm h.next_le (Nat.le_of_not_lt hge)⟩
  case isTrue hlt =>
    have hj := getElem?_eq_getElem (h.length ▸ hlt : s.next < s.subs.length)
    have hphase := (h.idle s.next _ hj).2 (Nat.le_refl _)
    exact .inr (rank_set hcr hj rfl (by simp [Sub.rank, hphase]) (Nat.le_refl _))

theorem subEnd_rank (j : ℕ) (ec : ErrorCode) :
    s.subEnd j ec = s ∧ (∀ sub, s.subs[j]? = some sub → sub.phase ≠ .running) ∨
      (s.subEnd j ec).rank cfg + 1 ≤ s.rank cfg := by
  unfold subEnd
  split
  case h_2 hnot =>
    refine .inl ⟨rfl, fun sub hj hrun => ?_⟩
    obtain ⟨phase, ec⟩ := sub
    exact hnot ec (hrun ▸ hj)
  case h_1 hj => exact .inr (rank_set hcr hj rfl (by simp [Sub.rank]) (Nat.le_refl _))

end

/-- **The threads of a call run out of steps.** -/
theorem rank_step (s : State) (i : Input) (h : s.Inv cfg) :
    (s.step cfg i).rank cfg + (if i.thread && s.step cfg i ≠ s then 1 else 0) ≤ s.rank cfg := by
  rcases h with ⟨hcr, h⟩ | ⟨hcr, -⟩
  · -- the steps of the call's own threads
    have hthread : s.step cfg i = s ∨ (s.step cfg i).rank cfg + 1 ≤ s.rank cfg →
        (s.step cfg i).rank cfg + (if i.thread && s.step cfg i ≠ s then 1 else 0) ≤ s.rank cfg := by
      rintro (heq | hle)
      · simp [heq]
      · split <;> omega
    -- errors for the parent
    have herror : ∀ (env : Controller.ReturnEnv) {ec : ErrorCode},
        ec ∈ [EPCHANFINISH, ECANCELED, ERPCTIMEDOUT] →
        (s.parentError cfg env ec).rank cfg ≤ s.rank cfg := by
      intro env ec hec
      have hsubs := (@parentError_frame cfg s ec env hec).1
      have hrank := @parentError_rank cfg s env ec hec
      have hle := rank_le cfg (s.parentError cfg env ec)
      rw [hsubs] at hle
      rw [rank_of_running hcr]
      omega
    cases i with
    | cancel env | timeout env => simpa [step, hcr, Input.thread] using herror env (by simp)
    | start => exact hthread (by simpa [step, hcr] using (h.startNext_rank hcr).imp_left And.left)
    | subEnd j ec =>
      exact hthread (by simpa [step, hcr] using (subEnd_rank hcr j ec).imp_left And.left)
    | sub j env =>
      exact hthread (by simpa [step, hcr] using (subStep_rank hcr env j).imp_left And.left)
    | this => exact hthread (by simpa [step, hcr] using (thisStep_rank hcr).imp_left And.left)
  · simp [step, hcr]

/-- **When no thread can go on, the call is completed.** -/
theorem Core.destroyed_of_idle (h : s.Core cfg) (hcr : s.crashed = false) (hidle : s.Idle cfg) :
    s.next = cfg.plan.ndone ∧ (∀ sub ∈ s.subs, sub.ran) ∧ s.parent = .destroyed := by
  -- a thread that stays where it is has nothing to do
  have hstay : ∀ {i : Input} {P : Prop} (s' : State), i.thread → s.step cfg i = s' →
      s' = s ∧ P ∨ s'.rank cfg + 1 ≤ s.rank cfg → P := by
    rintro i P s' hi rfl (⟨-, hP⟩ | hlt)
    · exact hP
    · rw [hidle i hi] at hlt
      omega
  have hnext : s.next = cfg.plan.ndone := hstay (i := .start) _ rfl (by simp [step, hcr]) (h.startNext_rank hcr)
  have hthis : s.parent ∈ [.unlocked, .waiting, .destroyed] :=
    hstay (i := .this) _ rfl (by simp [step, hcr]) (thisStep_rank hcr)
  have hfinished : ∀ sub ∈ s.subs, sub.phase = .finished := by
    intro sub hmem
    obtain ⟨j, hj⟩ := List.getElem?_of_mem hmem
    have hrun := hstay (i := .subEnd j 0) _ rfl (by simp [step, hcr]) (subEnd_rank hcr j 0) sub hj
    let env : Controller.ReturnEnv := ⟨0, true, true, false⟩
    have hphase := hstay (i := .sub j env) _ rfl (by simp [step, hcr]) (subStep_rank hcr env j) sub hj
    have hnot : sub.phase ≠ .idle := fun hp => by
      have := (h.idle j sub hj).1 hp
      have := h.length ▸ (List.getElem?_eq_some_iff.1 hj).1
      omega
    simpa [hrun, hnot] using hphase
  have hcounted : ∀ sub ∈ s.subs, sub.counted := fun sub hmem => by
    simp [Sub.counted, hfinished sub hmem]
  refine ⟨hnext, fun sub hmem => Sub.ran_of_counted (hcounted sub hmem), ?_⟩
  have hall : s.subs.countP Sub.counted = cfg.plan.ndone := h.length ▸ countP_eq_length.2 hcounted
  simp only [mem_cons, not_mem_nil, or_false] at hthis
  rcases hthis with hp | hp | hp
  · obtain ⟨sub, hmem, hphase⟩ := h.finish hall hp
    simp [hfinished sub hmem] at hphase
  · have htoken := h.token
    have hnone : s.subs.countP Sub.completing = 0 :=
      countP_eq_zero.2 fun sub hmem => by simp [Sub.completing, hfinished sub hmem]
    simp [hp, hall, hnone, ParentPhase.marked] at htoken
  · exact hp

end State

/-! ## The contract -/

namespace State

variable {cfg : Config} {s : State}

def failures (s : State) : ℕ := s.subs.countP fun sub => sub.errorCode ≠ 0

/-- What a call that starts sub calls promises in any state it reaches. -/
structure CompletesOnce (cfg : Config) (s : State) : Prop where
  /-- Nothing happens twice, `OnComplete` comes after `this->Run()` and all sub dones,
  and no member is accessed after the end. -/
  trace : Guarded (Allowed cfg.plan.ndone) s.log
  /-- When no thread can go on, all of it has happened. -/
  completes : s.Idle cfg → .onComplete ∈ s.log ∧ (s.crashed = false →
    (∀ j < cfg.plan.ndone, .startSub j ∈ s.log ∧ .runSubDone j ∈ s.log) ∧
      .unlockAndDestroy ∈ s.log ∧ (cfg.done → .runDone ∈ s.log))
  /-- The verdict. -/
  succeeds : .unlockAndDestroy ∈ s.log → (s.cntl.errorCode = 0 ↔
    s.failures + failedMerges (s.ended cfg) < cfg.plan.failLimit ∧ ¬Refused (s.ended cfg))
  merges : .unlockAndDestroy ∈ s.log → s.cntl.errorCode = 0 →
    s.response = successful (s.ended cfg) ∧ s.response.Pairwise (· < ·)
  /-- The exception of a user's merger ends the process in `OnComplete`. -/
  throws : s.crashed → .onComplete ∈ s.log ∧ .runDone ∉ s.log ∧ .unlockAndDestroy ∉ s.log ∧ Refused (s.ended cfg)

theorem ended_chan (hlen : s.subs.length = cfg.plan.ndone) : (s.ended cfg).map Ended.chan = cfg.plan.chans := by
  have hzip : (cfg.plan.chans.zip (s.subs.map Sub.errorCode)).map Prod.fst = cfg.plan.chans :=
    map_fst_zip (by simp [hlen, Plan.ndone])
  rw [← zipIdx_map_fst 0 (cfg.plan.chans.zip _), map_map] at hzip
  rw [ended, mapIdx_eq_zipIdx_map, map_map]
  exact hzip

theorem pairwise_successful (hlen : s.subs.length = cfg.plan.ndone) : (successful (s.ended cfg)).Pairwise (· < ·) := by
  have hsub : (successful (s.ended cfg)).Sublist (cfg.plan.chans.map Chan.index) := by
    rw [← ended_chan hlen, map_map]
    exact (filter_sublist).map _
  exact List.Pairwise.sublist hsub cfg.plan.sorted

theorem Core.currentFail_eq (h : s.Core cfg) (hd : s.parent = .destroyed) : s.currentFail = s.failures := by
  have hall : s.subs.countP Sub.counted = cfg.plan.ndone ∧ s.parent.marked := by
    by_contra hnot
    have htoken := h.token
    rw [if_neg hnot, if_pos hd] at htoken
    omega
  have hcounted := hall.1
  rw [← h.length, countP_eq_length] at hcounted
  rw [h.fail, (counted_facts hcounted).2.1, countP_map, failures]
  rfl

theorem Core.completesOnce (h : s.Core cfg) (hcr : s.crashed = false) : s.CompletesOnce cfg where
  trace := h.guarded
  completes hidle := by
    obtain ⟨hnext, hran, hd⟩ := h.destroyed_of_idle hcr hidle
    have hrec := h.recorded
    refine ⟨hrec.complete.2 hd, fun _ => ⟨fun j hj => ⟨?_, ?_⟩, hrec.destroy.2 hd,
      fun hdone => hrec.done.2 ⟨hd, hdone⟩⟩⟩
    · rw [hrec.start, hnext]
      exact hj
    · have hlt : j < s.subs.length := h.length ▸ hj
      exact (hrec.subDone j).2 ⟨_, getElem?_eq_getElem hlt, hran _ (getElem_mem hlt)⟩
  succeeds hend := by
    have hd := h.recorded.destroy.1 hend
    obtain ⟨ec, hverdict⟩ := h.verdict hd
    rw [← h.currentFail_eq hd]
    constructor
    · intro hzero
      rw [hzero] at hverdict
      exact (conclude_eq_success_iff.1 hverdict).1
    · intro hok
      have := (@conclude_eq_success_iff cfg.plan ec _ _ _).2 ⟨hok, rfl⟩
      rw [this] at hverdict
      exact (Prod.mk.inj (Option.some.inj hverdict)).1.symm
  merges hend hzero := by
    obtain ⟨ec, hverdict⟩ := h.verdict (h.recorded.destroy.1 hend)
    rw [hzero] at hverdict
    have hresp := (conclude_eq_success_iff.1 hverdict).2
    exact ⟨hresp, hresp ▸ pairwise_successful h.length⟩
  throws hcr' := by simp [hcr] at hcr'

theorem Thrown.completesOnce (h : s.Thrown cfg) (hcr : s.crashed = true) : s.CompletesOnce cfg where
  trace := h.guarded
  completes _ := ⟨h.complete, fun hcr' => by simp [hcr] at hcr'⟩
  succeeds hend := absurd hend h.destroy
  merges hend := absurd hend h.destroy
  throws _ := ⟨h.complete, h.done, h.destroy, h.refused⟩

end State

/-- What a call promises that fails before it starts any sub call. -/
structure FailsEarly (c : Call) (s : State) : Prop where
  failed : s.cntl.errorCode ≠ 0
  done : s.log.count .runDone = if c.done then 1 else 0
  nothing : ∀ e ∈ s.log, e = .runDone ∨ e = .unlockAndDestroy

theorem mapCalls_error_ne_zero {ms : List (Mapped × Bool)} : ∀ {i : ℕ} {ec : ErrorCode},
    mapCalls i ms = .error ec → ec ≠ 0 := by
  induction ms with
  | nil =>
    intro i ec h
    cases h
  | cons m ms ih =>
    intro i ec h
    obtain ⟨m, merger⟩ := m
    have hcons : (⟨i, merger⟩ :: ·) <$> mapCalls (i + 1) ms = .error ec → ec ≠ 0 := by
      intro h
      cases hr : mapCalls (i + 1) ms with
      | error =>
        rw [hr] at h
        cases h
        exact ih hr
      | ok => simp [hr] at h
    match m, h with
    | .skip, h => exact ih h
    | .bad, h =>
      cases h
      decide
    | .noMapper false, h =>
      cases h
      decide
    | .noMapper true, h => exact hcons h
    | .call, h => exact hcons h

theorem plan_ok {env : CallEnv} {p : Plan} (h : plan env = .ok p) :
    p.chans = called env.chans ∧ p.failLimit = effectiveFailLimit env.failLimit p.ndone := by
  unfold plan at h
  split at h
  · cases h
  split at h
  · cases h
  split at h
  · cases h
  split at h
  · cases h
  split at h
  · cases h
  next chans hmap =>
    split_ifs at h
    cases h
    exact ⟨eq_of_mapCalls hmap, rfl⟩

theorem plan_error_ne_zero {env : CallEnv} {ec : ErrorCode} (h : plan env = .error ec) : ec ≠ 0 := by
  unfold plan at h
  split at h
  · cases h
    split
    · assumption
    · decide
  split at h
  · cases h
    assumption
  split at h
  · cases h
    decide
  split at h
  · cases h
    decide
  split at h
  next e hmap =>
    cases h
    exact mapCalls_error_ne_zero hmap
  · split at h
    · split at h
      · cases h
        decide
      split at h
      case isTrue htimer =>
        cases h
        exact htimer.2
      · cases h
    · cases h
      decide

/-- **A parallel call completes exactly once with the right verdict.**  Either sub
calls are made, to the channels that are not skipped; or the call fails before. -/
theorem parallel_completes_once (c : Call) (is : List Input) : match plan c.env with
    | .error _ => FailsEarly c (parallel c is)
    | .ok p =>
      (parallel c is).CompletesOnce (c.config p) ∧ p.chans = called c.env.chans ∧
        p.failLimit = effectiveFailLimit c.env.failLimit p.ndone ∧
        countAlong (step (c.config p))
          (fun s i => i.thread && s.step (c.config p) i ≠ s) (parallel c []) is ≤ (p.ndone + 4) ^ 2 := by
  split
  case h_1 ec hplan =>
    simp only [parallel, hplan]
    refine ⟨plan_error_ne_zero hplan, ?_, ?_⟩
    · simp only [failed]
      split_ifs <;> decide
    · intro e
      simp only [failed]
      split_ifs <;> simp +contextual
  case h_2 p hplan =>
    simp only [parallel, hplan]
    refine ⟨?_, (plan_ok hplan).1, (plan_ok hplan).2, ?_⟩
    · rcases inv_run (c.config p) c.parent is with ⟨hcr, h⟩ | ⟨hcr, h⟩
      all_goals exact h.completesOnce hcr
    · have hle := @countAlong_add_le _ _ (step (c.config p)) _ _ _ (rank (c.config p))
        (fun _ => false) 0 (fun s i h _ => inv_step s i h) (fun s i h _ => rank_step s i h)
        is _ (inv_start (c.config p) c.parent) (along_true _ is _)
      have hstart : (start (c.config p) c.parent).rank (c.config p) = 1 + (p.ndone + 6) + p.ndone * (p.ndone + 7) := by
        simp [rank, start, ParentPhase.rank, Sub.rank, Call.config]
      have : (p.ndone + 4) ^ 2 = p.ndone * (p.ndone + 7) + p.ndone + 16 := by ring
      simp only [run_nil] at hle ⊢
      omega

/-- A call with one channel, which its mapper skips. -/
def skippedCall : Call where
  env :=
    { lock := 0, errorCode := 0, responseNull := false, chans := [(.skip, false)], failLimit := -1,
      create := true, timeoutMs := -1, timerAdd := 0, small := by decide }
  cntl := Controller.plainConfig
  correlationId := 1
  maxRetry := 0
  done := true
  results := []

/-- **When every channel is skipped `OnComplete` never runs** and the call fails,
though no sub call failed. -/
theorem skipped_never_completes : parallel skippedCall = (fun _ => parallel skippedCall []) ∧
      (parallel skippedCall []).log = [.runDone, .unlockAndDestroy] ∧
      (parallel skippedCall []).cntl.errorCode = ECANCELED ∧ (parallel skippedCall []).failures = 0 :=
  ⟨rfl, by decide⟩

end Brpc.Parallel
