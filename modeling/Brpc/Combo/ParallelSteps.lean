/-
# The rendezvous of a parallel call

The invariant `Core`: `_current_done` counts the sub dones past their `fetch_add` and has
`this->Run()` in its top bit; when all are past, exactly one thread runs `OnComplete` (`token`).
One lemma per thread says that its step keeps `Core`.
-/

import Brpc.Combo.ParallelRun

namespace Brpc.Parallel

open Lib List Parallel.Sub

/-- Past the `fetch_add` on `_current_done`. -/
def Sub.counted (sub : Sub) : Bool :=
  match sub.phase with
  | .finishing | .completing | .finished => true
  | _ => false

def Sub.completing (sub : Sub) : Bool := sub.phase = .completing

/-- `SubDone::Run()` was entered. -/
def Sub.ran (sub : Sub) : Bool :=
  match sub.phase with
  | .idle | .running => false
  | _ => true

/-- Failed and past the `fetch_add` on `_current_fail`. -/
def Sub.failed (sub : Sub) : Bool :=
  match sub.phase with
  | .idle | .running | .entered => false
  | _ => sub.errorCode ≠ 0

theorem Sub.ran_of_counted {sub : Sub} (h : sub.counted) : sub.ran := by
  unfold counted ran at *
  split at h <;> simp_all

/-- Past the `fetch_or` on `_current_done`. -/
def ParentPhase.marked : ParentPhase → Bool
  | .completing | .waiting | .destroyed => true
  | _ => false

/-- What an event of the trace needs of those before it. -/
def Allowed (ndone : ℕ) : Effect → List Effect → Prop
  | .touch, pre => .runDone ∉ pre ∧ .unlockAndDestroy ∉ pre
  | .startSub j, pre => .startSub j ∉ pre
  | .runSubDone j, pre => .startSub j ∈ pre ∧ .runSubDone j ∉ pre
  | .runThis, pre => .runThis ∉ pre
  | .onComplete, pre => .onComplete ∉ pre ∧ .runThis ∈ pre ∧ ∀ j < ndone, .runSubDone j ∈ pre
  | .runDone, pre => .onComplete ∈ pre ∧ .runDone ∉ pre
  | .unlockAndDestroy, pre => .onComplete ∈ pre ∧ .unlockAndDestroy ∉ pre
  | .checkFailed, _ => False
  | .cancelSub _, _ => True

/-- Accesses to members and cancellations of sub calls. -/
def Effect.quiet : Effect → Bool
  | .touch | .cancelSub _ => true
  | _ => false

theorem Effect.quiet_cases {e : Effect} (h : e.quiet) : e = .touch ∨ ∃ j, e = .cancelSub j := by
  cases e <;> simp_all [quiet]

/-- The trace records where the threads are. -/
structure State.Recorded (cfg : Config) (s : State) : Prop where
  start : ∀ j, .startSub j ∈ s.log ↔ j < s.next
  subDone : ∀ j, .runSubDone j ∈ s.log ↔ ∃ sub, s.subs[j]? = some sub ∧ sub.ran
  this : .runThis ∈ s.log ↔ s.parent ≠ .unlocked
  complete : .onComplete ∈ s.log ↔ s.parent = .destroyed
  destroy : .unlockAndDestroy ∈ s.log ↔ s.parent = .destroyed
  done : .runDone ∈ s.log ↔ s.parent = .destroyed ∧ cfg.done

/-- The invariant of a parallel call, as long as no exception ended the process. -/
structure State.Core (cfg : Config) (s : State) : Prop where
  length : s.subs.length = cfg.plan.ndone
  next_le : s.next ≤ cfg.plan.ndone
  idle : ∀ j sub, s.subs[j]? = some sub → (sub.phase = .idle ↔ s.next ≤ j)
  word : s.currentDone = FlagCounter.word (s.subs.countP counted) s.parent.marked
  fail : s.currentFail = s.subs.countP Sub.failed
  token : (if s.parent = .completing then 1 else 0) + s.subs.countP completing +
      (if s.parent = .destroyed then 1 else 0) =
    if s.subs.countP counted = cfg.plan.ndone ∧ s.parent.marked then 1 else 0
  /-- The last sub done is on its way to a parent that does not know yet. -/
  finish : s.subs.countP counted = cfg.plan.ndone → s.parent = .unlocked →
    ∃ sub ∈ s.subs, sub.phase = .finishing
  /-- `this->Run()` finds one of the errors it expects. -/
  code : s.parent = .entered → s.cntl.errorCode ∈ [EPCHANFINISH, ECANCELED, ERPCTIMEDOUT]
  recorded : s.Recorded cfg
  guarded : Guarded (Allowed cfg.plan.ndone) s.log
  /-- The end of the call is what `OnComplete` decided. -/
  verdict : s.parent = .destroyed → ∃ ec,
    conclude cfg.plan s.currentFail ec (s.ended cfg) = some (s.cntl.errorCode, s.response)

theorem countP_set_add {α : Type*} {p : α → Bool} {l : List α} {j : ℕ} {a b : α} (h : l[j]? = some a) :
    (l.set j b).countP p + (if p a then 1 else 0) = l.countP p + if p b then 1 else 0 := by
  obtain ⟨hj, rfl⟩ := List.getElem?_eq_some_iff.1 h
  rw [countP_set hj]
  have : (if p l[j] then 1 else 0) ≤ l.countP p := by
    split
    next hp =>
      exact countP_pos_iff.2 ⟨_, getElem_mem hj, hp⟩
    · exact Nat.zero_le _
  omega

namespace State

variable {cfg : Config} {s : State} {j : ℕ} {old new : Sub} {es : List Effect}

theorem Core.counted_le (h : s.Core cfg) : s.subs.countP Sub.counted ≤ cfg.plan.ndone := h.length ▸ countP_le_length

theorem Core.counted_lt (h : s.Core cfg) (hj : s.subs[j]? = some old) (ho : old.counted = false) :
    s.subs.countP Sub.counted < cfg.plan.ndone := by
  refine Nat.lt_of_le_of_ne h.counted_le fun heq => ?_
  rw [← h.length, countP_eq_length] at heq
  have := heq old (mem_of_getElem? hj)
  simp [ho] at this

theorem Core.not_destroyed (h : s.Core cfg)
    (hopen : s.subs.countP Sub.counted < cfg.plan.ndone ∨ s.parent.marked = false) :
    s.parent ≠ .destroyed ∧ s.parent ≠ .completing ∧ s.subs.countP Sub.completing = 0 := by
  have hnot : ¬(s.subs.countP Sub.counted = cfg.plan.ndone ∧ s.parent.marked) := by
    rintro ⟨heq, hm⟩
    rcases hopen with hlt | hm'
    · omega
    · simp [hm'] at hm
  have htoken := h.token
  rw [if_neg hnot] at htoken
  refine ⟨fun hd => ?_, fun hc => ?_, by omega⟩
  · rw [if_pos hd] at htoken
    omega
  · rw [if_pos hc] at htoken
    omega

theorem Core.guarded_quiet (h : s.Core cfg) (hp : s.parent ≠ .destroyed) {es : List Effect}
    (hes : ∀ e ∈ es, e.quiet) : Guarded (Allowed cfg.plan.ndone) (s.log ++ es) := by
  rw [guarded_append]
  refine ⟨h.guarded, ?_⟩
  have hlog : ∀ pre : List Effect, .runDone ∉ pre ∧ .unlockAndDestroy ∉ pre →
      GuardedFrom (Allowed cfg.plan.ndone) pre es := by
    induction es with
    | nil => exact fun _ _ => trivial
    | cons e es ih =>
      intro pre hpre
      have hrest := fun e' he' => hes e' (mem_cons_of_mem e he')
      rcases Effect.quiet_cases (hes e mem_cons_self) with rfl | ⟨i, rfl⟩
      · exact ⟨hpre, ih hrest _ (by simpa using hpre)⟩
      · exact ⟨trivial, ih hrest _ (by simpa using hpre)⟩
  refine hlog s.log ⟨fun hm => hp (h.recorded.done.1 hm).1, fun hm => hp (h.recorded.destroy.1 hm)⟩

theorem mem_append_quiet {e : Effect} (hes : ∀ e ∈ es, e.quiet) (he : e.quiet = false)
    (log : List Effect) : e ∈ log ++ es ↔ e ∈ log := by
  rw [mem_append, or_iff_left]
  intro hmem
  simp [hes e hmem] at he

theorem Recorded.append_quiet {s' : State} (h : s.Recorded cfg) (hes : ∀ e ∈ es, e.quiet)
    (hlog : s'.log = s.log ++ es) (hn : s'.next = s.next) (hp : s'.parent ≠ .destroyed)
    (hp₀ : s.parent ≠ .destroyed) (hu : s'.parent = .unlocked ↔ s.parent = .unlocked)
    (hran : ∀ i : ℕ, (∃ sub : Sub, s'.subs[i]? = some sub ∧ sub.ran) ↔
      ∃ sub : Sub, s.subs[i]? = some sub ∧ sub.ran) : s'.Recorded cfg := by
  refine ⟨fun i => ?_, fun i => ?_, ?_, ?_, ?_, ?_⟩ <;> rw [hlog, mem_append_quiet hes rfl]
  · rw [hn]
    exact h.start i
  · rw [hran]
    exact h.subDone i
  · rw [ne_eq, hu]
    exact h.this
  · simp only [hp, iff_false]
    exact fun hm => hp₀ (h.complete.1 hm)
  · simp only [hp, iff_false]
    exact fun hm => hp₀ (h.destroy.1 hm)
  · simp only [hp, false_and, iff_false]
    exact fun hm => hp₀ (h.done.1 hm).1

theorem ran_set_iff (new : Sub) (hj : s.subs[j]? = some old) (hran : new.ran = old.ran) (i : ℕ) :
    (∃ sub : Sub, (s.subs.set j new)[i]? = some sub ∧ sub.ran) ↔ ∃ sub : Sub, s.subs[i]? = some sub ∧ sub.ran := by
  rw [getElem?_set]
  by_cases hij : j = i
  · subst hij
    have hlt : j < s.subs.length := (List.getElem?_eq_some_iff.1 hj).1
    rw [hj, if_pos rfl, if_pos hlt]
    simp [hran]
  · simp [hij]

theorem idle_set_iff (h : s.Core cfg) (hj : s.subs[j]? = some old) (ho : old.phase ≠ .idle) (hn : new.phase ≠ .idle) :
    ∀ i sub, (s.subs.set j new)[i]? = some sub → (sub.phase = .idle ↔ s.next ≤ i) := by
  intro i sub hi
  rw [getElem?_set] at hi
  by_cases hij : j = i
  · subst hij
    have hlt : j < s.subs.length := (List.getElem?_eq_some_iff.1 hj).1
    simp only [if_true, hlt, Option.some.injEq] at hi
    subst hi
    exact ⟨fun h' => absurd h' hn, fun h' => absurd ((h.idle j old hj).2 h') ho⟩
  · rw [if_neg hij] at hi
    exact h.idle i sub hi

theorem completing_of_not_counted {sub : Sub} (h : sub.counted = false) : sub.completing = false := by
  unfold counted completing at *
  split at h <;> simp_all

theorem Core.replace (h : s.Core cfg) (hj : s.subs[j]? = some old) (hco : old.counted = false)
    (hcn : new.counted = false) {next currentFail : ℕ} {log : List Effect} (hnext : next ≤ cfg.plan.ndone)
    (hidle : ∀ i sub, (s.subs.set j new)[i]? = some sub → (sub.phase = .idle ↔ next ≤ i))
    (hfail : currentFail + (if old.failed then 1 else 0) =
      s.currentFail + if new.failed then 1 else 0) (hrec : Recorded cfg { s with
      next := next, subs := s.subs.set j new, currentFail := currentFail, log := log })
    (hguarded : Guarded (Allowed cfg.plan.ndone) log) :
    ({ s with next := next, subs := s.subs.set j new, currentFail := currentFail, log := log } : State).Core cfg := by
  have hlt := h.counted_lt hj hco
  have hcount : (s.subs.set j new).countP Sub.counted = s.subs.countP Sub.counted := by
    have := countP_set_add (p := Sub.counted) (b := new) hj
    simpa [hco, hcn] using this
  have hcompl : (s.subs.set j new).countP completing = s.subs.countP completing := by
    have := countP_set_add (p := completing) (b := new) hj
    simpa [completing_of_not_counted hco, completing_of_not_counted hcn] using this
  obtain ⟨hnd, -, -⟩ := h.not_destroyed (.inl hlt)
  refine ⟨?_, hnext, hidle, ?_, ?_, ?_, ?_, h.code, hrec, hguarded, fun hd => absurd hd hnd⟩
  · rw [length_set]
    exact h.length
  · rw [hcount]
    exact h.word
  · have := countP_set_add (p := Sub.failed) (b := new) hj
    have := h.fail
    simp only
    omega
  · rw [hcount, hcompl]
    exact h.token
  · intro heq
    rw [hcount] at heq
    omega

/-- **A sub done moves on before its `fetch_add`.** -/
theorem Core.update (h : s.Core cfg) (hj : s.subs[j]? = some old) (new : Sub) (currentFail : ℕ)
    (es : List Effect) (ho : old.phase ≠ .idle) (hn : new.phase ≠ .idle) (hran : new.ran = old.ran)
    (hco : old.counted = false) (hcn : new.counted = false) (hfail : currentFail + (if old.failed then 1 else 0) =
      s.currentFail + if new.failed then 1 else 0) (hes : ∀ e ∈ es, e.quiet) :
    ({ s with subs := s.subs.set j new, currentFail := currentFail, log := s.log ++ es } : State).Core cfg := by
  obtain ⟨hnd, -, -⟩ := h.not_destroyed (.inl (h.counted_lt hj hco))
  exact h.replace hj hco hcn h.next_le (idle_set_iff h hj ho hn) hfail
    (h.recorded.append_quiet hes rfl rfl hnd hnd Iff.rfl (ran_set_iff new hj hran))
    (h.guarded_quiet hnd hes)

end State

/-! ## The threads -/

open Controller FlagCounter Effect

namespace State

variable {cfg : Config} {s : State} {j : ℕ} {ec : ErrorCode} {es : List Effect}

/-- **An error on the parent's id ends the parent call**: the three errors that come
are not retried, whatever `max_retry` is. -/
theorem parentError_of_unlocked (env : ReturnEnv) (hp : s.parent = .unlocked)
    (hec : ec ∈ [EPCHANFINISH, ECANCELED, ERPCTIMEDOUT]) :
    ∃ c : Controller.State, c.errorCode = ec ∧ s.parentError cfg env ec =
      { s with cntl := c, parent := .entered, log := s.log ++ [.runThis] } := by
  have hne : ec ≠ 0 ∧ ec ≠ EBACKUPREQUEST ∧ Controller.defaultDoRetry ec = false := by
    simp only [mem_cons, not_mem_nil, or_false] at hec
    rcases hec with rfl | rfl | rfl <;> decide
  set c := s.cntl.handleSocketFailed s.cntl.correlationId ec with hc
  have hcid : c.correlationId = s.cntl.correlationId := by
    rw [hc, State.handleSocketFailed, State.setFailed_eq]
  have hcode : c.errorCode = ec := by
    rw [hc, State.handleSocketFailed, State.setFailed_eq]
    simp [hne.1]
  have hprev : c.ofPrevious ⟨s.cntl.correlationId, false⟩ = false := by
    simp [State.ofPrevious, hcid]
  have hends : c.onVersionedRPCReturned cfg.parent env ⟨s.cntl.correlationId, false⟩ true
      s.cntl.errorCode = c.endOfRPC cfg.parent ⟨s.cntl.correlationId, false⟩ true := by
    have hretry : c.doRetry cfg.parent env = false := by
      simp [State.doRetry, Config.parent, hcode, hne.2.2]
    unfold State.onVersionedRPCReturned
    rw [hprev, hretry]
    simp [hcode, hne.2.1]
  obtain ⟨es, -, heq⟩ := State.endOfRPC_eq cfg.parent c ⟨s.cntl.correlationId, false⟩ true
  let ending : Controller.State := { c with phase := .ending ⟨s.cntl.correlationId, false⟩, log := c.log ++ es }
  have hended : Controller.State.Ended cfg.parent false ending ⟨s.cntl.correlationId, false⟩ _ :=
    Controller.State.endCalls_ended cfg.parent false
      fun h => absurd h (by simp [Controller.State.ofPrevious, ending, hcid])
  refine ⟨ending.endCalls cfg.parent false ⟨s.cntl.correlationId, false⟩, ?_, ?_⟩
  · exact (hended.errorCode_of_failed (by simp [ending, hcode, hne.1])).trans hcode
  · unfold parentError
    rw [if_pos hp]
    simp only [← hc, hends, heq]
    rfl

theorem Core.parentError (h : s.Core cfg) (env : ReturnEnv)
    (hec : ec ∈ [EPCHANFINISH, ECANCELED, ERPCTIMEDOUT]) : (s.parentError cfg env ec).Core cfg := by
  by_cases hp : s.parent = .unlocked
  · obtain ⟨c, hc, heq⟩ := parentError_of_unlocked env hp hec
    have htoken := h.token
    have hword := h.word
    rw [hp] at htoken hword
    rw [heq]
    refine ⟨h.length, h.next_le, h.idle, hword, h.fail, htoken, ?_, ?_, ?_, ?_, by simp⟩
    · exact fun _ h' => absurd h' (by simp)
    · exact fun _ => hc ▸ hec
    · have hrec := h.recorded
      refine ⟨fun i => ?_, fun i => ?_, ?_, ?_, ?_, ?_⟩
      · simpa using hrec.start i
      · simpa using hrec.subDone i
      · simp
      · simpa [hp] using hrec.complete
      · simpa [hp] using hrec.destroy
      · simpa [hp] using hrec.done
    · refine (guarded_append _ _).2 ⟨h.guarded, fun hm => ?_, trivial⟩
      exact absurd hp (h.recorded.this.1 hm)
  · unfold State.parentError
    rw [if_neg hp]
    split
    · exact h
    · exact { h with recorded := ⟨h.recorded.start, h.recorded.subDone, h.recorded.this, h.recorded.complete,
          h.recorded.destroy, h.recorded.done⟩ }

theorem parentError_frame (env : ReturnEnv) (hec : ec ∈ [EPCHANFINISH, ECANCELED, ERPCTIMEDOUT]) :
    (s.parentError cfg env ec).subs = s.subs ∧ (s.parentError cfg env ec).parent ≠ .unlocked ∧
      (s.parentError cfg env ec).crashed = s.crashed := by
  by_cases hp : s.parent = .unlocked
  · obtain ⟨c, -, heq⟩ := @parentError_of_unlocked cfg s ec env hp hec
    rw [heq]
    exact ⟨rfl, by simp, rfl⟩
  · unfold State.parentError
    rw [if_neg hp]
    split <;> exact ⟨rfl, hp, rfl⟩

theorem map_errorCode_set {phase phase' : SubPhase} (hj : s.subs[j]? = some ⟨phase, ec⟩) :
    (s.subs.set j ⟨phase', ec⟩).map errorCode = s.subs.map errorCode := by
  obtain ⟨hlt, hget⟩ := List.getElem?_eq_some_iff.1 hj
  have hlt' : j < (s.subs.map errorCode).length := by simpa using hlt
  have hcode : ec = (s.subs.map errorCode)[j] := by simp [hget]
  rw [map_set]
  simp only [hcode, set_getElem_self]

section

variable (h : s.Core cfg)
include h

theorem Core.finished (hj : s.subs[j]? = some ⟨.finishing, ec⟩) (hp : s.parent ≠ .unlocked) :
    ({ s with subs := s.subs.set j ⟨.finished, ec⟩ } : State).Core cfg := by
  have hcount : (s.subs.set j ⟨.finished, ec⟩).countP counted = s.subs.countP counted := by
    simpa [counted] using countP_set_add (p := counted) (b := ⟨.finished, ec⟩) hj
  have hcompl : (s.subs.set j ⟨.finished, ec⟩).countP completing = s.subs.countP completing := by
    simpa [completing] using countP_set_add (p := completing) (b := ⟨.finished, ec⟩) hj
  have hfail : (s.subs.set j ⟨.finished, ec⟩).countP Sub.failed = s.subs.countP Sub.failed := by
    have hsame : Sub.failed ⟨.finished, ec⟩ = Sub.failed ⟨.finishing, ec⟩ := rfl
    have := countP_set_add (p := Sub.failed) (b := ⟨.finished, ec⟩) hj
    rw [hsame] at this
    omega
  have hcodes : (s.subs.set j ⟨.finished, ec⟩).map errorCode = s.subs.map errorCode := map_errorCode_set hj
  have hrec := h.recorded
  refine ⟨?_, h.next_le, idle_set_iff h hj (by simp) (by simp), ?_, ?_, ?_, ?_, h.code, ?_, h.guarded, ?_⟩
  · rw [length_set]
    exact h.length
  · rw [hcount]
    exact h.word
  · rw [hfail]
    exact h.fail
  · rw [hcount, hcompl]
    exact h.token
  · exact fun _ h' => absurd h' hp
  · exact { hrec with subDone := fun i => (hrec.subDone i).trans (ran_set_iff ⟨.finished, ec⟩ hj rfl i).symm }
  · unfold State.ended
    rw [hcodes]
    exact h.verdict

theorem Core.fetchAdd (hlt : s.subs.countP counted < cfg.plan.ndone) :
    s.currentDone + 1 = FlagCounter.word (s.subs.countP counted + 1) s.parent.marked ∧
      ((s.currentDone &&& 0x7fffffff) + 1 = UInt32.ofNat cfg.plan.ndone ↔
        s.subs.countP counted + 1 = cfg.plan.ndone) ∧
      (s.currentDone &&& 0x80000000 = 0 ↔ s.parent.marked = false) := by
  have hsmall := cfg.plan.small
  have hn : cfg.plan.ndone < 2 ^ 31 := hsmall
  have hadd : UInt32.ofNat (s.subs.countP counted) + 1 = UInt32.ofNat (s.subs.countP counted + 1) := by
    simp
  rw [h.word]
  refine ⟨word_add_one (by omega) _, ?_, word_and_high (by omega) _⟩
  rw [word_and_low (by omega), hadd, ofNat_inj (by omega) hn]

/-- **The `fetch_add` of a sub done**: the last one to come, and no other, goes on. -/
theorem Core.count (hj : s.subs[j]? = some ⟨.counting, ec⟩) (env :
    ReturnEnv) : (s.subStep cfg env j).Core cfg := by
  have hlt := h.counted_lt hj rfl
  obtain ⟨hnd, hnc, hcompl⟩ := h.not_destroyed (.inl hlt)
  obtain ⟨hword, hlast, hflag⟩ := h.fetchAdd hlt
  have hstep : s.subStep cfg env j =
      { s with
        subs := s.subs.set j ⟨if s.subs.countP counted + 1 ≠ cfg.plan.ndone then .finished
          else if s.parent.marked = false then .finishing else .completing, ec⟩
        currentDone := s.currentDone + 1
        log := s.log ++ [.touch] } := by
    simp only [State.subStep, hj, ne_eq, hlast, hflag]
  rw [hstep]
  generalize hph : (if s.subs.countP counted + 1 ≠ cfg.plan.ndone then SubPhase.finished
    else if s.parent.marked = false then .finishing else .completing) = phase
  have hcounted : counted ⟨phase, ec⟩ = true := by
    rw [← hph]
    split_ifs <;> rfl
  have hran : ran ⟨phase, ec⟩ = true := ran_of_counted hcounted
  have hne : phase ≠ .idle := by
    rw [← hph]
    split_ifs <;> simp
  have hcount : (s.subs.set j ⟨phase, ec⟩).countP counted = s.subs.countP counted + 1 := by
    have hold : ¬counted ⟨.counting, ec⟩ := by simp [counted]
    have := countP_set_add (p := counted) (b := ⟨phase, ec⟩) hj
    rwa [if_pos hcounted, if_neg hold] at this
  have hcompl' : (s.subs.set j ⟨phase, ec⟩).countP completing = if phase = .completing then 1 else 0 := by
    have := countP_set_add (p := completing) (b := ⟨phase, ec⟩) hj
    simpa [hcompl, completing] using this
  have hfail : (s.subs.set j ⟨phase, ec⟩).countP Sub.failed = s.subs.countP Sub.failed := by
    have hsame : Sub.failed ⟨phase, ec⟩ = Sub.failed ⟨.counting, ec⟩ := by
      rw [← hph]
      split_ifs <;> rfl
    have := countP_set_add (p := Sub.failed) (b := ⟨phase, ec⟩) hj
    rw [hsame] at this
    omega
  refine ⟨?_, h.next_le, idle_set_iff h hj (by simp) hne, ?_, ?_, ?_, ?_, h.code, ?_,
    h.guarded_quiet hnd (by simp [quiet]), fun hd => absurd hd hnd⟩
  · rw [length_set]
    exact h.length
  · rw [hcount]
    exact hword
  · rw [hfail]
    exact h.fail
  · rw [hcount, hcompl', if_neg hnc, if_neg hnd, ← hph]
    by_cases hall : s.subs.countP counted + 1 = cfg.plan.ndone
    · cases s.parent.marked <;> simp [hall]
    · simp [hall]
  · intro heq (hp : s.parent = .unlocked)
    rw [hcount] at heq
    refine ⟨⟨phase, ec⟩, ?_, ?_⟩
    · exact mem_set (List.getElem?_eq_some_iff.1 hj).1 _
    · simp [← hph, heq, hp, ParentPhase.marked]
  · exact h.recorded.append_quiet (by simp [quiet]) rfl rfl hnd hnd Iff.rfl (ran_set_iff ⟨phase, ec⟩ hj hran)

theorem Core.subStep (env : ReturnEnv) (j : ℕ)
    (hlast : ∀ ec, s.subs[j]? ≠ some ⟨.completing, ec⟩) : (s.subStep cfg env j).Core cfg := by
  cases hj : s.subs[j]? with
  | none =>
    unfold State.subStep
    rw [hj]
    exact h
  | some sub =>
    obtain ⟨phase, ec⟩ := sub
    cases phase with
    | entered =>
      by_cases hec : ec = 0
      · simp only [State.subStep, hj, hec, ne_eq, not_true_eq_false, if_false]
        exact h.update hj ⟨.counting, 0⟩ s.currentFail [.touch] (by simp) (by simp) rfl rfl rfl
          (by simp [Sub.failed]) (by simp [quiet])
      · simp only [State.subStep, hj, hec, ne_eq, not_false_eq_true, if_true]
        split <;>
          exact h.update hj ⟨_, ec⟩ (s.currentFail + 1) [.touch] (by simp) (by simp) rfl rfl rfl
            (by simp [Sub.failed, hec]) (by simp [quiet])
    | cancelling i =>
      simp only [State.subStep, hj]
      split
      · exact h.update hj ⟨.cancelling (i + 1), ec⟩ s.currentFail _ (by simp) (by simp) rfl rfl rfl
          (by simp [Sub.failed]) (by split <;> simp [quiet])
      · exact h.update hj ⟨.counting, ec⟩ s.currentFail _ (by simp) (by simp) rfl rfl rfl
          (by simp [Sub.failed]) (by simp [quiet])
    | counting => exact h.count hj env
    | finishing =>
      have hec : EPCHANFINISH ∈ [EPCHANFINISH, ECANCELED, ERPCTIMEDOUT] := by simp
      obtain ⟨hsubs, hp, -⟩ := @parentError_frame cfg s _ env hec
      simp only [State.subStep, hj]
      rw [← hsubs]
      rw [← hsubs] at hj
      exact (h.parentError env hec).finished hj hp
    | completing => exact absurd hj (hlast ec)
    | idle | running | finished =>
      simp only [State.subStep, hj]
      exact h

theorem Core.startNext : (s.startNext cfg).Core cfg := by
  unfold State.startNext
  split
  case isFalse => exact h
  case isTrue hlt =>
    obtain ⟨old, hj⟩ : ∃ old, s.subs[s.next]? = some old := ⟨_, getElem?_eq_getElem (by rw [h.length]; exact hlt)⟩
    have hphase : old.phase = .idle := (h.idle s.next old hj).2 (Nat.le_refl _)
    have hco : old.counted = false := by simp [counted, hphase]
    have hran : ran ⟨.running, 0⟩ = old.ran := by simp [ran, hphase]
    obtain ⟨hnd, -, -⟩ := h.not_destroyed (.inl (h.counted_lt hj hco))
    have hrec := h.recorded
    refine h.replace hj hco rfl hlt ?_ (by simp [Sub.failed, hphase]) ?_ ?_
    · intro i sub hi
      rw [getElem?_set] at hi
      split at hi
      · simp only [Option.ite_none_right_eq_some, Option.some.injEq] at hi
        rw [← hi.2]
        simp
        omega
      · rw [h.idle i sub hi]
        omega
    · refine ⟨fun i => ?_, fun i => ?_, ?_, ?_, ?_, ?_⟩
      · simp [hrec.start i]
        omega
      · rw [ran_set_iff _ hj hran]
        simpa using hrec.subDone i
      · simpa using hrec.this
      · simpa using hrec.complete
      · simpa using hrec.destroy
      · simpa using hrec.done
    · have hquiet : Guarded (Allowed cfg.plan.ndone) (s.log ++ [.touch]) :=
        h.guarded_quiet hnd (by simp [quiet])
      have : s.log ++ [.touch, .startSub s.next] = (s.log ++ [.touch]) ++ [.startSub s.next] := by simp
      rw [this, guarded_append]
      refine ⟨hquiet, fun hm => ?_, trivial⟩
      have := (hrec.start s.next).1 (by simpa using hm)
      omega

theorem Core.subEnd (j : ℕ) (ec : ErrorCode) : (s.subEnd j ec).Core cfg := by
  unfold State.subEnd
  split
  case h_2 => exact h
  case h_1 ec₀ hj =>
    have hrec := h.recorded
    have hlt : j < s.next := by
      by_contra hle
      have := (h.idle j _ hj).2 (by omega)
      cases this
    have hlen := (List.getElem?_eq_some_iff.1 hj).1
    have hnot : .runSubDone j ∉ s.log := by
      intro hm
      obtain ⟨sub, hs, hr⟩ := (hrec.subDone j).1 hm
      rw [hj] at hs
      cases hs
      cases hr
    refine h.replace hj rfl rfl h.next_le (idle_set_iff h hj (by simp) (by simp)) rfl ?_ ?_
    · refine ⟨fun i => ?_, fun i => ?_, ?_, ?_, ?_, ?_⟩
      · simpa using hrec.start i
      · by_cases hij : j = i
        · subst hij
          simp [hlen, ran]
        · simpa [hij, Ne.symm hij] using hrec.subDone i
      · simpa using hrec.this
      · simpa using hrec.complete
      · simpa using hrec.destroy
      · simpa using hrec.done
    · rw [guarded_append]
      exact ⟨h.guarded, ⟨(hrec.start j).2 hlt, hnot⟩, trivial⟩

end

end State
end Brpc.Parallel
