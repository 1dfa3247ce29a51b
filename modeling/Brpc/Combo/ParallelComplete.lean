/-
# `this->Run()` and `OnComplete`

The remaining steps of a parallel call, and the invariant of every run (`inv_run`): the
rendezvous is as `Core` says, or an exception has left `OnComplete` and the call has not ended
(`Thrown`).
-/

import Brpc.Combo.ParallelSteps

namespace Brpc.Parallel

open Lib List ParentPhase Parallel.Sub

namespace State

variable {cfg : Config} {s : State} {es : List Effect}

theorem Core.moveParent (h : s.Core cfg) (cntl : Controller.State) (p : ParentPhase)
    (es : List Effect) (hm : s.parent.marked = false) (hu : s.parent ≠ .unlocked)
    (hm' : p.marked = false) (hu' : p ≠ .unlocked) (he : p ≠ .entered) (hes : ∀ e ∈ es, e.quiet) :
    ({ s with cntl := cntl, parent := p, log := s.log ++ es } : State).Core cfg := by
  obtain ⟨hnd, -, hcompl⟩ := h.not_destroyed (.inr hm)
  have hnd' : p ≠ .destroyed := fun hp => by simp [hp, marked] at hm'
  have hnc' : p ≠ .completing := fun hp => by simp [hp, marked] at hm'
  refine ⟨h.length, h.next_le, h.idle, ?_, h.fail, ?_, fun _ hp => absurd hp hu',
    fun hp => absurd hp he, ?_, h.guarded_quiet hnd hes, fun hd => absurd hd hnd'⟩
  · simp only [hm']
    rw [← hm]
    exact h.word
  · simp [hcompl, hnd', hnc', hm']
  · exact h.recorded.append_quiet hes rfl rfl hnd' hnd (by simp [hu, hu']) fun _ => Iff.rfl

theorem Core.fetchOr (h : s.Core cfg) :
    s.currentDone ||| 0x80000000 = FlagCounter.word (s.subs.countP counted) true ∧
      (s.currentDone &&& 0x7fffffff = UInt32.ofNat cfg.plan.ndone ↔ s.subs.countP counted = cfg.plan.ndone) := by
  have hle := h.counted_le
  have hsmall : cfg.plan.ndone < 2 ^ 31 := cfg.plan.small
  rw [h.word]
  refine ⟨FlagCounter.word_or_high (by omega) _, ?_⟩
  rw [FlagCounter.word_and_low (by omega), FlagCounter.ofNat_inj (by omega) hsmall]

/-- **The `fetch_or` of `this->Run()`**: it goes on when all sub dones have come. -/
theorem Core.mark (h : s.Core cfg) (hp : s.parent = .marking) : (s.thisStep cfg).Core cfg := by
  obtain ⟨hnd, -, hcompl⟩ := h.not_destroyed (.inr (by simp [hp, marked]))
  obtain ⟨hword, hlast⟩ := h.fetchOr
  simp only [State.thisStep, hp, ne_eq, hlast]
  generalize hph : (if ¬s.subs.countP counted = cfg.plan.ndone then waiting else .completing) = phase
  have hm : phase.marked = true := by
    rw [← hph]
    split_ifs <;> rfl
  have hnd' : phase ≠ .destroyed := by
    rw [← hph]
    split_ifs <;> simp
  have hu : phase ≠ .unlocked := by
    rw [← hph]
    split_ifs <;> simp
  refine ⟨h.length, h.next_le, h.idle, ?_, h.fail, ?_, fun _ hu' => absurd hu' hu, ?_, ?_,
    h.guarded_quiet hnd (by simp [Effect.quiet]), fun hd => absurd hd hnd'⟩
  · simp only [hm]
    exact hword
  · by_cases hall : s.subs.countP counted = cfg.plan.ndone <;>
      simp [← hph, hall, hcompl, marked]
  · intro he
    rw [← hph] at he
    split_ifs at he
  · exact h.recorded.append_quiet (by simp [Effect.quiet]) rfl rfl hnd' hnd (by simp [hp, hu]) fun _ => Iff.rfl

theorem Core.thisStep (h : s.Core cfg) (hlast : s.parent ≠ .completing) : (s.thisStep cfg).Core cfg := by
  cases hp : s.parent with
  | entered =>
    have hcode := h.code hp
    have hcheck : ¬(s.cntl.errorCode ≠ EPCHANFINISH ∧ s.cntl.errorCode ≠ ECANCELED ∧
        s.cntl.errorCode ≠ ERPCTIMEDOUT) := by
      simp only [mem_cons, not_mem_nil, or_false] at hcode
      tauto
    simp only [State.thisStep, hp, if_neg hcheck]
    refine h.moveParent _ _ _ (by simp [hp, marked]) (by simp [hp]) ?_ ?_ ?_
      (by simp [Effect.quiet]) <;> split_ifs <;> simp [marked]
  | cancelling i =>
    simp only [State.thisStep, hp]
    split
    · exact h.moveParent s.cntl (.cancelling (i + 1)) _ (by simp [hp, marked])
        (by simp [hp]) rfl (by simp) (by simp) (by simp [Effect.quiet])
    · exact h.moveParent s.cntl .marking _ (by simp [hp, marked])
        (by simp [hp]) rfl (by simp) (by simp) (by simp [Effect.quiet])
  | marking => exact h.mark hp
  | completing => exact absurd hp hlast
  | unlocked | waiting | destroyed =>
    simp only [State.thisStep, hp]
    exact h

/-- An exception of a user's merger has left `OnComplete`. -/
structure Thrown (cfg : Config) (s : State) : Prop where
  guarded : Guarded (Allowed cfg.plan.ndone) s.log
  complete : .onComplete ∈ s.log
  done : .runDone ∉ s.log
  destroy : .unlockAndDestroy ∉ s.log
  refused : Refused (s.ended cfg)

/-- The invariant of a parallel call. -/
def Inv (cfg : Config) (s : State) : Prop :=
  s.crashed = false ∧ s.Core cfg ∨ s.crashed = true ∧ s.Thrown cfg

theorem Core.all_counted (h : s.Core cfg) (hlast : s.parent = .completing ∨ 0 < s.subs.countP completing) :
    (∀ sub ∈ s.subs, sub.counted) ∧ s.parent.marked ∧ s.parent ≠ .destroyed ∧
      s.subs.countP completing ≤ 1 ∧ (s.parent = .completing → s.subs.countP completing = 0) := by
  have htoken := h.token
  by_cases hall : s.subs.countP counted = cfg.plan.ndone ∧ s.parent.marked
  · rw [if_pos hall] at htoken
    have hcounted := hall.1
    rw [← h.length, countP_eq_length] at hcounted
    refine ⟨hcounted, hall.2, fun hd => ?_, by omega, fun hp => ?_⟩
    · rw [if_pos hd] at htoken
      rcases hlast with hp | hpos
      · simp [hd] at hp
      · omega
    · rw [if_pos hp] at htoken
      omega
  · rw [if_neg hall] at htoken
    rcases hlast with hp | hpos
    · rw [if_pos hp] at htoken
      omega
    · omega

theorem counted_facts {subs : List Sub} (hsubs : ∀ sub ∈ subs, sub.counted) :
    subs.countP Sub.counted = subs.length ∧ subs.countP Sub.failed = (subs.map Sub.errorCode).countP (· ≠ 0) ∧
      ∀ j, (∃ sub, subs[j]? = some sub ∧ sub.ran) ↔ j < subs.length := by
  refine ⟨countP_eq_length.2 hsubs, ?_, fun j => ⟨?_, fun hj => ?_⟩⟩
  · rw [countP_map]
    refine countP_congr fun sub hmem => ?_
    have := hsubs sub hmem
    unfold counted at this
    unfold Sub.failed
    split at this <;> simp_all
  · rintro ⟨sub, hget, -⟩
    exact (List.getElem?_eq_some_iff.1 hget).1
  · exact ⟨subs[j], getElem?_eq_getElem hj, ran_of_counted (hsubs _ (getElem_mem hj))⟩

theorem Core.guarded_onComplete (h : s.Core cfg) (hlast : s.parent = .completing ∨ 0 < s.subs.countP completing) :
    Guarded (Allowed cfg.plan.ndone) (s.log ++ [.onComplete, .touch]) := by
  obtain ⟨hall, hm, hnd, -, -⟩ := h.all_counted hlast
  have hrec := h.recorded
  refine (guarded_append _ _).2 ⟨h.guarded, ⟨?_, ?_, fun j hj => ?_⟩, ⟨?_, ?_⟩, trivial⟩
  · exact fun hmem => hnd (hrec.complete.1 hmem)
  · refine hrec.this.2 fun hu => ?_
    simp [hu, marked] at hm
  · rw [hrec.subDone, (counted_facts hall).2.2, h.length]
    exact hj
  · simpa using fun hmem => absurd (hrec.done.1 hmem).1 hnd
  · simpa using fun hmem => absurd (hrec.destroy.1 hmem) hnd

theorem refused_of_conclude_eq_none {p : Plan} {currentFail : ℕ} {ec : ErrorCode} {es : List Ended}
    (h : conclude p currentFail ec es = none) : Refused es := by
  by_contra href
  simp only [conclude, mergeAll_of_not_refused _ _ _ href] at h
  split at h <;> simp at h

/-- **`OnComplete` ends the call**, or an exception leaves it. -/
theorem Core.onComplete (h : s.Core cfg) (hcr : s.crashed = false)
    (hlast : s.parent = .completing ∨ 0 < s.subs.countP completing) {subs : List Sub}
    (hcodes : subs.map errorCode = s.subs.map errorCode)
    (hsubs : ∀ sub ∈ subs, sub.counted ∧ sub.completing = false) :
    ({ s.onComplete cfg with subs := subs } : State).Inv cfg := by
  obtain ⟨hall, hm, hnd, -, -⟩ := h.all_counted hlast
  have hguarded := h.guarded_onComplete hlast
  have hrec := h.recorded
  have hlen : subs.length = s.subs.length := by simpa using congrArg List.length hcodes
  obtain ⟨hcount, hfail, hran⟩ := counted_facts fun sub hmem => (hsubs sub hmem).1
  obtain ⟨-, hfail₀, hran₀⟩ := counted_facts hall
  have hndone : .runDone ∉ s.log := fun hmem => hnd (hrec.done.1 hmem).1
  have hndestroy : .unlockAndDestroy ∉ s.log := fun hmem => hnd (hrec.destroy.1 hmem)
  cases hc : conclude cfg.plan s.currentFail s.cntl.errorCode (s.ended cfg) with
  | none =>
    refine .inr ⟨by simp [State.onComplete, hc], ?_⟩
    simp only [State.onComplete, hc]
    refine ⟨hguarded, by simp, by simpa using hndone, by simpa using hndestroy, ?_⟩
    simp only [State.ended, hcodes]
    exact refused_of_conclude_eq_none hc
  | some =>
    refine .inl ⟨by simp [State.onComplete, hc, hcr], ?_⟩
    simp only [State.onComplete, hc]
    refine ⟨hlen.trans h.length, h.next_le, ?_, ?_, ?_, ?_, (by simp),
      (by simp), ⟨fun j => ?_, fun j => ?_, ?_, ?_, ?_, ?_⟩, ?_,
      fun _ => ⟨s.cntl.errorCode, ?_⟩⟩
    · intro j sub hget
      have hidle : ∀ {sub : Sub}, sub.counted → sub.phase ≠ .idle := by
        intro sub hsub hp
        simp [counted, hp] at hsub
      have hj : j < s.subs.length := hlen ▸ (List.getElem?_eq_some_iff.1 hget).1
      have hold := h.idle j _ (getElem?_eq_getElem hj)
      exact iff_of_false (hidle (hsubs sub (mem_of_getElem? hget)).1)
        fun hle => hidle (hall _ (getElem_mem hj)) (hold.2 hle)
    · rw [h.word, hcount, hlen, (counted_facts hall).1]
      rw [hm]
      rfl
    · rw [h.fail, hfail, hfail₀, hcodes]
    · have hnone : subs.countP completing = 0 := countP_eq_zero.2 fun sub hmem => by simp [(hsubs sub hmem).2]
      simp [hnone, hcount, hlen, h.length, marked]
    · rw [← hrec.start j]
      split_ifs <;> simp
    · rw [hran, hlen, ← hran₀, ← hrec.subDone j]
      split_ifs <;> simp
    · have hu : s.parent ≠ .unlocked := fun hu => by simp [hu, marked] at hm
      simpa using hrec.this.2 hu
    · simp
    · simp
    · cases hd : cfg.done <;> simp [hndone]
    · rw [← append_assoc]
      refine (guarded_append _ _).2 ⟨hguarded, ?_⟩
      cases hd : cfg.done
      · exact ⟨⟨by simp, by simpa using hndestroy⟩, trivial⟩
      · exact ⟨⟨by simp, by simpa using hndone⟩, ⟨by simp, by simpa using hndestroy⟩, trivial⟩
    · simp only [State.ended, hcodes]
      exact hc

theorem startNext_crashed : (s.startNext cfg).crashed = s.crashed := by
  unfold State.startNext
  split <;> rfl

theorem subEnd_crashed (j : ℕ) (ec : ErrorCode) : (s.subEnd j ec).crashed = s.crashed := by
  unfold State.subEnd
  split <;> rfl

theorem Core.inv_subStep (h : s.Core cfg) (hcr : s.crashed = false) (env : Controller.ReturnEnv)
    (j : ℕ) : (s.subStep cfg env j).Inv cfg := by
  by_cases hlast : ∃ ec, s.subs[j]? = some ⟨.completing, ec⟩
  · obtain ⟨ec, hj⟩ := hlast
    have hpos : 0 < s.subs.countP completing := countP_pos_iff.2 ⟨_, mem_of_getElem? hj, rfl⟩
    obtain ⟨hall, -, -, hone, -⟩ := h.all_counted (.inr hpos)
    have hnone : (s.subs.set j ⟨.finished, ec⟩).countP completing = 0 := by
      have := countP_set_add (p := completing) (b := ⟨.finished, ec⟩) hj
      simp only [Sub.completing, decide_true, if_true, reduceCtorEq, decide_false,
        Bool.false_eq_true, if_false] at this
      omega
    simp only [State.subStep, hj]
    refine h.onComplete hcr (.inr hpos) (map_errorCode_set hj) fun sub hmem => ⟨?_, ?_⟩
    · rcases mem_or_eq_of_mem_set hmem with hold | rfl
      · exact hall sub hold
      · rfl
    · simpa using countP_eq_zero.1 hnone sub hmem
  · have hlast' := fun ec hj => hlast ⟨ec, hj⟩
    refine .inl ⟨?_, h.subStep env j hlast'⟩
    have hframe := @parentError_frame cfg s EPCHANFINISH env (by simp)
    unfold State.subStep
    split
    · split <;> exact hcr
    · split <;> exact hcr
    · exact hcr
    · exact hframe.2.2.trans hcr
    · exact absurd ‹_› (hlast' _)
    · exact hcr

theorem Core.inv_thisStep (h : s.Core cfg) (hcr : s.crashed = false) : (s.thisStep cfg).Inv cfg := by
  by_cases hp : s.parent = .completing
  · obtain ⟨hall, -, -, -, hnone⟩ := h.all_counted (.inl hp)
    have hsubs : (s.onComplete cfg).subs = s.subs := by
      unfold State.onComplete
      split <;> rfl
    have := h.onComplete hcr (.inl hp) rfl fun sub hmem =>
      ⟨hall sub hmem, by simpa using countP_eq_zero.1 (hnone hp) sub hmem⟩
    simp only [State.thisStep, hp]
    rwa [← hsubs] at this
  · refine .inl ⟨?_, h.thisStep hp⟩
    unfold State.thisStep
    split
    · exact hcr
    · split <;> exact hcr
    · exact hcr
    · exact absurd ‹_› hp
    · exact hcr

/-- **Every step of some thread keeps the invariant.** -/
theorem inv_step (s : State) (i : Input) (h : s.Inv cfg) : (s.step cfg i).Inv cfg := by
  unfold State.step
  rcases h with ⟨hcr, h⟩ | ⟨hcr, h⟩
  · rw [hcr, if_neg (by simp)]
    cases i with
    | start => exact .inl ⟨startNext_crashed.trans hcr, h.startNext⟩
    | subEnd j ec => exact .inl ⟨(subEnd_crashed j ec).trans hcr, h.subEnd j ec⟩
    | sub j env => exact h.inv_subStep hcr env j
    | cancel env =>
      have hec : ECANCELED ∈ [EPCHANFINISH, ECANCELED, ERPCTIMEDOUT] := by simp
      exact .inl ⟨(parentError_frame env hec).2.2.trans hcr, h.parentError env hec⟩
    | timeout env =>
      have hec : ERPCTIMEDOUT ∈ [EPCHANFINISH, ECANCELED, ERPCTIMEDOUT] := by simp
      exact .inl ⟨(parentError_frame env hec).2.2.trans hcr, h.parentError env hec⟩
    | this => exact h.inv_thisStep hcr
  · rw [hcr, if_pos rfl]
    exact .inr ⟨hcr, h⟩

theorem inv_start (cfg : Config) (cntl : Controller.State) : (start cfg cntl).Inv cfg := by
  have hget : ∀ {j : ℕ} {sub : Sub}, (start cfg cntl).subs[j]? = some sub → sub = ⟨.idle, 0⟩ := by
    intro j sub hget
    exact eq_of_mem_replicate (mem_of_getElem? hget)
  have hzero : ∀ p : Sub → Bool, p ⟨.idle, 0⟩ = false → (start cfg cntl).subs.countP p = 0 := by
    intro p hp
    simp [start, countP_replicate, hp]
  have hpos : 0 < cfg.plan.ndone := cfg.plan.nonempty
  refine .inl ⟨rfl, by simp [start], Nat.zero_le _, ?_, ?_, ?_, ?_, ?_, ?_, ?_, trivial, ?_⟩
  · intro j sub hj
    simp [hget hj, start]
  · rw [hzero counted rfl]
    rfl
  · exact (hzero Sub.failed rfl).symm
  · rw [hzero completing rfl]
    simp [start, marked]
  · intro hall
    rw [hzero counted rfl] at hall
    omega
  · simp [start]
  · have hran : ∀ j : ℕ, ¬∃ sub : Sub, (start cfg cntl).subs[j]? = some sub ∧ sub.ran := by
      rintro j ⟨sub, hj, hran⟩
      simp [hget hj, ran] at hran
    refine ⟨fun j => ?_, fun j => iff_of_false ?_ (hran j), ?_, ?_, ?_, ?_⟩ <;> simp [start]
  · simp [start]

/-- **The invariant of every run.** -/
theorem inv_run (cfg : Config) (cntl : Controller.State) (is : List Input) :
    (run (State.step cfg) (start cfg cntl) is).Inv cfg :=
  run_invariant' inv_step is (inv_start cfg cntl)

end State
end Brpc.Parallel
