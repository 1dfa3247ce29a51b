/-
# The flush of the bthreads

`ProcessNewMessage` counts the bthreads it starts and calls `bthread_flush` before it returns 0, but
not before the two returns of -1; `messages_processed_once` says what that leaves.
-/

import Brpc.Messenger.Process

namespace Brpc.Messenger.Process

open State

/-- How an effect changes the number of bthreads that wait for a flush. -/
def Effect.owe (n : ℕ) : Effect → ℕ
  | .start _ => n + 1
  | .flush => 0
  | _ => n

/-- The bthreads that were started since the last flush. -/
def unflushed (log : List Effect) : ℕ := log.foldl Effect.owe 0

theorem unflushed_append (log es : List Effect) :
    unflushed (log ++ es) = es.foldl Effect.owe (unflushed log) := List.foldl_append

/-- `ProcessNewMessage` returns with none outstanding. -/
def FlushedReturn : Effect → List Effect → Prop
  | .returned _, before => unflushed before = 0
  | _, _ => True

/-- Every return so far was made with none outstanding. -/
def State.Flushed (s : State) : Prop := Lib.Guarded FlushedReturn s.log

variable {cfg : Config} {s : State} {m : Msg}

theorem guardedFrom_of_silent {es : List Effect} (h : ∀ e ∈ es, ∀ ok, e ≠ .returned ok)
    (pre : List Effect) : Lib.GuardedFrom FlushedReturn pre es := by
  induction es generalizing pre with
  | nil => trivial
  | cons e es ih =>
    refine ⟨?_, ih (fun e' he' => h e' (List.mem_cons_of_mem e he')) _⟩
    cases e with
    | returned ok => exact absurd rfl (h _ List.mem_cons_self ok)
    | _ => trivial

theorem flushed_of_silent (s s' : State) (es : List Effect) (hlog : s'.log = s.log ++ es)
    (h : ∀ e ∈ es, ∀ ok, e ≠ .returned ok) : s'.Flushed ↔ s.Flushed := by
  unfold Flushed
  rw [hlog, Lib.guarded_append]
  exact and_iff_left (guardedFrom_of_silent h _)

theorem flushed_returned (s : State) (ok : Bool) :
    (s.emit [.returned ok]).Flushed ↔ s.Flushed ∧ unflushed s.log = 0 := by
  unfold Flushed emit
  rw [Lib.guarded_append]
  exact and_congr_right fun _ => Iff.of_eq (and_true _)

/-! ### The functions of a round -/

/-- `num_bthread_created` counts the bthreads to be flushed. -/
def State.Owes (s : State) : Prop := unflushed s.log = s.created

theorem flushed_runLast (s : State) : s.runLast.Flushed ↔ s.Flushed := by
  unfold runLast
  split
  · rfl
  · exact flushed_of_silent _ _ _ rfl (by simp)

theorem flushed_queueMessage (started : Bool) (s : State) (o : Option Msg) :
    (s.queueMessage cfg started o).Flushed ↔ s.Flushed := by
  cases o with
  | none => rfl
  | some m =>
    simp only [queueMessage]
    split
    · exact flushed_of_silent _ _ [.start m] rfl (by simp)
    · exact flushed_of_silent _ _ [.process m] rfl (by simp)

theorem owes_queueMessage (h : s.Owes) (started : Bool) (o : Option Msg) : (s.queueMessage cfg started o).Owes := by
  cases o with
  | none => exact h
  | some m =>
    simp only [queueMessage]
    split
    · have := unflushed_append s.log [.start m]
      exact this.trans (congrArg (· + 1) h)
    · exact (unflushed_append s.log [.process m]).trans h

theorem owes_runLast (h : s.Owes) : s.runLast.Owes := by
  unfold runLast
  split
  · exact h
  · next l _ => exact (unflushed_append s.log [.process l]).trans h

theorem owes_flush (s : State) : s.flush.Owes := unflushed_append s.log [.flush]

theorem flushed_keep (progressive started : Bool) (m : Msg) (s : State) :
    (s.keep cfg progressive started m).Flushed ↔ s.Flushed := by
  unfold keep
  split
  · rw [flushed_of_silent _ (s.queueMessage cfg started (some m)).flush _ rfl (by simp)]
    exact flushed_queueMessage started s (some m)
  · exact flushed_runLast s

theorem owes_keep (h : s.Owes) (progressive started : Bool) (m : Msg) : (s.keep cfg progressive started m).Owes := by
  unfold keep
  split
  · exact owes_flush _
  · exact owes_runLast h

theorem flushed_takeMsg (index : ℕ) (startedLast : Bool) (s : State) :
    (s.takeMsg cfg index startedLast).Flushed ↔ s.Flushed := by
  unfold takeMsg
  rw [flushed_queueMessage]
  exact flushed_of_silent _ _ [.cut (s.next index)] rfl (by simp)

theorem owes_takeMsg (h : s.Owes) (index : ℕ) (startedLast : Bool) : (s.takeMsg cfg index startedLast).Owes := by
  refine owes_queueMessage ?_ startedLast _
  exact (unflushed_append s.log [.cut (s.next index)]).trans h

theorem created_takeMsg (index : ℕ) (startedLast : Bool) (s : State) : (s.takeMsg cfg index startedLast).created = 0 ↔
      s.created = 0 ∧ (s.lastMsg = none ∨ cfg.usercodeInCoroutine = true ∨ startedLast = false) := by
  unfold takeMsg
  cases hl : s.lastMsg with
  | none => simp [queueMessage, emit]
  | some =>
    simp only [queueMessage]
    split
    · next h => simp [h.1, h.2]
    · next h =>
      have h' : cfg.usercodeInCoroutine = true ∨ startedLast = false := by
        cases hu : cfg.usercodeInCoroutine <;> cases startedLast <;> simp_all
      simp [emit, h']

theorem flushed_giveUp (s : State) : s.giveUp.Flushed ↔ s.Flushed ∧ unflushed s.log = 0 :=
  (flushed_runLast _).trans (flushed_returned s false)

theorem flushed_done (h : s.Owes) (readEof : Bool) : (s.done readEof).Flushed ↔ s.Flushed := by
  have key : ((if s.created ≠ 0 then s.flush else s).emit [.returned true]).Flushed ↔ s.Flushed := by
    rw [flushed_returned]
    split
    · rw [flushed_of_silent s s.flush [.flush] rfl (by simp)]
      exact and_iff_left (owes_flush s)
    · next h' => exact and_iff_left (h.trans (not_not.mp h'))
  cases readEof with
  | false => exact key
  | true => exact (flushed_runLast _).trans key

/-! ### Steps -/

/-- `num_bthread_created` is right while `ProcessNewMessage` runs, and nothing is left to
flush before the next call. -/
def State.Counted (s : State) : Prop :=
  match s.phase with
  | .processing _ => s.Owes
  | .over => True
  | _ => unflushed s.log = 0

/-- The step does not return -1 with a bthread to be flushed. -/
def Prompt (cfg : Config) (s : State) (i : Input) : Prop :=
  match i, s.phase with
  | .cut .error, .processing _ => s.created = 0
  | .cut (.msg index startedLast verified _ _), .processing _ =>
    cfg.hasVerify index = true ∧ s.auth = none ∧ verified = false →
      s.created = 0 ∧ (s.lastMsg = none ∨ cfg.usercodeInCoroutine = true ∨ startedLast = false)
  | _, _ => True

theorem flushed_onMsg (h : s.Owes) (index : ℕ) (startedLast verified progressive started : Bool) :
    (s.onMsg cfg index startedLast verified progressive started).Flushed ↔ s.Flushed ∧
      (cfg.hasVerify index = true ∧ s.auth = none ∧ verified = false → s.created = 0 ∧
          (s.lastMsg = none ∨ cfg.usercodeInCoroutine = true ∨ startedLast = false)) := by
  have htake := @flushed_takeMsg cfg index startedLast s
  have howes := @owes_takeMsg cfg s h index startedLast
  unfold onMsg
  split
  · next hv =>
    split
    · next hok =>
      rw [flushed_keep, flushed_of_silent _ (acceptAuth _ _) [.verify _ true] rfl (by simp), htake]
      simp [hok]
    · next hfail =>
      have hlog : unflushed ((s.takeMsg cfg index startedLast).rejectAuth (s.next index)).log =
          (s.takeMsg cfg index startedLast).created := (unflushed_append _ _).trans howes
      rw [flushed_giveUp, hlog, created_takeMsg, flushed_of_silent _ (rejectAuth _ _)
        [.verify _ false, .destroy _] rfl (by simp), htake]
      simp [hv.1, hv.2, hfail]
  · next hv =>
    rw [flushed_keep, htake]
    refine (and_iff_left fun h' => ?_).symm
    exact absurd ⟨h'.1, h'.2.1⟩ hv

/-- **A step keeps the flushes exactly when it is prompt.** -/
theorem step_flushed (h : s.Counted) (i : Input) : (s.step cfg i).Flushed ↔ s.Flushed ∧ Prompt cfg s i := by
  unfold step
  split
  · next m =>
    refine Iff.trans ?_ (and_iff_left trivial).symm
    unfold work
    split
    · exact flushed_of_silent _ _ [.process m] rfl (by simp)
    · rfl
  · exact (and_iff_left trivial).symm
  · exact (and_iff_left trivial).symm
  · exact (and_iff_left trivial).symm
  · exact (flushed_runLast s).trans (and_iff_left trivial).symm
  · exact (flushed_runLast s).trans (and_iff_left trivial).symm
  · next c eof hp =>
    have howes : s.Owes := by
      unfold Counted at h
      rwa [hp] at h
    cases c with
    | notEnoughData =>
      exact (flushed_done howes eof).trans (and_iff_left (by simp [Prompt])).symm
    | error =>
      refine (flushed_giveUp s).trans ?_
      rw [show unflushed s.log = s.created from howes]
      simp [Prompt, hp]
    | null => exact (and_iff_left (by simp [Prompt])).symm
    | msg =>
      refine (flushed_onMsg howes ..).trans ?_
      simp [Prompt, hp]
  · next h₁ h₂ h₃ h₄ h₅ h₆ h₇ =>
    refine (and_iff_left ?_).symm
    unfold Prompt
    split
    · next hp => exact absurd hp (h₇ _ _ rfl)
    · next hp => exact absurd hp (h₇ _ _ rfl)
    · trivial

theorem counted_of_processing (s : State) (eof : Bool) (hp : s.phase = .processing eof) : s.Counted ↔ s.Owes := by
  rw [Counted, hp]

theorem counted_done (h : s.Owes) (readEof : Bool) : (s.done readEof).Counted := by
  cases readEof with
  | true => trivial
  | false =>
    have key : unflushed (if s.created ≠ 0 then s.flush else s).log = 0 := by
      split
      · exact owes_flush s
      · next h' => exact h.trans (not_not.mp h')
    exact (unflushed_append _ [.returned true]).trans key

theorem counted_onMsg (h : s.Owes) {eof : Bool} (hp : s.phase = .processing eof) (index : ℕ)
    (startedLast verified progressive started : Bool) :
    (s.onMsg cfg index startedLast verified progressive started).Counted := by
  have howes := @owes_takeMsg cfg s h index startedLast
  unfold onMsg
  split
  · split
    · refine (counted_of_processing _ eof ?_).mpr (owes_keep ?_ ..)
      · simp [acceptAuth, emit, hp]
      · exact (unflushed_append _ [.verify _ true]).trans howes
    · trivial
  · exact (counted_of_processing _ eof (by simp [hp])).mpr (owes_keep howes ..)

theorem step_counted (h : s.Counted) (i : Input) : (s.step cfg i).Counted := by
  unfold step
  split
  · next m =>
    unfold work
    split
    · have hlog : unflushed (s.log ++ [.process m]) = unflushed s.log := unflushed_append ..
      unfold Counted Owes emit at *
      simp only [hlog]
      exact h
    · exact h
  · next hp =>
    rw [Counted, hp] at h
    exact h
  · next hp =>
    rw [Counted, hp] at h
    exact h
  · next hp =>
    rw [Counted, hp] at h
    exact h
  · next hp =>
    rw [Counted, hp] at h
    unfold runLast
    split
    · exact h
    · next l _ => exact (unflushed_append s.log [.process l]).trans h
  · trivial
  · next c eof hp =>
    have howes := (counted_of_processing s eof hp).mp h
    cases c with
    | notEnoughData => exact counted_done howes eof
    | error => trivial
    | null => exact h
    | msg => exact counted_onMsg howes hp ..
  · exact h

/-- **Every message is processed once**: it was processed or destroyed, or waits to be processed;
it is destroyed when its authentication has failed, and none is left in `last_msg`; one `verify`
succeeds at most, before any message that needs it is processed; and every bthread is flushed. -/
structure ProcessedOnce (cfg : Config) (s : State) : Prop where
  once : ∀ m, s.log.count (.process m) + s.log.count (.destroy m) + s.waiting.count m = s.log.count (.cut m)
  cutOnce : ∀ m, s.log.count (.cut m) ≤ 1
  destroyed : ∀ m, s.log.count (.destroy m) = s.log.count (.verify m false)
  lastMsg_eq_none : s.phase = .idle ∨ s.phase = .over → s.lastMsg = none
  verifiedOnce : s.log.countP Effect.isVerified ≤ 1
  verifiedFirst : Lib.Guarded (VerifiedFirst cfg) s.log
  flushed : s.Flushed

/-- What holds in every state reached. -/
structure Inv (cfg : Config) (s : State) : Prop where
  base : Base cfg [] s
  ended : Ended s
  counted : s.Counted

theorem inv_step (h : Inv cfg s) (i : Input) : Inv cfg (s.step cfg i) :=
  have hbase := step_base h.base h.ended i
  ⟨hbase.1, hbase.2, step_counted h.counted i⟩

theorem inv_start (cfg : Config) : Inv cfg start := ⟨base_start cfg, ⟨by simp [start], by simp [start]⟩, rfl⟩

theorem processedOnce_iff (h : Inv cfg s) : ProcessedOnce cfg s ↔ s.Flushed := by
  refine ⟨fun h' => h'.flushed, fun hflushed => ?_⟩
  refine ⟨fun m => ?_, h.base.cutOnce, h.base.destroyed, h.ended.lastMsg_eq_none, ?_, h.base.guarded, hflushed⟩
  · simpa using h.base.accounted m
  · rw [h.base.verified]
    exact Bool.toNat_le _

/-- **Every message is processed once, and every bthread is flushed, in a run whose steps are
prompt, and in no other.** -/
theorem messages_processed_once (cfg : Config) (is : List Input) :
    ProcessedOnce cfg (Lib.run (step cfg) start is) ↔ Lib.Along (step cfg) (Prompt cfg) start is := by
  have hinv : Inv cfg (Lib.run (step cfg) start is) :=
    Lib.run_invariant' (I := Inv cfg) (fun _ i h => inv_step h i) is (inv_start cfg)
  rw [processedOnce_iff hinv, Lib.run_iff_along (fun _ i h => inv_step h i)
    (fun _ i h => step_flushed h.counted i) is start (inv_start cfg)]
  exact and_iff_right trivial

/-- Two messages and an error in one read: the bthread of the first message is started, and not
flushed. -/
theorem error_after_messages_not_flushed :
    let cfg : Config := { hasVerify := fun _ => false, usercodeInCoroutine := false }
    let m : Msg := { id := 0, index := 1 }
    let m' : Msg := { id := 1, index := 1 }
    (Lib.run (step cfg) start [.readable, .read, .cut (.msg 1 true true false true),
      .cut (.msg 1 true true false true), .cut .error]).log =
      [.cut m, .cut m', .start m, .returned false, .process m'] := by
  decide

end Brpc.Messenger.Process
