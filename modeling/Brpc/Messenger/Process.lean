/-
# What becomes of the messages

`InputMessenger::OnNewMessages` and `ProcessNewMessage` in `src/brpc/input_messenger.cpp`, with
`QueueMessage` and `InputMessageClosure`.  The last message cut is kept in `last_msg`, to be
processed in place when `OnNewMessages` returns; the one kept before gets a bthread that workers
need not see before `bthread_flush`.  A step is one round of one of the two loops, or a worker that
runs a bthread.
-/

import Brpc.Lib.Run

namespace Brpc.Messenger.Process

/-- A message with the index of its handler; `id` counts the messages of the socket. -/
structure Msg where
  id : ℕ
  index : ℕ
  deriving DecidableEq

inductive Effect
  /-- `CutInputMessage` returns the message. -/
  | cut (m : Msg)
  /-- `bthread_start_background` with `BTHREAD_NOSIGNAL`. -/
  | start (m : Msg)
  | flush
  /-- `ProcessInputMessage`, here or in a bthread. -/
  | process (m : Msg)
  /-- The `DestroyingPtr` still has the message. -/
  | destroy (m : Msg)
  | verify (m : Msg) (ok : Bool)
  /-- `ProcessNewMessage` returns, 0 or -1. -/
  | returned (ok : Bool)
  deriving DecidableEq

/-- Where the thread that reads the socket is. -/
inductive Phase
  /-- There is none: `OnNewMessages` is not running. -/
  | idle
  /-- `OnNewMessages`, before `DoRead`. -/
  | reading
  /-- `ProcessNewMessage`, before `CutInputMessage`. -/
  | processing (readEof : Bool)
  /-- `OnNewMessages` has returned without having taken note of all events, so it is not
  started again. -/
  | over
  deriving DecidableEq

structure Config where
  /-- `_handlers[index].verify != NULL`. -/
  hasVerify : ℕ → Bool
  /-- `FLAGS_usercode_in_coroutine`. -/
  usercodeInCoroutine : Bool

/-- What a call of `CutInputMessage` answers, with the answers behind it. -/
inductive Cut
  /-- `PARSE_ERROR_NOT_ENOUGH_DATA`. -/
  | notEnoughData
  /-- Any other error. -/
  | error
  /-- A `NULL` message. -/
  | null
  /-- A message: whether the bthread of the message kept before is started, what `verify` answers,
  `is_read_progressive()`, and whether the bthread of a progressive message is started. -/
  | msg (index : ℕ) (startedLast verified progressive started : Bool)
  deriving DecidableEq

inductive Input
  /-- The socket becomes readable. -/
  | readable
  /-- `DoRead` returns bytes. -/
  | read
  /-- `DoRead` returns 0. -/
  | eof
  /-- `EINTR`, or `EAGAIN` with new events. -/
  | retry
  /-- `EAGAIN` without new events. -/
  | again
  /-- Any other error of `DoRead`. -/
  | readError
  | cut (c : Cut)
  /-- A worker runs the bthread of `m`. -/
  | work (m : Msg)
  deriving DecidableEq

structure State where
  phase : Phase
  lastMsg : Option Msg
  /-- The bthreads that were started and have not run. -/
  bthreads : List Msg
  /-- `num_bthread_created`. -/
  created : ℕ
  /-- `_auth_flag_error`: whether the authentication succeeded. -/
  auth : Option Bool
  /-- The number of messages cut. -/
  nmsg : ℕ
  log : List Effect

def start : State :=
  { phase := .idle, lastMsg := none, bthreads := [], created := 0, auth := none, nmsg := 0
    log := [] }

namespace State

variable (cfg : Config) (m : Msg) (s : State) (index : ℕ)

def emit (es : List Effect) : State := { s with log := s.log ++ es }

def queueMessage (started : Bool) (s : State) : Option Msg → State
  | none => s
  | some m =>
    if ¬ cfg.usercodeInCoroutine ∧ started then
      { s.emit [.start m] with bthreads := s.bthreads ++ [m], created := s.created + 1 }
    else s.emit [.process m]

/-- `~InputMessageClosure`. -/
def runLast : State :=
  match s.lastMsg with
  | none => s
  | some m => { s.emit [.process m] with lastMsg := none }

/-- `InputMessageClosure::reset`. -/
def resetLast (m : Msg) : State := { s.runLast with lastMsg := some m }

def flush (s : State) : State := { s.emit [.flush] with created := 0 }

/-- `ProcessNewMessage` returns -1, and `OnNewMessages` with it. -/
def giveUp : State := { (s.emit [.returned false]).runLast with phase := .over }

/-- `ProcessNewMessage` returns 0. -/
def done (readEof : Bool) (s : State) : State :=
  let s := (if s.created ≠ 0 then s.flush else s).emit [.returned true]
  if readEof then { s.runLast with phase := .over } else { s with phase := .reading }

/-- The end of a round with the message `m`. -/
def keep (progressive started : Bool) (m : Msg) (s : State) : State :=
  if progressive then (s.queueMessage cfg started (some m)).flush else s.resetLast m

/-- The message that is cut next. -/
def next : Msg := { id := s.nmsg, index := index }

/-- A message is cut, and the one kept before is queued. -/
def takeMsg (startedLast : Bool) (s : State) : State :=
  queueMessage cfg startedLast { s.emit [.cut (s.next index)] with nmsg := s.nmsg + 1, lastMsg := none } s.lastMsg

/-- `verify` returns true and `SetAuthentication(0)` is called. -/
def acceptAuth : State :=
  { s.emit [.verify m true] with auth := some true }

/-- `verify` returns false and `SetAuthentication(ERPCAUTH)` is called. -/
def rejectAuth : State :=
  { s.emit [.verify m false, .destroy m] with auth := some false }

/-- The round of a message.  `FightAuthentication` gives the right to authenticate once. -/
def onMsg (startedLast verified progressive started : Bool) (s : State) : State :=
  if cfg.hasVerify index ∧ s.auth = none then
    if verified then
      ((s.takeMsg cfg index startedLast).acceptAuth (s.next index)).keep cfg progressive started (s.next index)
    else ((s.takeMsg cfg index startedLast).rejectAuth (s.next index)).giveUp
  else (s.takeMsg cfg index startedLast).keep cfg progressive started (s.next index)

def onCut (readEof : Bool) (s : State) : Cut → State
  | .notEnoughData => s.done readEof
  | .error => s.giveUp
  | .null => s
  | .msg index startedLast verified progressive started =>
    s.onMsg cfg index startedLast verified progressive started

/-- A worker runs the bthread of `m`, if there is one. -/
def work (m : Msg) : State :=
  if m ∈ s.bthreads then { s.emit [.process m] with bthreads := s.bthreads.erase m } else s

/-- One step; an input that does not fit the phase is no step. -/
def step (i : Input) : State :=
  match i, s.phase with
  | .work m, _ => s.work m
  | .readable, .idle => { s with phase := .reading }
  | .read, .reading => { s with phase := .processing false, created := 0 }
  | .eof, .reading => { s with phase := .processing true, created := 0 }
  | .again, .reading => { s.runLast with phase := .idle }
  | .readError, .reading => { s.runLast with phase := .over }
  | .cut c, .processing readEof => s.onCut cfg readEof c
  | _, _ => s

end State

/-! ## Every message is processed once -/

open List State Effect

/-- `verify` has succeeded. -/
def Effect.isVerified : Effect → Bool
  | .verify _ ok => ok
  | _ => false

/-- A message whose handler has a `verify` is processed after one has succeeded. -/
def VerifiedFirst (cfg : Config) : Effect → List Effect → Prop
  | .process m, before => cfg.hasVerify m.index → 0 < before.countP Effect.isVerified
  | _, _ => True

/-- The messages that wait to be processed. -/
def State.waiting (s : State) : List Msg := s.bthreads ++ s.lastMsg.toList

/-- The account of the messages. -/
structure Base (cfg : Config) (hand : List Msg) (s : State) : Prop where
  accounted : ∀ m, s.log.count (.process m) + s.log.count (.destroy m) +
    (s.waiting.count m + hand.count m) = s.log.count (.cut m)
  cutOnce : ∀ m, s.log.count (.cut m) ≤ 1
  fresh : ∀ m, .cut m ∈ s.log → m.id < s.nmsg
  destroyed : ∀ m, s.log.count (.destroy m) = s.log.count (.verify m false)
  verified : s.log.countP Effect.isVerified = (s.auth.getD false).toNat
  cleared : ∀ m ∈ s.waiting, cfg.hasVerify m.index → s.auth = some true
  guarded : Lib.Guarded (VerifiedFirst cfg) s.log

variable {cfg : Config} {hand : List Msg} {s : State} {m : Msg}

theorem base_start (cfg : Config) : Base cfg [] start :=
  ⟨by simp [start, waiting], by simp [start], by simp [start], by simp [start],
    by simp [start], by simp [start, waiting], trivial⟩

namespace State

@[simp] theorem runLast_lastMsg (s : State) : s.runLast.lastMsg = none := by
  unfold runLast
  split <;> simp_all

@[simp] theorem runLast_auth (s : State) : s.runLast.auth = s.auth := by
  unfold runLast
  split <;> rfl

@[simp] theorem runLast_phase (s : State) : s.runLast.phase = s.phase := by
  unfold runLast
  split <;> rfl

section

variable (cfg : Config)

@[simp] theorem queueMessage_auth (started : Bool) (s : State) (o : Option Msg) :
    (s.queueMessage cfg started o).auth = s.auth := by
  cases o with
  | none => rfl
  | some =>
    simp only [queueMessage]
    split <;> rfl

@[simp] theorem queueMessage_phase (started : Bool) (s : State) (o : Option Msg) :
    (s.queueMessage cfg started o).phase = s.phase := by
  cases o with
  | none => rfl
  | some =>
    simp only [queueMessage]
    split <;> rfl

@[simp] theorem takeMsg_auth (index : ℕ) (startedLast : Bool) (s : State) :
    (s.takeMsg cfg index startedLast).auth = s.auth := queueMessage_auth ..

@[simp] theorem takeMsg_phase (index : ℕ) (startedLast : Bool) (s : State) :
    (s.takeMsg cfg index startedLast).phase = s.phase := queueMessage_phase ..

@[simp] theorem keep_auth (progressive started : Bool) (m : Msg) (s : State) :
    (s.keep cfg progressive started m).auth = s.auth := by
  unfold keep
  split
  · exact queueMessage_auth ..
  · exact runLast_auth s

@[simp] theorem keep_phase (progressive started : Bool) (m : Msg) (s : State) :
    (s.keep cfg progressive started m).phase = s.phase := by
  unfold keep
  split
  · exact queueMessage_phase ..
  · exact runLast_phase s

end

@[simp] theorem done_auth (readEof : Bool) (s : State) : (s.done readEof).auth = s.auth := by
  have hflush : (if s.created ≠ 0 then s.flush else s).auth = s.auth := by split <;> rfl
  cases readEof with
  | false => exact hflush
  | true => exact (runLast_auth _).trans hflush

end State

namespace Base

section

variable (h : Base cfg hand s)
include h

theorem emitted {es : List Effect} {left : List Msg} (auth : Option Bool)
    (hleft : ∀ x, es.count (.process x) + es.count (.destroy x) + left.count x = hand.count x)
    (hcut : ∀ x, .cut x ∉ es) (hdestroyed : ∀ x, es.count (.destroy x) = es.count (.verify x false))
    (hverified : s.log.countP isVerified + es.countP isVerified = (auth.getD false).toNat)
    (hcleared : ∀ m ∈ s.waiting, cfg.hasVerify m.index → auth = some true)
    (hguarded : ∀ e ∈ es, ∀ pre, s.log <+: pre → VerifiedFirst cfg e pre) :
    Base cfg left { s.emit es with auth := auth } := by
  have hnone := fun x => count_eq_zero.2 (hcut x)
  refine ⟨fun x => ?_, fun x => ?_, fun x hx => ?_, fun x => ?_, ?_, hcleared, h.guarded.append hguarded⟩
  · have := h.accounted x
    have := hleft x
    simp only [emit, waiting, count_append, hnone] at this ⊢
    simp only [waiting, count_append] at *
    omega
  · simpa [emit, hnone] using h.cutOnce x
  · exact h.fresh x ((mem_append.1 hx).resolve_right (hcut x))
  · simp only [emit, count_append, h.destroyed, hdestroyed]
  · simpa only [emit, countP_append] using hverified

theorem quiet {e : Effect} (he : e = .flush ∨ (∃ m, e = .start m) ∨ ∃ ok, e = .returned ok) :
    Base cfg hand (s.emit [e]) := by
  have hverified := h.verified
  refine h.emitted s.auth ?_ ?_ ?_ ?_ h.cleared ?_ <;> rcases he with rfl | ⟨m, rfl⟩ | ⟨ok, rfl⟩ <;>
    simp [hverified, isVerified, VerifiedFirst]

theorem flushed : Base cfg hand s.flush := by
  have := h.quiet (e := .flush) (by simp)
  exact { this with }

theorem returned (ok : Bool) : Base cfg hand (s.emit [.returned ok]) := h.quiet (by simp)

omit h in
theorem processed (h : Base cfg (m :: hand) s) (hm : cfg.hasVerify m.index → s.auth = some true) :
    Base cfg hand (s.emit [.process m]) := by
  refine h.emitted s.auth (by simp [count_cons, Nat.add_comm]) (by simp) (by simp)
    (by simpa [isVerified] using h.verified) h.cleared fun e he pre hpre => ?_
  rw [mem_singleton.1 he]
  intro hv
  have hlog : s.log.countP isVerified = 1 := by rw [h.verified, hm hv]; rfl
  have := hpre.sublist.countP_le (p := isVerified)
  omega

omit h in
theorem queued (h : Base cfg (m :: hand) s) (hm : cfg.hasVerify m.index → s.auth = some true)
    (started : Bool) : Base cfg hand (s.queueMessage cfg started (some m)) := by
  simp only [queueMessage]
  split
  · have hs := h.quiet (e := .start m) (by simp)
    refine { hs with accounted := fun x => ?_, cleared := fun x hx hv => ?_ }
    · have := hs.accounted x
      simp only [waiting, count_append, count_cons, count_nil] at this ⊢
      rw [← this]
      simp only [emit]
      omega
    · simp only [waiting, emit, mem_append, mem_singleton] at hx
      rcases hx with (hx | rfl) | hx
      · exact h.cleared x (mem_append_left _ hx) hv
      · exact hm hv
      · exact h.cleared x (mem_append_right _ hx) hv
  · exact h.processed hm

theorem released (started : Bool) : Base cfg hand (queueMessage cfg started { s with lastMsg := none } s.lastMsg) := by
  cases hl : s.lastMsg with
  | none =>
    have hs : { s with lastMsg := none } = s := by rw [← hl]
    rw [queueMessage, hs]
    exact h
  | some l =>
    have hbase : Base cfg (l :: hand) { s with lastMsg := none } := by
      refine { h with accounted := fun x => ?_, cleared := ?_ }
      · have := h.accounted x
        simp only [hl, waiting, Option.toList, count_append, count_cons, count_nil] at this ⊢
        omega
      · intro x hx
        exact h.cleared x (mem_append_left _ (by simpa [waiting] using hx))
    exact hbase.queued (h.cleared l (by simp [waiting, hl])) started

theorem ranLast : Base cfg hand s.runLast := by
  unfold runLast
  split
  · exact h
  · next l hl =>
    -- the same as queuing it with a bthread that does not start
    have := h.released false
    rw [hl, queueMessage, if_neg (by simp)] at this
    exact this

theorem cut (hm : m.id = s.nmsg) : Base cfg (m :: hand) { s.emit [.cut m] with nmsg := s.nmsg + 1 } := by
  have hnew : s.log.count (.cut m) = 0 := by
    rw [count_eq_zero]
    intro hmem
    exact absurd (h.fresh m hmem) (by omega)
  refine ⟨?_, ?_, ?_, ?_, ?_, h.cleared, ?_⟩
  · intro x
    have := h.accounted x
    simp only [emit, waiting, count_append, count_cons, count_nil,
      beq_iff_eq, cut.injEq, reduceCtorEq, if_false] at this ⊢
    omega
  · intro x
    have := h.cutOnce x
    simp only [emit, count_append, count_cons, count_nil, beq_iff_eq, cut.injEq]
    split
    · next hx =>
      subst hx
      omega
    · omega
  · intro x hx
    simp only [emit, mem_append, mem_singleton, cut.injEq] at hx
    rcases hx with hx | rfl
    · exact Nat.lt_succ_of_lt (h.fresh x hx)
    · exact hm ▸ Nat.lt_succ_self _
  · intro x
    simpa [emit] using h.destroyed x
  · simpa [emit, isVerified] using h.verified
  · refine h.guarded.append ?_
    intro e he pre _
    rw [mem_singleton.mp he]
    trivial

theorem accepted (hauth : s.auth = none) : Base cfg hand (s.acceptAuth m) := by
  have hverified := h.verified
  refine h.emitted (some true) (by simp) (by simp) (by simp) ?_ (fun _ _ _ => rfl) ?_
  · simp [hverified, hauth, isVerified]
  · simp [VerifiedFirst]

end

theorem rejected (h : Base cfg (m :: hand) s) (hauth : s.auth = none) : Base cfg hand (s.rejectAuth m) := by
  have hverified := h.verified
  refine h.emitted (some false) (by simp [count_cons, Nat.add_comm]) (by simp) (by simp [count_cons]) ?_
    (fun x hx hv => ?_) ?_
  · simp [hverified, hauth, isVerified]
  · exact absurd (h.cleared x hx hv) (by simp [hauth])
  · simp [VerifiedFirst]

theorem kept (h : Base cfg (m :: hand) s) (hm : cfg.hasVerify m.index → s.auth = some true)
    (progressive started : Bool) : Base cfg hand (s.keep cfg progressive started m) := by
  unfold keep
  split
  · exact (h.queued hm started).flushed
  · have hran := h.ranLast
    refine { hran with accounted := fun x => ?_, cleared := fun x hx hv => ?_ }
    · have := hran.accounted x
      simp only [waiting, runLast_lastMsg, resetLast, Option.toList, count_append, count_cons, count_nil] at this ⊢
      omega
    · simp only [waiting, resetLast, Option.toList, mem_append, mem_singleton] at hx
      rcases hx with hx | rfl
      · exact hran.cleared x (mem_append_left _ hx) hv
      · exact s.runLast_auth.trans (hm hv)

theorem worked (h : Base cfg hand s) (m : Msg) : Base cfg hand (s.work m) := by
  unfold work
  split
  · next hmem =>
    have hbase : Base cfg (m :: hand) { s with bthreads := s.bthreads.erase m } := by
      refine { h with accounted := fun x => ?_, cleared := fun x hx => ?_ }
      · have := h.accounted x
        have hperm := (perm_cons_erase hmem).count_eq x
        simp only [waiting, count_append, count_cons] at this hperm ⊢
        omega
      · refine h.cleared x ?_
        simp only [waiting, mem_append] at hx ⊢
        exact hx.imp_left mem_of_mem_erase
    exact hbase.processed (h.cleared m (mem_append_left _ hmem))
  · exact h

end Base

/-- A failed authentication ends `OnNewMessages`, and its end leaves no message behind. -/
structure Ended (s : State) : Prop where
  over_of_failed : s.auth = some false → s.phase = .over
  lastMsg_eq_none : s.phase = .idle ∨ s.phase = .over → s.lastMsg = none

theorem base_giveUp (h : Base cfg [] s) : Base cfg [] s.giveUp := by
  have := (h.returned false).ranLast
  exact { this with }

theorem ended_giveUp (s : State) : Ended s.giveUp := ⟨fun _ => rfl, fun _ => runLast_lastMsg _⟩

theorem base_done (h : Base cfg [] s) (readEof : Bool) : Base cfg [] (s.done readEof) := by
  have hflush : Base cfg [] (if s.created ≠ 0 then s.flush else s) := by
    split
    · exact h.flushed
    · exact h
  have hret := hflush.returned true
  cases readEof with
  | false => exact { hret with }
  | true =>
    have := hret.ranLast
    exact { this with }

theorem ended_done (h : Ended s) (hp : s.phase ≠ .over) (readEof : Bool) : Ended (s.done readEof) := by
  have hauth : s.auth ≠ some false := fun h' => hp (h.over_of_failed h')
  refine ⟨fun h' => absurd (s.done_auth readEof ▸ h') hauth, fun h' => ?_⟩
  cases readEof with
  | true => exact runLast_lastMsg _
  | false => simp [done] at h'

theorem base_onMsg (h : Base cfg [] s) (hauth : s.auth ≠ some false) (index : ℕ)
    (startedLast verified progressive started : Bool) :
    Base cfg [] (s.onMsg cfg index startedLast verified progressive started) := by
  have htake : Base cfg [s.next index] (s.takeMsg cfg index startedLast) := (h.cut rfl).released startedLast
  unfold onMsg
  split
  · next hv =>
    have hnone := (s.takeMsg_auth cfg index startedLast).trans hv.2
    split
    · exact (htake.accepted hnone).kept (fun _ => rfl) progressive started
    · exact base_giveUp (htake.rejected hnone)
  · next hv =>
    refine htake.kept (fun hm => ?_) progressive started
    -- the handler has a `verify`, so there is an authentication, and it did not fail
    rw [takeMsg_auth]
    match hs : s.auth with
    | none => exact absurd ⟨hm, hs⟩ hv
    | some false => exact absurd hs hauth
    | some true => rfl

theorem ended_onMsg (hauth : s.auth ≠ some false) {eof : Bool} (hp : s.phase = .processing eof)
    (index : ℕ) (startedLast verified progressive started : Bool) :
    Ended (s.onMsg cfg index startedLast verified progressive started) := by
  unfold onMsg
  split
  · split
    · refine ⟨fun h' => ?_, fun h' => ?_⟩
      · simp [acceptAuth] at h'
      · simp [acceptAuth, emit, hp] at h'
    · exact ended_giveUp _
  · exact ⟨fun h' => absurd (by simpa using h') hauth, fun h' => by simp [hp] at h'⟩

/-- **A step keeps the account.** -/
theorem step_base (h : Base cfg [] s) (he : Ended s) (i : Input) :
    Base cfg [] (s.step cfg i) ∧ Ended (s.step cfg i) := by
  have hran := h.ranLast
  unfold step
  split
  · next m =>
    refine ⟨h.worked m, ?_⟩
    unfold work
    split
    · exact { he with }
    · exact he
  iterate 3
    · next hp =>
      exact ⟨{ h with }, fun h' => absurd (he.over_of_failed h') (by simp [hp]), by simp⟩
  · next hp =>
    exact ⟨{ hran with },
      fun h' => absurd (he.over_of_failed (s.runLast_auth ▸ h')) (by simp [hp]),
      fun _ => s.runLast_lastMsg⟩
  · exact ⟨{ hran with }, fun _ => rfl, fun _ => s.runLast_lastMsg⟩
  · next c eof hp =>
    have hauth : s.auth ≠ some false := fun h' => by simp [he.over_of_failed h'] at hp
    cases c with
    | notEnoughData => exact ⟨base_done h eof, ended_done he (by simp [hp]) eof⟩
    | error => exact ⟨base_giveUp h, ended_giveUp s⟩
    | null => exact ⟨h, he⟩
    | msg =>
      exact ⟨base_onMsg h hauth .., ended_onMsg hauth hp ..⟩
  · exact ⟨h, he⟩

end Brpc.Messenger.Process
