/-
# Credit under interleaving

`H2StreamContext::ConsumeWindowSize` in `brpc/policy/http2_rpc_protocol.cpp` takes a size from
the stream's window and from the connection's in several atomic steps, while the reader adds to
them (`AddWindowSize`).  `step` takes one load, `fetch_add` or `fetch_sub`.
-/

import Brpc.Http2.Context

namespace Brpc.Http2.Credit

open Function
open Context (addWindowSize addAccepted consumeWindowSize)

/-- `_remote_window_left` of the connection or of a stream. -/
inductive Window where
  | conn
  | stream (streamId : ℕ)
deriving DecidableEq

/-- The atomic step `ConsumeWindowSize` takes next. -/
inductive Stage where
  /-- the load of the stream's window -/
  | loadStream
  /-- the load in `MinusWindowSize` -/
  | loadConn
  /-- the `fetch_sub` in `MinusWindowSize` -/
  | subConn
  /-- the `fetch_add` in `MinusWindowSize` -/
  | undoConn
  /-- the `fetch_sub` of the stream's window -/
  | subStream
  /-- the `fetch_add` of the stream's window -/
  | undoStream

/-- A call of `ConsumeWindowSize` in flight. -/
structure Call where
  streamId : ℕ
  size : ℤ
  stage : Stage := .loadStream

/-- What has happened. -/
inductive Event where
  /-- `ConsumeWindowSize` has returned `ok` -/
  | returned (streamId : ℕ) (size : ℤ) (ok : Bool)
  /-- `AddWindowSize` has returned `accepted` -/
  | added (w : Window) (diff : ℤ) (accepted : Bool)
deriving DecidableEq

/-- The windows, and the call the writer is in. -/
structure State where
  window : Window → ℤ
  call : Option Call := none
  log : List Event := []

/-- A step of the writer or of the reader. -/
inductive Input where
  | consume (streamId : ℕ) (size : ℤ)
  | writer
  | add (w : Window) (diff : ℤ)

namespace State

/-- `fetch_add` and `fetch_sub` -/
def fetchAdd (s : State) (w : Window) (diff : ℤ) : State :=
  { s with window := update s.window w (s.window w + diff) }

/-- The call goes on. -/
def goto (s : State) (c : Call) (stage : Stage) : State := { s with call := some { c with stage := stage } }

/-- The call returns. -/
def ret (s : State) (c : Call) (ok : Bool) : State :=
  { s with call := none, log := s.log ++ [.returned c.streamId c.size ok] }

/-- One step of `ConsumeWindowSize`. -/
def writerStep (s : State) (c : Call) : State :=
  match c.stage with
  | .loadStream => if s.window (.stream c.streamId) < c.size then s.ret c false else s.goto c .loadConn
  | .loadConn => if s.window .conn < c.size then s.ret c false else s.goto c .subConn
  | .subConn =>
    if s.window .conn < c.size then (s.fetchAdd .conn (-c.size)).goto c .undoConn
    else (s.fetchAdd .conn (-c.size)).goto c .subStream
  | .undoConn => (s.fetchAdd .conn c.size).ret c false
  | .subStream =>
    if s.window (.stream c.streamId) - c.size < 0 then
      (s.fetchAdd (.stream c.streamId) (-c.size)).goto c .undoStream
    else (s.fetchAdd (.stream c.streamId) (-c.size)).ret c true
  | .undoStream => (s.fetchAdd (.stream c.streamId) c.size).ret c false

/-- One step.  The writer makes one call at a time. -/
def step (s : State) : Input → State
  | .consume streamId size =>
    match s.call with
    | none => { s with call := some { streamId := streamId, size := size } }
    | some _ => s
  | .writer =>
    match s.call with
    | none => s
    | some c => s.writerStep c
  | .add w diff =>
    let r := addWindowSize (s.window w) diff
    { s with window := update s.window w r.2, log := s.log ++ [.added w diff r.1] }

end State

/-! ### The account -/

/-- What an event has added to the account of a window. -/
def Event.credit (w : Window) : Event → ℤ
  | .returned streamId size ok => if ok ∧ (w = .conn ∨ w = .stream streamId) then -size else 0
  | .added w' diff accepted => if accepted ∧ w = w' then diff else 0

/-- What a call in flight has taken from a window. -/
def Call.taken (c : Call) (w : Window) : ℤ :=
  match c.stage with
  | .undoConn | .subStream => if w = .conn then c.size else 0
  | .undoStream => if w = .conn ∨ w = .stream c.streamId then c.size else 0
  | _ => 0

/-- The account of a window: what the events have added. -/
def account (w : Window) (log : List Event) : ℤ := (log.map (Event.credit w)).sum

/-- What the call in flight has taken, if there is one. -/
def inFlight (w : Window) : Option Call → ℤ
  | none => 0
  | some c => c.taken w

/-- Every window is what its account says. -/
def Conserved (initial : Window → ℤ) (s : State) : Prop :=
  ∀ w, s.window w = initial w + account w s.log - inFlight w s.call

/-- A step that keeps the account: an increment that is not refused, and no step that gives back to the stream only. -/
def Keeps (s : State) : Input → Prop
  | .consume _ _ => True
  | .writer => ∀ c, s.call = some c → c.stage = .undoStream → c.size = 0
  | .add w diff => addAccepted (s.window w) diff = true ∨ diff = 0

@[simp] theorem account_append (w : Window) (log : List Event) (e : Event) :
    account w (log ++ [e]) = account w log + e.credit w := by
  simp [account]

@[simp] theorem fetchAdd_window (s : State) (w w' : Window) (diff : ℤ) :
    (s.fetchAdd w diff).window w' = s.window w' + if w' = w then diff else 0 := by
  unfold State.fetchAdd
  by_cases h : w' = w
  · subst h
    simp
  · simp [h]

@[simp] theorem fetchAdd_log (s : State) (w : Window) (diff : ℤ) : (s.fetchAdd w diff).log = s.log := rfl

variable {initial : Window → ℤ} {s : State}

theorem conserved_ret (c : Call) (ok : Bool) : Conserved initial (s.ret c ok) ↔
    ∀ w, s.window w = initial w + account w s.log +
      if ok ∧ (w = .conn ∨ w = .stream c.streamId) then -c.size else 0 := by
  simp only [Conserved, State.ret, account_append, Event.credit, inFlight, sub_zero, add_assoc]

theorem conserved_goto (c : Call) (stage : Stage) : Conserved initial (s.goto c stage) ↔
    ∀ w, s.window w = initial w + account w s.log - Call.taken { c with stage := stage } w := Iff.rfl

/-- **A step of `ConsumeWindowSize`.** -/
theorem writerStep_conserved {c : Call} (h : Conserved initial s) (hc : s.call = some c) :
    Conserved initial (s.writerStep c) ↔ (c.stage = .undoStream → c.size = 0) := by
  have hwindow : ∀ w, s.window w = initial w + account w s.log - c.taken w := by
    intro w
    rw [h w, hc]
    rfl
  obtain ⟨streamId, size, stage⟩ := c
  unfold State.writerStep
  cases stage with
  | loadStream | loadConn =>
    simp only [reduceCtorEq, false_imp_iff, iff_true]
    split_ifs
    · exact (conserved_ret _ _).2 fun w => by simpa [Call.taken] using hwindow w
    · exact (conserved_goto _ _).2 hwindow
  | subConn =>
    simp only [reduceCtorEq, false_imp_iff, iff_true]
    split_ifs
    all_goals
      refine (conserved_goto _ _).2 fun w => ?_
      have := hwindow w
      simp only [Call.taken, sub_zero, fetchAdd_window, fetchAdd_log] at this ⊢
      split_ifs <;> omega
  | undoConn =>
    simp only [reduceCtorEq, false_imp_iff, iff_true]
    refine (conserved_ret _ _).2 fun w => ?_
    have := hwindow w
    simp only [Call.taken, fetchAdd_window, fetchAdd_log, Bool.false_eq_true, false_and, if_false] at this ⊢
    split_ifs at this ⊢ <;> omega
  | subStream =>
    simp only [reduceCtorEq, false_imp_iff, iff_true]
    split_ifs
    · refine (conserved_goto _ _).2 fun w => ?_
      have := hwindow w
      simp only [Call.taken, fetchAdd_window, fetchAdd_log] at this ⊢
      cases w <;> simp only [reduceCtorEq, false_or, true_or, if_true, if_false] at this ⊢
      · omega
      · split_ifs <;> omega
    · refine (conserved_ret _ _).2 fun w => ?_
      have := hwindow w
      simp only [Call.taken, fetchAdd_window, fetchAdd_log] at this ⊢
      cases w <;> simp only [reduceCtorEq, true_and, false_or, true_or, if_true, if_false] at this ⊢ <;> omega
  | undoStream =>
    simp only [true_imp_iff]
    rw [conserved_ret]
    constructor
    · intro hall
      have hconn := hall .conn
      have := hwindow .conn
      simp [Call.taken] at this hconn
      omega
    · rintro rfl w
      simpa [Call.taken] using hwindow w

theorem step_conserved (i : Input) (h : Conserved initial s) : Conserved initial (s.step i) ↔ Keeps s i := by
  cases i with
  | consume =>
    refine iff_of_true ?_ trivial
    cases hcall : s.call with
    | none =>
      intro w
      simp only [State.step, hcall]
      rw [h w, hcall]
      rfl
    | some =>
      simp only [State.step, hcall]
      exact h
  | writer =>
    unfold State.step Keeps
    cases hcall : s.call with
    | none =>
      refine iff_of_true h fun c hc => ?_
      cases hc
    | some =>
      simp only [Option.some.injEq, forall_eq']
      exact writerStep_conserved h hcall
  | add w =>
    constructor
    · intro hall
      have hadded := hall w
      have := h w
      simp only [State.step, addWindowSize, update_self, account_append, Event.credit] at hadded
      split_ifs at hadded with haccepted
      · exact .inl haccepted.1
      · exact .inr (by omega)
    · intro hkeeps w'
      have := h w'
      simp only [State.step, addWindowSize, account_append, Event.credit]
      by_cases hw : w' = w
      · subst hw
        rw [update_self]
        rcases hkeeps with haccepted | rfl
        · rw [if_pos ⟨haccepted, rfl⟩]
          omega
        · simpa using this
      · rw [update_of_ne hw, if_neg fun hand => hw hand.2]
        omega

/-- **Credit is conserved, all along a run, exactly if no increment is refused and no call finds the stream's window
too small after it has debited the connection.** -/
theorem credit_conserved_iff (initial : Window → ℤ) (is : List Input) :
    (∀ js, js <+: is → Conserved initial (Lib.run State.step { window := initial } js)) ↔
      Lib.Along State.step Keeps { window := initial } is :=
  Lib.along_iff_prefixes (fun _ i h => step_conserved i h) is _ fun w => by simp [account, inFlight]

/-- **A refused increment stays, and a debit of the connection is lost**: the connection refuses
one more byte; then the stream's window is lowered while a call has taken 10 bytes from the
connection. -/
theorem debit_lost :
    let s := Lib.run State.step { window := fun _ => 2147483647 } [.add .conn 1]
    let t := Lib.run State.step { window := fun _ => 10 }
      [.consume 1 10, .writer, .writer, .writer, .add (.stream 1) (-5), .writer, .writer]
    s.window .conn = 2147483648 ∧ s.log = [.added .conn 1 false] ∧ t.window .conn = 0 ∧
      t.log = [.added (.stream 1) (-5) true, .returned 1 10 false] := by
  decide

/-- With no other thread in between, a call does what `Context.consumeWindowSize` says. -/
theorem consume_alone (hcall : s.call = none) (streamId : ℕ) (size : ℤ) :
    let r := consumeWindowSize (s.window (.stream streamId)) (s.window .conn) size
    let s' := Lib.run State.step s [.consume streamId size, .writer, .writer, .writer, .writer]
    s'.window (.stream streamId) = r.2.1 ∧ s'.window .conn = r.2.2 ∧ s'.call = none ∧
      s'.log = s.log ++ [.returned streamId size r.1] := by
  simp only [Context.consumeWindowSize_eq]
  by_cases hstream : s.window (.stream streamId) < size
  · rw [if_neg (by omega)]
    simp [State.step, hcall, State.writerStep, hstream, State.ret]
  by_cases hconn : s.window .conn < size
  · rw [if_neg (by omega)]
    simp [State.step, hcall, State.writerStep, hstream, hconn, State.ret, State.goto]
  · rw [if_pos (by omega)]
    simp [State.step, hcall, State.writerStep, hstream, hconn, State.ret, State.goto, State.fetchAdd, sub_eq_add_neg]

end Brpc.Http2.Credit
