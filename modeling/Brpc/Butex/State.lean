/-
# Butexes and their waiters

`bthread/butex.cpp`: a butex is a word and a list of waiters under `waiter_lock`.  `butex_wait`
publishes a record in `TaskMeta::current_waiter` and queues it; wakers, the timer thread and
`TaskGroup::interrupt` remove it and make its owner ready.
-/

import Brpc.Lib.Run

namespace Brpc.Butex

open Function

/-- Who calls `butex_wait`: a bthread, a task in pthread mode, or a pthread without a group. -/
inductive Who
  | bthread (x : ℕ)
  | pthreadTask (x : ℕ)
  | pthread
  deriving DecidableEq

/-- The task whose `current_waiter` points to the record. -/
def Who.task : Who → Option ℕ
  | .bthread x | .pthreadTask x => some x
  | .pthread => none

/-- `tid` is not 0. -/
def Who.isBthread : Who → Bool
  | .bthread _ => true
  | _ => false

/-- `ButexWaiter::container`; a pthread's record starts with whatever was in memory. -/
inductive Container
  | unset
  | null
  | at (b : ℕ)
  deriving DecidableEq

inductive WaiterState
  | ready
  | timedOut
  | unmatchedValue
  | interrupted
  deriving DecidableEq

/-- The task of the timer thread that `sleep_id` stands for; `running` says on which thread. -/
inductive Timer
  | none
  | scheduled
  | running (k : ℕ)
  | done
  deriving DecidableEq

/-- What a call returns, with its errno. -/
inductive Rc
  | ok
  | timedOut
  | wouldBlock
  | interrupted
  deriving DecidableEq

/-- Who has removed a waiter: a call of a wake function, a timer, an interruption, or the waiter
itself. -/
inductive Party
  | waker (k : ℕ)
  | timer (k : ℕ)
  | interrupter (k : ℕ)
  | self

/-- Where the owner of a record is.  `abs` says that `abstime` is not NULL. -/
inductive Pc
  /-- The call has not been made. -/
  | init
  /-- About to store `current_waiter`. -/
  | publish
  /-- The section of `butex_wait_from_pthread`. -/
  | enter
  /-- A bthread that has given up its worker. -/
  | suspended
  /-- The loop over `unsleep_if_necessary`. -/
  | unsleep
  /-- `wait_pthread`, about to call `futex_wait_private`. -/
  | futexCall (abs : Bool)
  | futexSleep (abs : Bool)
  /-- It has returned; the load of `sig` comes next. -/
  | loadSig (abs : Bool) (rc : Rc)
  /-- `erase_from_butex(&pw, false, ..)` after a timeout. -/
  | eraseLoad
  | eraseLock (b : ℕ)
  /-- The load of `sig` when someone else has erased it. -/
  | loadSigAgain
  /-- The loop over `current_waiter.exchange(NULL)`. -/
  | takeBack (rc : Rc)
  /-- Reading `interrupted` and `waiter_state`. -/
  | result (rc : Rc)
  | returned (rc : Rc)
  deriving DecidableEq

/-- A `ButexBthreadWaiter` or `ButexPthreadWaiter`, the call it belongs to, and who removed it and
made it ready. -/
structure Waiter where
  who : Who
  /-- `initial_butex` -/
  butex : ℕ
  expected : ℕ
  /-- `abstime` is given. -/
  timed : Bool
  container : Container
  /-- `sig` of a pthread's record. -/
  sig : Bool
  sleepId : Bool
  timer : Timer
  state : WaiterState
  pc : Pc
  removed : List Party
  readied : List ℕ
  /-- `TimerThread::schedule` has failed for it. -/
  unscheduled : Bool

/-- `TaskMeta` -/
structure Task where
  /-- `current_waiter` -/
  current : Option ℕ
  interrupted : Bool
  /-- The record of the call of `butex_wait` it is in. -/
  waiting : Option ℕ

/-- A record that no call has been made for. -/
def Waiter.fresh : Waiter :=
  ⟨.pthread, 0, 0, false, .unset, false, false, .none, .ready, .init, [], [], false⟩

/-- `unsleep_if_necessary`, and whether it returns 0. -/
def Waiter.unsleepIfNecessary (r : Waiter) : Waiter × Bool :=
  if r.sleepId then
    match r.timer with
    | .running _ => (r, false)
    | .scheduled => ({ r with timer := .done, sleepId := false }, true)
    | _ => ({ r with sleepId := false }, true)
  else (r, true)

/-- The end of `wait_pthread` or of the section before it: a task looks at its `TaskMeta`. -/
def Waiter.finish (r : Waiter) (rc : Rc) : Waiter :=
  { r with pc := if r.who.task = none then .returned rc else .takeBack rc }

/-- What `butex_wait` returns, with `interrupted` as it was found. -/
def Waiter.outcome (r : Waiter) (interrupted : Bool) (rc : Rc) : Rc :=
  if r.who.isBthread then
    match r.state with
    | .timedOut => .timedOut
    | .unmatchedValue => .wouldBlock
    | _ => if interrupted then .interrupted else .ok
  else if interrupted ∧ rc = .ok then .interrupted
  else rc

/-- What is left of a wake-up after its section. -/
inductive Act
  /-- `sig.store` of `wakeup_pthread`. -/
  | signal (w : ℕ)
  /-- `futex_wake_private` of `wakeup_pthread`. -/
  | futexWake (w : ℕ)
  /-- `unsleep_if_necessary` -/
  | unsleep (w : ℕ)
  /-- The insertion into a run queue. -/
  | ready (w : ℕ)
  /-- `++nwakeup` -/
  | count
  deriving DecidableEq

inductive WakeCall
  | wake (b : ℕ)
  | wakeAll (b : ℕ)
  | wakeExcept (b : ℕ) (x : ℕ)
  | requeue (b m : ℕ)
  deriving DecidableEq

/-- Why `erase_from_butex` is called. -/
inductive Why
  | timer
  | interrupt (x : ℕ)
  /-- No timer could be scheduled. -/
  | failed
  deriving DecidableEq

/-- Where `erase_from_butex` is; `last` is what its caller does after it. -/
inductive ErasePc
  | load
  | lock (b : ℕ)
  | wake
  | futexWake
  | last
  deriving DecidableEq

/-- What a thread does for records that are not its own. -/
inductive Op
  | idle
  | call (c : WakeCall)
  /-- A wake function after its section, with the number of waiters it has removed and
  `nwakeup`. -/
  | waking (acts : List Act) (removed n : ℕ)
  /-- `wait_for_butex` -/
  | queue (w : ℕ)
  /-- Its `ready_to_run`, the waiter not being queued. -/
  | unqueued (w : ℕ)
  /-- `interrupt_and_consume_waiters`: the exchange of `current_waiter`. -/
  | take (x : ℕ)
  /-- Its store to `interrupted`, with what the exchange gave. -/
  | flag (x : ℕ) (taken : Option ℕ)
  | erase (w : ℕ) (why : Why) (pc : ErasePc)
  deriving DecidableEq

structure State where
  value : ℕ → ℕ
  /-- `waiters` -/
  queue : ℕ → List ℕ
  /-- The thread that keeps `waiter_lock` from step to step. -/
  lock : ℕ → Option ℕ
  waiter : ℕ → Waiter
  task : ℕ → Task
  op : ℕ → Op
  /-- Finished wake functions: how many waiters they removed, and what they returned. -/
  log : List (ℕ × ℕ)
  /-- A record has been read or written after its `butex_wait` returned. -/
  touched : Bool
  /-- `futex_wake_private` has been called for a record after its `butex_wait` returned. -/
  lateWake : Bool
  /-- `erase_from_butex` has used a container that was not set. -/
  unsetUsed : Bool

/-- The answers of the environment: the worker of `wait_for_butex`, whether a timer can be
scheduled, whether the time is up, and what `futex_wait_private` returns. -/
structure Answer where
  worker : ℕ
  ok : Bool
  expired : Bool
  futex : Rc

inductive Input
  /-- A call of `butex_wait` with a record of its own. -/
  | wait (w : ℕ) (who : Who) (b expected : ℕ) (timed expired : Bool)
  /-- The next step of that call. -/
  | own (w : ℕ) (a : Answer)
  | call (k : ℕ) (c : WakeCall)
  | interrupt (k x : ℕ)
  /-- The timer thread runs the timer of a record. -/
  | fire (w k : ℕ)
  /-- The next step of a thread's call. -/
  | go (k : ℕ) (ok : Bool)
  /-- The word of a butex is changed. -/
  | store (b v : ℕ)

def Pc.isReturned : Pc → Bool
  | .returned _ => true
  | _ => false

/-- Removed from its queue. -/
def Waiter.remove (r : Waiter) (p : Party) : Waiter :=
  { r with container := .null, removed := r.removed ++ [p] }

/-- Put into a run queue, or signalled. -/
def Waiter.makeReady (r : Waiter) (k : ℕ) : Waiter :=
  { r with readied := r.readied ++ [k], sig := r.sig || !r.who.isBthread }

def Why.state : Why → WaiterState
  | .interrupt _ => .interrupted
  | _ => .timedOut

def Why.party (k : ℕ) : Why → Party
  | .interrupt _ => .interrupter k
  | _ => .timer k

namespace State

def init : State :=
  ⟨fun _ => 0, fun _ => [], fun _ => none, fun _ => .fresh, fun _ => ⟨none, false, none⟩,
    fun _ => .idle, [], false, false, false⟩

variable (s : State)

def setOp (k : ℕ) (op : Op) : State := { s with op := update s.op k op }

def setWaiter (w : ℕ) (r : Waiter) : State := { s with waiter := update s.waiter w r }

def setTask (x : ℕ) (t : Task) : State := { s with task := update s.task x t }

def setQueue (b : ℕ) (q : List ℕ) : State := { s with queue := update s.queue b q }

def setLock (b k : ℕ) : State := { s with lock := update s.lock b (some k) }

/-- Someone other than its owner reads or writes the record. -/
def touch (w : ℕ) : State := { s with touched := s.touched || (s.waiter w).pc.isReturned }

def interrupted (r : Waiter) : Bool :=
  match r.who.task with
  | none => false
  | some x => (s.task x).interrupted

end State

end Brpc.Butex

/-! ## The owner of a butex waiter

The steps of `butex_wait`, `butex_wait_from_pthread` and `wait_pthread`: sections under
`waiter_lock` and atomic operations.
-/

namespace Brpc.Butex.State

variable (s : State)

/-- The section of `butex_wait_from_pthread`. -/
def ownEnter (w : ℕ) (r : Waiter) : State :=
  if (s.lock r.butex).isSome then s
  else if s.value r.butex ≠ r.expected then s.setWaiter w (r.finish .wouldBlock)
  else if s.interrupted r then
    match r.who.task with
    | none => s
    | some x =>
      (s.setTask x { s.task x with interrupted := false }).setWaiter w (r.finish .interrupted)
  else
    (s.setQueue r.butex (s.queue r.butex ++ [w])).setWaiter w
      { r with container := .at r.butex, pc := .futexCall r.timed }

/-- The last part of `butex_wait`. -/
def ownResult (w : ℕ) (r : Waiter) (rc : Rc) : State :=
  let s' := s.setWaiter w { r with pc := .returned (r.outcome (s.interrupted r) rc) }
  match r.who.task with
  | none => s'
  | some x => s'.setTask x { s.task x with interrupted := false, waiting := none }

/-- One step of `butex_wait`. -/
def own (w : ℕ) (a : Answer) : State :=
  let r := s.waiter w
  match r.pc with
  | .publish =>
    match r.who with
    | .bthread x =>
      if s.op a.worker = .idle then
        ((s.setTask x { s.task x with current := some w }).setWaiter w
          { r with pc := .suspended }).setOp a.worker (.queue w)
      else s
    | .pthreadTask x =>
      (s.setTask x { s.task x with current := some w }).setWaiter w { r with pc := .enter }
    | .pthread => s
  | .enter => s.ownEnter w r
  | .suspended => if r.readied = [] then s else s.setWaiter w { r with pc := .unsleep }
  | .unsleep =>
    if r.unsleepIfNecessary.2 then s.setWaiter w { r.unsleepIfNecessary.1 with pc := .takeBack .ok }
    else s
  | .futexCall abs =>
    if abs ∧ a.expired then s.setWaiter w { r with pc := .eraseLoad }
    else if r.sig then s.setWaiter w { r with pc := .loadSig abs .wouldBlock }
    else s.setWaiter w { r with pc := .futexSleep abs }
  | .futexSleep abs =>
    -- 0, EINTR, or ETIMEDOUT when there is a timeout
    if a.futex = .wouldBlock ∨ a.futex = .timedOut ∧ abs = false then s
    else s.setWaiter w { r with pc := .loadSig abs a.futex }
  | .loadSig abs rc =>
    if r.sig then s.setWaiter w (r.finish rc)
    else if rc = .timedOut then s.setWaiter w { r with pc := .eraseLoad }
    else s.setWaiter w { r with pc := .futexCall abs }
  | .eraseLoad =>
    match r.container with
    | .at b => s.setWaiter w { r with pc := .eraseLock b }
    | _ => s.setWaiter w { r with pc := .loadSigAgain }
  | .eraseLock b =>
    if (s.lock b).isSome then s
    else if r.container = .at b then
      (s.setQueue b ((s.queue b).erase w)).setWaiter w ((r.remove .self).finish .timedOut)
    else s.setWaiter w { r with pc := .eraseLoad }
  | .loadSigAgain =>
    if r.sig then s.setWaiter w (r.finish .timedOut)
    else s.setWaiter w { r with pc := .futexCall false }
  | .takeBack rc =>
    match r.who.task with
    | none => s
    | some x =>
      if (s.task x).current = none then s
      else
        (s.setTask x { s.task x with current := none }).setWaiter w { r with pc := .result rc }
  | .result rc => s.ownResult w r rc
  | _ => s

/-- The call of `butex_wait`: its checks before a record is published. -/
def wait (w : ℕ) (who : Who) (b expected : ℕ) (timed expired : Bool) : State :=
  let container := if who.isBthread then .null else .unset
  let r : Waiter :=
    ⟨who, b, expected, timed, container, false, false, .none, .ready, .init, [], [], false⟩
  if (s.waiter w).pc ≠ .init then s
  else if s.value b ≠ expected then s.setWaiter w { r with pc := .returned .wouldBlock }
  else if who.isBthread ∧ timed ∧ expired then s.setWaiter w { r with pc := .returned .timedOut }
  else
    match who.task with
    | none => s.setWaiter w { r with pc := .enter }
    | some x =>
      if (s.task x).waiting = none then
        (s.setTask x { s.task x with waiting := some w }).setWaiter w { r with pc := .publish }
      else s

end Brpc.Butex.State
