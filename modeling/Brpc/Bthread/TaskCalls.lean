/-
# Run queues of task groups

`bthread/task_group.cpp`, `task_control.cpp`, `bthread.cpp` and the wake-ups of `butex.cpp`: which
run queue a bthread is put into, and from which a worker takes the one it runs next.  A call, and
what a worker runs after a switch (`set_remained`), is a sequence of steps: a section under
`waiter_lock` or the answer of the timer thread, then each insertion into a run queue.  A full queue
makes its caller wait, so queues have no bound here.
-/

import Brpc.Lib.Run
import Brpc.Lib.Ops

namespace Brpc.Tags

open Lib Function

/-- A bthread, and the tag it was started with. -/
structure Bthread where
  tid : ℕ
  tag : ℕ
  deriving DecidableEq

/-- `bthread_attr_t`; without a tag it is `BTHREAD_TAG_INVALID`.  The default is
`BTHREAD_ATTR_NORMAL`: no tag and no flag. -/
structure Attr where
  tag : Option ℕ
  nosignal : Bool

def tagDefault : ℕ := 0

/-- `ButexBthreadWaiter` -/
structure Waiter where
  bthread : Bthread
  tag : ℕ

/-- An entry of the timer thread for a bthread that sleeps, with its group. -/
structure Sleeper where
  id : ℕ
  bthread : Bthread
  group : ℕ

/-- A pthread: the worker of a group, or one without a group. -/
inductive Thread
  | worker (g : ℕ)
  | other (n : ℕ)
  deriving DecidableEq

/-- `tls_task_group` -/
def Thread.group : Thread → Option ℕ
  | .worker g => some g
  | .other _ => none

/-- How `ready_to_run` tells the workers; `ignore` is `push_rq` alone. -/
inductive Signal
  | signal
  | nosignal
  | ignore

structure TaskGroup where
  rq : List Bthread
  remoteRq : List Bthread
  numNosignal : ℕ
  remoteNumNosignal : ℕ
  /-- `_cur_meta`; nothing for the main task. -/
  cur : Option Bthread

/-- What a thread still has to do in its call. -/
inductive Op
  /-- `ready_to_run_in_worker`, or the end of a call that puts a bthread back. -/
  | readyToRun (b : Bthread) (how : Signal)
  | waitForButex (w : Waiter) (butex : ℕ)
  | addSleepEvent (b : Bthread)
  /-- Its section under `version_lock`. -/
  | setCurrentSleep (id : ℕ) (b : Bthread)
  /-- Waiters removed from a butex: those for run queues from the last one on, the groups to
  flush, and the one exchanged with. -/
  | wake (rest : List Waiter) (groups : List ℕ) (last : Option Waiter) (nosignal : Bool)
  /-- `erase_from_butex` has removed it. -/
  | erased (w : Waiter)
  /-- `ready_to_run_from_timer_thread` -/
  | timer (b : Bthread) (group : ℕ)
  /-- `TaskGroup::interrupt` has unscheduled its sleep. -/
  | interrupted (b : Bthread) (tag : ℕ)

structure State where
  groups : ℕ → TaskGroup
  taggedGroups : ℕ → List ℕ
  /-- What `signal_task` was called with, by tags. -/
  signals : ℕ → ℕ
  /-- `tls_task_group_nosignal` -/
  nosignal : Thread → Option ℕ
  butexes : ℕ → List Waiter
  sleepers : List Sleeper
  ops : Thread → Option Op
  /-- The next identifier of a bthread or a timer. -/
  fresh : ℕ

/-- Where a worker finds its next bthread when its own `_rq` is empty: the `_remote_rq` or the
`_rq` of a group. -/
abbrev Next := Option (ℕ × Bool)

inductive Call
  | startUrgent (attr : Attr) (pthreadTask aboutToQuit : Bool)
  | startBackground (attr : Attr)
  | flush
  | butexWake (butex : ℕ) (nosignal : Bool)
  | butexWakeAll (butex : ℕ) (nosignal : Bool)
  | butexWakeExcept (butex : ℕ) (excluded : ℕ)
  | butexRequeue (butex mutex : ℕ)
  /-- A timer or an interruption removes a waiter. -/
  | erase (butex k : ℕ)
  /-- The timer of a sleeper. -/
  | timer (k : ℕ)
  /-- `TaskGroup::interrupt` of a sleeper. -/
  | interrupt (k : ℕ) (tag : ℕ)
  | butexWait (butex : ℕ) (next : Next)
  | usleep (next : Next)
  | yield (next : Next)
  /-- The current bthread ends, or the main task has waited for a bthread. -/
  | sched (next : Next)

/-- The answers a step gets: a random number, whether a comparison or a `schedule` succeeds, and
the kind of the current task. -/
structure Answer where
  random : ℕ
  ok : Bool
  pthreadTask : Bool
  aboutToQuit : Bool

inductive Input
  /-- A worker adds its group. -/
  | addGroup (g : ℕ)
  /-- A thread calls; `random` is for `choose_one_group`. -/
  | call (t : Thread) (c : Call) (random : ℕ)
  | go (t : Thread) (answer : Answer)

namespace State

def init : State :=
  ⟨fun _ => ⟨[], [], 0, 0, none⟩, fun _ => [], fun _ => 0, fun _ => none, fun _ => [], [], fun _ => none, 0⟩

-- `tagOf` is `TaskGroup::tag` of each group.
variable (tagOf : ℕ → ℕ) (s : State)

variable (t : Thread) (g : ℕ) (b : Bthread) (nosignal : Bool)

def setGroup (G : TaskGroup) : State := { s with groups := update s.groups g G }

def setOp (op : Option Op) : State := { s with ops := update s.ops t op }

def signalTask (n tag : ℕ) : State :=
  { s with signals := update s.signals tag (s.signals tag + n) }

def readyToRun : Signal → State
  | .nosignal =>
    s.setGroup g { s.groups g with
      rq := (s.groups g).rq ++ [b], numNosignal := (s.groups g).numNosignal + 1 }
  | .signal =>
    (s.setGroup g { s.groups g with rq := (s.groups g).rq ++ [b], numNosignal := 0 }).signalTask
      (1 + (s.groups g).numNosignal) (tagOf g)
  | .ignore => s.setGroup g { s.groups g with rq := (s.groups g).rq ++ [b] }

def readyToRunRemote : State :=
  let G := { s.groups g with remoteRq := (s.groups g).remoteRq ++ [b] }
  if nosignal then s.setGroup g { G with remoteNumNosignal := G.remoteNumNosignal + 1 }
  else
    (s.setGroup g { G with remoteNumNosignal := 0 }).signalTask (1 + G.remoteNumNosignal) (tagOf g)

def readyToRunGeneral : State :=
  if t.group = some g then s.readyToRun tagOf g b (if nosignal then .nosignal else .signal)
  else s.readyToRunRemote tagOf g b nosignal

def flushNosignalTasks : State :=
  (s.setGroup g { s.groups g with numNosignal := 0 }).signalTask (s.groups g).numNosignal (tagOf g)

def flushNosignalTasksRemote : State :=
  (s.setGroup g { s.groups g with remoteNumNosignal := 0 }).signalTask (s.groups g).remoteNumNosignal (tagOf g)

def flushNosignalTasksGeneral : State :=
  if t.group = some g then s.flushNosignalTasks tagOf g else s.flushNosignalTasksRemote tagOf g

/-- `TaskControl::choose_one_group`; without a group of the tag the CHECK ends the program. -/
def chooseOneGroup (tag random : ℕ) : Option ℕ :=
  (s.taggedGroups tag)[random % (s.taggedGroups tag).length]?

def getTaskGroup (tag : ℕ) (nosignal : Bool) (random : ℕ) : Option ℕ :=
  let g := (t.group.filter fun g => tagOf g = tag).or (s.chooseOneGroup tag random)
  if nosignal then (s.nosignal t).or g else g

/-- `tls_task_group_nosignal` after it. -/
def remember (g : ℕ) : State :=
  if nosignal then { s with nosignal := update s.nosignal t (some g) } else s

/-- The switch to the next bthread: the last of the own `_rq`, or one stolen from a group of the
same tag, or the main task. -/
def switch (next : Next) : State :=
  match (s.groups g).rq.getLast? with
  | some b => s.setGroup g { s.groups g with rq := (s.groups g).rq.dropLast, cur := some b }
  | none =>
    match next with
    | none => s.setGroup g { s.groups g with cur := none }
    | some (g', remote) =>
      if tagOf g' ≠ tagOf g then s.setGroup g { s.groups g with cur := none }
      else if remote then
        let s' := s.setGroup g' { s.groups g' with remoteRq := (s.groups g').remoteRq.tail }
        s'.setGroup g { s'.groups g with cur := (s.groups g').remoteRq.head? }
      else
        let s' := s.setGroup g' { s.groups g' with rq := (s.groups g').rq.tail }
        s'.setGroup g { s'.groups g with cur := (s.groups g').rq.head? }

/-- `TaskGroup::exchange`, and the switch of `start_foreground`: `b` runs at once and what ran is
put back, but for pthread mode. -/
def exchange (pthreadTask : Bool) (back new : Signal) : State :=
  match (s.groups g).cur with
  | none => s.readyToRun tagOf g b new
  | some c =>
    if pthreadTask then s.readyToRun tagOf g b new
    else (s.setGroup g { s.groups g with cur := some b }).setOp (.worker g) (some (.readyToRun c back))

end State

/-! ## Calls that make bthreads ready -/

namespace State

variable (tagOf : ℕ → ℕ) (s : State)

variable (t : Thread) (attr : Attr) (random : ℕ) (a : Answer)

/-- `start_from_non_worker`; `tls_task_group_nosignal` is used whatever the tag. -/
def startFromNonWorker : State :=
  let tag := attr.tag.getD tagDefault
  let g := s.chooseOneGroup tag random
  match if attr.nosignal then (s.nosignal t).or g else g with
  | none => s
  | some g =>
    { (s.remember t attr.nosignal g).readyToRunRemote tagOf g ⟨s.fresh, tag⟩ attr.nosignal with
      fresh := s.fresh + 1 }

/-- `can_run_thread_local`, with the group. -/
def threadLocal : Option ℕ :=
  t.group.filter fun g => attr.tag = none ∨ attr.tag = some (tagOf g)

def startBackground : State :=
  match threadLocal tagOf t attr with
  | some g =>
    { s.readyToRun tagOf g ⟨s.fresh, attr.tag.getD (tagOf g)⟩ (if attr.nosignal then .nosignal else .signal) with
      fresh := s.fresh + 1 }
  | none => s.startFromNonWorker tagOf t attr random

def startUrgent (pthreadTask aboutToQuit : Bool) (random : ℕ) : State :=
  let how : Signal := if attr.nosignal then .nosignal else .signal
  match threadLocal tagOf t attr with
  | some g =>
    { s.exchange tagOf g ⟨s.fresh, attr.tag.getD (tagOf g)⟩ pthreadTask (if aboutToQuit then .ignore else how) how with
      fresh := s.fresh + 1 }
  | none => s.startFromNonWorker tagOf t attr random

def bthreadFlush : State :=
  match t.group, s.nosignal t with
  | some g, _ => s.flushNosignalTasks tagOf g
  | none, some g =>
    { s with nosignal := update s.nosignal t none }.flushNosignalTasksRemote tagOf g
  | none, none => s

/-- The waiters `ws` of a butex are removed and woken up. -/
def wakeOp (butex : ℕ) (left rest : List Waiter) (last : Option Waiter) (nosignal : Bool) : State :=
  { s with butexes := update s.butexes butex left }.setOp t (some (.wake rest [] last nosignal))

/-- A call of the current bthread that blocks: the worker switches and does `op` after that. -/
def block (next : Next) (op : ℕ → Bthread → Option Op) : State :=
  match t.group with
  | none => s
  | some g =>
    match (s.groups g).cur with
    | none => s
    | some b => (s.switch tagOf g next).setOp t (op g b)

/-- The first step of a call. -/
def call : Call → State
  | .startUrgent attr pthreadTask aboutToQuit =>
    s.startUrgent tagOf t attr pthreadTask aboutToQuit random
  | .startBackground attr => s.startBackground tagOf t attr random
  | .flush => s.bthreadFlush tagOf t
  | .butexWake butex nosignal =>
    match s.butexes butex with
    | [] => s
    | w :: ws => s.wakeOp t butex ws [] (some w) nosignal
  | .butexWakeAll butex nosignal =>
    match s.butexes butex with
    | [] => s
    | w :: ws => s.wakeOp t butex [] ws (some w) nosignal
  | .butexWakeExcept butex excluded =>
    s.wakeOp t butex ((s.butexes butex).filter fun w => w.bthread.tid = excluded)
      ((s.butexes butex).filter fun w => w.bthread.tid ≠ excluded) none false
  | .butexRequeue butex mutex =>
    match s.butexes butex with
    | [] => s
    | w :: ws =>
      let s' := s.wakeOp t butex [] [] (some w) false
      { s' with butexes := update s'.butexes mutex (s'.butexes mutex ++ ws) }
  | .erase butex k =>
    match (s.butexes butex)[k]? with
    | none => s
    | some w =>
      { s with butexes := update s.butexes butex (replaceAt (s.butexes butex) k []) }.setOp
        t (some (.erased w))
  | .timer k =>
    match s.sleepers[k]? with
    | none => s
    | some e =>
      if t.group.isSome then s
      else { s with sleepers := replaceAt s.sleepers k [] }.setOp t (some (.timer e.bthread e.group))
  | .interrupt k tag =>
    match s.sleepers[k]? with
    | none => s
    | some e =>
      { s with sleepers := replaceAt s.sleepers k [] }.setOp t (some (.interrupted e.bthread tag))
  | .butexWait butex next =>
    s.block tagOf t next fun g b => some (.waitForButex ⟨b, tagOf g⟩ butex)
  | .usleep next => s.block tagOf t next fun _ b => some (.addSleepEvent b)
  | .yield next => s.block tagOf t next fun _ b => some (.readyToRun b .signal)
  | .sched next =>
    match t.group with
    | none => s
    | some g => s.switch tagOf g next

/-! ## The steps after the first -/

/-- The loop of a wake-up over several waiters, and its end. -/
def goWake (rest : List Waiter) (groups : List ℕ) (last : Option Waiter) (nosignal : Bool) : State :=
  match rest.getLast? with
  | some w =>
    match s.getTaskGroup tagOf t w.tag nosignal a.random with
    | none => s
    | some g =>
      ((s.remember t nosignal g).readyToRunGeneral tagOf t g w.bthread true).setOp t
        (some (.wake rest.dropLast (g :: groups.filter fun g' => tagOf g' ≠ tagOf g) last nosignal))
  | none =>
    match groups, last with
    | g :: groups, last =>
      (if nosignal then s else s.flushNosignalTasksGeneral tagOf t g).setOp t (some (.wake [] groups last nosignal))
    | [], none => s.setOp t none
    | [], some w =>
      match s.getTaskGroup tagOf t w.tag nosignal a.random with
      | none => s
      | some g =>
        let s' := (s.remember t nosignal g).setOp t none
        if t.group = some g then
          if nosignal then s'.readyToRun tagOf g w.bthread .nosignal
          else
            s'.exchange tagOf g w.bthread a.pthreadTask (if a.aboutToQuit then .ignore else .signal) .signal
        else s'.readyToRunRemote tagOf g w.bthread nosignal

/-- `TaskGroup::interrupt` puts the bthread into the interrupter's own group, or into one of the
tag it was given. -/
def goInterrupted (b : Bthread) (tag : ℕ) : State :=
  match t.group with
  | some g => (s.setOp t none).readyToRun tagOf g b .signal
  | none =>
    match s.chooseOneGroup tag a.random with
    | none => s
    | some g => (s.setOp t none).readyToRunRemote tagOf g b false

def go : Op → State
  | .readyToRun b how =>
    match t.group with
    | none => s
    | some g => (s.setOp t none).readyToRun tagOf g b how
  | .waitForButex w butex =>
    if a.ok then
      { s with butexes := update s.butexes butex (s.butexes butex ++ [w]) }.setOp t none
    else s.setOp t (some (.readyToRun w.bthread .signal))
  | .addSleepEvent b =>
    match t.group with
    | none => s
    | some g =>
      if a.ok then
        { s with sleepers := s.sleepers ++ [Sleeper.mk s.fresh b g], fresh := s.fresh + 1 }.setOp t
          (some (.setCurrentSleep s.fresh b))
      else s.setOp t (some (.readyToRun b .signal))
  | .setCurrentSleep id b =>
    if a.ok then s.setOp t none
    else if s.sleepers.any fun e => e.id = id then
      { s with sleepers := s.sleepers.filter fun e => e.id ≠ id }.setOp t (some (.readyToRun b .signal))
    else s.setOp t none
  | .wake rest groups last nosignal => s.goWake tagOf t a rest groups last nosignal
  | .erased w =>
    match s.getTaskGroup tagOf t w.tag false a.random with
    | none => s
    | some g => (s.setOp t none).readyToRunGeneral tagOf t g w.bthread false
  | .timer b group =>
    match s.chooseOneGroup (tagOf group) a.random with
    | none => s
    | some g => (s.setOp t none).readyToRunRemote tagOf g b false
  | .interrupted b tag => s.goInterrupted tagOf t a b tag

def step (s : State) : Input → State
  | .addGroup g =>
    { s with taggedGroups :=
        update s.taggedGroups (tagOf g) (s.taggedGroups (tagOf g) ++ [g]) }
  | .call t c random => if (s.ops t).isSome then s else s.call tagOf t random c
  | .go t a =>
    match s.ops t with
    | none => s
    | some op => s.go tagOf t a op

end State

/-! ## The property -/

/-- What is in the run queues of a group, and what its worker runs, was started with its tag. -/
structure GroupOk (tag : ℕ) (G : TaskGroup) : Prop where
  rq : ∀ b ∈ G.rq, b.tag = tag
  remoteRq : ∀ b ∈ G.remoteRq, b.tag = tag
  cur : ∀ b ∈ G.cur, b.tag = tag

/-- Every group keeps to its tag. -/
def Tagged (tagOf : ℕ → ℕ) (s : State) : Prop := ∀ g, GroupOk (tagOf g) (s.groups g)

/-- The remembered group of the thread is of this tag. -/
def Remembered (tagOf : ℕ → ℕ) (s : State) (t : Thread) (tag : ℕ) : Prop :=
  ∀ g, s.nosignal t = some g → tagOf g = tag

/-- The waiter that a wake-up puts into a run queue next. -/
def nextWaiter (rest : List Waiter) (groups : List ℕ) (last : Option Waiter) : Option Waiter :=
  rest.getLast?.or (if groups = [] then last else none)

/-- The first step of a call: a NOSIGNAL start that is not thread-local finds a remembered group
of the bthread's tag, if any. -/
def FitsCall (tagOf : ℕ → ℕ) (s : State) (t : Thread) : Call → Prop
  | .startUrgent attr _ _ | .startBackground attr =>
    attr.nosignal = true → State.threadLocal tagOf t attr = none →
      Remembered tagOf s t (attr.tag.getD tagDefault)
  | _ => True

/-- A later step: so does a wake-up with nosignal; a bthread asleep is interrupted from a worker
of its tag, or with its tag. -/
def FitsOp (tagOf : ℕ → ℕ) (s : State) (t : Thread) (a : Answer) : Op → Prop
  | .wake rest groups last nosignal =>
    nosignal = true → ∀ w ∈ nextWaiter rest groups last, Remembered tagOf s t w.tag
  | .interrupted b tag =>
    (∀ g, t.group = some g → tagOf g = b.tag)
      ∧ (t.group = none → s.chooseOneGroup tag a.random ≠ none → tag = b.tag)
  | _ => True

def Fits (tagOf : ℕ → ℕ) (s : State) : Input → Prop
  | .addGroup _ => True
  | .call t c _ => s.ops t = none → FitsCall tagOf s t c
  | .go t a => ∀ op ∈ s.ops t, FitsOp tagOf s t a op

end Brpc.Tags
