/-
# An execution queue with a thread of its own

`ExecutionQueueBase` with `use_pthread` (`bthread/execution_queue.cpp`).  The producer whose
exchange on `_head` finds NULL owns the right to execute; it hands its node to the executor pthread
under `_mutex` if `_pthread_started` is set, and else creates the pthread and sets it.
`Inv.producer`: each step of a producer keeps the invariant.

Each access to `_head`, `_pthread_started`, `_current_head` and the mutex is one step; of the two
heads only whether they are NULL is modelled.
-/

import Brpc.Lib.Ops
import Brpc.Lib.Run

namespace Brpc.PthreadMode

open Lib

/-- A task pushed, or the stop task. -/
inductive Task
  | normal
  | stop
  deriving DecidableEq

/-- A call of `start_execute` that got the right to execute. -/
inductive Producer
  /-- `_execute` of its own node, in place. -/
  | inPlace
  /-- `_more_tasks` after that. -/
  | moreTasks
  /-- `if (_pthread_started)` -/
  | readStarted
  /-- The section under `_mutex` that sets `_current_head` and signals. -/
  | handOver
  /-- `pthread_create` -/
  | create
  /-- `_execute_tasks` in the producer's thread, with `destroy_queue`. -/
  | run (destroy : Bool)
  /-- The end of it. -/
  | finish (destroy : Bool)
  /-- `_pthread_started = true` -/
  | storeStarted
  deriving DecidableEq

/-- Where `_execute_tasks_pthread` is. -/
inductive Phase
  /-- `m->_current_head = head` -/
  | start
  /-- It locks `_mutex`, at the top of the loop or after a wake-up. -/
  | lock
  /-- `while (!m->_current_head)` -/
  | check
  /-- In `_cond.Wait()`. -/
  | waiting
  /-- `_execute_tasks` with `destroy_queue`. -/
  | run (destroy : Bool)
  /-- The end of it. -/
  | finish (destroy : Bool)
  /-- `m->_current_head = NULL` -/
  | clear
  /-- Whether the queue has been stopped. -/
  | test
  | exited
  deriving DecidableEq

/-- The queue, the producers that own the right to execute or are about to set `_pthread_started`,
and the executor pthreads. -/
structure State where
  head : Bool
  pending : List Task
  started : Bool
  currentHead : Bool
  mutex : Bool
  stopped : Bool
  stopDone : Bool
  ended : Bool
  producers : List Producer
  pthreads : List Phase

/-- The queue after `create`. -/
def State.init : State where
  head := false
  pending := []
  started := false
  currentHead := false
  mutex := false
  stopped := false
  stopDone := false
  ended := false
  producers := []
  pthreads := []

namespace State

variable (s : State)

/-- The exchange on `_head`. -/
def push (task : Task) (inPlace : Bool) : State :=
  { s with
    head := true, pending := s.pending ++ [task]
    producers :=
      if s.head then s.producers
      else (if inPlace then .inPlace else .readStarted) :: s.producers }

/-- The first task is executed. -/
def execute (ts : List Task) (task : Task) : State :=
  { s with pending := ts, stopDone := s.stopDone || task = .stop }

/-- `_current_head` is set and a waiting pthread signalled, the one at `w`. -/
def signal (w : ℕ) : State :=
  { s with
    currentHead := true
    pthreads := if s.pthreads[w]? = some .waiting then replaceAt s.pthreads w [.lock] else s.pthreads }

/-- A producer taken out of `producers` goes on.  `ok`: it executes its own node in place, or
`pthread_create` succeeds. -/
def goOn (p : Producer) (ok : Bool) (w : ℕ) : State :=
  match p with
  | .inPlace =>
    match s.pending with
    | task :: ts =>
      if ok then { s.execute ts task with producers := .moreTasks :: s.producers }
      else { s with producers := .moreTasks :: s.producers }
    | [] => { s with producers := .moreTasks :: s.producers }
  | .moreTasks =>
    if s.pending = [] then { s with head := false }
    else { s with producers := .readStarted :: s.producers }
  | .readStarted =>
    { s with producers := (if s.started then .handOver else .create) :: s.producers }
  | .handOver =>
    -- The mutex has to be free, and a waiting pthread is signalled if there is one.
    if s.mutex ∨ s.pthreads.contains .waiting ∧ s.pthreads[w]? ≠ some .waiting then
      { s with producers := .handOver :: s.producers }
    else s.signal w
  | .create =>
    if ok then
      { s with pthreads := .start :: s.pthreads, producers := .storeStarted :: s.producers }
    else { s with producers := .run false :: s.producers }
  | .run destroy =>
    match s.pending with
    | task :: ts =>
      { s.execute ts task with producers := .run (destroy || task = .stop) :: s.producers }
    | [] => { s with head := false, producers := .finish destroy :: s.producers }
  | .finish destroy =>
    { s with ended := s.ended || destroy, producers := .storeStarted :: s.producers }
  | .storeStarted => { s with started := true }

/-- The pthread in the given phase takes a step: the state and its next phase. -/
def next (ph : Phase) : State × Phase :=
  match ph with
  | .start => ({ s with currentHead := true }, .lock)
  | .lock => if s.mutex then (s, .lock) else ({ s with mutex := true }, .check)
  | .check => if s.currentHead then (s, .run false) else ({ s with mutex := false }, .waiting)
  -- A spurious wake-up.
  | .waiting => (s, .lock)
  | .run destroy =>
    match s.pending with
    | task :: ts => (s.execute ts task, .run (destroy || task = .stop))
    | [] => ({ s with head := false }, .finish destroy)
  | .finish destroy => ({ s with ended := s.ended || destroy }, .clear)
  | .clear => ({ s with currentHead := false }, .test)
  | .test => ({ s with mutex := false }, if s.ended then .exited else .lock)
  | .exited => (s, .exited)

/-- The inputs: a task is pushed, the stop task is pushed, a producer or a pthread goes on. -/
inductive Input
  | push (inPlace : Bool)
  | stop
  | producer (k : ℕ) (ok : Bool) (w : ℕ)
  | pthread (k : ℕ)

def step : Input → State
  | .push inPlace => if s.stopped then s else s.push .normal inPlace
  | .stop =>
    if s.stopped ∨ s.producers ≠ [] then s
    else { s.push .stop false with stopped := true }
  | .producer k ok w =>
    match s.producers[k]? with
    | none => s
    | some p => { s with producers := replaceAt s.producers k [] }.goOn p ok w
  | .pthread k =>
    match s.pthreads[k]? with
    | none => s
    | some ph => { (s.next ph).1 with pthreads := replaceAt s.pthreads k [(s.next ph).2] }

end State

/-! ## One executor pthread -/

open List Phase

/-- It owns the right to execute. -/
def Producer.owns : Producer → Bool
  | finish _ | storeStarted => false
  | _ => true

/-- It has found `_pthread_started` unset. -/
def Producer.fresh : Producer → Bool
  | create | run _ => true
  | _ => false

/-- It owns the right to execute. -/
def Phase.owns : Phase → Bool
  | start | run _ => true
  | _ => false

/-- It has taken `_current_head` and not cleared it. -/
def Phase.busy : Phase → Bool
  | run _ | finish _ | clear => true
  | _ => false

/-- It holds `_mutex`. -/
def Phase.locks : Phase → Bool
  | check | run _ | finish _ | clear | test => true
  | _ => false

/-- It has executed the stop task and is going to exit. -/
def Phase.ends (ended : Bool) : Phase → Bool
  | run destroy | finish destroy => destroy
  | clear | test => ended
  | exited => true
  | _ => false

namespace State

variable {s : State}

/-- The right to execute is handed over in `_current_head`. -/
def handed (s : State) : ℕ := if s.currentHead && !s.pthreads.any busy then 1 else 0

/-- The invariant. -/
structure Inv (s : State) : Prop where
  one : s.pthreads.length ≤ 1
  owners : s.producers.countP Producer.owns + (s.pthreads.countP owns + s.handed) = if s.head then 1 else 0
  created : s.pthreads ≠ [] → s.started = true ∨ .storeStarted ∈ s.producers
  fresh : ∀ p ∈ s.producers, p.fresh = true → s.pthreads = []
  mutex : s.mutex = s.pthreads.any locks
  idle : s.head = false → s.pending = []
  inPlace : .inPlace ∈ s.producers → ∃ ts, s.pending = .normal :: ts
  stopped : s.stopDone = true ∨ .stop ∈ s.pending → s.stopped = true
  ending : s.stopDone = true → (∀ p ∈ s.producers, p.owns = true → p = .run true)
    ∧ ∀ ph ∈ s.pthreads, ph.ends s.ended = true

theorem inv_init : Inv init where
  one := Nat.zero_le _
  owners := rfl
  created h := absurd rfl h
  fresh _ h := nomatch h
  mutex := rfl
  idle _ := rfl
  inPlace h := nomatch h
  stopped h := by simp [init] at h
  ending h := by simp [init] at h

/-- No producer reads `_pthread_started` while another is about to set it. -/
def careful (s : State) : Input → Bool
  | .producer k _ _ => s.producers[k]? != some .readStarted || !s.producers.contains .storeStarted
  | _ => true

theorem Inv.push (h : Inv s) {task : Task} {inPlace : Bool} (hdone : s.stopDone = false)
    (hinPlace : inPlace = true → task = .normal)
    (hstop : .stop ∈ s.pending ++ [task] → s.stopped = true) : Inv (s.push task inPlace) := by
  have howns : (if inPlace then Producer.inPlace else .readStarted).owns = true := by
    cases inPlace <;> rfl
  have hfresh : (if inPlace then Producer.inPlace else .readStarted).fresh = false := by
    cases inPlace <;> rfl
  have howners := h.owners
  have hstop' : s.stopDone = true ∨ .stop ∈ s.pending ++ [task] → s.stopped = true := by
    rintro (hd | hs)
    · rw [hdone] at hd
      cases hd
    · exact hstop hs
  unfold State.push
  cases hhead : s.head with
  | true =>
    rw [hhead] at howners
    refine { h with owners := howners, idle := fun hf => (nomatch hf), inPlace := fun hmem => ?_, stopped := hstop' }
    obtain ⟨ts, hts⟩ := h.inPlace hmem
    exact ⟨ts ++ [task], by rw [hts]; rfl⟩
  | false =>
    rw [hhead] at howners
    refine ⟨h.one, ?_, fun hne => (h.created hne).imp id (mem_cons_of_mem _), ?_, h.mutex,
      fun hf => (nomatch hf), fun hmem => ?_, hstop', fun hd => absurd hd (by rw [hdone]; decide)⟩
    · show (_ :: s.producers).countP _ + (s.pthreads.countP _ + s.handed) = 1
      rw [countP_cons_of_pos howns]
      simp only [Bool.false_eq_true, if_false] at howners
      omega
    · refine forall_mem_cons.2 ⟨fun hf => ?_, h.fresh⟩
      rw [hfresh] at hf
      cases hf
    · rw [h.idle hhead]
      rcases mem_cons.1 hmem with heq | hmem
      · cases inPlace with
        | true => exact ⟨[], by rw [hinPlace rfl]; rfl⟩
        | false => cases heq
      · obtain ⟨ts, hts⟩ := h.inPlace hmem
        rw [h.idle hhead] at hts
        cases hts

/-! ## Producers -/

variable {k : ℕ}

theorem mem_of_mem_remove {q : Producer} (hq : q ∈ replaceAt s.producers k []) : q ∈ s.producers :=
  forall_mem_replaceAt (fun _ hx => hx) (fun _ hx => absurd hx not_mem_nil) q hq

variable {p : Producer}

theorem countP_remove (hk : s.producers[k]? = some p) :
    (replaceAt s.producers k []).countP Producer.owns + (if p.owns then 1 else 0) = s.producers.countP Producer.owns :=
  @countP_replaceAt _ s.producers [] k p hk Producer.owns

section

variable (h : Inv s)
include h

theorem Inv.swap (hk : s.producers[k]? = some p)
    (q : Producer) (howns : q.owns = p.owns) (hstore : p ≠ .storeStarted) (hinPlace : q ≠ .inPlace)
    (hfresh : q.fresh = true → s.pthreads = []) (hend : s.stopDone = true → q.owns = true → q = .run true) :
    Inv { s with producers := q :: replaceAt s.producers k [] } := by
  have hcount := countP_remove hk
  refine ⟨h.one, ?_, fun hne => (h.created hne).imp id fun hmem =>
    mem_cons_of_mem _ (mem_replaceAt_of_ne hk hmem (Ne.symm hstore)), ?_, h.mutex, h.idle,
    fun hmem => ?_, h.stopped, fun hd => ⟨?_, (h.ending hd).2⟩⟩
  · have howners := h.owners
    show (q :: replaceAt s.producers k []).countP _ + (s.pthreads.countP _ + s.handed) = if s.head then 1 else 0
    rw [countP_cons, howns]
    omega
  · exact forall_mem_cons.2 ⟨hfresh, fun x hx => h.fresh x (mem_of_mem_remove hx)⟩
  · rcases mem_cons.1 hmem with heq | hmem
    · exact absurd heq.symm hinPlace
    · exact h.inPlace (mem_of_mem_remove hmem)
  · exact forall_mem_cons.2 ⟨hend hd, fun x hx => (h.ending hd).1 x (mem_of_mem_remove hx)⟩

theorem Inv.sole (hk : s.producers[k]? = some p) (hp : p.owns = true) :
    s.head = true ∧ (∀ q ∈ replaceAt s.producers k [], q.owns = false)
      ∧ (∀ ph ∈ s.pthreads, ph.owns = false) ∧ s.handed = 0 := by
  have hcount := countP_remove hk
  have howners := h.owners
  rw [if_pos hp] at hcount
  cases hhead : s.head with
  | false =>
    rw [hhead] at howners
    simp only [Bool.false_eq_true, if_false] at howners
    omega
  | true =>
    rw [hhead, if_pos rfl] at howners
    have hps : (replaceAt s.producers k []).countP Producer.owns = 0 := by omega
    have hph : s.pthreads.countP owns = 0 := by omega
    refine ⟨rfl, fun q hq => ?_, fun ph hmem => ?_, by omega⟩
    · exact Bool.eq_false_iff.2 (countP_eq_zero.1 hps q hq)
    · exact Bool.eq_false_iff.2 (countP_eq_zero.1 hph ph hmem)

theorem Inv.inPlace_not_mem (hk : s.producers[k]? = some p) (hp : p.owns = true)
    {q : Producer} (hq : q ≠ .inPlace) : .inPlace ∉ q :: replaceAt s.producers k [] :=
  fun hin => (mem_cons.1 hin).elim hq.symm fun hin => nomatch (h.sole hk hp).2.1 _ hin

/-- Once the stop task is executed only its executor owns the right to execute. -/
theorem Inv.not_stopDone (hk : s.producers[k]? = some p) (hp : p.owns = true)
    (hrun : p ≠ .run true) : s.stopDone = false := by
  rw [Bool.eq_false_iff]
  exact fun hd => hrun ((h.ending hd).1 p (mem_of_getElem? hk) hp)

/-- A producer goes on to `q` before the stop task is executed. -/
theorem Inv.advance (hk : s.producers[k]? = some p) (q : Producer) (hp : p.owns = true)
    (hq : q.owns = true) (hrun : p ≠ .run true) (hinPlace : q ≠ .inPlace)
    (hfresh : q.fresh = true → s.pthreads = []) :
    Inv { s with producers := q :: replaceAt s.producers k [] } := by
  refine h.swap hk q (hq.trans hp.symm) (by rintro rfl; cases hp) hinPlace hfresh fun hd => ?_
  rw [h.not_stopDone hk hp hrun] at hd
  cases hd

theorem Inv.execute {task : Task} {ts : List Task} (hpending : s.pending = task :: ts)
    (hinPlace : .inPlace ∉ s.producers)
    (hend : task = .stop → (∀ p ∈ s.producers, p.owns = true → p = .run true)
      ∧ ∀ ph ∈ s.pthreads, ph.ends s.ended = true) : Inv (s.execute ts task) := by
  refine ⟨h.one, h.owners, h.created, h.fresh, h.mutex, fun hf => ?_,
    fun hmem => absurd hmem hinPlace, fun hs => ?_, fun hd => ?_⟩
  · have := h.idle hf
    rw [hpending] at this
    cases this
  · refine h.stopped ?_
    rw [hpending]
    rcases hs with hs | hs
    · simp only [State.execute, Bool.or_eq_true, decide_eq_true_eq] at hs
      rcases hs with hs | rfl
      · exact .inl hs
      · exact .inr (mem_cons_self)
    · exact .inr (mem_cons_of_mem _ hs)
  · simp only [State.execute, Bool.or_eq_true, decide_eq_true_eq] at hd
    rcases hd with hd | hd
    · exact h.ending hd
    · exact hend hd

theorem Inv.release (hk : s.producers[k]? = some p)
    (hp : p.owns = true) (hpending : s.pending = []) (new : List Producer) (hnew : ∀ q ∈ new, q.owns = false) :
    Inv { s with head := false, producers := new ++ replaceAt s.producers k [] } := by
  obtain ⟨-, hps, hph, hhanded⟩ := h.sole hk hp
  have hnone : ∀ q ∈ new ++ replaceAt s.producers k [], q.owns = false := fun q hq =>
    (mem_append.1 hq).elim (hnew q) (hps q)
  refine ⟨h.one, ?_, fun hne => (h.created hne).imp id fun hmem =>
    mem_append_right _ (mem_replaceAt_of_ne hk hmem (by rintro rfl; cases hp)), fun q hq hf => ?_,
    h.mutex, fun _ => hpending, fun hmem => ?_, h.stopped, fun hd => ⟨fun q hq ho => ?_,
    (h.ending hd).2⟩⟩
  · show (new ++ _).countP Producer.owns + (s.pthreads.countP owns + s.handed) = 0
    rw [countP_eq_zero.2 fun q hq => by rw [hnone q hq]; decide,
      countP_eq_zero.2 fun ph hmem => by rw [hph ph hmem]; decide, hhanded]
  · have := hnone q hq
    cases q <;> cases hf <;> cases this
  · cases hnone _ hmem
  · rw [hnone q hq] at ho
    cases ho

end

theorem signal_pthreads (s : State) (w : ℕ) : (s.signal w).pthreads.length = s.pthreads.length
      ∧ (s.signal w).pthreads.countP owns = s.pthreads.countP owns
      ∧ ((s.signal w).pthreads.any locks) = s.pthreads.any locks
      ∧ ((s.signal w).pthreads.any busy) = s.pthreads.any busy := by
  unfold signal
  split
  next hw =>
    obtain ⟨pre, post, hph, hnew⟩ := exists_replaceAt hw
    rw [hnew, hph]
    simp [owns, locks, busy]
  · exact ⟨rfl, rfl, rfl, rfl⟩

theorem Inv.handOver (h : Inv s) (hk : s.producers[k]? = some .handOver) (hmutex : s.mutex = false) (w : ℕ) :
    Inv ({ s with producers := replaceAt s.producers k [] }.signal w) := by
  obtain ⟨hhead, hps, hph, -⟩ := h.sole hk rfl
  obtain ⟨h₁, h₂, h₃, h₄⟩ := signal_pthreads { s with producers := replaceAt s.producers k [] } w
  have hdone := h.not_stopDone hk rfl nofun
  have hbusy : s.pthreads.any busy = false := by
    have hlocks := h.mutex
    rw [hmutex, eq_comm, any_eq_false] at hlocks
    rw [any_eq_false]
    intro ph hmem hb
    refine hlocks ph hmem ?_
    cases ph <;> first | rfl | cases hb
  refine ⟨h₁.trans_le h.one, ?_, fun hne => ?_, fun q hq hf => ?_, ?_, ?_, fun hmem => ?_, h.stopped,
    fun hd => absurd hd (by change s.stopDone ≠ true; rw [hdone]; decide)⟩
  · rw [countP_eq_zero.2 fun q hq => by rw [hps q hq]; decide, h₂, handed, h₄, hhead]
    rw [countP_eq_zero.2 fun ph hmem => by rw [hph ph hmem]; decide, hbusy]
    rfl
  · have hne' : s.pthreads ≠ [] := by
      intro hnil
      have hlen : ({ s with producers := replaceAt s.producers k [] }.signal w).pthreads.length = 0 := by
        rw [hnil]
        rfl
      exact hne (eq_nil_of_length_eq_zero hlen)
    exact (h.created hne').imp id fun hmem => mem_replaceAt_of_ne hk hmem (by decide)
  · have := hps q hq
    cases q <;> cases hf <;> cases this
  · rw [h₃]
    exact h.mutex
  · rw [hhead]
    exact fun hf => nomatch hf
  · cases hps _ hmem

theorem Inv.create (h : Inv s) (hk : s.producers[k]? = some .create) : Inv { s with
      pthreads := .start :: s.pthreads
      producers := .storeStarted :: replaceAt s.producers k [] } := by
  obtain ⟨hhead, hps, -, hhanded⟩ := h.sole hk rfl
  have hnil := h.fresh _ (mem_of_getElem? hk) rfl
  have hmutex := h.mutex
  have hdone := h.not_stopDone hk rfl nofun
  rw [hnil] at hmutex ⊢
  refine ⟨Nat.le_refl _, ?_, fun _ => .inr mem_cons_self, fun q hq hf => ?_, hmutex, h.idle,
    fun hin => ?_, h.stopped, fun hd => absurd hd (by change s.stopDone ≠ true; rw [hdone]; decide)⟩
  · have hcurrent : s.currentHead = false := by
      rw [handed, hnil] at hhanded
      cases hcur : s.currentHead with
      | false => rfl
      | true =>
        rw [hcur] at hhanded
        cases hhanded
    show (Producer.storeStarted :: replaceAt s.producers k []).countP Producer.owns
      + ([start].countP owns + if s.currentHead && !([start].any busy) then 1 else 0) = if s.head then 1 else 0
    rw [countP_cons_of_neg (by decide), countP_eq_zero.2 fun q hq => by rw [hps q hq]; decide, hcurrent, hhead]
    rfl
  · rcases mem_cons.1 hq with rfl | hq
    · cases hf
    · have := hps q hq
      cases q <;> cases hf <;> cases this
  · rcases mem_cons.1 hin with heq | hin
    · cases heq
    · cases hps _ hin

theorem ends_mono {ph : Phase} {ended : Bool} (h : ph.ends ended = true) (d : Bool) : ph.ends (ended || d) = true := by
  cases ph <;> simp_all [ends]

theorem Inv.goOn_inPlace (h : Inv s) (hk : s.producers[k]? = some .inPlace) (ok : Bool) (w : ℕ) :
    Inv ({ s with producers := replaceAt s.producers k [] }.goOn .inPlace ok w) := by
  obtain ⟨ts, hts⟩ := h.inPlace (mem_of_getElem? hk)
  have hnext := h.advance hk .moreTasks rfl rfl nofun nofun nofun
  rw [goOn]
  rw [hts]
  dsimp only
  split
  · exact hnext.execute hts (h.inPlace_not_mem hk rfl nofun) nofun
  · rw [hts] at hnext
    exact hnext

/-- A producer that could not create the pthread executes the tasks itself. -/
theorem Inv.goOn_run (h : Inv s) {destroy : Bool} (hk : s.producers[k]? = some (.run destroy)) (ok : Bool) (w : ℕ) :
    Inv ({ s with producers := replaceAt s.producers k [] }.goOn (.run destroy) ok w) := by
  have hmem := mem_of_getElem? hk
  have hfresh := h.fresh _ hmem rfl
  rw [goOn]
  split
  next task ts hpending =>
    have hnext := h.swap hk (.run (destroy || task = .stop)) rfl nofun nofun (fun _ => hfresh) fun hd _ => by
      have := (h.ending hd).1 _ hmem rfl
      simp_all
    refine hnext.execute hpending (h.inPlace_not_mem hk rfl nofun) fun heq => ⟨forall_mem_cons.2
      ⟨fun _ => by simp [heq], fun q hq ho => ?_⟩, fun ph hph => ?_⟩
    · rw [(h.sole hk rfl).2.1 q hq] at ho
      cases ho
    · rw [hfresh] at hph
      cases hph
  next hpending =>
    exact h.release hk rfl hpending [.finish destroy] (by simp [Producer.owns])

theorem Inv.storeStarted (h : Inv s) (hk : s.producers[k]? = some .storeStarted) :
    Inv { s with started := true, producers := replaceAt s.producers k [] } := by
  have hcount := countP_remove hk
  have howners := h.owners
  refine ⟨h.one, ?_, fun _ => .inl rfl, fun q hq => h.fresh q (mem_of_mem_remove hq), h.mutex,
    h.idle, fun hin => h.inPlace (mem_of_mem_remove hin), h.stopped, fun hd =>
    ⟨fun q hq => (h.ending hd).1 q (mem_of_mem_remove hq), (h.ending hd).2⟩⟩
  show (replaceAt s.producers k []).countP Producer.owns + (s.pthreads.countP _ + s.handed) = if s.head then 1 else 0
  change _ + 0 = _ at hcount
  omega

theorem Inv.producer (h : Inv s) (hk : s.producers[k]? = some p) (ok : Bool)
    (w : ℕ) (hcareful : p = .readStarted → .storeStarted ∉ s.producers) :
    Inv ({ s with producers := replaceAt s.producers k [] }.goOn p ok w) := by
  cases p with
  | inPlace => exact h.goOn_inPlace hk ok w
  | moreTasks =>
    rw [goOn]
    split
    next hnil => exact h.release hk rfl hnil [] nofun
    · exact h.advance hk .readStarted rfl rfl nofun nofun nofun
  | readStarted =>
    rw [goOn]
    split_ifs with hstarted
    · exact h.advance hk .handOver rfl rfl nofun nofun nofun
    · refine h.advance hk .create rfl rfl nofun nofun fun _ => ?_
      by_contra hne
      exact (h.created hne).elim hstarted (hcareful rfl)
  | handOver =>
    rw [goOn]
    split
    · exact h.advance hk .handOver rfl rfl nofun nofun nofun
    next hfree =>
      exact h.handOver hk (by simpa using fun hm => hfree (.inl hm)) w
  | create =>
    rw [goOn]
    split
    · exact h.create hk
    · exact h.advance hk (.run false) rfl rfl nofun nofun fun _ => h.fresh _ (mem_of_getElem? hk) rfl
  | run => exact h.goOn_run hk ok w
  | finish destroy =>
    have hnext := h.swap hk .storeStarted rfl nofun nofun nofun nofun
    exact { hnext with ending := fun hd => ⟨(hnext.ending hd).1, fun ph hph =>
        ends_mono ((hnext.ending hd).2 ph hph) destroy⟩ }
  | storeStarted => exact h.storeStarted hk

end State

end Brpc.PthreadMode
