/-
# Wakers, timers and interruptions of a butex

The steps of everyone who handles a record that is not their own: `wait_for_butex` on the worker,
the wake functions, `erase_from_butex` and its callers.  `unblocked_iff_fits` says when `butex_wait`
does not block itself.  `waiter_lock` is kept from step to step only where a thread asks for a lock
it has.
-/

import Brpc.Butex.State

namespace Brpc.Butex.State

variable (s : State)

/-- Removed from their queue by one party. -/
def removeAll (ws : List ℕ) (p : Party) : State :=
  { s with waiter := fun w => if w ∈ ws then (s.waiter w).remove p else s.waiter w }

/-- `container.store(m)` for the waiters that are moved. -/
def moveAll (ws : List ℕ) (m : ℕ) : State :=
  { s with waiter := fun w => if w ∈ ws then { s.waiter w with container := .at m } else s.waiter w }

def isBthread (w : ℕ) : Bool := (s.waiter w).who.isBthread

/-- What `butex_wake` and `butex_requeue` do with the front. -/
def wakeActs (w : ℕ) : List Act :=
  if s.isBthread w then [.unsleep w, .ready w] else [.signal w, .futexWake w]

/-- The loop over the pthreads. -/
def pthreadActs (ws : List ℕ) : List Act :=
  (ws.filter fun w => !s.isBthread w).flatMap fun w => [.signal w, .futexWake w, .count]

/-- The loop over bthreads, from the tail on. -/
def bthreadActs (ws : List ℕ) : List Act :=
  ws.reverse.flatMap fun w => [.unsleep w, .ready w, .count]

/-- What `butex_wake_all` does with the waiters: the first bthread is made ready last. -/
def wakeAllActs (ws : List ℕ) : List Act :=
  s.pthreadActs ws ++
    match ws.filter s.isBthread with
    | [] => []
    | next :: others => [.unsleep next, .count] ++ bthreadActs others ++ [.ready next]

/-- What `butex_wake_except` does with them. -/
def wakeExceptActs (ws : List ℕ) : List Act := s.pthreadActs ws ++ bthreadActs (ws.filter s.isBthread)

def isTask (x w : ℕ) : Bool := (s.waiter w).who = .bthread x

/-- The section of `butex_wake` or `butex_requeue` has removed the front. -/
def wakeFront (k w : ℕ) : State :=
  (s.removeAll [w] (.waker k)).setOp k (.waking (s.wakeActs w) 1 1)

/-- The section of a wake function. -/
def goCall (k : ℕ) : WakeCall → State
  | .wake b =>
    if (s.lock b).isSome then s
    else
      match s.queue b with
      | [] => s.setOp k (.waking [] 0 0)
      | w :: ws => (s.setQueue b ws).wakeFront k w
  | .wakeAll b =>
    if (s.lock b).isSome then s
    else
      ((s.setQueue b []).removeAll (s.queue b) (.waker k)).setOp k
        (.waking (s.wakeAllActs (s.queue b)) (s.queue b).length 0)
  | .wakeExcept b x =>
    if (s.lock b).isSome then s
    else
      -- the excluded waiter is taken out as well and appended again
      let ws := (s.queue b).filter fun w => !s.isTask x w
      ((s.setQueue b ((s.queue b).filter (s.isTask x)).getLast?.toList).removeAll ws
        (.waker k)).setOp k (.waking (s.wakeExceptActs ws) ws.length 0)
  | .requeue b m =>
    if (s.lock b).isSome ∨ (s.lock m).isSome then s
    else if b = m then s.setLock b k
    else
      match s.queue b with
      | [] => s.setOp k (.waking [] 0 0)
      | w :: ws =>
        (((s.setQueue b []).setQueue m (s.queue m ++ ws)).moveAll ws m).wakeFront k w

/-- One step of a wake-up after its section. -/
def act (k : ℕ) : Act → State
  | .signal w | .ready w => (s.touch w).setWaiter w ((s.waiter w).makeReady k)
  | .futexWake w => { s with lateWake := s.lateWake || (s.waiter w).pc.isReturned }
  | .unsleep w => (s.touch w).setWaiter w (s.waiter w).unsleepIfNecessary.1
  | .count => s

def goWaking (k : ℕ) (removed n : ℕ) : List Act → State
  | [] => { s with log := s.log ++ [(removed, n)] }.setOp k .idle
  | a :: acts => (s.act k a).setOp k (.waking acts removed (if a = .count then n + 1 else n))

/-- The section of `wait_for_butex`. -/
def goQueue (k w : ℕ) (ok : Bool) : State :=
  let r := s.waiter w
  let s' := s.touch w
  if (s.lock r.butex).isSome then s
  else if s.value r.butex ≠ r.expected then
    (s'.setWaiter w { r with state := .unmatchedValue }).setOp k (.unqueued w)
  else if r.state = .ready ∧ s.interrupted r = false then
    let queued := { r with container := .at r.butex }
    let s' := s'.setQueue r.butex (s.queue r.butex ++ [w])
    if r.timed = false then (s'.setWaiter w queued).setOp k .idle
    else if ok then
      (s'.setWaiter w { queued with timer := .scheduled, sleepId := true }).setOp k .idle
    else
      -- erase_from_butex_and_wakeup is called under the lock it will ask for
      ((s'.setWaiter w { queued with unscheduled := true }).setLock r.butex k).setOp k (.erase w .failed .load)
  else s'.setOp k (.unqueued w)

/-- One step of `erase_from_butex`, or of its caller after it. -/
def goErase (k w : ℕ) (why : Why) : ErasePc → State
  | .load =>
    match (s.waiter w).container with
    | .unset => { s.touch w with unsetUsed := true }.setOp k .idle
    | .null => (s.touch w).setOp k (.erase w why .last)
    | .at b => (s.touch w).setOp k (.erase w why (.lock b))
  | .lock b =>
    if (s.lock b).isSome then s
    else if (s.waiter w).container = .at b then
      let r := (s.waiter w).remove (why.party k)
      (((s.touch w).setQueue b ((s.queue b).erase w)).setWaiter w
        (if r.who.isBthread then { r with state := why.state } else r)).setOp k (.erase w why .wake)
    else (s.touch w).setOp k (.erase w why .load)
  | .wake =>
    ((s.touch w).setWaiter w ((s.waiter w).makeReady k)).setOp k
      (.erase w why (if s.isBthread w then .last else .futexWake))
  | .futexWake =>
    { s with lateWake := s.lateWake || (s.waiter w).pc.isReturned }.setOp k (.erase w why .last)
  | .last =>
    match why with
    | .timer => (s.setWaiter w { s.waiter w with timer := .done }).setOp k .idle
    | .interrupt x => (s.setTask x { s.task x with current := some w }).setOp k .idle
    | .failed => s.setOp k .idle

/-- The next step of a thread's call. -/
def go (k : ℕ) (ok : Bool) : State :=
  match s.op k with
  | .idle => s
  | .call c => s.goCall k c
  | .waking acts removed n => s.goWaking k removed n acts
  | .queue w => s.goQueue k w ok
  | .unqueued w => ((s.touch w).setWaiter w ((s.waiter w).makeReady k)).setOp k .idle
  | .take x => (s.setTask x { s.task x with current := none }).setOp k (.flag x (s.task x).current)
  | .flag x taken =>
    (s.setTask x { s.task x with interrupted := true }).setOp k
      (match taken with
      | none => .idle
      | some w => .erase w (.interrupt x) .load)
  | .erase w why pc => s.goErase k w why pc

def step (s : State) : Input → State
  | .wait w who b expected timed expired => s.wait w who b expected timed expired
  | .own w a => s.own w a
  | .call k c => if s.op k = .idle then s.setOp k (.call c) else s
  | .interrupt k x => if s.op k = .idle then s.setOp k (.take x) else s
  | .fire w k =>
    if s.op k = .idle ∧ (s.waiter w).timer = .scheduled then
      (s.setWaiter w { s.waiter w with timer := .running k }).setOp k (.erase w .timer .load)
    else s
  | .go k ok => s.go k ok
  | .store b v => { s with value := Function.update s.value b v }

end Brpc.Butex.State

/-! ## `butex_wait` and its locks -/

namespace Brpc.Butex

open Lib Function State

/-- No thread asks for a `waiter_lock` that it has, no container was used before it was set, and a
waiter without its timer is being removed, or was made ready with an error. -/
structure Unblocked (s : State) : Prop where
  erase : ∀ k w why pc b, s.op k = .erase w why pc → (s.waiter w).container = .at b → s.lock b ≠ some k
  requeue : ∀ k b, s.op k = .call (.requeue b b) → s.lock b ≠ some k
  unset : s.unsetUsed = false
  unscheduled : ∀ w, (s.waiter w).unscheduled = true →
    (∃ k pc, s.op k = .erase w .failed pc) ∨ ((s.waiter w).readied ≠ [] ∧ (s.waiter w).state ≠ .ready)

/-- `wait_for_butex` is about to schedule a timer for the record. -/
structure Schedules (s : State) (w : ℕ) : Prop where
  free : s.lock (s.waiter w).butex = none
  value : s.value (s.waiter w).butex = (s.waiter w).expected
  state : (s.waiter w).state = .ready
  interrupted : s.interrupted (s.waiter w) = false
  timed : (s.waiter w).timed = true

/-- What the next step of a call must find: a timer that can be scheduled, a container that has
been set, two different butexes. -/
def FitsOp (s : State) (ok : Bool) : Op → Prop
  | .queue w => Schedules s w → ok = true
  | .erase w _ .load => (s.waiter w).container ≠ .unset
  | .call (.requeue b m) => s.lock b = none → s.lock m = none → b ≠ m
  | _ => True

def Fits (s : State) : Input → Prop
  | .go k ok => FitsOp s ok (s.op k)
  | _ => True

/-- No lock is kept, no unset container was used, and every timer could be scheduled. -/
structure Quiet (s : State) : Prop where
  lock : ∀ b, s.lock b = none
  unset : s.unsetUsed = false
  scheduled : ∀ w, (s.waiter w).unscheduled = false

theorem Quiet.init : Quiet init := ⟨fun _ => rfl, rfl, fun _ => rfl⟩

theorem Quiet.unblocked {s : State} (h : Quiet s) : Unblocked s where
  erase := by
    intro k w why pc b _ _
    rw [h.lock b]
    rintro ⟨⟩
  requeue := by
    intro k b _
    rw [h.lock b]
    rintro ⟨⟩
  unset := h.unset
  unscheduled := by
    intro w hw
    rw [h.scheduled w] at hw
    cases hw

section
variable {s : State}

section

variable (h : Quiet s)
include h

theorem Quiet.setWaiter {w : ℕ} {r : Waiter} (hr : r.unscheduled = false) : Quiet (s.setWaiter w r) where
  lock := h.lock
  unset := h.unset
  scheduled := by
    intro w'
    show (update s.waiter w r w').unscheduled = false
    rcases eq_or_ne w' w with rfl | hne
    · rw [update_self]
      exact hr
    · rw [update_of_ne hne]
      exact h.scheduled w'

theorem Quiet.setOp (k : ℕ) (op : Op) : Quiet (s.setOp k op) := { h with }

theorem Quiet.setTask (x : ℕ) (t : Task) : Quiet (s.setTask x t) := { h with }

theorem Quiet.setQueue (b : ℕ) (q : List ℕ) : Quiet (s.setQueue b q) := { h with }

theorem Quiet.touch (w : ℕ) : Quiet (s.touch w) := { h with }

theorem Quiet.removeAll (ws : List ℕ) (p : Party) : Quiet (s.removeAll ws p) where
  lock := h.lock
  unset := h.unset
  scheduled := by
    intro w
    show (if w ∈ ws then (s.waiter w).remove p else s.waiter w).unscheduled = false
    split <;> exact h.scheduled w

theorem Quiet.moveAll (ws : List ℕ) (m : ℕ) : Quiet (s.moveAll ws m) where
  lock := h.lock
  unset := h.unset
  scheduled := by
    intro w
    show (if w ∈ ws then { s.waiter w with container := .at m } else s.waiter w).unscheduled = false
    split <;> exact h.scheduled w

omit h in
theorem unscheduled_unsleep (r : Waiter) : r.unsleepIfNecessary.1.unscheduled = r.unscheduled := by
  rw [Waiter.unsleepIfNecessary]
  split
  · split <;> rfl
  · rfl

theorem Quiet.goCall {k : ℕ} {c : WakeCall} (hfits : FitsOp s true (.call c)) : Quiet (s.goCall k c) := by
  cases c with
  | wake b =>
    rw [State.goCall, h.lock b, if_neg (by rintro ⟨⟩)]
    split
    · exact h.setOp _ _
    · exact ((h.setQueue _ _).removeAll _ _).setOp _ _
  | wakeAll b | wakeExcept b =>
    rw [State.goCall, h.lock b, if_neg (by rintro ⟨⟩)]
    exact ((h.setQueue _ _).removeAll _ _).setOp _ _
  | requeue b m =>
    rw [State.goCall, h.lock b, h.lock m, if_neg (by rintro (⟨⟨⟩⟩ | ⟨⟨⟩⟩)), if_neg (hfits (h.lock b) (h.lock m))]
    split
    · exact h.setOp _ _
    · exact ((((h.setQueue _ _).setQueue _ _).moveAll _ _).removeAll _ _).setOp _ _

theorem Quiet.goWaking (k removed n : ℕ) (acts : List Act) : Quiet (s.goWaking k removed n acts) := by
  cases acts with
  | nil => exact { h with }
  | cons a =>
    refine Quiet.setOp ?_ _ _
    cases a with
    | signal w | ready w => exact (h.touch w).setWaiter (h.scheduled w)
    | futexWake => exact { h with }
    | unsleep w =>
      exact (h.touch w).setWaiter ((unscheduled_unsleep _).trans (h.scheduled w))
    | count => exact h

theorem Quiet.goQueue {k w : ℕ} {ok : Bool} (hfits : FitsOp s ok (.queue w)) : Quiet (s.goQueue k w ok) := by
  rw [State.goQueue, h.lock, if_neg (by rintro ⟨⟩)]
  split
  · exact ((h.touch w).setWaiter (by exact h.scheduled w)).setOp _ _
  next hvalue =>
    split
    next hstate =>
      have hqueue := (h.touch w).setQueue (s.waiter w).butex (s.queue (s.waiter w).butex ++ [w])
      split
      · exact (hqueue.setWaiter (by exact h.scheduled w)).setOp _ _
      next htimed =>
        have hok : ok = true := hfits ⟨h.lock _, not_not.1 hvalue, hstate.1, hstate.2, by
          rw [Bool.not_eq_false] at htimed
          exact htimed⟩
        rw [if_pos hok]
        exact (hqueue.setWaiter (by exact h.scheduled w)).setOp _ _
    · exact (h.touch w).setOp _ _

theorem Quiet.goErase {k w : ℕ} {why : Why} {pc : ErasePc}
    (hfits : FitsOp s true (.erase w why pc)) : Quiet (s.goErase k w why pc) := by
  cases pc with
  | load =>
    rw [State.goErase]
    split
    next hunset =>
      exact absurd hunset hfits
    all_goals exact (h.touch w).setOp _ _
  | lock b =>
    rw [State.goErase, h.lock b, if_neg (by rintro ⟨⟩)]
    split
    · refine Quiet.setOp (((h.touch w).setQueue _ _).setWaiter ?_) _ _
      split <;> exact h.scheduled w
    · exact (h.touch w).setOp _ _
  | wake => exact ((h.touch w).setWaiter (by exact h.scheduled w)).setOp _ _
  | futexWake => exact { h with }
  | last =>
    cases why with
    | timer => exact (h.setWaiter (by exact h.scheduled w)).setOp _ _
    | interrupt => exact (h.setTask _ _).setOp _ _
    | failed => exact h.setOp _ _

/-- **Every step of a call that fits keeps the locks free.** -/
theorem Quiet.go {k : ℕ} {ok : Bool} (hfits : FitsOp s ok (s.op k)) : Quiet (s.go k ok) := by
  rw [State.go]
  split
  · exact h
  next c hop =>
    rw [hop] at hfits
    refine h.goCall ?_
    cases c <;> exact hfits
  · exact h.goWaking _ _ _ _
  next w hop =>
    rw [hop] at hfits
    exact h.goQueue hfits
  next w hop =>
    exact ((h.touch w).setWaiter (by exact h.scheduled w)).setOp _ _
  · exact (h.setTask _ _).setOp _ _
  · exact (h.setTask _ _).setOp _ _
  next w why pc hop =>
    rw [hop] at hfits
    refine h.goErase ?_
    cases pc <;> exact hfits

/-- **The owner of a record keeps no lock.** -/
theorem Quiet.own (w : ℕ) (a : Answer) : Quiet (s.own w a) := by
  have hw := h.scheduled w
  rw [State.own]
  split
  · split
    · split
      · exact ((h.setTask _ _).setWaiter (by exact hw)).setOp _ _
      · exact h
    · exact (h.setTask _ _).setWaiter hw
    · exact h
  · rw [ownEnter]
    split
    · exact h
    · split
      · exact h.setWaiter hw
      · split
        · split
          · exact h
          · exact (h.setTask _ _).setWaiter hw
        · exact (h.setQueue _ _).setWaiter hw
  · split
    · exact h
    · exact h.setWaiter hw
  · split
    · exact h.setWaiter ((unscheduled_unsleep _).trans hw)
    · exact h
  · split
    · exact h.setWaiter hw
    · split <;> exact h.setWaiter hw
  · split
    · exact h
    · exact h.setWaiter hw
  · split
    · exact h.setWaiter hw
    · split <;> exact h.setWaiter hw
  · split <;> exact h.setWaiter hw
  · split
    · exact h
    · split
      · exact (h.setQueue _ _).setWaiter hw
      · exact h.setWaiter hw
  · split <;> exact h.setWaiter hw
  · split
    · exact h
    · split
      · exact h
      · exact (h.setTask _ _).setWaiter hw
  · rw [ownResult]
    split
    · exact h.setWaiter hw
    · exact (h.setWaiter (by exact hw)).setTask _ _
  · exact h

end

/-- **Every step that fits keeps the locks free.** -/
theorem Quiet.step (s : State) (i : Input) (h : Quiet s) (hfits : Fits s i) : Quiet (s.step i) := by
  cases i with
  | wait =>
    rw [State.step, State.wait]
    split
    · exact h
    · split
      · exact h.setWaiter rfl
      · split
        · exact h.setWaiter rfl
        · split
          · exact h.setWaiter rfl
          · split
            · exact (h.setTask _ _).setWaiter rfl
            · exact h
  | own w a => exact h.own w a
  | call | interrupt =>
    rw [State.step]
    split
    · exact h.setOp _ _
    · exact h
  | fire w =>
    rw [State.step]
    split
    · exact (h.setWaiter (by exact h.scheduled w)).setOp _ _
    · exact h
  | go => exact h.go hfits
  | store => exact { h with }

/-! ## What a step without blocking has found -/

theorem goQueue_failed {k w : ℕ} (hs : Schedules s w) : ¬ Unblocked (s.goQueue k w false) := by
  obtain ⟨hfree, hvalue, hstate, hint, htimed⟩ := hs
  intro hu
  rw [goQueue, hfree, if_neg (by rintro ⟨⟩), if_neg (not_not.2 hvalue), if_pos ⟨hstate, hint⟩] at hu
  rw [if_neg (by rw [htimed]; rintro ⟨⟩), if_neg Bool.false_ne_true] at hu
  refine hu.erase k w .failed .load (s.waiter w).butex ?_ ?_ ?_
  · exact update_self ..
  · show (update s.waiter w _ w).container = _
    rw [update_self]
  · exact update_self ..

theorem fitsOp_of_unblocked {k : ℕ} {ok : Bool} (hu : Unblocked (s.go k ok)) : FitsOp s ok (s.op k) := by
  rw [go] at hu
  cases hop : s.op k with
  | queue =>
    rw [hop] at hu
    intro hs
    by_contra hok
    rw [Bool.not_eq_true] at hok
    subst hok
    exact goQueue_failed hs hu
  | erase w why pc =>
    rw [hop] at hu
    cases pc with
    | load =>
      intro hunset
      dsimp only at hu
      rw [goErase, hunset] at hu
      exact absurd hu.unset (by rintro ⟨⟩)
    | _ => trivial
  | call c =>
    rw [hop] at hu
    cases c with
    | requeue b =>
      rintro hb hm rfl
      dsimp only at hu
      rw [goCall, hb, if_neg (by rintro (⟨⟨⟩⟩ | ⟨⟨⟩⟩)), if_pos rfl] at hu
      exact hu.requeue k b hop (update_self ..)
    | _ => trivial
  | _ => trivial

theorem fits_of_unblocked (s : State) (i : Input) (hu : Unblocked (s.step i)) : Fits s i := by
  cases i with
  | go => exact fitsOp_of_unblocked hu
  | _ => trivial

end

/-- **`butex_wait` does not block itself, exactly when every step fits**: every timer that is
needed can be scheduled, no interrupter reads the container of a record before it is set, and
`butex_requeue` is given two butexes. -/
theorem unblocked_iff_fits (is : List Input) : (∀ js, js <+: is → Unblocked (run step init js))
      ↔ Along step Fits init is :=
  along_iff_prefixes_of_invariant (fun _ h => h.unblocked) Quiet.step
    (fun s i _ hu => fits_of_unblocked s i hu) is _ Quiet.init

/-- **What blocks it.**  The timer thread has stopped when a bthread waits with a timeout; a task
in pthread mode is interrupted between the store of its `current_waiter` and the section that sets
the container. -/
theorem failed_timer_or_early_interrupt_blocks : let answer : Answer := ⟨0, true, false, .ok⟩
    ¬ Unblocked (run step init [.wait 0 (.bthread 1) 0 0 true false, .own 0 answer, .go 0 false])
      ∧ ¬ Unblocked (run step init
        [.wait 0 (.pthreadTask 1) 0 0 false false, .own 0 answer, .interrupt 0 1, .go 0 true,
          .go 0 true, .go 0 true]) := by
  constructor
  · intro h
    exact h.erase 0 0 .failed .load 0 rfl rfl rfl
  · intro h
    exact absurd h.unset (by decide)

end Brpc.Butex
