/-
# bthread_id

The slot of a `bthread_id_t` (`Id` of `bthread/id.cpp`) and its functions.  The versions from
`first_ver` to `locked_ver` are the ids of the slot, and the word `butex` is `first_ver` if they are
unlocked, `locked_ver` if locked, one more with lockers that wait, and two more if about to be
destroyed.  `SmallQueue` is the queue of pending errors (`toList_push`, `toList_pop`).

Each section under `Id::mutex` is one step, and so is what a function does after it (`ops`).  The
errors issued and the versions that are over are written down by the step that makes the call
(`State.record`).  Versions do not wrap around.
-/

import Brpc.Lib.Ops
import Brpc.Lib.Run
import Mathlib.Data.List.Nodup

namespace Brpc.BthreadId

open List Function

/-- The ring `c` of `N` values from `first` on, and the deque `full`. -/
structure SmallQueue (T : Type) (N : ℕ) where
  first : ℕ
  size : ℕ
  c : ℕ → T
  full : List T
  first_lt : first < N
  size_le : size ≤ N

namespace SmallQueue

variable {T : Type} {N : ℕ}

variable (q : SmallQueue T N)

/-- The index `i` places behind `first`, which is wrapped around once. -/
def slot (i : ℕ) : ℕ :=
  if q.first + i ≥ N then q.first + i - N else q.first + i

def push (val : T) : SmallQueue T N :=
  if q.full ≠ [] then { q with full := q.full ++ [val] }
  else if h : q.size < N then
    { q with c := Function.update q.c (q.slot q.size) val, size := q.size + 1, size_le := h }
  else { q with full := q.full ++ [val] }

/-- `++_begin` with the wrap around. -/
def next : ℕ := if q.first + 1 ≥ N then q.first + 1 - N else q.first + 1

theorem next_lt : q.next < N := by
  have := q.first_lt
  unfold next
  split <;> omega

def pop : Option (T × SmallQueue T N) :=
  if 0 < q.size then
    some (q.c q.first, { q with
        first := q.next, size := q.size - 1, first_lt := q.next_lt,
        size_le := Nat.le_trans (Nat.sub_le _ _) q.size_le })
  else
    match q.full with
    | [] => none
    | val :: full => some (val, { q with full := full })

def clear : SmallQueue T N :=
  { q with
    first := 0, size := 0, full := [], size_le := Nat.zero_le N
    first_lt := Nat.lt_of_le_of_lt (Nat.zero_le _) q.first_lt }

/-- The values in the order they come out. -/
def toList : List T := (range q.size).map (fun i => q.c (q.slot i)) ++ q.full

@[simp]
theorem toList_clear : q.clear.toList = [] := rfl

theorem slot_ne {i j : ℕ} (hij : i < j) (hj : j < N) : q.slot i ≠ q.slot j := by
  unfold slot
  split <;> split <;> omega

/-- **A pushed value is the last one.** -/
@[simp]
theorem toList_push (val : T) : (q.push val).toList = q.toList ++ [val] := by
  unfold push
  split
  · simp [toList, slot]
  next hfull =>
    rw [ne_eq, not_not] at hfull
    split
    next hsize =>
      have hkeep : ∀ i ∈ range q.size, update q.c (q.slot q.size) val (q.slot i) = q.c (q.slot i) := by
        intro i hi
        exact update_of_ne (q.slot_ne (mem_range.1 hi) hsize) _ _
      show (range (q.size + 1)).map (fun i => update q.c (q.slot q.size) val (q.slot i)) ++ q.full = _
      rw [toList, hfull, append_nil, append_nil, range_succ, map_append,
        map_congr_left hkeep, map_singleton, update_self]
    · simp [toList, slot]

theorem toList_of_size_zero {q : SmallQueue T N} (h : q.size = 0) : q.toList = q.full := by
  rw [toList, h]
  rfl

/-- **The value popped is the first one.** -/
theorem toList_of_pop {q q' : SmallQueue T N} {val : T} (h : q.pop = some (val, q')) :
    q.toList = val :: q'.toList := by
  have hfirst := q.first_lt
  have hle := q.size_le
  unfold pop at h
  split_ifs at h with hsize
  · cases h
    -- The places behind the first one are those of the ring that starts at the next.
    have hslot : ∀ i ∈ range (q.size - 1), q.c (q.slot (i + 1))
        = q.c (if q.next + i ≥ N then q.next + i - N else q.next + i) := by
      intro i hi
      have hi := mem_range.1 hi
      unfold slot next
      congr 1
      split <;> split <;> split <;> omega
    have hzero : q.slot 0 = q.first := if_neg (by omega)
    have hrange : range q.size = 0 :: (range (q.size - 1)).map (· + 1) := by
      obtain ⟨n, hn⟩ : ∃ n, q.size = n + 1 := ⟨q.size - 1, by omega⟩
      rw [hn, Nat.add_sub_cancel]
      exact range_succ_eq_map
    show q.toList = q.c q.first :: ((range (q.size - 1)).map
      (fun i => q.c (if q.next + i ≥ N then q.next + i - N else q.next + i)) ++ q.full)
    rw [toList, hrange, map_cons, map_map, hzero, ← map_congr_left hslot]
    rfl
  · have hzero : q.size = 0 := Nat.eq_zero_of_not_pos hsize
    rw [toList_of_size_zero hzero]
    cases hfull : q.full with
    | nil =>
      rw [hfull] at h
      cases h
    | cons v full =>
      rw [hfull] at h
      cases h
      exact congrArg (cons val) (toList_of_size_zero (q := SmallQueue.mk _ _ _ full _ _) hzero).symm

theorem toList_of_pop_none {q : SmallQueue T N} (h : q.pop = none) : q.toList = [] := by
  unfold pop at h
  by_cases hsize : 0 < q.size
  · rw [if_pos hsize] at h
    cases h
  · rw [if_neg hsize] at h
    rw [toList_of_size_zero (Nat.eq_zero_of_not_pos hsize)]
    cases hfull : q.full with
    | nil => rfl
    | cons =>
      rw [hfull] at h
      cases h

end SmallQueue

/-! ## The slot -/

open Lib

/-- `PendingError`: the version of the id it was issued to, and the error. -/
structure PendingError where
  id : ℕ
  errorCode : ℤ
  errorText : String
  deriving DecidableEq

/-- What a function returns, `running` if it has not returned yet. -/
inductive Errno
  | success
  | EINVAL
  | EPERM
  | EBUSY
  | running
  deriving DecidableEq

/-- A call between two of its steps.  The first number is the thread. -/
inductive Op
  /-- `bthread_id_lock` is about to call `butex_wait` for `expected`. -/
  | waiting (t ver : ℕ) (range : ℤ) (expected : ℕ)
  /-- It is in `butex_wait`. -/
  | blocked (t ver : ℕ) (range : ℤ)
  /-- `butex_wait` has returned, because of a wake-up if `woken`. -/
  | retry (t ver : ℕ) (range : ℤ) (woken : Bool)
  /-- `bthread_id_error2` or `bthread_id_unlock` is about to call `on_error`. -/
  | onError (t : ℕ) (e : PendingError)
  /-- `bthread_id_unlock` is about to call `butex_wake`. -/
  | wakeOne (t : ℕ)
  /-- `bthread_id_about_to_destroy` is about to call `butex_wake_except`. -/
  | wakeAll (t : ℕ)
  /-- `bthread_id_unlock_and_destroy` is about to wake all waiters. -/
  | destroyed (t : ℕ)
  /-- The slot is about to be returned. -/
  | returning (t : ℕ)
  deriving DecidableEq

/-- The thread of the call. -/
def Op.thread : Op → ℕ
  | waiting t _ _ _ | blocked t _ _ | retry t _ _ _ | onError t _ | wakeOne t | wakeAll t
  | destroyed t | returning t => t

/-- The call is blocked in `butex_wait`. -/
def Op.isBlocked : Op → Bool
  | blocked _ _ _ => true
  | _ => false

/-- The call after a wake-up. -/
def Op.wake : Op → Op
  | blocked t ver range => retry t ver range true
  | op => op

/-- The thread and the error it is about to pass to `on_error`. -/
def Op.hand : Op → Option (ℕ × PendingError)
  | onError t e => some (t, e)
  | _ => none

/-- The call is going to return the slot. -/
def Op.isFinishing : Op → Bool
  | destroyed _ | returning _ => true
  | _ => false

/-- A call of `on_error`, with the threads that held the id. -/
structure Delivery where
  thread : ℕ
  error : PendingError
  holders : List ℕ

/-- The errors issued to an id that is destroyed, and those passed to `on_error`. -/
structure Life where
  issued : List PendingError
  delivered : List Delivery

/-- The slot, the calls in progress and the history. -/
structure State where
  firstVer : ℕ
  lockedVer : ℕ
  butex : ℕ
  pendingQ : SmallQueue PendingError 2
  inUse : Bool
  ops : List Op
  holders : List ℕ
  issued : List PendingError
  delivered : List Delivery
  past : List Life
  retired : List ℕ

/-- The operations on an id, with its version. -/
inductive Call
  | lock (ver : ℕ) (range : ℤ)
  | trylock (ver : ℕ)
  | error2 (ver : ℕ) (errorCode : ℤ) (errorText : String)
  | aboutToDestroy (ver : ℕ)
  | unlock (ver : ℕ)
  | unlockAndDestroy (ver : ℕ)
  | cancel (ver : ℕ)

/-- The version of the id it is called with. -/
def Call.ver : Call → ℕ
  | lock ver _ | trylock ver | error2 ver _ _ | aboutToDestroy ver | unlock ver
  | unlockAndDestroy ver | cancel ver => ver

def idMaxRange : ℤ := 1024

namespace State

variable (s : State)

def hasVersion (ver : ℕ) : Bool := s.firstVer ≤ ver && ver < s.lockedVer

def contendedVer : ℕ := s.lockedVer + 1

def unlockableVer : ℕ := s.lockedVer + 2

def endVer : ℕ := s.unlockableVer + 1

/-- A call goes on later. -/
def push (op : Op) : State := { s with ops := op :: s.ops }

/-- The id is created in a slot that is not in use. -/
def create (range : ℤ) : State × Errno :=
  if range < 1 ∨ idMaxRange < range then (s, .EINVAL)
  else
    -- 0 is skipped.
    let butex := if s.butex = 0 then 1 else s.butex
    ({ s with
      butex := butex, firstVer := butex, lockedVer := butex + range.toNat, inUse := true }, .success)

/-- `locked_ver` for the range a lock asks for, which does not shrink. -/
def lockedVerFor (range : ℤ) : ℕ :=
  if range = 0 then s.lockedVer
  else if range < 0 ∨ idMaxRange < range ∨ s.firstVer + range ≤ s.lockedVer then s.lockedVer
  else s.firstVer + range.toNat

/-- One round of the loop of `bthread_id_lock_and_reset_range`, with `ever_contended`. -/
def lockSection (t ver : ℕ) (range : ℤ) (everContended : Bool) : State × Errno :=
  if s.hasVersion ver then
    if s.butex = s.firstVer then
      let lockedVer := s.lockedVerFor range
      ({ s with
        lockedVer := lockedVer, butex := if everContended then lockedVer + 1 else lockedVer,
        holders := t :: s.holders }, .success)
    else if s.butex ≠ s.unlockableVer then
      ({ s with butex := s.contendedVer }.push (.waiting t ver range s.contendedVer), .running)
    else (s, .EPERM)
  else (s, .EINVAL)

/-- `bthread_id_trylock` -/
def trylock (t ver : ℕ) : State × Errno :=
  if !s.hasVersion ver then (s, .EINVAL)
  else if s.butex ≠ s.firstVer then (s, .EBUSY)
  else ({ s with butex := s.lockedVer, holders := t :: s.holders }, .success)

/-- `bthread_id_error2` -/
def error2 (t : ℕ) (e : PendingError) : State × Errno :=
  if !s.hasVersion e.id then (s, .EINVAL)
  else if s.butex = s.firstVer then
    ({ s with butex := s.lockedVer, holders := t :: s.holders }.push (.onError t e), .running)
  else ({ s with pendingQ := s.pendingQ.push e }, .success)

/-- `bthread_id_about_to_destroy` -/
def aboutToDestroy (t ver : ℕ) : State × Errno :=
  if !s.hasVersion ver then (s, .EINVAL)
  else if s.butex = s.firstVer then (s, .EPERM)
  else if s.butex = s.contendedVer then
    ({ s with butex := s.unlockableVer }.push (.wakeAll t), .running)
  else ({ s with butex := s.unlockableVer }, .success)

/-- `bthread_id_unlock` -/
def unlock (t ver : ℕ) : State × Errno :=
  if !s.hasVersion ver then (s, .EINVAL)
  else if s.butex = s.firstVer then (s, .EPERM)
  else
    match s.pendingQ.pop with
    | some (front, pendingQ) => ({ s with pendingQ := pendingQ }.push (.onError t front), .running)
    | none =>
      let s' := { s with butex := s.firstVer, holders := s.holders.erase t }
      if s.butex = s.contendedVer then (s'.push (.wakeOne t), .running) else (s', .success)

/-- The versions of the id are over. -/
def retire : State := { s with butex := s.endVer, firstVer := s.endVer, lockedVer := s.endVer }

/-- `bthread_id_unlock_and_destroy` -/
def unlockAndDestroy (t ver : ℕ) : State × Errno :=
  if !s.hasVersion ver then (s, .EINVAL)
  else if s.butex = s.firstVer then (s, .EPERM)
  else
    ({ s.retire with
      pendingQ := s.pendingQ.clear, holders := s.holders.erase t }.push (.destroyed t), .running)

/-- `bthread_id_cancel` -/
def cancel (t ver : ℕ) : State × Errno :=
  if !s.hasVersion ver then (s, .EINVAL)
  else if s.butex ≠ s.firstVer then (s, .EPERM)
  else (s.retire.push (.returning t), .running)

/-- The first section of a call. -/
def call (t : ℕ) : Call → State × Errno
  | .lock ver range => s.lockSection t ver range false
  | .trylock ver => s.trylock t ver
  | .error2 ver errorCode errorText => s.error2 t ⟨ver, errorCode, errorText⟩
  | .aboutToDestroy ver => s.aboutToDestroy t ver
  | .unlock ver => s.unlock t ver
  | .unlockAndDestroy ver => s.unlockAndDestroy t ver
  | .cancel ver => s.cancel t ver

/-- The call `c` led to `r`: an error for a live id is issued whatever became of it, and an id is
destroyed, with all its versions, if the function returns 0 or goes on to. -/
def record (c : Call) (r : State × Errno) : State :=
  match c with
  | .error2 ver errorCode errorText =>
    if s.hasVersion ver then { r.1 with issued := s.issued ++ [⟨ver, errorCode, errorText⟩] } else r.1
  | .unlockAndDestroy _ | .cancel _ =>
    if r.2 = .running ∨ r.2 = .success then
      { r.1 with
        issued := [], delivered := [], past := ⟨s.issued, s.delivered⟩ :: s.past
        retired := List.range' s.firstVer (s.lockedVer - s.firstVer) ++ s.retired }
    else r.1
  | _ => r.1

/-- The call at `k` is taken out. -/
def remove (k : ℕ) : State := { s with ops := replaceAt s.ops k [] }

def butexWait (t ver : ℕ) (range : ℤ) (expected : ℕ) : State :=
  s.push (if s.butex = expected then .blocked t ver range else .retry t ver range false)

/-- `butex_wake` wakes the waiter at `j`, and does nothing only if there is none. -/
def butexWake (t j : ℕ) : State :=
  if s.ops.any Op.isBlocked then
    match s.ops[j]? with
    | some (.blocked t' ver range) => { s with ops := replaceAt s.ops j [.retry t' ver range true] }
    -- Not a waiter: nothing happens.
    | _ => s.push (.wakeOne t)
  else s

/-- `butex_wake_except` for no thread. -/
def butexWakeAll : State := { s with ops := s.ops.map Op.wake }

def callOnError (t : ℕ) (e : PendingError) : State :=
  { s with delivered := s.delivered ++ [⟨t, e, s.holders⟩] }

/-- The call `op`, taken out of `ops`, goes on. -/
def goOn (op : Op) (j : ℕ) : State :=
  match op with
  | .waiting t ver range expected => s.butexWait t ver range expected
  -- `butex_wait` is interrupted.
  | .blocked t ver range => s.push (.retry t ver range false)
  | .retry t ver range _ => (s.lockSection t ver range true).1
  | .onError t e => s.callOnError t e
  | .wakeOne t => s.butexWake t j
  | .wakeAll _ => s.butexWakeAll
  | .destroyed t => s.butexWakeAll.push (.returning t)
  -- `return_resource`
  | .returning _ => { s with inUse := false }

/-- The thread has no call in progress. -/
def idle (t : ℕ) : Bool := s.ops.all fun op => op.thread != t

/-- Threads unlock only what they hold. -/
def allowed (t : ℕ) : Call → Bool
  | .unlock ver | .unlockAndDestroy ver => !s.hasVersion ver || s.holders.contains t
  | _ => true

/-- The inputs: an id is created, a thread calls a function, or a call goes on. -/
inductive Input
  | create (range : ℤ)
  | call (t : ℕ) (c : Call)
  | goOn (k j : ℕ)

def step : Input → State
  | .create range => if s.inUse then s else (s.create range).1
  | .call t c => if s.idle t && s.allowed t c then s.record c (s.call t c) else s
  | .goOn k j =>
    match s.ops[k]? with
    | none => s
    | some op => (s.remove k).goOn op j

/-- A slot that has not been used. -/
def init : State where
  firstVer := 0
  lockedVer := 0
  butex := 0
  pendingQ := ⟨0, 0, fun _ => ⟨0, 0, ""⟩, [], by decide, by decide⟩
  inUse := false
  ops := []
  holders := []
  issued := []
  delivered := []
  past := []
  retired := []

end State

/-! ## The lock word and the errors of a bthread_id -/

open List

/-- A call that goes on to wait, to retry or to wake. -/
def Op.isQuiet (op : Op) : Bool := op.hand.isNone && !op.isFinishing

theorem Op.isQuiet_iff {op : Op} : op.isQuiet = true ↔ op.hand = none ∧ op.isFinishing = false := by
  simp [isQuiet]

namespace State

open Lib

variable {s : State}

/-- The errors threads are about to pass to `on_error`. -/
def hands (s : State) : List (ℕ × PendingError) := s.ops.filterMap Op.hand

/-- The word of a slot without an id, with an unlocked one and with a locked one. -/
inductive Word (firstVer lockedVer butex : ℕ) (holders : List ℕ) : Prop
  | dead (hver : firstVer = lockedVer) (hbutex : butex = firstVer) (hholders : holders = [])
  | unlocked (hver : firstVer < lockedVer) (hbutex : butex = firstVer) (hholders : holders = [])
  | locked (hver : firstVer < lockedVer)
      (hbutex : butex = lockedVer ∨ butex = lockedVer + 1 ∨ butex = lockedVer + 2)
      (t : ℕ) (hholders : holders = [t])

/-- The errors of the id: those passed to `on_error`, the one that is about to be, and those in
the queue. -/
structure Errors (holders : List ℕ) (hands : List (ℕ × PendingError))
    (queue issued : List PendingError) (delivered : List Delivery) : Prop where
  inHand : hands = [] ∨ ∃ t e, hands = [(t, e)] ∧ holders = [t]
  unheld : holders = [] → queue = []
  account : delivered.map Delivery.error ++ (hands.map Prod.snd ++ queue) = issued
  held : ∀ d ∈ delivered, d.holders = [d.thread]

/-- Errors are passed to `on_error` in the order of issue by the only holder. -/
structure Delivered (issued : List PendingError) (delivered : List Delivery) : Prop where
  inOrder : delivered.map Delivery.error <+: issued
  held : ∀ d ∈ delivered, d.holders = [d.thread]

/-- A slot with an id is in use, and one without is if one thread is about to return it. -/
structure Slot (firstVer lockedVer : ℕ) (inUse : Bool) (finishing : ℕ) : Prop where
  live : firstVer < lockedVer → inUse = true
  count : finishing = if inUse ∧ firstVer = lockedVer then 1 else 0

/-- The invariant. -/
structure Inv (s : State) : Prop where
  threads : (s.ops.map Op.thread).Nodup
  word : Word s.firstVer s.lockedVer s.butex s.holders
  errors : Errors s.holders s.hands s.pendingQ.toList s.issued s.delivered
  slot : Slot s.firstVer s.lockedVer s.inUse (s.ops.countP Op.isFinishing)
  past : ∀ l ∈ s.past, Delivered l.issued l.delivered
  retired : ∀ ver ∈ s.retired, ver < s.firstVer

theorem inv_init : Inv init where
  threads := nodup_nil
  word := .dead rfl rfl rfl
  errors := ⟨Or.inl rfl, fun _ => rfl, rfl, fun _ hd => nomatch hd⟩
  slot := ⟨fun h => absurd h (by decide), rfl⟩
  past _ hl := nomatch hl
  retired _ hver := nomatch hver

/-! ## Calls in progress -/

theorem idle_iff {t : ℕ} : s.idle t = true ↔ ∀ op ∈ s.ops, op.thread ≠ t := by
  simp [idle, all_eq_true]

theorem mem_hands_thread {t : ℕ} {e : PendingError} (h : (t, e) ∈ s.hands) : Op.onError t e ∈ s.ops := by
  obtain ⟨op, hop, hhand⟩ := mem_filterMap.1 h
  cases op with
  | onError =>
    cases hhand
    exact hop
  | _ => cases hhand

section

variable (h : Inv s)
include h

theorem Inv.hands_of_idle {t : ℕ} (hidle : s.idle t = true) (hholders : s.holders = [t]) : s.hands = [] := by
  rcases h.errors.inHand with hnil | ⟨t', e, hhands, ht'⟩
  · exact hnil
  · have hmem : (t', e) ∈ s.hands := by
      rw [hhands]
      exact mem_singleton_self _
    rw [hholders] at ht'
    cases ht'
    exact absurd rfl (idle_iff.1 hidle _ (mem_hands_thread hmem))

/-- What is said about the calls in progress depends on their threads, the errors in hand
and the slots to return. -/
theorem Inv.of_ops {ops : List Op} (hthreads : (ops.map Op.thread).Nodup) (hhands : ops.filterMap Op.hand = s.hands)
    (hfin : ops.countP Op.isFinishing = s.ops.countP Op.isFinishing) : Inv { s with ops := ops } := by
  refine ⟨hthreads, h.word, ?_, ?_, h.past, h.retired⟩
  · show Errors _ (ops.filterMap Op.hand) _ _ _
    rw [hhands]
    exact h.errors
  · rw [hfin]
    exact h.slot

variable {op : Op}

omit h in
theorem threads_push (h : (s.ops.map Op.thread).Nodup)
    (hidle : s.idle op.thread = true) : ((s.push op).ops.map Op.thread).Nodup := by
  refine nodup_cons.2 ⟨fun hmem => ?_, h⟩
  obtain ⟨op', hop', heq⟩ := mem_map.1 hmem
  exact idle_iff.1 hidle op' hop' heq

theorem Inv.push_quiet (hquiet : op.isQuiet = true) (hidle : s.idle op.thread = true) : Inv (s.push op) := by
  obtain ⟨hhand, hfin⟩ := Op.isQuiet_iff.1 hquiet
  refine h.of_ops (threads_push h.threads hidle) ?_ ?_
  · exact filterMap_cons_none hhand
  · rw [countP_cons_of_neg (by rw [hfin]; decide)]

variable {k : ℕ}

theorem Inv.idle_removed (hk : s.ops[k]? = some op) : (s.remove k).idle op.thread = true := by
  obtain ⟨pre, post, hops, hnew⟩ := exists_replaceAt hk
  have hthreads := h.threads
  rw [hops, map_append, map_cons, nodup_middle, nodup_cons] at hthreads
  rw [idle_iff]
  intro op' hop' heq
  change op' ∈ replaceAt s.ops k [] at hop'
  rw [hnew, nil_append] at hop'
  refine hthreads.1 ?_
  rw [← map_append, ← heq]
  exact mem_map_of_mem hop'

theorem Inv.threads_removed (hk : s.ops[k]? = some op) :
    ((replaceAt s.ops k []).map Op.thread).Nodup := by
  obtain ⟨pre, post, hops, hnew⟩ := exists_replaceAt hk
  have hthreads := h.threads
  rw [hops, map_append, map_cons, nodup_middle, nodup_cons] at hthreads
  rw [hnew, nil_append, map_append]
  exact hthreads.2

theorem Inv.remove_quiet (hk : s.ops[k]? = some op)
    (hquiet : op.isQuiet = true) : Inv (s.remove k) := by
  obtain ⟨hhand, hfin⟩ := Op.isQuiet_iff.1 hquiet
  obtain ⟨pre, post, hops, hnew⟩ := exists_replaceAt hk
  refine h.of_ops (h.threads_removed hk) ?_ ?_
  · rw [State.hands, hnew, hops, nil_append, filterMap_append, filterMap_append, filterMap_cons_none hhand]
  · have hcount := @countP_replaceAt _ s.ops [] k op hk Op.isFinishing
    rw [hfin] at hcount
    simpa using hcount

theorem Inv.wakeAll : Inv s.butexWakeAll := by
  refine h.of_ops ?_ ?_ ?_
  · have hthread : Op.thread ∘ Op.wake = Op.thread := by
      funext op
      cases op <;> rfl
    rw [map_map, hthread]
    exact h.threads
  · have hhand : Op.hand ∘ Op.wake = Op.hand := by
      funext op
      cases op <;> rfl
    rw [filterMap_map, hhand]
    rfl
  · have hfin : Op.isFinishing ∘ Op.wake = Op.isFinishing := by
      funext op
      cases op <;> rfl
    rw [countP_map, hfin]

end

end State
end Brpc.BthreadId
